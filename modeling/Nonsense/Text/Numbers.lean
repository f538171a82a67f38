import Nonsense.Text.Serializer
import Mathlib.Algebra.Field.Rat
import Mathlib.Data.List.TakeDrop
import Mathlib.Data.Nat.Digits.Lemmas
import Mathlib.Tactic.FieldSimp
import Mathlib.Tactic.NormNum.Basic
import Mathlib.Tactic.Ring

/-!
# Numbers, written and read

An integer is written with its decimal digits, which fill as much of the buffer as
`count_digits` says (`length_dumpInteger`), and `scan_number` reads it back.  `format_buffer`
writes a number with a point or an exponent, which stands for the digits and the exponent
it was given (`decimalValue_formatBuffer`), and `scan_number` reads all of it as a float.
-/

namespace Nonsense

open Lexer (isDigit isExponent digitsValue NumberPc NumberType)

/-! ### Digits -/

/-- The digits of a number. -/
def decimal (n : ℕ) : Bytes := (Nat.digits 10 n).reverse.map (0x30 + ·)

/-- The bytes are digits. -/
def Digits (l : Bytes) : Prop := ∀ b ∈ l, isDigit b = true

instance : DecidablePred Digits :=
  fun l => inferInstanceAs (Decidable (∀ b ∈ l, isDigit b = true))

variable {n b : ℕ} {l l' rest buffer : Bytes}

theorem isDigit_iff : isDigit b = true ↔ 0x30 ≤ b ∧ b ≤ 0x39 := decide_eq_true_iff

theorem Digits.head (h : Digits (b :: l)) : 0x30 ≤ b ∧ b ≤ 0x39 :=
  isDigit_iff.mp (h b (List.mem_cons_self ..))

theorem Digits.tail (h : Digits (b :: l)) : Digits l := fun c hc => h c (List.mem_cons_of_mem _ hc)

theorem digits_cons (h : 0x30 ≤ b ∧ b ≤ 0x39) (hl : Digits l) : Digits (b :: l) := by
  intro c hc
  obtain rfl | hc := List.mem_cons.mp hc
  · exact isDigit_iff.mpr h
  · exact hl c hc

theorem Digits.append (h : Digits l) (h' : Digits l') : Digits (l ++ l') := by
  intro c hc
  obtain hc | hc := List.mem_append.mp hc
  · exact h c hc
  · exact h' c hc

theorem digits_nil : Digits [] := fun _ h => absurd h (List.not_mem_nil)

theorem digits_zeros (k : ℕ) : Digits (List.replicate k 0x30) := by
  intro c hc
  rw [List.eq_of_mem_replicate hc]
  rfl

theorem digitsValue_concat : digitsValue (l ++ [b]) = 10 * digitsValue l + (b - 0x30) := by
  rw [digitsValue, List.foldl_append]
  rfl

theorem digitsValue_append_zeros (k : ℕ) :
    digitsValue (l ++ List.replicate k 0x30) = digitsValue l * 10 ^ k := by
  induction k with
  | zero => rw [List.replicate_zero, List.append_nil, Nat.pow_zero, Nat.mul_one]
  | succ k ih =>
    rw [List.replicate_succ', ← List.append_assoc, digitsValue_concat, ih, Nat.pow_succ,
      Nat.sub_self, Nat.add_zero, Nat.mul_comm 10, Nat.mul_assoc]

theorem digitsValue_zeros_append (k : ℕ) :
    digitsValue (List.replicate k 0x30 ++ l) = digitsValue l := by
  induction k with
  | zero => rfl
  | succ k ih =>
    rw [← ih]
    rfl

/-- **The digits of a number stand for it.** -/
theorem digitsValue_decimal (n : ℕ) : digitsValue (decimal n) = n := by
  have hdigits : ∀ l : List ℕ, digitsValue (l.reverse.map (0x30 + ·)) = Nat.ofDigits 10 l := by
    intro l
    induction l with
    | nil => rfl
    | cons d l ih =>
      rw [List.reverse_cons, List.map_append, List.map_singleton, digitsValue_concat, ih,
        Nat.ofDigits_cons]
      omega
  rw [decimal, hdigits, Nat.ofDigits_digits]

theorem digits_decimal (n : ℕ) : Digits (decimal n) := by
  intro b hb
  obtain ⟨d, hd, rfl⟩ := List.mem_map.mp hb
  have hlt : d < 10 := Nat.digits_lt_base (by decide) (List.mem_reverse.mp hd)
  exact isDigit_iff.mpr ⟨by omega, by omega⟩

/-- The first digit is not zero. -/
theorem decimal_eq_cons (hn : n ≠ 0) : ∃ b l, decimal n = b :: l ∧ b ≠ 0x30 := by
  have hne := Nat.digits_ne_nil_iff_ne_zero (b := 10).mpr hn
  have hlast := Nat.getLast_digit_ne_zero 10 hn
  refine ⟨0x30 + (Nat.digits 10 n).getLast hne,
    (Nat.digits 10 n).dropLast.reverse.map (0x30 + ·), ?_, by omega⟩
  rw [decimal]
  conv_lhs => rw [← List.dropLast_append_getLast hne, List.reverse_append]
  rfl

theorem decimal_of_ge_ten (h : 10 ≤ n) : decimal n = decimal (n / 10) ++ [0x30 + n % 10] := by
  rw [decimal, Nat.digits_eq_cons_digits_div (by decide) (by omega), List.reverse_cons,
    List.map_append]
  rfl

theorem decimal_of_lt_ten (hn : n ≠ 0) (h : n < 10) : decimal n = [0x30 + n] := by
  rw [decimal, Nat.digits_of_lt 10 n hn h]
  rfl

theorem length_decimal_of_ge_ten (h : 10 ≤ n) :
    (decimal n).length = (decimal (n / 10)).length + 1 := by
  rw [decimal_of_ge_ten h, List.length_append]
  rfl

/-! ### Writing integers -/

namespace Serializer

theorem dumpDigits_eq (hn : n ≠ 0) : dumpDigits n buffer = decimal n ++ buffer := by
  induction n using Nat.strong_induction_on generalizing buffer with
  | _ n ih =>
    rw [dumpDigits]
    split_ifs with h1 h2
    · have hdigits : digitsTo99 (n % 100) = [0x30 + n / 10 % 10, 0x30 + n % 10] := by
        rw [digitsTo99, show n % 100 / 10 = n / 10 % 10 by omega,
          show n % 100 % 10 = n % 10 by omega]
      rw [ih (n / 100) (by omega) (by omega), decimal_of_ge_ten (n := n) (by omega),
        decimal_of_ge_ten (n := n / 10) (by omega), Nat.div_div_eq_div_mul, hdigits,
        List.append_assoc, List.append_assoc]
      rfl
    · rw [decimal_of_ge_ten h2, decimal_of_lt_ten (by omega) (by omega)]
      rfl
    · rw [decimal_of_lt_ten hn (by omega)]
      rfl

theorem countDigits_eq (hn : n ≠ 0) (k : ℕ) : countDigits n (k + 1) = k + (decimal n).length := by
  induction n using Nat.strong_induction_on generalizing k with
  | _ n ih =>
    rw [countDigits]
    split_ifs with h1 h2 h3 h4
    · rw [decimal_of_lt_ten hn h1]
      rfl
    · rw [length_decimal_of_ge_ten (by omega), decimal_of_lt_ten (by omega) (by omega)]
      rfl
    · rw [length_decimal_of_ge_ten (by omega), length_decimal_of_ge_ten (by omega),
        decimal_of_lt_ten (by omega) (by omega)]
      rfl
    · rw [length_decimal_of_ge_ten (by omega), length_decimal_of_ge_ten (by omega),
        length_decimal_of_ge_ten (by omega), decimal_of_lt_ten (by omega) (by omega)]
      rfl
    · have hlength : (decimal n).length = (decimal (n / 10000)).length + 4 := by
        rw [length_decimal_of_ge_ten (by omega), length_decimal_of_ge_ten (by omega),
          length_decimal_of_ge_ten (by omega), length_decimal_of_ge_ten (by omega)]
        simp only [Nat.div_div_eq_div_mul]
      rw [show k + 1 + 4 = (k + 4) + 1 by omega, ih (n / 10000) (by omega) (by omega), hlength]
      omega

theorem dumpInteger_of_neg {n : ℤ} (h : n < 0) : dumpInteger n = 0x2D :: decimal n.natAbs := by
  rw [dumpInteger, if_neg (by omega), if_pos h, dumpDigits_eq (by omega), List.append_nil]

theorem dumpInteger_of_pos {n : ℤ} (h : 0 < n) : dumpInteger n = decimal n.natAbs := by
  rw [dumpInteger, if_neg (by omega), if_neg (by omega), dumpDigits_eq (by omega), List.append_nil]

/-- **The digits fill what `count_digits` counts.** -/
theorem length_dumpInteger (n : ℤ) : (dumpInteger n).length = numChars n := by
  have hcount : n ≠ 0 → countDigits n.natAbs 1 = 0 + (decimal n.natAbs).length :=
    fun hn => countDigits_eq (by omega) 0
  rw [numChars]
  obtain hneg | rfl | hpos := Int.lt_trichotomy n 0
  · rw [if_pos hneg, dumpInteger_of_neg hneg, hcount (by omega), List.length_cons]
    omega
  · rw [if_neg (by omega), countDigits]
    rfl
  · rw [if_neg (by omega), dumpInteger_of_pos hpos, hcount (by omega)]
    omega

end Serializer

/-! ### Reading -/

/-- Three halves and zero are the only numbers, with either sign. -/
def threeHalves : Floats where
  round x := if x = 3 / 2 ∨ x = 0 then some x else none
  grisu2 _ := ([0x31, 0x35], -1)

namespace Lexer

variable {F : Floats} {pc pc' : NumberPc} {type : NumberType}

/-- No byte that could belong to a number comes first. -/
def EndsNumber (rest : Bytes) : Prop :=
  ∀ b ∈ rest.head?, isDigit b = false ∧ b ≠ 0x2E ∧ isExponent b = false

/-- The number may be over. -/
def NumberPc.Complete (pc : NumberPc) : Prop :=
  pc = .zero ∨ pc = .any1 ∨ pc = .decimal2 ∨ pc = .any2

theorem scanNumber_goto (h : pc.next (some b) = .goto pc') :
    scanNumber F pc type buffer (b :: rest) =
      scanNumber F pc' (pc'.type type) (buffer ++ [b]) rest := by
  rw [scanNumber, h]

theorem scanNumber_done (h : pc.next rest.head? = .done) :
    scanNumber F pc type buffer rest = (numberToken F buffer type, rest) := by
  cases rest with
  | nil =>
    have hnext : pc.next none = .done := h
    simp only [scanNumber, hnext]
  | cons b rest =>
    have hnext : pc.next (some b) = .done := h
    simp only [scanNumber, hnext]

/-- What is behind a number ends it. -/
theorem scanNumber_ends (hpc : pc.Complete) (h : EndsNumber rest) :
    scanNumber F pc type buffer rest = (numberToken F buffer type, rest) := by
  apply scanNumber_done
  cases rest with
  | nil => obtain rfl | rfl | rfl | rfl := hpc <;> rfl
  | cons b rest =>
    obtain ⟨hdigit, hpoint, hexponent⟩ := h b rfl
    obtain rfl | rfl | rfl | rfl := hpc
    all_goals
      simp [NumberPc.next, hdigit, hpoint, hexponent]

/-- The places that read digits. -/
theorem scanNumber_digits (hpc : pc = .any1 ∨ pc = .decimal2 ∨ pc = .any2) (type : NumberType)
    (buffer rest : Bytes) (h : Digits l) :
    scanNumber F pc type buffer (l ++ rest) = scanNumber F pc type (buffer ++ l) rest := by
  induction l generalizing buffer with
  | nil => rw [List.nil_append, List.append_nil]
  | cons b l ih =>
    have hb : isDigit b = true := h b (List.mem_cons_self ..)
    have hnext : pc.next (some b) = .goto pc := by
      obtain rfl | rfl | rfl := hpc
      all_goals
        exact if_pos hb
    have htype : pc.type type = type := by
      obtain rfl | rfl | rfl := hpc <;> rfl
    rw [List.cons_append, scanNumber_goto hnext, htype, ih _ h.tail, List.append_assoc]
    rfl

/-- Where the first digit leads. -/
def NumberPc.start (b : ℕ) : NumberPc := if b = 0x30 then .zero else .any1

theorem complete_start : (NumberPc.start b).Complete := by
  rw [NumberPc.start]
  split_ifs
  · exact Or.inl rfl
  · exact Or.inr (Or.inl rfl)

theorem scanNumber_minus (h : isDigit b = true) : scanNumber F .minus type buffer (b :: rest) =
    scanNumber F (.start b) type (buffer ++ [b]) rest := by
  rw [NumberPc.start]
  split_ifs with h0
  · subst h0
    exact scanNumber_goto rfl
  · have hnext : NumberPc.minus.next (some b) = .goto .any1 := by
      rw [NumberPc.next, if_neg (by rwa [Option.some.injEq])]
      exact if_pos h
    exact scanNumber_goto hnext

theorem scan_digit (h : isDigit b = true) :
    scan F (b :: rest) = scanNumber F (.start b) .unsigned [b] rest := by
  obtain ⟨hlow, hhigh⟩ := isDigit_iff.mp h
  have hspace : isSpace b = false := decide_eq_false (by omega)
  rw [scan, hspace, if_neg Bool.false_ne_true, scanFrom, NumberPc.start]
  rw [if_neg (by omega), if_neg (by omega), if_neg (by omega), if_neg (by omega), if_neg (by omega),
    if_neg (by omega), if_neg (by omega), if_neg (by omega), if_neg (by omega), if_neg (by omega),
    if_neg (by omega)]
  by_cases h0 : b = 0x30
  · rw [if_pos h0, if_pos h0]
  · rw [if_neg h0, if_neg h0, if_pos h]

theorem scan_minus (h : isDigit b = true) : scan F (0x2D :: b :: rest) =
    scanNumber F (.start b) .integer [0x2D, b] rest := scanNumber_minus h

/-! ### Integers -/

/-- The token of an integer. -/
def integerToken (n : ℤ) : Token := if n < 0 then .valueInteger n else .valueUnsigned n.natAbs

/-- The digits of an integer, from the second one on. -/
theorem scanNumber_decimal (type : NumberType) (buffer : Bytes) (hl : Digits (b :: l))
    (hb : b = 0x30 → l = []) (hrest : EndsNumber rest) :
    scanNumber F (.start b) type (buffer ++ [b]) (l ++ rest) =
      (numberToken F (buffer ++ b :: l) type, rest) := by
  by_cases h0 : b = 0x30
  · rw [hb h0]
    exact scanNumber_ends complete_start hrest
  · rw [NumberPc.start, if_neg h0, scanNumber_digits (Or.inl rfl) _ _ _ hl.tail,
      scanNumber_ends (Or.inr (Or.inl rfl)) hrest, List.append_assoc]
    rfl

/-- **What is written for an integer is read as it.** -/
theorem scan_dumpInteger {n : ℤ} (hlow : -2 ^ 63 ≤ n) (hhigh : n < 2 ^ 64) (hrest : EndsNumber rest) :
    scan F (Serializer.dumpInteger n ++ rest) = (integerToken n, rest) := by
  obtain hneg | rfl | hpos := Int.lt_trichotomy n 0
  · have hvalue := digitsValue_decimal n.natAbs
    have hdigits := digits_decimal n.natAbs
    obtain ⟨b, l, hl, hb⟩ := decimal_eq_cons (n := n.natAbs) (by omega)
    rw [hl] at hvalue hdigits
    have hscan := scanNumber_decimal (F := F) .integer [0x2D] hdigits (fun h => absurd h hb) hrest
    rw [Serializer.dumpInteger_of_neg hneg, hl, List.cons_append, List.cons_append,
      scan_minus (hdigits b (List.mem_cons_self ..)), integerToken, if_pos hneg]
    refine hscan.trans ?_
    have htoken : numberToken F (0x2D :: b :: l) .integer = .valueInteger n := by
      rw [numberToken, List.tail_cons, hvalue, if_pos (by omega)]
      exact congrArg _ (by omega)
    exact congrArg (·, rest) htoken
  · exact scanNumber_decimal (F := F) (b := 0x30) (l := []) .unsigned [] (by decide) (fun _ => rfl)
      hrest
  · have hvalue := digitsValue_decimal n.natAbs
    have hdigits := digits_decimal n.natAbs
    obtain ⟨b, l, hl, hb⟩ := decimal_eq_cons (n := n.natAbs) (by omega)
    rw [hl] at hvalue hdigits
    have hscan := scanNumber_decimal (F := F) .unsigned [] hdigits (fun h => absurd h hb) hrest
    rw [Serializer.dumpInteger_of_pos hpos, hl, List.cons_append,
      scan_digit (hdigits b (List.mem_cons_self ..)), integerToken, if_neg (by omega)]
    refine hscan.trans ?_
    have htoken : numberToken F (b :: l) .unsigned = .valueUnsigned n.natAbs := by
      rw [numberToken, hvalue, if_pos (by omega)]
    exact congrArg (·, rest) htoken

theorem numChars_lt {n : ℤ} (hlow : -2 ^ 63 ≤ n) (hhigh : n < 2 ^ 64) :
    Serializer.numChars n < 63 := by
  have hcount : Serializer.countDigits n.natAbs 1 ≤ 20 := by
    by_cases hn : n = 0
    · subst hn
      decide +kernel
    · have hlength : (Nat.digits 10 n.natAbs).length ≤ 20 :=
        (Nat.digits_length_le_iff (by decide) _).mpr (by omega)
      rw [Serializer.countDigits_eq (by omega) 0, decimal, List.length_map, List.length_reverse]
      omega
  rw [Serializer.numChars]
  split_ifs <;> omega

/-- **What `dump_integer` writes** fills the part of its buffer that is written, which is less
than the buffer holds, and is read as the same integer. -/
theorem dumpInteger_spec {n : ℤ} (hlow : -2 ^ 63 ≤ n) (hhigh : n < 2 ^ 64) :
    (Serializer.dumpInteger n).length = Serializer.numChars n ∧ Serializer.numChars n < 63 ∧
      ∀ rest, EndsNumber rest → scan F (Serializer.dumpInteger n ++ rest) = (integerToken n, rest) :=
  ⟨Serializer.length_dumpInteger n, numChars_lt hlow hhigh,
    fun _ hrest => scan_dumpInteger hlow hhigh hrest⟩

theorem dumpInteger_spec_least :
    scan threeHalves (Utf8.bytes "-9223372036854775808]") = (.valueInteger (-2 ^ 63), [0x5D]) := by
  have htext : Utf8.bytes "-9223372036854775808]" = Serializer.dumpInteger (-2 ^ 63) ++ [0x5D] := by
    decide +kernel
  rw [htext]
  exact (dumpInteger_spec (F := threeHalves) (by decide) (by decide)).2.2 [0x5D] (by
    intro b hb
    cases hb
    decide)

end Lexer

/-! ### Numbers with a point or an exponent -/

namespace Serializer

open Lexer (decimalValue exponentValue)

variable {e : ℤ}

/-- The digits behind a point, if there are any. -/
def pointed : Bytes → Bytes
  | [] => []
  | d :: l => 0x2E :: d :: l

/-- Zeros behind the digits, and the point they move. -/
theorem shift_eq (d m : ℕ) {x y : ℤ} (h : m + x = y) :
    ((d * 10 ^ m : ℕ) : ℚ≥0) * 10 ^ x = d * 10 ^ y := by
  rw [← h, zpow_add₀ (by norm_num), zpow_natCast, ← mul_assoc]
  push_cast
  rfl

/-- **What `format_buffer` writes**: the digits with a point among them, or one behind the first
and an exponent. -/
theorem formatBuffer_cases (hl : Digits (b :: l)) (hb : b ≠ 0x30) :
    (∃ c whole d fraction, formatBuffer (b :: l) e = c :: whole ++ 0x2E :: d :: fraction ∧
      Digits (c :: whole) ∧ (c = 0x30 → whole = []) ∧ Digits (d :: fraction) ∧
      (digitsValue (c :: whole ++ d :: fraction) : ℚ≥0) * 10 ^ (-(fraction.length + 1) : ℤ) =
        digitsValue (b :: l) * 10 ^ e) ∨
    formatBuffer (b :: l) e = b :: pointed l ++ 0x65 :: appendExponent (l.length + e) := by
  have hlength : ((b :: l).length : ℤ) = l.length + 1 := by simp
  rw [formatBuffer]
  simp only [hlength]
  split_ifs with h1 h2 h3 h4
  · refine Or.inl ⟨b, l ++ List.replicate ((l.length : ℤ) + 1 + e - (l.length + 1)).toNat 0x30, 0x30,
      [], by simp, digits_cons hl.head (hl.tail.append (digits_zeros _)), fun h => absurd h hb,
      digits_cons (by decide) digits_nil, ?_⟩
    have hzeros : b :: (l ++ List.replicate ((l.length : ℤ) + 1 + e - (l.length + 1)).toNat 0x30) ++
        [0x30] = (b :: l) ++
          List.replicate (((l.length : ℤ) + 1 + e - (l.length + 1)).toNat + 1) 0x30 := by
      rw [List.replicate_succ', List.cons_append, List.cons_append, List.append_assoc]
    rw [hzeros, digitsValue_append_zeros]
    exact shift_eq _ _ (by simp only [List.length_nil]; omega)
  · obtain ⟨m, hm⟩ : ∃ m : ℕ, (l.length : ℤ) + 1 + e = m + 1 := ⟨((l.length : ℤ) + e).toNat, by omega⟩
    have hnat : ((l.length : ℤ) + 1 + e).toNat = m + 1 := by omega
    have hlt : m < l.length := by omega
    rw [hnat, List.take_succ_cons, List.drop_succ_cons]
    refine Or.inl ⟨b, l.take m, l[m], l.drop (m + 1), ?_, ?_, fun h => absurd h hb, ?_, ?_⟩
    · rw [List.drop_eq_getElem_cons hlt]
    · exact digits_cons hl.head fun c hc => hl.tail c (List.mem_of_mem_take hc)
    · rw [← List.drop_eq_getElem_cons hlt]
      exact fun c hc => hl.tail c (List.mem_of_mem_drop hc)
    · rw [← List.drop_eq_getElem_cons hlt, List.cons_append, List.take_append_drop]
      congr 2
      rw [List.length_drop]
      omega
  · refine Or.inl ?_
    obtain ⟨m, hm⟩ : ∃ m : ℕ, (l.length : ℤ) + 1 + e = -m :=
      ⟨(-((l.length : ℤ) + 1 + e)).toNat, by omega⟩
    have hnat : (-((l.length : ℤ) + 1 + e)).toNat = m := by omega
    have hdigits : Digits (List.replicate m 0x30 ++ b :: l) := (digits_zeros m).append hl
    have hvalue : digitsValue (0x30 :: (List.replicate m 0x30 ++ b :: l)) = digitsValue (b :: l) :=
      digitsValue_zeros_append (m + 1)
    have hlen : (List.replicate m 0x30 ++ b :: l).length = m + (l.length + 1) := by simp
    rw [hnat, List.cons_append, List.cons_append]
    generalize List.replicate m 0x30 ++ b :: l = x at *
    obtain ⟨d, fraction, rfl⟩ : ∃ d fraction, x = d :: fraction :=
      List.exists_cons_of_length_pos (by omega)
    rw [List.length_cons] at hlen
    refine ⟨0x30, [], d, fraction, rfl, digits_cons (by decide) digits_nil, fun _ => rfl, hdigits, ?_⟩
    rw [List.singleton_append, hvalue]
    congr 2
    omega
  · have hnil : l = [] := List.length_eq_zero_iff.mp (by omega)
    subst hnil
    refine Or.inr ?_
    simp [pointed]
  · refine Or.inr ?_
    obtain ⟨d, l, rfl⟩ := List.exists_cons_of_length_pos (l := l) (by omega)
    rw [show ((d :: l).length : ℤ) + 1 + e - 1 = (d :: l).length + e by omega]
    rfl

theorem appendExponent_cons (hlow : -1000 < e) (hhigh : e < 1000) :
    ∃ sign d l, appendExponent e = sign :: d :: l ∧ (sign = 0x2B ∨ sign = 0x2D) ∧
      Digits (d :: l) ∧ exponentValue (0x65 :: appendExponent e) = e := by
  have hdigits : ∀ k : ℕ, k < 1000 → ∃ d l, (if k < 10 then [0x30, 0x30 + k]
      else if k < 100 then [0x30 + k / 10, 0x30 + k % 10]
      else [0x30 + k / 100, 0x30 + k % 100 / 10, 0x30 + k % 100 % 10]) = d :: l ∧
        Digits (d :: l) ∧ digitsValue (d :: l) = k := by
    intro k hk
    split_ifs with h1 h2
    · refine ⟨_, _, rfl, digits_cons (by omega) (digits_cons (by omega) digits_nil), ?_⟩
      simp only [digitsValue, List.foldl_cons, List.foldl_nil]
      omega
    · refine ⟨_, _, rfl, digits_cons (by omega) (digits_cons (by omega) digits_nil), ?_⟩
      simp only [digitsValue, List.foldl_cons, List.foldl_nil]
      omega
    · refine ⟨_, _, rfl,
        digits_cons (by omega) (digits_cons (by omega) (digits_cons (by omega) digits_nil)), ?_⟩
      simp only [digitsValue, List.foldl_cons, List.foldl_nil]
      omega
  obtain ⟨d, l, hl, hdl, hvalue⟩ := hdigits e.natAbs (by omega)
  rw [appendExponent, hl]
  by_cases hneg : e < 0
  · refine ⟨_, d, l, rfl, Or.inr (if_pos hneg), hdl, ?_⟩
    rw [if_pos hneg, exponentValue, hvalue]
    omega
  · refine ⟨_, d, l, rfl, Or.inl (if_neg hneg), hdl, ?_⟩
    rw [if_neg hneg, exponentValue, hvalue]
    omega

theorem span_digits (hl : Digits l) (hrest : ∀ b ∈ rest.head?, isDigit b = false) :
    (l ++ rest).span isDigit = (l, rest) := by
  rw [List.span_eq_takeWhile_dropWhile, List.takeWhile_append_of_pos hl,
    List.dropWhile_append_of_pos hl]
  cases rest with
  | nil => rw [List.takeWhile_nil, List.dropWhile_nil, List.append_nil]
  | cons b rest =>
    have hb : ¬ isDigit b = true := by rw [hrest b rfl]; exact Bool.false_ne_true
    rw [List.takeWhile_cons_of_neg hb, List.dropWhile_cons_of_neg hb, List.append_nil]

theorem decimalValue_point (hl : Digits l) (hl' : Digits l') (rest : Bytes)
    (hrest : ∀ b ∈ rest.head?, isDigit b = false) : decimalValue (l ++ 0x2E :: (l' ++ rest)) =
      digitsValue (l ++ l') * 10 ^ (exponentValue rest - l'.length) := by
  have hspan : (l ++ 0x2E :: (l' ++ rest)).span isDigit = (l, 0x2E :: (l' ++ rest)) :=
    span_digits hl fun b hb => by cases hb; rfl
  rw [decimalValue, hspan]
  simp only [Lexer.fraction]
  rw [span_digits hl' hrest]

theorem decimalValue_exponent (hl : Digits l) (rest : Bytes) : decimalValue (l ++ 0x65 :: rest) =
    digitsValue l * 10 ^ (exponentValue (0x65 :: rest)) := by
  have hspan : (l ++ 0x65 :: rest).span isDigit = (l, 0x65 :: rest) :=
    span_digits hl fun b hb => by cases hb; rfl
  rw [decimalValue, hspan]
  simp [Lexer.fraction]

/-- **What `format_buffer` writes stands for the digits and the exponent.** -/
theorem decimalValue_formatBuffer (hl : Digits (b :: l)) (hb : b ≠ 0x30)
    (hlow : -1000 < l.length + e) (hhigh : l.length + e < 1000) :
    decimalValue (formatBuffer (b :: l) e) = digitsValue (b :: l) * 10 ^ e := by
  obtain ⟨c, whole, d, fraction, htext, hwhole, -, hfraction, hvalue⟩ | htext :=
    formatBuffer_cases (e := e) hl hb
  · have hpoint := decimalValue_point hwhole hfraction [] fun b hb => by cases hb
    rw [htext, ← hvalue]
    rw [List.append_nil] at hpoint
    rw [hpoint, exponentValue, List.length_cons]
    congr 2
  · obtain ⟨sign, d, exponent, htail, -, -, hexponent⟩ := appendExponent_cons hlow hhigh
    rw [htext]
    cases l with
    | nil =>
      have hvalue := decimalValue_exponent hl (appendExponent (([] : Bytes).length + e))
      rw [hexponent] at hvalue
      refine hvalue.trans ?_
      congr 2
      simp
    | cons c l =>
      have hvalue := decimalValue_point (digits_cons hl.head digits_nil) hl.tail
        (0x65 :: appendExponent ((c :: l).length + e)) fun b hb => by cases hb; rfl
      rw [hexponent] at hvalue
      refine hvalue.trans ?_
      rw [List.singleton_append]
      congr 2
      omega

end Serializer

namespace Lexer

open Serializer (formatBuffer appendExponent pointed)

variable {F : Floats} {pc : NumberPc} {type : NumberType} {e : ℤ}

theorem scanNumber_point (hpc : pc = .zero ∨ pc = .any1) (type : NumberType)
    (buffer rest : Bytes) (hl : Digits (b :: l)) :
    scanNumber F pc type buffer (0x2E :: (b :: l ++ rest)) =
      scanNumber F .decimal2 .float (buffer ++ 0x2E :: b :: l) rest := by
  have hpoint : pc.next (some 0x2E) = .goto .decimal1 := by
    obtain rfl | rfl := hpc <;> rfl
  have hdigit : NumberPc.decimal1.next (some b) = .goto .decimal2 :=
    if_pos (hl b (List.mem_cons_self ..))
  have hloop : NumberPc.decimal2 = .any1 ∨ NumberPc.decimal2 = .decimal2 ∨
      NumberPc.decimal2 = .any2 := Or.inr (Or.inl rfl)
  have hdigits := scanNumber_digits (F := F) hloop .float (buffer ++ [0x2E] ++ [b]) rest hl.tail
  rw [scanNumber_goto hpoint, List.cons_append, scanNumber_goto hdigit]
  refine hdigits.trans ?_
  simp only [List.append_assoc, List.cons_append, List.nil_append]

theorem scanNumber_exponent (hpc : pc = .zero ∨ pc = .any1 ∨ pc = .decimal2) (type : NumberType)
    (buffer rest : Bytes) (hlow : -1000 < e) (hhigh : e < 1000) :
    scanNumber F pc type buffer (0x65 :: (appendExponent e ++ rest)) =
      scanNumber F .any2 .float (buffer ++ 0x65 :: appendExponent e) rest := by
  obtain ⟨sign, d, l, htext, hsign, hl, -⟩ := Serializer.appendExponent_cons hlow hhigh
  have hexponent : pc.next (some 0x65) = .goto .exponent := by
    obtain rfl | rfl | rfl := hpc <;> rfl
  have hs : NumberPc.exponent.next (some sign) = .goto .sign := by
    obtain rfl | rfl := hsign <;> rfl
  have hd : NumberPc.sign.next (some d) = .goto .any2 := if_pos (hl d (List.mem_cons_self ..))
  have hloop : NumberPc.any2 = .any1 ∨ NumberPc.any2 = .decimal2 ∨ NumberPc.any2 = .any2 :=
    Or.inr (Or.inr rfl)
  have hdigits := scanNumber_digits (F := F) hloop .float (buffer ++ [0x65] ++ [sign] ++ [d]) rest
    hl.tail
  rw [htext, scanNumber_goto hexponent, List.cons_append, scanNumber_goto hs, List.cons_append,
    scanNumber_goto hd]
  refine hdigits.trans ?_
  simp only [List.append_assoc, List.cons_append, List.nil_append]

/-- What `format_buffer` writes is read, from the second byte on. -/
theorem scanNumber_formatBuffer (hl : Digits (b :: l)) (hb : b ≠ 0x30)
    (hlow : -1000 < l.length + e) (hhigh : l.length + e < 1000) (F : Floats)
    (hrest : EndsNumber rest) :
    ∃ c text, formatBuffer (b :: l) e = c :: text ∧ isDigit c = true ∧ ∀ type buffer,
      scanNumber F (.start c) type (buffer ++ [c]) (text ++ rest) =
        (numberToken F (buffer ++ formatBuffer (b :: l) e) .float, rest) := by
  obtain ⟨c, whole, d, fraction, htext, hwhole, hzero, hfraction, -⟩ | htext :=
    Serializer.formatBuffer_cases (e := e) hl hb
  · refine ⟨c, whole ++ 0x2E :: d :: fraction, htext, hwhole c (List.mem_cons_self ..), ?_⟩
    intro type buffer
    rw [htext, List.append_assoc]
    have hpoint : ∀ pc, pc = NumberPc.zero ∨ pc = NumberPc.any1 → ∀ buffer,
        scanNumber F pc type buffer (0x2E :: (d :: fraction ++ rest)) =
          (numberToken F (buffer ++ 0x2E :: d :: fraction) .float, rest) := fun pc hpc buffer => by
      rw [scanNumber_point hpc _ _ _ hfraction, scanNumber_ends (Or.inr (Or.inr (Or.inl rfl))) hrest]
    by_cases hc : c = 0x30
    · rw [hzero hc, NumberPc.start, if_pos hc]
      exact (hpoint _ (Or.inl rfl) _).trans (by rw [List.append_assoc])
    · rw [NumberPc.start, if_neg hc, scanNumber_digits (Or.inl rfl) _ _ _ hwhole.tail]
      refine (hpoint _ (Or.inr rfl) _).trans ?_
      simp only [List.append_assoc, List.cons_append, List.nil_append]
  · refine ⟨b, pointed l ++ 0x65 :: appendExponent (l.length + e), htext,
      hl b (List.mem_cons_self ..), ?_⟩
    intro type buffer
    rw [htext, NumberPc.start, if_neg hb]
    cases l with
    | nil =>
      rw [pointed, List.nil_append, List.cons_append,
        scanNumber_exponent (Or.inr (Or.inl rfl)) _ _ _ hlow hhigh,
        scanNumber_ends (Or.inr (Or.inr (Or.inr rfl))) hrest]
      simp only [List.append_assoc, List.cons_append, List.nil_append]
    | cons c l =>
      have hpc : NumberPc.any1 = .zero ∨ NumberPc.any1 = .any1 := Or.inr rfl
      have hpoint := scanNumber_point (F := F) hpc type (buffer ++ [b])
        (0x65 :: (appendExponent ((c :: l).length + e) ++ rest)) hl.tail
      rw [pointed, List.append_assoc]
      refine hpoint.trans ?_
      rw [scanNumber_exponent (Or.inr (Or.inr rfl)) _ _ _ hlow hhigh,
        scanNumber_ends (Or.inr (Or.inr (Or.inr rfl))) hrest]
      simp only [List.append_assoc, List.cons_append, List.nil_append]

theorem strtod_digit (h : isDigit b = true) :
    strtod F (b :: l) = (F.round (decimalValue (b :: l))).map (Double.mk false) := by
  have hne : b ≠ 0x2D := by
    rintro rfl
    cases h
  rw [strtod]
  rintro text htext
  exact hne (List.cons.inj htext).1

/-- **What `format_buffer` writes** stands for the digits and the exponent, and is read as the
number to which that is rounded. -/
theorem formatBuffer_spec (hl : Digits (b :: l)) (hb : b ≠ 0x30)
    (hlow : -1000 < l.length + e) (hhigh : l.length + e < 1000) :
    decimalValue (formatBuffer (b :: l) e) = digitsValue (b :: l) * 10 ^ e ∧
      ∀ rest, EndsNumber rest → scan F (formatBuffer (b :: l) e ++ rest) =
        (.valueFloat ((F.round (digitsValue (b :: l) * 10 ^ e)).map (Double.mk false)), rest) := by
  have hvalue := Serializer.decimalValue_formatBuffer hl hb hlow hhigh
  refine ⟨hvalue, fun rest hrest => ?_⟩
  obtain ⟨c, text, htext, hc, hscan⟩ := scanNumber_formatBuffer hl hb hlow hhigh F hrest
  rw [htext] at hscan hvalue ⊢
  rw [List.cons_append, scan_digit hc]
  refine (hscan .unsigned []).trans ?_
  rw [List.nil_append, numberToken, strtod_digit hc, hvalue]

theorem formatBuffer_spec_threeHalves :
    scan threeHalves (Utf8.bytes "1.5") = (.valueFloat (some ⟨false, 3 / 2⟩), []) := by
  have hround : threeHalves.round (digitsValue [0x31, 0x35] * 10 ^ (-1 : ℤ)) = some (3 / 2) := by
    decide +kernel
  have htext : Utf8.bytes "1.5" = formatBuffer [0x31, 0x35] (-1) ++ [] := by decide +kernel
  have hspec := (formatBuffer_spec (F := threeHalves) (b := 0x31) (l := [0x35]) (e := -1) (by decide)
    (by decide) (by decide) (by decide)).2 [] fun _ h => nomatch h
  rw [hround] at hspec
  rw [htext]
  exact hspec

end Lexer

/-! ### Floating-point numbers -/

/-- What `strtod` gives, behind a sign. -/
def Floats.IsValue (F : Floats) (q : ℚ≥0) : Prop := ∃ x, F.round x = some q

/-- What `strtod` and `grisu2` are relied on for. -/
structure Floats.Lawful (F : Floats) : Prop where
  zero : F.round 0 = some 0
  /-- `grisu2` gives digits, and an exponent that `append_exponent` can write. -/
  digits : ∀ q, F.IsValue q → q ≠ 0 → ∃ b l, (F.grisu2 q).1 = b :: l ∧ b ≠ 0x30 ∧
    Digits (b :: l) ∧ -1000 < l.length + (F.grisu2 q).2 ∧ l.length + (F.grisu2 q).2 < 1000
  /-- They are rounded to the number. -/
  exact : ∀ q, F.IsValue q → q ≠ 0 →
    F.round (digitsValue (F.grisu2 q).1 * 10 ^ (F.grisu2 q).2) = some q

theorem lawful_threeHalves : threeHalves.Lawful := by
  have hvalue : ∀ q, threeHalves.IsValue q → q ≠ 0 → q = 3 / 2 := by
    rintro q ⟨x, hx⟩ hq
    unfold threeHalves at hx
    simp only at hx
    split_ifs at hx with h
    cases hx
    exact h.resolve_right hq
  refine ⟨if_pos (Or.inr rfl), fun q _ _ => ?_, fun q hq hne => ?_⟩
  · exact ⟨0x31, [0x35], rfl, by decide, by decide, (by decide : -1000 < (1 + -1 : ℤ)),
      (by decide : (1 + -1 : ℤ) < 1000)⟩
  · rw [hvalue q hq hne]
    decide +kernel

namespace Lexer

open Serializer (toChars magnitudeChars formatBuffer)

variable {F : Floats} {q : ℚ≥0} {x : Double}

/-- What is written behind the sign. -/
theorem scanNumber_magnitude (hF : F.Lawful) (hvalue : F.IsValue q) (hrest : EndsNumber rest) :
    ∃ c text, magnitudeChars F q = c :: text ∧ isDigit c = true ∧
      F.round (decimalValue (c :: text)) = some q ∧
      ∀ type buffer, scanNumber F (.start c) type (buffer ++ [c]) (text ++ rest) =
        (numberToken F (buffer ++ c :: text) .float, rest) := by
  rw [magnitudeChars]
  split_ifs with hzero
  · have hdigits : Digits [0x30] := digits_cons (by decide) digits_nil
    have hdecimal : decimalValue [0x30, 0x2E, 0x30] = 0 := by
      have hvalue := Serializer.decimalValue_point hdigits hdigits [] fun b hb => by cases hb
      refine hvalue.trans ?_
      rw [show digitsValue ([0x30] ++ [0x30]) = 0 from rfl, Nat.cast_zero, zero_mul]
    refine ⟨0x30, [0x2E, 0x30], rfl, rfl, by rw [hdecimal, hF.zero, hzero], fun type buffer => ?_⟩
    have hpoint : scanNumber F .zero type (buffer ++ [0x30]) (0x2E :: ([0x30] ++ rest)) =
        scanNumber F .decimal2 .float (buffer ++ [0x30] ++ 0x2E :: [0x30]) rest :=
      scanNumber_point (Or.inl rfl) type (buffer ++ [0x30]) rest hdigits
    refine hpoint.trans ?_
    rw [scanNumber_ends (Or.inr (Or.inr (Or.inl rfl))) hrest, List.append_assoc]
    rfl
  · obtain ⟨b, l, hl, hb, hdigits, hlow, hhigh⟩ := hF.digits q hvalue hzero
    have hexact := hF.exact q hvalue hzero
    rw [hl] at hexact ⊢
    obtain ⟨c, text, htext, hc, hscan⟩ :=
      scanNumber_formatBuffer hdigits hb hlow hhigh F hrest
    rw [← Serializer.decimalValue_formatBuffer hdigits hb hlow hhigh, htext] at hexact
    rw [htext] at hscan
    exact ⟨c, text, htext, hc, hexact, hscan⟩

/-- **What is written for a floating-point number is read as it**, with the sign of a zero. -/
theorem scan_toChars (hF : F.Lawful) (hvalue : F.IsValue x.magnitude) (hrest : EndsNumber rest) :
    scan F (toChars F x ++ rest) = (.valueFloat (some x), rest) := by
  obtain ⟨c, text, htext, hc, hround, hscan⟩ := scanNumber_magnitude hF hvalue hrest
  obtain ⟨negative, q⟩ := x
  simp only at htext hround
  rw [toChars, htext]
  cases negative with
  | true =>
    rw [if_pos rfl, List.cons_append, List.cons_append, scan_minus hc]
    refine (hscan .integer [0x2D]).trans ?_
    rw [List.singleton_append, numberToken, strtod, hround]
    rfl
  | false =>
    rw [if_neg Bool.false_ne_true, List.cons_append, scan_digit hc]
    refine (hscan .unsigned []).trans ?_
    rw [List.nil_append, numberToken, strtod_digit hc, hround]
    rfl

end Lexer

end Nonsense
