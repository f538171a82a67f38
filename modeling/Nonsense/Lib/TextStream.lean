import Mathlib.Data.Nat.Digits.Defs
import Mathlib.Data.List.TakeWhile

/-!
# Text streams

What the standard text streams make of an unsigned 64-bit integer in the C locale.  An
output stream pads each item on its left with its fill character up to its width, and
the item uses the width up; the fill character and the base stay.  An input stream skips
white space, takes a sign and, in base sixteen, `0x`, and then as many digits as there
are; it fails if there is none or if they come to too much.

What is written with zeros for fill is read back in the same base (`uint64_leftpad`).
-/

namespace Nonsense

namespace TextStream

/-- The base in which integers are written and read. -/
inductive Base
  | dec
  | hex
  deriving DecidableEq, Repr

def Base.radix : Base → Nat
  | .dec => 10
  | .hex => 16

/-! ### Output -/

/-- `std::ostringstream` -/
structure Out where
  text : List Char
  fill : Char
  width : Nat
  base : Base
  deriving DecidableEq, Repr

namespace Out

def empty : Out := ⟨[], ' ', 0, .dec⟩

def setFill (o : Out) (c : Char) : Out := { o with fill := c }

def setw (o : Out) (n : Nat) : Out := { o with width := n }

def hex (o : Out) : Out := { o with base := .hex }

/-- What every inserter does with its characters. -/
def item (o : Out) (cs : List Char) : Out :=
  { o with text := o.text ++ cs.leftpad o.width o.fill, width := 0 }

def string (o : Out) (s : String) : Out := o.item s.toList

def uint64 (o : Out) (n : UInt64) : Out := o.item (Nat.toDigits o.base.radix n.toNat)

def str (o : Out) : String := String.ofList o.text

end Out

/-! ### Input -/

/-- `std::isspace` in the C locale. -/
def isSpace (c : Char) : Bool := [' ', '\t', '\n', '\x0b', '\x0c', '\r'].contains c

/-- The value of a character as a digit of base sixteen. -/
def digitValue (c : Char) : Option Nat :=
  if '0' ≤ c ∧ c ≤ '9' then some (c.toNat - '0'.toNat)
  else if 'a' ≤ c ∧ c ≤ 'f' then some (c.toNat - 'a'.toNat + 10)
  else if 'A' ≤ c ∧ c ≤ 'F' then some (c.toNat - 'A'.toNat + 10)
  else none

namespace Base

def digit (b : Base) (c : Char) : Option Nat := (digitValue c).filter fun d => d < b.radix

/-- The values of the digits that a text begins with. -/
def digits (b : Base) : List Char → List Nat
  | [] => []
  | c :: cs =>
    match b.digit c with
    | some d => d :: b.digits cs
    | none => []

/-- The number that digits denote, the most significant one first. -/
def value (b : Base) (ds : List Nat) : Nat := ds.foldl (fun n d => n * b.radix + d) 0

/-- What is behind the mark of the base. -/
def behindMark : Base → List Char → List Char
  | .hex, '0' :: 'x' :: cs => cs
  | .hex, '0' :: 'X' :: cs => cs
  | _, cs => cs

end Base

/-- Whether there is a minus sign, and what is behind the sign. -/
def sign : List Char → Bool × List Char
  | '-' :: cs => (true, cs)
  | '+' :: cs => (false, cs)
  | cs => (false, cs)

/-- `std::istringstream` -/
structure In where
  text : List Char
  base : Base
  deriving DecidableEq, Repr

namespace In

def ofString (s : String) : In := ⟨s.toList, .dec⟩

def hex (i : In) : In := { i with base := .hex }

/-- The extractor; `none` if the stream has failed. -/
def uint64 (i : In) : Option UInt64 :=
  let (negative, cs) := sign (i.text.dropWhile isSpace)
  let ds := i.base.digits (i.base.behindMark cs)
  if ds = [] ∨ 2 ^ 64 ≤ i.base.value ds then none
  else
    let n := UInt64.ofNat (i.base.value ds)
    some (if negative then -n else n)

end In

/-! ### Digits -/

namespace Base

variable {b : Base} {c : Char} {cs cs' : List Char} {ds : List Nat} {n : Nat}

theorem digit_digitChar {d : Nat} (h : d < b.radix) : b.digit (Nat.digitChar d) = some d := by
  cases b with
  | dec => exact (by decide : ∀ d < 10, dec.digit (Nat.digitChar d) = some d) d h
  | hex => exact (by decide : ∀ d < 16, hex.digit (Nat.digitChar d) = some d) d h

/-- Every character is a digit of the base. -/
def AllDigits (b : Base) (cs : List Char) : Prop := ∀ c ∈ cs, (b.digit c).isSome

theorem AllDigits.append (h : b.AllDigits cs) (h' : b.AllDigits cs') : b.AllDigits (cs ++ cs') :=
  fun c hc => (List.mem_append.mp hc).elim (h c) (h' c)

theorem allDigits_digitChar {d : Nat} (h : d < b.radix) : b.AllDigits [Nat.digitChar d] := by
  intro c hc
  rw [List.mem_singleton.mp hc, digit_digitChar h]
  rfl

theorem allDigits_replicate_zero (k : Nat) : b.AllDigits (List.replicate k '0') := by
  intro c hc
  rw [List.eq_of_mem_replicate hc]
  cases b <;> decide

/-- No digit begins anything else that the extractor looks for. -/
theorem not_of_isSome_digit (h : (b.digit c).isSome) :
    isSpace c = false ∧ c ≠ '-' ∧ c ≠ '+' ∧ c ≠ 'x' ∧ c ≠ 'X' := by
  refine ⟨?_, ?_, ?_, ?_, ?_⟩
  · rw [isSpace, List.contains_eq_mem, decide_eq_false_iff_not]
    intro hmem
    simp only [List.mem_cons, List.not_mem_nil, or_false] at hmem
    rcases hmem with rfl | rfl | rfl | rfl | rfl | rfl <;> cases b <;> exact absurd h (by decide)
  all_goals
    rintro rfl
    cases b <;> exact absurd h (by decide)

theorem digits_append (h : b.AllDigits cs) : b.digits (cs ++ cs') = b.digits cs ++ b.digits cs' := by
  induction cs with
  | nil => rfl
  | cons c cs ih =>
    obtain ⟨d, hd⟩ := Option.isSome_iff_exists.mp (h c List.mem_cons_self)
    rw [List.cons_append, digits, digits, hd]
    exact congrArg (d :: ·) (ih fun c hc => h c (List.mem_cons_of_mem _ hc))

theorem digits_digitChar {d : Nat} (h : d < b.radix) : b.digits [Nat.digitChar d] = [d] := by
  rw [digits, digit_digitChar h]
  rfl

theorem digits_replicate_zero (k : Nat) :
    b.digits (List.replicate k '0') = List.replicate k 0 := by
  have hzero : b.digit '0' = some 0 := by cases b <;> decide
  induction k with
  | zero => rfl
  | succ k ih => rw [List.replicate_succ, digits, hzero, ih, List.replicate_succ]

theorem digits_ne_nil (h : b.AllDigits cs) (hne : cs ≠ []) : b.digits cs ≠ [] := by
  obtain ⟨c, cs, rfl⟩ := List.exists_cons_of_ne_nil hne
  obtain ⟨d, hd⟩ := Option.isSome_iff_exists.mp (h c List.mem_cons_self)
  rw [digits, hd]
  exact List.cons_ne_nil d _

theorem value_concat (ds : List Nat) (d : Nat) : b.value (ds ++ [d]) = b.value ds * b.radix + d := by
  rw [value, List.foldl_append]
  rfl

/-- Leading zeros do not count. -/
theorem value_replicate_zero_append (k : Nat) : b.value (List.replicate k 0 ++ ds) = b.value ds := by
  induction k with
  | zero => rfl
  | succ k ih =>
    rw [List.replicate_succ, List.cons_append, value, List.foldl_cons, Nat.zero_mul, Nat.zero_add]
    exact ih

theorem one_lt_radix (b : Base) : 1 < b.radix := by cases b <;> decide

/-- The digits of a number are digits, and denote it. -/
theorem digits_toDigits (b : Base) (n : Nat) :
    b.AllDigits (Nat.toDigits b.radix n) ∧ b.value (b.digits (Nat.toDigits b.radix n)) = n := by
  induction n using Nat.strongRecOn with
  | ind n ih =>
    rcases Nat.lt_or_ge n b.radix with hlt | hge
    · rw [Nat.toDigits_of_lt_base hlt, digits_digitChar hlt]
      exact ⟨allDigits_digitChar hlt, by simp [value]⟩
    · have hpos : 0 < n := (Nat.zero_lt_of_lt b.one_lt_radix).trans_le hge
      have hmod : n % b.radix < b.radix := Nat.mod_lt n (Nat.zero_lt_of_lt b.one_lt_radix)
      obtain ⟨hall, hvalue⟩ := ih (n / b.radix) (Nat.div_lt_self hpos b.one_lt_radix)
      rw [Nat.toDigits_of_base_le b.one_lt_radix hge]
      refine ⟨hall.append (allDigits_digitChar hmod), ?_⟩
      rw [digits_append hall, digits_digitChar hmod, value_concat, hvalue, Nat.mul_comm]
      exact Nat.div_add_mod n b.radix

theorem behindMark_of_allDigits (h : b.AllDigits cs) : b.behindMark cs = cs := by
  unfold behindMark
  split
  · exact absurd rfl (not_of_isSome_digit (h 'x' (by simp))).2.2.2.1
  · exact absurd rfl (not_of_isSome_digit (h 'X' (by simp))).2.2.2.2
  · rfl

end Base

theorem sign_of_allDigits {b : Base} {cs : List Char} (h : b.AllDigits cs) :
    sign cs = (false, cs) := by
  unfold sign
  split
  · exact absurd rfl (Base.not_of_isSome_digit (h '-' (by simp))).2.1
  · exact absurd rfl (Base.not_of_isSome_digit (h '+' (by simp))).2.2.1
  · rfl

theorem dropWhile_isSpace_of_allDigits {b : Base} {cs : List Char} (h : b.AllDigits cs) :
    cs.dropWhile isSpace = cs := by
  cases cs with
  | nil => rfl
  | cons c cs =>
    have hc : isSpace c = false := (Base.not_of_isSome_digit (h c List.mem_cons_self)).1
    rw [List.dropWhile_cons, hc]
    rfl

/-! ### Reading back what was written -/

/-- Digits that come to less than `2 ^ 64` are read as the number they denote. -/
theorem In.uint64_of_allDigits {b : Base} {cs : List Char} (h : b.AllDigits cs) (hne : cs ≠ [])
    (hlt : b.value (b.digits cs) < 2 ^ 64) :
    (In.mk cs b).uint64 = some (UInt64.ofNat (b.value (b.digits cs))) := by
  rw [In.uint64, dropWhile_isSpace_of_allDigits h, sign_of_allDigits h]
  dsimp only
  rw [Base.behindMark_of_allDigits h, if_neg]
  · rfl
  · exact not_or.mpr ⟨Base.digits_ne_nil h hne, Nat.not_le.mpr hlt⟩

/-- **A number that is padded with zeros is read back in the base it was written in.** -/
theorem uint64_leftpad (b : Base) (w : Nat) (n : UInt64) :
    (In.mk ((Nat.toDigits b.radix n.toNat).leftpad w '0') b).uint64 = some n := by
  obtain ⟨hall, hvalue⟩ := b.digits_toDigits n.toNat
  rw [List.leftpad]
  generalize w - (Nat.toDigits b.radix n.toNat).length = k
  have hzeros : b.AllDigits (List.replicate k '0') := Base.allDigits_replicate_zero k
  have hn : b.value (b.digits (List.replicate k '0' ++ Nat.toDigits b.radix n.toNat)) = n.toNat := by
    rw [Base.digits_append hzeros, Base.digits_replicate_zero, Base.value_replicate_zero_append,
      hvalue]
  rw [In.uint64_of_allDigits (hzeros.append hall), hn, UInt64.ofNat_toNat]
  · exact fun h => Nat.toDigits_ne_nil (List.append_eq_nil_iff.mp h).2
  · rw [hn]
    exact n.toNat_lt

/-- A number that fits takes up exactly the width. -/
theorem length_leftpad_toDigits {b : Base} {w n : Nat} (c : Char) (hw : 0 < w)
    (hn : n < b.radix ^ w) : ((Nat.toDigits b.radix n).leftpad w c).length = w := by
  rw [List.length_leftpad]
  exact Nat.max_eq_left ((Nat.length_toDigits_le_iff b.one_lt_radix hw).mpr hn)

end TextStream

end Nonsense
