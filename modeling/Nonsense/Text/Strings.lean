import Nonsense.Text.Serializer
import Mathlib.Data.List.Forall2
import Mathlib.Data.Nat.Bitwise

/-!
# Strings, written and read

`dump_escaped` decodes a string with the table `utf8d`, and `scan_string` reads one with
ranges for the bytes that may follow one another.  On the bytes of a string the table accepts
(`dumpEscaped_bytes`), and what is written is read as the string (`scanString_escaped`); what
`scan_string` accepts are the bytes of a string (`isText_of_scanString`).
-/

namespace Nonsense

open Utf8 (IsChar IsText encode)

/-! ### The table -/

namespace Serializer

/-- What is written for a character. -/
def escapedChar (n : ℕ) : Bytes := if n < 0x80 then escape n n else encode n

/-- What is written for a string. -/
def escapedText (s : String) : Bytes := s.toList.flatMap fun c => escapedChar c.toNat

/-- Lead bytes: the first, the last, the state behind them, and what comes below their bits. -/
def leads : List (ℕ × ℕ × ℕ × ℕ) :=
  [(0x00, 0x7F, 0, 0), (0xC2, 0xDF, 2, 0xC0), (0xE0, 0xE0, 4, 0xE0), (0xE1, 0xEC, 3, 0xE0),
    (0xED, 0xED, 5, 0xE0), (0xEE, 0xEF, 3, 0xE0), (0xF0, 0xF0, 6, 0xF0), (0xF1, 0xF3, 7, 0xF0),
    (0xF4, 0xF4, 8, 0xF0)]

/-- Bytes behind them: the state before, the first, the last, and the state behind. -/
def tails : List (ℕ × ℕ × ℕ × ℕ) :=
  [(2, 0x80, 0xBF, 0), (3, 0x80, 0xBF, 2), (7, 0x80, 0xBF, 3), (4, 0xA0, 0xBF, 2),
    (5, 0x80, 0x9F, 2), (6, 0x90, 0xBF, 3), (8, 0x80, 0x8F, 3)]

theorem leads_table : ∀ r ∈ leads, r.2.1 < 256 ∧
    ∀ a < 256, r.1 ≤ a → a ≤ r.2.1 → decode 0 0 a = (r.2.2.1, a - r.2.2.2) := by
  decide +kernel

theorem tails_table : ∀ r ∈ tails, (r.1 ≠ 0 ∧ 0x80 ≤ r.2.1 ∧ r.2.2.1 ≤ 0xBF) ∧
    ∀ b < 256, r.2.1 ≤ b → b ≤ r.2.2.1 → (decode r.1 0 b).1 = r.2.2.2 := by
  decide +kernel

theorem decode_lead {low high state base codepoint a : ℕ} (hr : (low, high, state, base) ∈ leads)
    (hlow : low ≤ a) (hhigh : a ≤ high) : decode 0 codepoint a = (state, a - base) := by
  obtain ⟨hbyte, htable⟩ := leads_table _ hr
  exact htable a (lt_of_le_of_lt hhigh hbyte) hlow hhigh

theorem decode_tail {state state' low high codepoint b : ℕ} (hr : (state, low, high, state') ∈ tails)
    (hlow : low ≤ b) (hhigh : b ≤ high) :
    decode state codepoint b = (state', codepoint * 64 + (b - 0x80)) := by
  obtain ⟨⟨hne, hlow', hhigh'⟩, htable⟩ := tails_table _ hr
  simp only at hne hlow' hhigh' htable
  have hstate : (decode state 0 b).1 = state' := htable b (by omega) hlow hhigh
  have hmask : b &&& 0x3F = b - 0x80 := by
    rw [show (0x3F : ℕ) = 2 ^ 6 - 1 from rfl, Nat.and_two_pow_sub_one_eq_mod]
    omega
  have hbits : b &&& 0x3F ||| codepoint <<< 6 = codepoint * 64 + (b - 0x80) := by
    rw [hmask, Nat.or_comm, ← Nat.shiftLeft_add_eq_or_of_lt (by omega), Nat.shiftLeft_eq]
  rw [Prod.ext_iff]
  refine ⟨hstate, ?_⟩
  rw [decode, if_pos hne, hbits]

/-! ### Writing -/

variable {n codepoint index last : ℕ} {rest out : Bytes}

theorem dumpEscaped_accept {state byte : ℕ} (h : decode state codepoint byte = (0, n))
    (hrest : dumpEscaped 0 n (index + 1) byte rest = .ok out) :
    dumpEscaped state codepoint index last (byte :: rest) = .ok (escape n byte ++ out) := by
  rw [dumpEscaped, h]
  simp only [if_true]
  rw [hrest]
  rfl

theorem dumpEscaped_incomplete {state state' byte : ℕ} (h : decode state codepoint byte = (state', n))
    (hstate : 2 ≤ state') (hrest : dumpEscaped state' n (index + 1) byte rest = .ok out) :
    dumpEscaped state codepoint index last (byte :: rest) = .ok (byte :: out) := by
  rw [dumpEscaped, h]
  simp only [if_neg (by omega : ¬ state' = 0), if_neg (by omega : ¬ state' = 1)]
  rw [hrest]
  rfl

theorem escape_of_le {byte : ℕ} (h : 0x80 ≤ n) : escape n byte = [byte] := by
  unfold escape
  repeat rw [if_neg (by omega)]

/-- The last byte of a character of more than one. -/
theorem dumpEscaped_last (h : 0x80 ≤ n) (hrest : dumpEscaped 0 n (index + 1) (0x80 + n % 64) rest =
    .ok out) : dumpEscaped 2 (n / 64) index last ((0x80 + n % 64) :: rest) =
      .ok ((0x80 + n % 64) :: out) := by
  have hdecode : decode 2 (n / 64) (0x80 + n % 64) = (0, n) := by
    rw [decode_tail (by decide : (2, 0x80, 0xBF, 0) ∈ tails) (by omega) (by omega)]
    exact congrArg _ (by omega)
  have hout : dumpEscaped 2 (n / 64) index last ((0x80 + n % 64) :: rest) =
      .ok (escape n (0x80 + n % 64) ++ out) := dumpEscaped_accept hdecode hrest
  rw [escape_of_le h] at hout
  exact hout

/-- The first two bytes of three. -/
theorem decode_three (h : 0x800 ≤ n) (h' : n < 0x10000) (hn : n.isValidChar) :
    ∃ state, 2 ≤ state ∧ decode 0 codepoint (0xE0 + n / 4096) = (state, n / 4096) ∧
      decode state (n / 4096) (0x80 + n / 64 % 64) = (2, n / 64) := by
  have hlead : ∀ low high state, (low, high, state, 0xE0) ∈ leads → low ≤ 0xE0 + n / 4096 →
      0xE0 + n / 4096 ≤ high → decode 0 codepoint (0xE0 + n / 4096) = (state, n / 4096) := by
    intro low high state hr hlow hhigh
    rw [decode_lead hr hlow hhigh]
    exact congrArg _ (by omega)
  have htail : ∀ low high state, (state, low, high, 2) ∈ tails → low ≤ 0x80 + n / 64 % 64 →
      0x80 + n / 64 % 64 ≤ high →
      decode state (n / 4096) (0x80 + n / 64 % 64) = (2, n / 64) := by
    intro low high state hr hlow hhigh
    rw [decode_tail hr hlow hhigh]
    exact congrArg _ (by omega)
  by_cases h0 : n / 4096 = 0
  · exact ⟨4, by decide, hlead 0xE0 0xE0 4 (by decide) (by omega) (by omega),
      htail 0xA0 0xBF 4 (by decide) (by omega) (by omega)⟩
  by_cases hd : n / 4096 = 0xD
  · have hlow : n < 0xD800 := by
      rcases hn with hn | hn
      · exact hn
      · omega
    exact ⟨5, by decide, hlead 0xED 0xED 5 (by decide) (by omega) (by omega),
      htail 0x80 0x9F 5 (by decide) (by omega) (by omega)⟩
  · refine ⟨3, by decide, ?_, htail 0x80 0xBF 3 (by decide) (by omega) (by omega)⟩
    by_cases hlow : n / 4096 < 0xD
    · exact hlead 0xE1 0xEC 3 (by decide) (by omega) (by omega)
    · exact hlead 0xEE 0xEF 3 (by decide) (by omega) (by omega)

/-- The first two bytes of four. -/
theorem decode_four (h : 0x10000 ≤ n) (h' : n < 0x110000) :
    ∃ state, 2 ≤ state ∧ decode 0 codepoint (0xF0 + n / 262144) = (state, n / 262144) ∧
      decode state (n / 262144) (0x80 + n / 4096 % 64) = (3, n / 4096) := by
  have hlead : ∀ low high state, (low, high, state, 0xF0) ∈ leads → low ≤ 0xF0 + n / 262144 →
      0xF0 + n / 262144 ≤ high → decode 0 codepoint (0xF0 + n / 262144) = (state, n / 262144) := by
    intro low high state hr hlow hhigh
    rw [decode_lead hr hlow hhigh]
    exact congrArg _ (by omega)
  have htail : ∀ low high state, (state, low, high, 3) ∈ tails → low ≤ 0x80 + n / 4096 % 64 →
      0x80 + n / 4096 % 64 ≤ high →
      decode state (n / 262144) (0x80 + n / 4096 % 64) = (3, n / 4096) := by
    intro low high state hr hlow hhigh
    rw [decode_tail hr hlow hhigh]
    exact congrArg _ (by omega)
  by_cases h0 : n / 262144 = 0
  · exact ⟨6, by decide, hlead 0xF0 0xF0 6 (by decide) (by omega) (by omega),
      htail 0x90 0xBF 6 (by decide) (by omega) (by omega)⟩
  by_cases h4 : n / 262144 = 4
  · exact ⟨8, by decide, hlead 0xF4 0xF4 8 (by decide) (by omega) (by omega),
      htail 0x80 0x8F 8 (by decide) (by omega) (by omega)⟩
  · exact ⟨7, by decide, hlead 0xF1 0xF3 7 (by decide) (by omega) (by omega),
      htail 0x80 0xBF 7 (by decide) (by omega) (by omega)⟩

/-- **A character is accepted**, and written with an escape where it needs one. -/
theorem dumpEscaped_char (hn : n.isValidChar)
    (hrest : ∀ codepoint index last, dumpEscaped 0 codepoint index last rest = .ok out) :
    dumpEscaped 0 codepoint index last (encode n ++ rest) = .ok (escapedChar n ++ out) := by
  have hlt : n < 0x110000 := by
    rcases hn with h | h <;> omega
  unfold escapedChar encode
  split_ifs with h1 h2 h3
  · have ha : decode 0 codepoint n = (0, n - 0) :=
      decode_lead (by decide : (0x00, 0x7F, 0, 0) ∈ leads) (Nat.zero_le n) (by omega)
    exact dumpEscaped_accept ha (hrest _ _ _)
  · have ha : decode 0 codepoint (0xC0 + n / 64) = (2, n / 64) := by
      rw [decode_lead (by decide : (0xC2, 0xDF, 2, 0xC0) ∈ leads) (by omega) (by omega)]
      exact congrArg _ (by omega)
    exact dumpEscaped_incomplete ha (by decide) (dumpEscaped_last (by omega) (hrest _ _ _))
  · obtain ⟨state, hstate, ha, hb⟩ := decode_three (by omega) h3 hn
    exact dumpEscaped_incomplete ha hstate (dumpEscaped_incomplete hb (by decide)
      (dumpEscaped_last (by omega) (hrest _ _ _)))
  · obtain ⟨state, hstate, ha, hb⟩ := decode_four (by omega) hlt
    have hc : decode 3 (n / 4096) (0x80 + n / 64 % 64) = (2, n / 64) := by
      rw [decode_tail (by decide : (3, 0x80, 0xBF, 2) ∈ tails) (by omega) (by omega)]
      exact congrArg _ (by omega)
    exact dumpEscaped_incomplete ha hstate (dumpEscaped_incomplete hb (by decide)
      (dumpEscaped_incomplete hc (by decide) (dumpEscaped_last (by omega) (hrest _ _ _))))

/-- **The bytes of a string are accepted.** -/
theorem dumpEscaped_bytes (s : String) (codepoint index last : ℕ) :
    dumpEscaped 0 codepoint index last (Utf8.bytes s) = .ok (escapedText s) := by
  unfold Utf8.bytes escapedText
  generalize s.toList = l
  induction l generalizing codepoint index last with
  | nil => rfl
  | cons c l ih =>
    rw [List.flatMap_cons, List.flatMap_cons]
    exact dumpEscaped_char c.valid ih

theorem dumpString_eq (s : String) : dumpString s = .ok (0x22 :: escapedText s ++ [0x22]) := by
  rw [dumpString, dumpEscaped_bytes]
  rfl

end Serializer

/-! ### Reading -/

namespace Lexer

open Serializer (escapedChar escapedText)

variable {pc pc' : StringPc} {b n : ℕ} {buffer added rest : Bytes} {l : List (ℕ × ℕ)}

theorem scanString_step (hcloses : pc.closes b = false) (h : pc.step b = some (pc', added)) :
    scanString pc buffer (b :: rest) = scanString pc' (buffer ++ added) rest := by
  rw [scanString, if_neg (by rw [hcloses]; exact Bool.false_ne_true), h]

/-- The bytes are within the ranges. -/
def Fits (l : List (ℕ × ℕ)) (bytes : Bytes) : Prop :=
  List.Forall₂ (fun r b => r.1 ≤ b ∧ b ≤ r.2) l bytes

theorem scanString_ranges {bytes : Bytes} (h : Fits l bytes) (hl : l ≠ []) :
    scanString (.ranges l) buffer (bytes ++ rest) = scanString .next (buffer ++ bytes) rest := by
  induction h generalizing buffer with
  | nil => exact absurd rfl hl
  | @cons r b l bytes hr htail ih =>
    have hstep : (StringPc.ranges (r :: l)).step b =
        some (if l = [] then .next else .ranges l, [b]) := if_pos hr
    rw [List.cons_append, scanString_step rfl hstep]
    split_ifs with hnil
    · subst hnil
      rw [List.forall₂_nil_left_iff.mp htail, List.nil_append]
    · rw [ih hnil, List.append_assoc, List.singleton_append]

/-- A character that stands for itself. -/
theorem scanString_char {bytes : Bytes} (hquote : b ≠ 0x22) (hescape : b ≠ 0x5C)
    (hb : continuation b = some l) (h : Fits l bytes) :
    scanString .next buffer (b :: bytes ++ rest) = scanString .next (buffer ++ b :: bytes) rest := by
  have hstep : StringPc.next.step b = some (if l = [] then .next else .ranges l, [b]) := by
    rw [StringPc.step, if_neg hescape, hb]
    rfl
  have hcloses : StringPc.next.closes b = false := decide_eq_false hquote
  rw [List.cons_append, scanString_step hcloses hstep]
  split_ifs with hnil
  · subst hnil
    rw [List.forall₂_nil_left_iff.mp h, List.nil_append]
  · rw [scanString_ranges h hnil, List.append_assoc, List.singleton_append]

/-- A character with an escape of its own. -/
theorem scanString_escape {c : ℕ} (hu : c ≠ 0x75) (h : escaped c = some n) :
    scanString .next buffer (0x5C :: c :: rest) = scanString .next (buffer ++ [n]) rest := by
  have hstep : StringPc.escape.step c = some (.next, [n]) := by
    rw [StringPc.step, if_neg hu, h]
    rfl
  rw [scanString_step rfl rfl, scanString_step rfl hstep, List.append_nil]

theorem hexDigit_hexDigit {d : ℕ} (h : d < 16) : hexDigit (Serializer.hexDigit d) = some d := by
  revert d
  decide

/-- One of the digits of a codepoint. -/
theorem step_codepoint {factor sum d : ℕ} {factors : List ℕ} {high : Option ℕ} (hd : d < 16)
    (hne : factors ≠ []) : (StringPc.codepoint (factor :: factors) sum high).step
      (Serializer.hexDigit d) = some (.codepoint factors (sum + d <<< factor) high, []) := by
  rw [StringPc.step, hexDigit_hexDigit hd]
  exact if_neg hne

/-- A codepoint below the surrogates. -/
theorem scanString_codepoint (h : n < 0xD800) :
    scanString .next buffer (0x5C :: 0x75 :: Serializer.hexDigit (n / 4096 % 16) ::
      Serializer.hexDigit (n / 256 % 16) :: Serializer.hexDigit (n / 16 % 16) ::
      Serializer.hexDigit (n % 16) :: rest) =
        scanString .next (buffer ++ codepointBytes n) rest := by
  have hsum : 0 + (n / 4096 % 16) <<< 12 + (n / 256 % 16) <<< 8 + (n / 16 % 16) <<< 4 +
      (n % 16) <<< 0 = n := by
    simp only [Nat.shiftLeft_eq]
    omega
  have hlast : (StringPc.codepoint [0] (0 + (n / 4096 % 16) <<< 12 + (n / 256 % 16) <<< 8 +
      (n / 16 % 16) <<< 4) none).step (Serializer.hexDigit (n % 16)) =
        some (.next, codepointBytes n) := by
    rw [StringPc.step, hexDigit_hexDigit (by omega)]
    show afterCodepoint (0 + (n / 4096 % 16) <<< 12 + (n / 256 % 16) <<< 8 +
      (n / 16 % 16) <<< 4 + (n % 16) <<< 0) none = _
    have hhigh : isHighSurrogate n = false := decide_eq_false (by omega)
    have hlow : isLowSurrogate n = false := decide_eq_false (by omega)
    rw [hsum, afterCodepoint, hhigh, hlow]
    rfl
  have hu : StringPc.escape.step 0x75 = some (.codepoint [12, 8, 4, 0] 0 none, []) := rfl
  rw [scanString_step rfl rfl, scanString_step rfl hu,
    scanString_step rfl (step_codepoint (by omega) (by simp)),
    scanString_step rfl (step_codepoint (by omega) (by simp)),
    scanString_step rfl (step_codepoint (by omega) (by simp)), scanString_step rfl hlast]
  simp only [List.append_nil]

theorem fits_one {r : ℕ × ℕ} (h : r.1 ≤ b ∧ b ≤ r.2) : Fits [r] [b] := .cons h .nil

/-- A character of more than one byte goes on as its first one says. -/
theorem exists_continuation (hn : n.isValidChar) (h : 0x80 ≤ n) :
    ∃ a bytes l, encode n = a :: bytes ∧ 0x80 ≤ a ∧ continuation a = some l ∧ Fits l bytes := by
  have hlt : n < 0x110000 := by
    rcases hn with h | h <;> omega
  have hlow : ¬ n < 0x80 := by omega
  rw [encode, if_neg hlow]
  split_ifs with h2 h3
  · refine ⟨_, _, [(0x80, 0xBF)], rfl, by omega, ?_, fits_one ⟨by omega, by omega⟩⟩
    rw [continuation, if_neg (by omega), if_pos (by omega)]
  · by_cases h0 : n / 4096 = 0
    · refine ⟨_, _, [(0xA0, 0xBF), (0x80, 0xBF)], rfl, by omega, ?_,
        .cons ⟨by omega, by omega⟩ (fits_one ⟨by omega, by omega⟩)⟩
      rw [h0]
      rfl
    by_cases hd : n / 4096 = 0xD
    · have hno : n < 0xD800 := by
        rcases hn with hn | hn
        · exact hn
        · omega
      refine ⟨_, _, [(0x80, 0x9F), (0x80, 0xBF)], rfl, by omega, ?_,
        .cons ⟨by omega, by omega⟩ (fits_one ⟨by omega, by omega⟩)⟩
      rw [hd]
      rfl
    · refine ⟨_, _, [(0x80, 0xBF), (0x80, 0xBF)], rfl, by omega, ?_,
        .cons ⟨by omega, by omega⟩ (fits_one ⟨by omega, by omega⟩)⟩
      rw [continuation, if_neg (by omega), if_neg (by omega), if_neg (by omega), if_pos (by omega)]
  · by_cases h0 : n / 262144 = 0
    · refine ⟨_, _, [(0x90, 0xBF), (0x80, 0xBF), (0x80, 0xBF)], rfl, by omega, ?_,
        .cons ⟨by omega, by omega⟩
          (.cons ⟨by omega, by omega⟩ (fits_one ⟨by omega, by omega⟩))⟩
      rw [h0]
      rfl
    by_cases h4 : n / 262144 = 4
    · refine ⟨_, _, [(0x80, 0x8F), (0x80, 0xBF), (0x80, 0xBF)], rfl, by omega, ?_,
        .cons ⟨by omega, by omega⟩
          (.cons ⟨by omega, by omega⟩ (fits_one ⟨by omega, by omega⟩))⟩
      rw [h4]
      rfl
    · refine ⟨_, _, [(0x80, 0xBF), (0x80, 0xBF), (0x80, 0xBF)], rfl, by omega, ?_,
        .cons ⟨by omega, by omega⟩
          (.cons ⟨by omega, by omega⟩ (fits_one ⟨by omega, by omega⟩))⟩
      rw [continuation, if_neg (by omega), if_neg (by omega), if_neg (by omega), if_neg (by omega),
        if_neg (by omega), if_neg (by omega), if_pos (by omega)]

/-- **What is written for a character is read as it.** -/
theorem scanString_escapedChar (hn : n.isValidChar) :
    scanString .next buffer (escapedChar n ++ rest) =
      scanString .next (buffer ++ encode n) rest := by
  unfold escapedChar
  split_ifs with hlow
  · rw [Utf8.encode_of_lt hlow]
    unfold Serializer.escape
    split_ifs with h1 h2 h3 h4 h5 h6 h7 hcontrol
    · rw [h1]; exact scanString_escape (by decide) rfl
    · rw [h2]; exact scanString_escape (by decide) rfl
    · rw [h3]; exact scanString_escape (by decide) rfl
    · rw [h4]; exact scanString_escape (by decide) rfl
    · rw [h5]; exact scanString_escape (by decide) rfl
    · rw [h6]; exact scanString_escape (by decide) rfl
    · rw [h7]; exact scanString_escape (by decide) rfl
    · have hbytes : codepointBytes n = [n] := if_pos hlow
      rw [← hbytes]
      exact scanString_codepoint (by omega)
    · have hself : continuation n = some [] := if_pos (by omega)
      exact scanString_char h6 h7 hself .nil
  · obtain ⟨a, bytes, l, hencode, ha, hl, hfits⟩ := exists_continuation hn (by omega)
    rw [hencode]
    exact scanString_char (by omega) (by omega) hl hfits

/-- **What is written for a string is read as it.** -/
theorem scanString_escaped (s : String) (rest : Bytes) :
    scanString .next [] (escapedText s ++ 0x22 :: rest) = (.valueString (Utf8.bytes s), rest) := by
  have hlist : ∀ (l : List Char) (buffer : Bytes),
      scanString .next buffer ((l.flatMap fun c => escapedChar c.toNat) ++ 0x22 :: rest) =
        (.valueString (buffer ++ l.flatMap fun c => encode c.toNat), rest) := by
    intro l
    induction l with
    | nil =>
      intro buffer
      rw [List.flatMap_nil, List.flatMap_nil, List.append_nil]
      rfl
    | cons c l ih =>
      intro buffer
      have hvalid : c.toNat.isValidChar := c.valid
      rw [List.flatMap_cons, List.flatMap_cons, List.append_assoc,
        scanString_escapedChar hvalid, ih, List.append_assoc]
  exact hlist s.toList []

/-! ### What is accepted -/

theorem Fits.exists_cons {r : ℕ × ℕ} {bytes : Bytes} (h : Fits (r :: l) bytes) :
    ∃ c rest, bytes = c :: rest ∧ (r.1 ≤ c ∧ c ≤ r.2) ∧ Fits l rest := by
  cases h with
  | cons hc h => exact ⟨_, _, rfl, hc, h⟩

theorem Fits.eq_nil {bytes : Bytes} (h : Fits [] bytes) : bytes = [] :=
  List.forall₂_nil_left_iff.mp h

theorem Fits.two {r r' : ℕ × ℕ} {bytes : Bytes} (h : Fits [r, r'] bytes) :
    ∃ c d, bytes = [c, d] ∧ (r.1 ≤ c ∧ c ≤ r.2) ∧ r'.1 ≤ d ∧ d ≤ r'.2 := by
  obtain ⟨c, _, rfl, hc, h⟩ := h.exists_cons
  obtain ⟨d, _, rfl, hd, h⟩ := h.exists_cons
  exact ⟨c, d, by rw [h.eq_nil], hc, hd⟩

theorem Fits.three {r r' r'' : ℕ × ℕ} {bytes : Bytes} (h : Fits [r, r', r''] bytes) :
    ∃ c d e, bytes = [c, d, e] ∧ (r.1 ≤ c ∧ c ≤ r.2) ∧ (r'.1 ≤ d ∧ d ≤ r'.2) ∧
      r''.1 ≤ e ∧ e ≤ r''.2 := by
  obtain ⟨c, _, rfl, hc, h⟩ := h.exists_cons
  obtain ⟨d, e, rfl, hd, he⟩ := h.two
  exact ⟨c, d, e, rfl, hc, hd, he⟩

/-- A first byte with bytes in its ranges behind it is a character. -/
theorem isChar_of_continuation {bytes : Bytes} (hb : continuation b = some l) (h : Fits l bytes) :
    IsChar (b :: bytes) := by
  unfold continuation at hb
  split_ifs at hb with h1 h2 h3 h4 h5 h6 h7 h8
  · cases hb
    rw [h.eq_nil]
    exact Utf8.isChar_one (by omega)
  · cases hb
    obtain ⟨c, _, rfl, hc, h⟩ := h.exists_cons
    rw [h.eq_nil]
    exact Utf8.isChar_two h2 hc
  · cases hb
    obtain ⟨c, d, rfl, hc, hd⟩ := h.two
    simp only at hc
    exact Utf8.isChar_three (by omega) (by omega) hd (by omega) (by omega)
  · cases hb
    obtain ⟨c, d, rfl, hc, hd⟩ := h.two
    exact Utf8.isChar_three (by omega) hc hd (by omega) (by omega)
  · cases hb
    obtain ⟨c, d, rfl, hc, hd⟩ := h.two
    simp only at hc
    exact Utf8.isChar_three (by omega) (by omega) hd (by omega) (by omega)
  · cases hb
    obtain ⟨c, d, e, rfl, hc, hd, he⟩ := h.three
    simp only at hc
    exact Utf8.isChar_four (by omega) (by omega) hd he (by omega) (by omega)
  · cases hb
    obtain ⟨c, d, e, rfl, hc, hd, he⟩ := h.three
    exact Utf8.isChar_four (by omega) hc hd he (by omega) (by omega)
  · cases hb
    obtain ⟨c, d, e, rfl, hc, hd, he⟩ := h.three
    simp only at hc
    exact Utf8.isChar_four (by omega) (by omega) hd he (by omega) (by omega)

theorem codepointBytes_eq (h : n < 0x110000) : codepointBytes n = encode n := by
  have hor : ∀ i a b : ℕ, b < 2 ^ i → 2 ^ i * a ||| b = 2 ^ i * a + b :=
    fun i a b hb => (Nat.two_pow_add_eq_or_of_lt hb a).symm
  have hmask : ∀ a : ℕ, a &&& 0x3F = a % 64 := fun a => Nat.and_two_pow_sub_one_eq_mod a 6
  have htail : ∀ a : ℕ, 0x80 ||| a % 64 = 0x80 + a % 64 := fun a => hor 6 2 _ (by omega)
  have htwo : n ≤ 0x7FF → 0xC0 ||| n / 64 = 0xC0 + n / 64 := fun h => hor 5 6 _ (by omega)
  have hthree : n ≤ 0xFFFF → 0xE0 ||| n / 4096 = 0xE0 + n / 4096 := fun h => hor 4 14 _ (by omega)
  have hfour : 0xF0 ||| n / 262144 = 0xF0 + n / 262144 := hor 3 30 _ (by omega)
  unfold codepointBytes encode
  simp only [hmask, htail, Nat.shiftRight_eq_div_pow, Nat.reducePow]
  by_cases h1 : n < 0x80
  · rw [if_pos h1, if_pos h1]
  by_cases h2 : n ≤ 0x7FF
  · rw [if_neg h1, if_neg h1, if_pos h2, if_pos (by omega : n < 0x800), htwo h2]
  have h2' : ¬ n < 0x800 := by omega
  by_cases h3 : n ≤ 0xFFFF
  · rw [if_neg h1, if_neg h1, if_neg h2, if_neg h2', if_pos h3, if_pos (by omega : n < 0x10000),
      hthree h3]
  · rw [if_neg h1, if_neg h1, if_neg h2, if_neg h2', if_neg h3,
      if_neg (by omega : ¬ n < 0x10000), hfour]

theorem isChar_codepointBytes (h : n.isValidChar) : IsChar (codepointBytes n) := by
  have hlt : n < 0x110000 := by
    rcases h with h | h <;> omega
  exact Utf8.isChar_of_valid h (codepointBytes_eq hlt).symm

/-- What the factors can still add. -/
def room (factors : List ℕ) : ℕ := (factors.map fun factor => 15 <<< factor).sum

/-- What is known of the buffer at a place of `scan_string`. -/
def StringPc.Holds (buffer : Bytes) : StringPc → Prop
  | .next | .escape => IsText buffer
  | .ranges l => ∃ text part, buffer = text ++ part ∧ IsText text ∧
      ∀ bytes, Fits l bytes → IsChar (part ++ bytes)
  | .codepoint factors sum high => IsText buffer ∧ sum + room factors ≤ 0xFFFF ∧
      ∀ h, high = some h → isHighSurrogate h = true
  | .surrogate high | .surrogateU high => IsText buffer ∧ isHighSurrogate high = true

/-- A byte more of a character. -/
theorem holds_ranges {text part : Bytes} (htext : IsText text)
    (h : ∀ bytes, Fits l bytes → IsChar (part ++ bytes)) :
    (if l = [] then .next else .ranges l : StringPc).Holds (text ++ part) := by
  split_ifs with hl
  · subst hl
    have hchar := h [] .nil
    rw [List.append_nil] at hchar
    exact htext.append_char hchar
  · exact ⟨text, part, rfl, htext, h⟩

theorem holds_afterCodepoint {codepoint : ℕ} {high : Option ℕ} (htext : IsText buffer)
    (hle : codepoint ≤ 0xFFFF) (hhigh : ∀ h, high = some h → isHighSurrogate h = true)
    (h : afterCodepoint codepoint high = some (pc', added)) : pc'.Holds (buffer ++ added) := by
  cases high with
  | none =>
    rw [afterCodepoint] at h
    split_ifs at h with h1 h2
    · cases h
      rw [List.append_nil]
      exact ⟨htext, h1⟩
    · cases h
      have h1' : ¬ (0xD800 ≤ codepoint ∧ codepoint ≤ 0xDBFF) := fun hc => h1 (decide_eq_true hc)
      have h2' : ¬ (0xDC00 ≤ codepoint ∧ codepoint ≤ 0xDFFF) := fun hc => h2 (decide_eq_true hc)
      refine htext.append_char (isChar_codepointBytes ?_)
      by_cases hlow : codepoint < 0xD800
      · exact Or.inl hlow
      · exact Or.inr ⟨by omega, by omega⟩
  | some high =>
    rw [afterCodepoint] at h
    split_ifs at h with hlow
    cases h
    have hh := of_decide_eq_true (hhigh high rfl)
    have hl := of_decide_eq_true hlow
    refine htext.append_char (isChar_codepointBytes (Or.inr ?_))
    rw [Nat.shiftLeft_eq]
    omega

/-- **What a byte leaves of it.** -/
theorem holds_step (h : pc.Holds buffer) (hstep : pc.step b = some (pc', added)) :
    pc'.Holds (buffer ++ added) := by
  cases pc with
  | next =>
    rw [StringPc.step] at hstep
    split_ifs at hstep
    · cases hstep
      rw [List.append_nil]
      exact h
    · obtain ⟨l, hl, he⟩ := Option.map_eq_some_iff.mp hstep
      cases he
      exact holds_ranges h fun bytes hfits => isChar_of_continuation hl hfits
  | ranges l =>
    obtain ⟨text, part, rfl, htext, hpart⟩ := h
    cases l with
    | nil => cases hstep
    | cons r l =>
      have hstep' : (if r.1 ≤ b ∧ b ≤ r.2 then
          some ((if l = [] then .next else .ranges l : StringPc), [b]) else none) =
            some (pc', added) := hstep
      by_cases hr : r.1 ≤ b ∧ b ≤ r.2
      case neg =>
        rw [if_neg hr] at hstep'
        cases hstep'
      rw [if_pos hr] at hstep'
      cases hstep'
      rw [List.append_assoc]
      refine holds_ranges htext fun bytes hfits => ?_
      rw [List.append_assoc]
      exact hpart _ (.cons hr hfits)
  | escape =>
    rw [StringPc.step] at hstep
    split_ifs at hstep
    · cases hstep
      rw [List.append_nil]
      exact ⟨h, by decide, fun _ hnone => by cases hnone⟩
    · obtain ⟨c, hc, he⟩ := Option.map_eq_some_iff.mp hstep
      cases he
      have hlt : c < 0x80 := by
        unfold escaped at hc
        split_ifs at hc
        all_goals
          cases hc
          decide
      exact h.append_char (Utf8.isChar_one hlt)
  | codepoint factors sum high =>
    obtain ⟨htext, hroom, hhigh⟩ := h
    cases factors with
    | nil => cases hstep
    | cons factor factors =>
      rw [StringPc.step] at hstep
      obtain ⟨digit, hdigit, hstep⟩ := Option.bind_eq_some_iff.mp hstep
      have hlt : digit ≤ 15 := by
        unfold hexDigit at hdigit
        split_ifs at hdigit
        all_goals
          cases hdigit
          omega
      have hle : digit <<< factor ≤ 15 <<< factor := by
        rw [Nat.shiftLeft_eq, Nat.shiftLeft_eq]
        exact Nat.mul_le_mul_right _ hlt
      rw [room, List.map_cons, List.sum_cons] at hroom
      split_ifs at hstep with hnil
      · exact holds_afterCodepoint htext (by omega) hhigh hstep
      · cases hstep
        rw [List.append_nil]
        exact ⟨htext, by unfold room; omega, hhigh⟩
  | surrogate high =>
    rw [StringPc.step] at hstep
    split_ifs at hstep
    cases hstep
    rw [List.append_nil]
    exact h
  | surrogateU high =>
    rw [StringPc.step] at hstep
    split_ifs at hstep
    cases hstep
    rw [List.append_nil]
    exact ⟨h.1, by decide, fun _ hsome => by cases hsome; exact h.2⟩

/-- **What is accepted are the bytes of a string.** -/
theorem isText_of_scanString {text : Bytes} {s : Bytes} (h : pc.Holds buffer)
    (hscan : scanString pc buffer text = (.valueString s, rest)) : IsText s := by
  induction text generalizing pc buffer with
  | nil =>
    rw [scanString] at hscan
    cases hscan
  | cons b text ih =>
    rw [scanString] at hscan
    split_ifs at hscan with hcloses
    · cases hscan
      cases pc with
      | next => exact h
      | _ => cases hcloses
    · cases hstep : pc.step b with
      | none =>
        rw [hstep] at hscan
        cases hscan
      | some x =>
        obtain ⟨pc', added⟩ := x
        rw [hstep] at hscan
        exact ih (holds_step h hstep) hscan

/-- **No string that is not UTF-8 comes from a text**, whatever bytes and escapes it has. -/
theorem exists_string_of_scanString {text s : Bytes}
    (h : scanString .next [] text = (.valueString s, rest)) : ∃ t : String, Utf8.bytes t = s := by
  have hnil : StringPc.next.Holds [] := Utf8.isText_nil
  exact isText_of_scanString hnil h

/-- A pair of surrogates. -/
theorem exists_string_surrogates : ∃ t : String, Utf8.bytes t = [0xF0, 0x9F, 0x98, 0x80] :=
  have hscan : scanString .next [] [0x5C, 0x75, 0x64, 0x38, 0x33, 0x64, 0x5C, 0x75, 0x64, 0x65, 0x30,
      0x30, 0x22] = (.valueString [0xF0, 0x9F, 0x98, 0x80], []) := rfl
  exists_string_of_scanString hscan

end Lexer

/-! ### What can be written -/

namespace Serializer

open Lexer (StringPc continuation)

variable {state codepoint index last b : ℕ} {buffer l out : Bytes}

theorem ok_of_bind {e : Except Fault Bytes} {f : Bytes → Except Fault Bytes} {x : Bytes}
    (h : e >>= f = .ok x) : ∃ y, e = .ok y := by
  cases e with
  | ok y => exact ⟨y, rfl⟩
  | error e => cases h

/-- The ranges of the bytes for which a state waits. -/
def awaited (state : ℕ) : List (ℕ × ℕ) :=
  if state = 2 then [(0x80, 0xBF)]
  else if state = 3 then [(0x80, 0xBF), (0x80, 0xBF)]
  else if state = 4 then [(0xA0, 0xBF), (0x80, 0xBF)]
  else if state = 5 then [(0x80, 0x9F), (0x80, 0xBF)]
  else if state = 6 then [(0x90, 0xBF), (0x80, 0xBF), (0x80, 0xBF)]
  else if state = 7 then [(0x80, 0xBF), (0x80, 0xBF), (0x80, 0xBF)]
  else if state = 8 then [(0x80, 0x8F), (0x80, 0xBF), (0x80, 0xBF)]
  else []

/-- The place of `scan_string` that waits for the same bytes. -/
def place (state : ℕ) : StringPc :=
  if awaited state = [] then .next else .ranges (awaited state)

theorem lead_table : ∀ b < 256, (decode 0 0 b).1 = 1 ∨ (decode 0 0 b).1 < 9 ∧
    ((decode 0 0 b).1 = 0 ∧ b < 0x80 ∨ continuation b = some (awaited (decode 0 0 b).1)) := by
  decide +kernel

theorem tail_table : ∀ state ∈ [2, 3, 4, 5, 6, 7, 8], ∀ b < 256, (decode state 0 b).1 = 1 ∨
    (decode state 0 b).1 < 9 ∧ ∃ r ∈ awaited state,
      awaited state = r :: awaited (decode state 0 b).1 ∧ r.1 ≤ b ∧ b ≤ r.2 := by
  decide +kernel

/-- A byte that the table takes is one that `scan_string` may take. -/
theorem holds_decode (hb : b < 256) (hstate : state < 9) (hne : state ≠ 1)
    (h : (place state).Holds buffer) (hdecode : (decode state codepoint b).1 ≠ 1) :
    (decode state codepoint b).1 < 9 ∧ (place (decode state codepoint b).1).Holds (buffer ++ [b]) := by
  rw [show (decode state codepoint b).1 = (decode state 0 b).1 from rfl] at hdecode ⊢
  by_cases h0 : state = 0
  · subst h0
    have htext : IsText buffer := h
    obtain hno | ⟨hlt, ⟨hzero, hchar⟩ | hcontinuation⟩ := lead_table b hb
    · exact absurd hno hdecode
    · refine ⟨hlt, ?_⟩
      rw [hzero]
      exact htext.append_char (Utf8.isChar_one hchar)
    · exact ⟨hlt, Lexer.holds_ranges htext fun bytes hfits =>
        Lexer.isChar_of_continuation hcontinuation hfits⟩
  · have hmem : state ∈ [2, 3, 4, 5, 6, 7, 8] := by
      simp only [List.mem_cons, List.not_mem_nil, or_false]
      omega
    obtain hno | ⟨hlt, r, -, hawaited, hr⟩ := tail_table state hmem b hb
    · exact absurd hno hdecode
    · refine ⟨hlt, ?_⟩
      rw [place, hawaited, if_neg (List.cons_ne_nil _ _)] at h
      obtain ⟨text, part, rfl, htext, hpart⟩ := h
      rw [List.append_assoc]
      refine Lexer.holds_ranges htext fun bytes hfits => ?_
      rw [List.append_assoc]
      exact hpart _ (.cons hr hfits)

theorem isText_of_dumpEscaped (hbytes : ∀ b ∈ l, b < 256) (hstate : state < 9) (hne : state ≠ 1)
    (h : (place state).Holds buffer) (hdump : dumpEscaped state codepoint index last l = .ok out) :
    IsText (buffer ++ l) := by
  induction l generalizing state codepoint index last buffer out with
  | nil =>
    rw [dumpEscaped] at hdump
    split_ifs at hdump with h0
    subst h0
    rw [List.append_nil]
    exact h
  | cons b l ih =>
    rw [dumpEscaped] at hdump
    have hrest : ∀ b ∈ l, b < 256 := fun c hc => hbytes c (List.mem_cons_of_mem _ hc)
    have hstep : (decode state codepoint b).1 ≠ 1 → _ :=
      holds_decode (hbytes b (List.mem_cons_self ..)) hstate hne h
    generalize decode state codepoint b = p at hdump hstep
    obtain ⟨state', codepoint'⟩ := p
    simp only at hdump hstep
    have hout : ∃ index last out,
        state' ≠ 1 ∧ dumpEscaped state' codepoint' index last l = .ok out := by
      by_cases h0 : state' = 0
      · subst h0
        rw [if_pos rfl] at hdump
        obtain ⟨out, hout⟩ := ok_of_bind hdump
        exact ⟨_, _, out, by decide, hout⟩
      rw [if_neg h0] at hdump
      split_ifs at hdump with h1
      obtain ⟨out, hout⟩ := ok_of_bind hdump
      exact ⟨_, _, out, h1, hout⟩
    obtain ⟨index', last', out', hne', hout⟩ := hout
    obtain ⟨hlt, hholds⟩ := hstep hne'
    have htext : IsText ((buffer ++ [b]) ++ l) := ih hrest hlt hne' hholds hout
    rwa [List.append_assoc] at htext

/-- **`dump_escaped` accepts what is UTF-8 and nothing else**; and what it writes, up to the
quotation mark behind it, is read as what it was given. -/
theorem dumpEscaped_iff (hbytes : ∀ b ∈ l, b < 256) :
    ((∃ out, dumpEscaped 0 0 0 0 l = .ok out) ↔ IsText l) ∧
    ∀ out, dumpEscaped 0 0 0 0 l = .ok out → ∀ rest : Bytes,
      Lexer.scanString .next [] (out ++ 0x22 :: rest) = (.valueString l, rest) := by
  have haccepts : ∀ out, dumpEscaped 0 0 0 0 l = .ok out → IsText l := by
    intro out hout
    have hnil : (place 0).Holds [] := Utf8.isText_nil
    exact isText_of_dumpEscaped hbytes (by decide) (by decide) hnil hout
  refine ⟨⟨fun ⟨out, hout⟩ => haccepts out hout, ?_⟩, ?_⟩
  · rintro ⟨s, rfl⟩
    exact ⟨_, dumpEscaped_bytes s 0 0 0⟩
  · intro out hout
    obtain ⟨s, rfl⟩ := haccepts out hout
    rw [dumpEscaped_bytes] at hout
    cases hout
    exact Lexer.scanString_escaped s

/-- `ü` -/
theorem dumpEscaped_iff_umlaut : IsText [0xC3, 0xBC] ∧ ∀ rest : Bytes,
    Lexer.scanString .next [] ([0xC3, 0xBC] ++ 0x22 :: rest) =
      (.valueString [0xC3, 0xBC], rest) := by
  obtain ⟨haccepts, hreads⟩ := dumpEscaped_iff (l := [0xC3, 0xBC]) (by decide)
  exact ⟨haccepts.mp ⟨[0xC3, 0xBC], rfl⟩, hreads _ rfl⟩

end Serializer

end Nonsense
