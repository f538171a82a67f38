import Mathlib.Data.List.Basic
import Mathlib.Data.Nat.Notation
import Mathlib.Tactic.SplitIfs

/-!
# UTF-8

A text as bytes, which are natural numbers: `encode` gives the bytes of a code point, `bytes`
those of a string, and `decode` reads a string back (`decode_bytes`).  What is made of a lead
byte and the right number of bytes behind it, and stands for a code point that needs so many,
is the encoding of a character (`isChar_two`, `isChar_three`, `isChar_four`).
-/

namespace Nonsense

namespace Utf8

/-- The bytes of a code point. -/
def encode (n : ℕ) : List ℕ :=
  if n < 0x80 then [n]
  else if n < 0x800 then [0xC0 + n / 64, 0x80 + n % 64]
  else if n < 0x10000 then [0xE0 + n / 4096, 0x80 + n / 64 % 64, 0x80 + n % 64]
  else [0xF0 + n / 262144, 0x80 + n / 4096 % 64, 0x80 + n / 64 % 64, 0x80 + n % 64]

/-- The bytes of a string. -/
def bytes (s : String) : List ℕ := s.toList.flatMap fun c => encode c.toNat

/-- The characters of well-formed bytes. -/
def decodeList : List ℕ → List Char
  | [] => []
  | a :: rest =>
    if a < 0x80 then Char.ofNat a :: decodeList rest
    else match rest with
      | [] => []
      | b :: rest =>
        if a < 0xE0 then Char.ofNat ((a - 0xC0) * 64 + (b - 0x80)) :: decodeList rest
        else match rest with
          | [] => []
          | c :: rest =>
            if a < 0xF0 then
              Char.ofNat ((a - 0xE0) * 4096 + (b - 0x80) * 64 + (c - 0x80)) :: decodeList rest
            else match rest with
              | [] => []
              | d :: rest =>
                Char.ofNat ((a - 0xF0) * 262144 + (b - 0x80) * 4096 + (c - 0x80) * 64 + (d - 0x80))
                  :: decodeList rest

/-- The string of well-formed bytes. -/
def decode (l : List ℕ) : String := String.ofList (decodeList l)

variable {n : ℕ} {l l' : List ℕ} {s t : String}

theorem char_lt (c : Char) : c.toNat < 0x110000 := by
  rcases c.valid with h | ⟨-, h⟩
  · exact Nat.lt_trans h (by decide)
  · exact h

@[simp] theorem bytes_empty : bytes "" = [] := rfl

theorem bytes_ofList (l : List Char) :
    bytes (String.ofList l) = l.flatMap fun c => encode c.toNat := by
  rw [bytes, String.toList_ofList]

theorem bytes_append : bytes (s ++ t) = bytes s ++ bytes t := by
  rw [bytes, String.toList_append, List.flatMap_append, bytes, bytes]

theorem encode_of_lt (h : n < 0x80) : encode n = [n] := if_pos h

section Decode

variable {a b c d : ℕ}

theorem decodeList_one (h : a < 0x80) : decodeList (a :: l) = Char.ofNat a :: decodeList l := by
  rw [decodeList.eq_def]
  exact if_pos h

theorem decodeList_two (h : ¬ a < 0x80) (h' : a < 0xE0) :
    decodeList (a :: b :: l) = Char.ofNat ((a - 0xC0) * 64 + (b - 0x80)) :: decodeList l := by
  rw [decodeList.eq_def]
  exact (if_neg h).trans (if_pos h')

theorem decodeList_three (h : ¬ a < 0x80) (h' : ¬ a < 0xE0) (h'' : a < 0xF0) :
    decodeList (a :: b :: c :: l) =
      Char.ofNat ((a - 0xE0) * 4096 + (b - 0x80) * 64 + (c - 0x80)) :: decodeList l := by
  rw [decodeList.eq_def]
  exact (if_neg h).trans ((if_neg h').trans (if_pos h''))

theorem decodeList_four (h : ¬ a < 0x80) (h' : ¬ a < 0xE0) (h'' : ¬ a < 0xF0) :
    decodeList (a :: b :: c :: d :: l) =
      Char.ofNat ((a - 0xF0) * 262144 + (b - 0x80) * 4096 + (c - 0x80) * 64 + (d - 0x80)) ::
        decodeList l := by
  rw [decodeList.eq_def]
  exact (if_neg h).trans ((if_neg h').trans (if_neg h''))

end Decode

theorem decodeList_encode (c : Char) (l : List ℕ) :
    decodeList (encode c.toNat ++ l) = c :: decodeList l := by
  have hc : Char.ofNat c.toNat = c := Char.ofNat_toNat c
  have hlt := char_lt c
  generalize c.toNat = n at *
  unfold encode
  split_ifs with h1 h2 h3
  · rw [List.singleton_append, decodeList_one h1, hc]
  · have hv : (0xC0 + n / 64 - 0xC0) * 64 + (0x80 + n % 64 - 0x80) = n := by omega
    rw [List.cons_append, List.singleton_append, decodeList_two (by omega) (by omega), hv, hc]
  · have hv : (0xE0 + n / 4096 - 0xE0) * 4096 + (0x80 + n / 64 % 64 - 0x80) * 64 +
        (0x80 + n % 64 - 0x80) = n := by omega
    rw [List.cons_append, List.cons_append, List.singleton_append,
      decodeList_three (by omega) (by omega) (by omega), hv, hc]
  · have hv : (0xF0 + n / 262144 - 0xF0) * 262144 + (0x80 + n / 4096 % 64 - 0x80) * 4096 +
        (0x80 + n / 64 % 64 - 0x80) * 64 + (0x80 + n % 64 - 0x80) = n := by omega
    rw [List.cons_append, List.cons_append, List.cons_append, List.singleton_append,
      decodeList_four (by omega) (by omega) (by omega), hv, hc]

/-- **Bytes of a string are read as that string.** -/
theorem decode_bytes (s : String) : decode (bytes s) = s := by
  have hlist : ∀ l : List Char, decodeList (l.flatMap fun c => encode c.toNat) = l := by
    intro l
    induction l with
    | nil => rfl
    | cons c l ih => rw [List.flatMap_cons, decodeList_encode, ih]
  rw [decode, bytes, hlist, String.ofList_toList]

/-! ### Well-formed sequences -/

/-- The bytes encode a character. -/
def IsChar (l : List ℕ) : Prop := ∃ c : Char, encode c.toNat = l

theorem toNat_ofNat (h : n.isValidChar) : (Char.ofNat n).toNat = n := by
  rw [Char.ofNat, dif_pos h]
  rfl

theorem isChar_of_valid (h : n.isValidChar) (hl : encode n = l) : IsChar l :=
  ⟨Char.ofNat n, by rw [toNat_ofNat h, hl]⟩

theorem isChar_one {a : ℕ} (ha : a < 0x80) : IsChar [a] :=
  isChar_of_valid (Or.inl (by omega)) (encode_of_lt ha)

theorem isChar_two {a b : ℕ} (ha : 0xC2 ≤ a ∧ a ≤ 0xDF) (hb : 0x80 ≤ b ∧ b ≤ 0xBF) :
    IsChar [a, b] := by
  obtain ⟨n, hn⟩ : ∃ n, n = (a - 0xC0) * 64 + (b - 0x80) := ⟨_, rfl⟩
  have h0 : 0xC0 + n / 64 = a := by omega
  have h1 : 0x80 + n % 64 = b := by omega
  refine isChar_of_valid (n := n) (Or.inl (by omega)) ?_
  rw [encode, if_neg (by omega), if_pos (by omega), h0, h1]

theorem isChar_three {a b c : ℕ} (ha : 0xE0 ≤ a ∧ a ≤ 0xEF) (hb : 0x80 ≤ b ∧ b ≤ 0xBF)
    (hc : 0x80 ≤ c ∧ c ≤ 0xBF) (hlong : a = 0xE0 → 0xA0 ≤ b) (hsurrogate : a = 0xED → b ≤ 0x9F) :
    IsChar [a, b, c] := by
  obtain ⟨n, hn⟩ : ∃ n, n = (a - 0xE0) * 4096 + (b - 0x80) * 64 + (c - 0x80) := ⟨_, rfl⟩
  have h0 : 0xE0 + n / 4096 = a := by omega
  have h1 : 0x80 + n / 64 % 64 = b := by omega
  have h2 : 0x80 + n % 64 = c := by omega
  have hvalid : n.isValidChar := by
    by_cases hlow : a ≤ 0xED
    · exact Or.inl (by omega)
    · exact Or.inr ⟨by omega, by omega⟩
  refine isChar_of_valid hvalid ?_
  rw [encode, if_neg (by omega), if_neg (by omega), if_pos (by omega), h0, h1, h2]

theorem isChar_four {a b c d : ℕ} (ha : 0xF0 ≤ a ∧ a ≤ 0xF4) (hb : 0x80 ≤ b ∧ b ≤ 0xBF)
    (hc : 0x80 ≤ c ∧ c ≤ 0xBF) (hd : 0x80 ≤ d ∧ d ≤ 0xBF) (hlong : a = 0xF0 → 0x90 ≤ b)
    (hhigh : a = 0xF4 → b ≤ 0x8F) : IsChar [a, b, c, d] := by
  obtain ⟨n, hn⟩ : ∃ n, n =
    (a - 0xF0) * 262144 + (b - 0x80) * 4096 + (c - 0x80) * 64 + (d - 0x80) := ⟨_, rfl⟩
  have h0 : 0xF0 + n / 262144 = a := by omega
  have h1 : 0x80 + n / 4096 % 64 = b := by omega
  have h2 : 0x80 + n / 64 % 64 = c := by omega
  have h3 : 0x80 + n % 64 = d := by omega
  refine isChar_of_valid (n := n) (Or.inr ⟨by omega, by omega⟩) ?_
  rw [encode, if_neg (by omega), if_neg (by omega), if_neg (by omega), h0, h1, h2, h3]

/-- The bytes are those of a string. -/
def IsText (l : List ℕ) : Prop := ∃ s, bytes s = l

theorem isText_nil : IsText [] := ⟨"", rfl⟩

theorem IsText.append_char (h : IsText l) (h' : IsChar l') : IsText (l ++ l') := by
  obtain ⟨s, rfl⟩ := h
  obtain ⟨c, rfl⟩ := h'
  refine ⟨s ++ String.ofList [c], ?_⟩
  rw [bytes_append, bytes_ofList, List.flatMap_singleton]

theorem IsText.append (h : IsText l) (h' : IsText l') : IsText (l ++ l') := by
  obtain ⟨s, rfl⟩ := h
  obtain ⟨t, rfl⟩ := h'
  exact ⟨s ++ t, bytes_append⟩

theorem IsChar.isText (h : IsChar l) : IsText l := isText_nil.append_char h

theorem isText_ascii (h : ∀ b ∈ l, b < 0x80) : IsText l := by
  induction l with
  | nil => exact isText_nil
  | cons b l ih =>
    exact (isChar_one (h b List.mem_cons_self)).isText.append
      (ih fun c hc => h c (List.mem_cons_of_mem _ hc))

end Utf8

end Nonsense
