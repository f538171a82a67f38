import Nonsense.Text.RoundTrip

/-!
# What `json::parse` accepts

A token of a text is `Valid`: a string is UTF-8, however it was escaped, an integer has 64
bits, and a number is one that `strtod` gives.  So what `json::parse` makes of the tokens is
textual (`textual_of_parseText`), and can be written and read again.
-/

namespace Nonsense

namespace Lexer

variable {F : Floats} {text : Bytes}

/-- What is known of a token. -/
def Token.Valid (F : Floats) : Token → Prop
  | .valueString s => Utf8.IsText s
  | .valueUnsigned n => n < 2 ^ 64
  | .valueInteger n => -2 ^ 63 ≤ n ∧ n ≤ 0
  | .valueFloat x => ∀ y, x = some y → F.IsValue y.magnitude
  | _ => True

theorem valid_strtod : Token.Valid F (.valueFloat (strtod F text)) := by
  intro x hx
  unfold strtod at hx
  split at hx
  all_goals
    obtain ⟨q, hq, rfl⟩ := Option.map_eq_some_iff.mp hx
    exact ⟨_, hq⟩

theorem valid_numberToken (type : NumberType) : Token.Valid F (numberToken F text type) := by
  cases type with
  | unsigned =>
    rw [numberToken]
    split_ifs with hlt
    · exact hlt
    · exact valid_strtod
  | integer =>
    rw [numberToken]
    split_ifs with hle
    · exact ⟨by omega, by omega⟩
    · exact valid_strtod
  | float => exact valid_strtod

theorem valid_scanNumber (pc : NumberPc) (type : NumberType) (buffer text : Bytes) :
    Token.Valid F (scanNumber F pc type buffer text).1 := by
  induction text generalizing pc type buffer with
  | nil =>
    rw [scanNumber]
    split
    · exact valid_numberToken type
    · exact trivial
  | cons b text ih =>
    rw [scanNumber]
    split
    · exact ih _ _ _
    · exact valid_numberToken type
    · exact trivial

theorem valid_scanString {text : Bytes} : Token.Valid F (scanString .next [] text).1 := by
  have hkind : ∀ (pc : StringPc) (buffer text : Bytes),
      (∃ s, (scanString pc buffer text).1 = .valueString s) ∨
        (scanString pc buffer text).1 = .parseError := by
    intro pc buffer text
    induction text generalizing pc buffer with
    | nil => exact Or.inr rfl
    | cons b text ih =>
      rw [scanString]
      split_ifs
      · exact Or.inl ⟨buffer, rfl⟩
      · cases pc.step b with
        | none => exact Or.inr rfl
        | some p => exact ih _ _
  obtain ⟨s, hs⟩ | herror := hkind .next [] text
  · rw [hs]
    have hnil : StringPc.next.Holds [] := Utf8.isText_nil
    exact isText_of_scanString hnil (Prod.ext hs rfl)
  · rw [herror]
    exact trivial

theorem valid_scanLiteral {token : Token} (h : Token.Valid F token) (literal text : Bytes) :
    Token.Valid F (scanLiteral literal token text).1 := by
  induction literal generalizing text with
  | nil => exact h
  | cons c literal ih =>
    cases text with
    | nil => exact trivial
    | cons b text =>
      rw [scanLiteral]
      split_ifs
      · exact ih text
      · exact trivial

theorem valid_ite {c : Prop} [Decidable c] {x y : Token × Bytes} (hx : Token.Valid F x.1)
    (hy : Token.Valid F y.1) : Token.Valid F (if c then x else y).1 := by
  split_ifs
  · exact hx
  · exact hy

theorem valid_scan (text : Bytes) : Token.Valid F (scan F text).1 := by
  induction text with
  | nil => exact trivial
  | cons b text ih =>
    rw [scan]
    split_ifs
    · exact ih
    · unfold scanFrom
      refine valid_ite trivial (valid_ite trivial (valid_ite trivial (valid_ite trivial
        (valid_ite trivial (valid_ite trivial ?_)))))
      have hliteral : ∀ t literal, Token.Valid F t → Token.Valid F (scanLiteral literal t text).1 :=
        fun _ _ h => valid_scanLiteral h _ _
      refine valid_ite (hliteral .literalTrue _ trivial) (valid_ite (hliteral .literalFalse _ trivial)
        (valid_ite (hliteral .literalNull _ trivial) (valid_ite valid_scanString ?_)))
      refine valid_ite (valid_scanNumber _ _ _ _) (valid_ite (valid_scanNumber _ _ _ _)
        (valid_ite (valid_scanNumber _ _ _ _) ?_))
      exact valid_ite trivial trivial

theorem valid_tokens (n : ℕ) (text : Bytes) {t : Token} (h : t ∈ tokens F n text) :
    Token.Valid F t := by
  induction n generalizing text with
  | zero => cases h
  | succ n ih =>
    have hscan := valid_scan (F := F) text
    rw [tokens] at h
    generalize scan F text = p at h hscan
    obtain ⟨token, rest⟩ := p
    have hcons : t = token ∨ t ∈ tokens F n rest := by
      cases token with
      | endOfInput | parseError => exact Or.inl (List.mem_singleton.mp h)
      | _ => exact List.mem_cons.mp h
    obtain rfl | hrest := hcons
    · exact hscan
    · exact ih rest hrest

end Lexer

namespace Json

variable {F : Floats} {m : Object} {k : String} {v : Json}

theorem textual_empty : (Json.object []).Textual F :=
  .object List.Pairwise.nil fun _ he => absurd he List.not_mem_nil

theorem Textual.ordered (h : (Json.object m).Textual F) : m.Ordered := by
  cases h with
  | object hordered _ => exact hordered

theorem Textual.mem {e : String × Json} (h : (Json.object m).Textual F) (he : e ∈ m) :
    e.2.Textual F := by
  cases h with
  | object _ hm => exact hm e he

theorem Textual.find (h : (Json.object m).Textual F) (hv : m.find k = some v) : v.Textual F :=
  h.mem (OrdMap.mem_of_find hv)

theorem Textual.insert (h : (Json.object m).Textual F) (hv : v.Textual F) :
    (Json.object (m.insert k v)).Textual F := by
  refine .object h.ordered.insert fun e he => ?_
  obtain rfl | he := OrdMap.mem_insert he
  · exact hv
  · exact h.mem he

theorem Textual.assign {j j' : Json} (h : j.Textual F) (hv : v.Textual F)
    (hassign : j.assign k v = .ok j') : j'.Textual F := by
  cases j with
  | null =>
    cases hassign
    exact textual_empty.insert hv
  | object m =>
    cases hassign
    exact h.insert hv
  | _ => cases hassign

end Json

namespace Parser

open Lexer

variable {F : Floats} {ts : List Token}

/-- What is known of an item. -/
def Item.Textual (F : Floats) : Item → Prop
  | .value v => v.Textual F
  | .elements l => ∀ v ∈ l, v.Textual F
  | .members m => (Json.object m).Textual F

theorem textual_scalar {t : Token} {v : Json} (ht : Token.Valid F t) (h : scalar t = some v) :
    v.Textual F := by
  cases t with
  | literalTrue | literalFalse =>
    cases h
    exact .boolean _
  | literalNull =>
    cases h
    exact .null
  | valueString s =>
    cases h
    exact .string _
  | valueUnsigned n =>
    cases h
    have hlt : n < 2 ^ 64 := ht
    exact .integer (by omega) (by omega)
  | valueInteger n =>
    cases h
    obtain ⟨hlow, hhigh⟩ := ht
    exact .integer hlow (by omega)
  | valueFloat x =>
    cases x with
    | none => cases h
    | some x =>
      cases h
      exact .float (ht x rfl)
  | _ => cases h

theorem Reads.textual {item : Item} (h : Reads ts item)
    (hts : ∀ t ∈ ts, Token.Valid F t) : item.Textual F := by
  induction h with
  | scalar h => exact textual_scalar (hts _ List.mem_cons_self) h
  | emptyArray => exact .array fun v hv => absurd hv List.not_mem_nil
  | array h ih =>
    exact .array (ih fun t ht => hts t (List.mem_append_left _ (List.mem_cons_of_mem _ ht)))
  | emptyObject => exact Json.textual_empty
  | object h ih =>
    exact ih fun t ht => hts t (List.mem_append_left _ (List.mem_cons_of_mem _ ht))
  | element h ih =>
    intro v hv
    rw [List.mem_singleton.mp hv]
    exact ih hts
  | nextElement h hv ih ihv =>
    intro w hw
    obtain hw | hw := List.mem_append.mp hw
    · exact ih (fun t ht => hts t (List.mem_append_left _ ht)) w hw
    · rw [List.mem_singleton.mp hw]
      exact ihv fun t ht => hts t (List.mem_append_right _ (List.mem_cons_of_mem _ ht))
  | member hv ihv =>
    have hvalue := ihv fun t ht => hts t (List.mem_cons_of_mem _ (List.mem_cons_of_mem _ ht))
    exact Json.textual_empty.insert hvalue
  | nextMember h hv ih ihv =>
    refine (ih fun t ht => hts t (List.mem_append_left _ ht)).insert (ihv fun t ht => ?_)
    exact hts t (List.mem_append_right _
      (List.mem_cons_of_mem _ (List.mem_cons_of_mem _ (List.mem_cons_of_mem _ ht))))

end Parser

open Lexer

variable {F : Floats} {text : Bytes}

/-- **What is accepted can be said.** -/
theorem textual_of_parseText {v : Json} (h : parseText F text = some v) : v.Textual F := by
  obtain ⟨text', ts, rest, -, htokens, hreads⟩ := parseText_eq_some_iff.mp h
  refine hreads.textual fun t ht => valid_tokens (text'.length + 1) text' ?_
  have hmem : t ∈ tokenize F text' := by
    rw [htokens]
    exact List.mem_append_left _ ht
  exact hmem

/-- **What is accepted can be written and sent, and is read again as the same value.** -/
theorem parseText_again {v : Json} (hF : F.Lawful) (h : parseText F text = some v) :
    v.Textual F ∧ ∃ text', Serializer.dump F v = .ok text' ∧ IsBusString text' ∧
      parseText F text' = some v := by
  have hv := textual_of_parseText h
  obtain ⟨text', ts, hwritten⟩ := exists_written hF hv
  exact ⟨hv, text', hwritten.dumps, hwritten.busString, hwritten.parse⟩

/-- A key that comes again, digits that are not needed, and blanks. -/
theorem parseText_again_members : ∃ v,
    parseText threeHalves (Utf8.bytes " \x7b\"a\":1, \"\\u0061\" : 15.00e-1 \x7d") = some v ∧
      parseText threeHalves (Utf8.bytes "\x7b\"a\":1.5\x7d") = some v := by
  have hdumps : ((parseText threeHalves (Utf8.bytes " \x7b\"a\":1, \"\\u0061\" : 15.00e-1 \x7d")).bind
      fun v => (Serializer.dump threeHalves v).toOption) = some (Utf8.bytes "\x7b\"a\":1.5\x7d") := by
    decide +kernel
  obtain ⟨v, hparse, htext⟩ := Option.bind_eq_some_iff.mp hdumps
  obtain ⟨-, text', hdump, -, hagain⟩ := parseText_again lawful_threeHalves hparse
  rw [hdump] at htext
  cases htext
  exact ⟨v, hparse, hagain⟩

end Nonsense
