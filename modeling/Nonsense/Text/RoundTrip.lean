import Nonsense.Text.Grammar
import Nonsense.Text.Numbers
import Nonsense.Text.Strings

/-!
# A value, written and read

`Json.Textual` values are those a text can say: integers of 64 bits, numbers that `strtod`
gives, objects in the order of their keys.  `dump` throws for none of them, and writes a text
that is UTF-8 and has no null byte in it, so that it is a string of C and of the bus; and
`json::parse` reads the value back (`parseText_dump`).  What `json::parse` accepts is textual
(`textual_of_parseText`).
-/

namespace Nonsense

open Lexer Nonsense.Parser Serializer

/-! ### The tokens of a text -/

namespace Lexer

variable {F : Floats} {text rest buffer : Bytes} {b : ℕ}

theorem length_scanString (pc : StringPc) (buffer text : Bytes) :
    (scanString pc buffer text).2.length ≤ text.length := by
  induction text generalizing pc buffer with
  | nil => exact Nat.le_refl 0
  | cons b text ih =>
    rw [scanString]
    split_ifs
    · exact Nat.le_succ _
    · cases pc.step b with
      | none => exact Nat.le_succ _
      | some p => exact (ih _ _).trans (Nat.le_succ _)

theorem length_scanNumber (pc : NumberPc) (type : NumberType) (buffer text : Bytes) :
    (scanNumber F pc type buffer text).2.length ≤ text.length := by
  induction text generalizing pc type buffer with
  | nil =>
    rw [scanNumber]
    split <;> exact Nat.le_refl 0
  | cons b text ih =>
    rw [scanNumber]
    split
    · exact (ih _ _ _).trans (Nat.le_succ _)
    · exact Nat.le_refl _
    · exact Nat.le_succ _

theorem length_scanLiteral (literal : Bytes) (token : Token) (text : Bytes) :
    (scanLiteral literal token text).2.length ≤ text.length := by
  induction literal generalizing text with
  | nil => exact Nat.le_refl _
  | cons c literal ih =>
    cases text with
    | nil => exact Nat.le_refl 0
    | cons b text =>
      rw [scanLiteral]
      split_ifs
      · exact (ih text).trans (Nat.le_succ _)
      · exact Nat.le_succ _

theorem length_ite {c : Prop} [Decidable c] {x y : Token × Bytes} {n : ℕ} (hx : x.2.length ≤ n)
    (hy : y.2.length ≤ n) : (if c then x else y).2.length ≤ n := by
  split_ifs
  · exact hx
  · exact hy

theorem length_scanFrom (b : ℕ) (rest : Bytes) : (scanFrom F b rest).2.length ≤ rest.length := by
  unfold scanFrom
  -- punctuation
  refine length_ite (Nat.le_refl _) (length_ite (Nat.le_refl _) (length_ite (Nat.le_refl _)
    (length_ite (Nat.le_refl _) (length_ite (Nat.le_refl _) (length_ite (Nat.le_refl _) ?_)))))
  refine length_ite (length_scanLiteral _ _ _) (length_ite (length_scanLiteral _ _ _)
    (length_ite (length_scanLiteral _ _ _) (length_ite (length_scanString _ _ _) ?_)))
  refine length_ite (length_scanNumber _ _ _ _) (length_ite (length_scanNumber _ _ _ _)
    (length_ite (length_scanNumber _ _ _ _) ?_))
  exact length_ite (Nat.le_refl _) (Nat.le_refl _)

/-- A token takes a byte at least. -/
theorem length_scan (h : text ≠ []) : (scan F text).2.length < text.length := by
  induction text with
  | nil => exact absurd rfl h
  | cons b text ih =>
    rw [scan]
    split_ifs
    · by_cases htext : text = []
      · subst htext
        exact Nat.zero_lt_succ 0
      · exact (ih htext).trans (Nat.lt_succ_self _)
    · exact Nat.lt_succ_of_le (length_scanFrom b text)

/-- The tokens do not depend on a bound that is above the length. -/
theorem tokens_eq {n n' : ℕ} (h : text.length < n) (h' : text.length < n') :
    tokens F n text = tokens F n' text := by
  induction n generalizing n' text with
  | zero => exact absurd h (Nat.not_lt_zero _)
  | succ n ih =>
    obtain ⟨n', rfl⟩ := Nat.exists_eq_add_of_lt (Nat.zero_lt_of_lt h')
    rw [Nat.zero_add] at h' ⊢
    rw [tokens, tokens]
    by_cases htext : text = []
    · subst htext
      rfl
    · have hlt := length_scan (F := F) htext
      generalize scan F text = p at hlt
      obtain ⟨token, rest⟩ := p
      have hrest : tokens F n rest = tokens F n' rest := ih (by simp only at hlt; omega)
        (by simp only at hlt; omega)
      cases token with
      | endOfInput | parseError => rfl
      | _ => exact congrArg _ hrest

/-- All tokens of a text. -/
def tokenize (F : Floats) (text : Bytes) : List Token := tokens F (text.length + 1) text

theorem tokenize_eq (F : Floats) (text : Bytes) : tokenize F text =
    match scan F text with
    | (.endOfInput, _) => [.endOfInput]
    | (.parseError, _) => [.parseError]
    | (token, rest) => token :: tokenize F rest := by
  rw [tokenize, tokens]
  by_cases htext : text = []
  · subst htext
    rfl
  · have hlt := length_scan (F := F) htext
    generalize scan F text = p at hlt
    obtain ⟨token, rest⟩ := p
    have hrest : tokens F text.length rest = tokenize F rest := tokens_eq hlt (Nat.lt_succ_self _)
    cases token with
    | endOfInput | parseError => rfl
    | _ => exact congrArg _ hrest

theorem tokenize_of_scan {token : Token} (h : scan F text = (token, rest))
    (hend : token ≠ .endOfInput) (herror : token ≠ .parseError) :
    tokenize F text = token :: tokenize F rest := by
  rw [tokenize_eq, h]
  cases token with
  | endOfInput => exact absurd rfl hend
  | parseError => exact absurd rfl herror
  | _ => rfl

end Lexer

/-! ### Strings of the bus -/

/-- A string of C and of the bus: UTF-8, with no null byte. -/
def IsBusString (text : Bytes) : Prop := Utf8.IsText text ∧ 0 ∉ text

variable {F : Floats} {text text' rest : Bytes} {ts ts' : List Token}

theorem IsBusString.append (h : IsBusString text) (h' : IsBusString text') :
    IsBusString (text ++ text') :=
  ⟨h.1.append h'.1, fun hmem => (List.mem_append.mp hmem).elim h.2 h'.2⟩

theorem isBusString_ascii (h : ∀ b ∈ text, 0 < b ∧ b < 0x80) : IsBusString text :=
  ⟨Utf8.isText_ascii fun b hb => (h b hb).2, fun hmem => absurd (h 0 hmem).1 (Nat.lt_irrefl 0)⟩

theorem IsBusString.cons {b : ℕ} (hb : 0 < b ∧ b < 0x80) (h : IsBusString text) :
    IsBusString (b :: text) :=
  (isBusString_ascii fun c hc => by rw [List.mem_singleton.mp hc]; exact hb :
    IsBusString [b]).append h

theorem isBusString_nil : IsBusString [] := isBusString_ascii fun _ h => absurd h List.not_mem_nil

theorem isBusString_digits (h : Digits text) : IsBusString text :=
  isBusString_ascii fun b hb => by
    have hdigit := isDigit_iff.mp (h b hb)
    omega

theorem zero_not_mem_encode {n : ℕ} (h : 0x80 ≤ n) : 0 ∉ Utf8.encode n := by
  unfold Utf8.encode
  split_ifs
  · omega
  all_goals
    simp only [List.mem_cons, List.not_mem_nil, or_false]
    omega

theorem isBusString_escapedChar {n : ℕ} (hn : n.isValidChar) : IsBusString (escapedChar n) := by
  unfold escapedChar
  split_ifs with hlow
  · unfold escape
    split_ifs
    iterate 7 exact isBusString_ascii (by decide)
    · have hhex : ∀ d < 16, 0 < Serializer.hexDigit d ∧ Serializer.hexDigit d < 0x80 := by decide
      exact .cons (by decide) (.cons (by decide) (.cons (hhex _ (by omega)) (.cons (hhex _ (by omega))
        (.cons (hhex _ (by omega)) (.cons (hhex _ (by omega)) isBusString_nil)))))
    · exact isBusString_nil.cons (by omega)
  · exact ⟨(Utf8.isChar_of_valid hn rfl).isText, zero_not_mem_encode (by omega)⟩

theorem isBusString_escapedText (s : String) : IsBusString (escapedText s) := by
  unfold escapedText
  induction s.toList with
  | nil => exact isBusString_nil
  | cons c l ih =>
    rw [List.flatMap_cons]
    exact (isBusString_escapedChar c.valid).append ih

theorem isBusString_dumpInteger (n : ℤ) : IsBusString (dumpInteger n) := by
  obtain hneg | rfl | hpos := Int.lt_trichotomy n 0
  · rw [dumpInteger_of_neg hneg]
    exact (isBusString_digits (digits_decimal _)).cons (by decide)
  · exact isBusString_ascii (by decide)
  · rw [dumpInteger_of_pos hpos]
    exact isBusString_digits (digits_decimal _)

theorem isBusString_formatBuffer {b : ℕ} {l : Bytes} {e : ℤ} (hl : Digits (b :: l)) (hb : b ≠ 0x30)
    (hlow : -1000 < l.length + e) (hhigh : l.length + e < 1000) :
    IsBusString (formatBuffer (b :: l) e) := by
  obtain ⟨c, whole, d, fraction, htext, hwhole, -, hfraction, -⟩ | htext :=
    formatBuffer_cases (e := e) hl hb
  · rw [htext]
    exact (isBusString_digits hwhole).append ((isBusString_digits hfraction).cons (by decide))
  · obtain ⟨sign, d, exponent, hexponent, hsign, hdigits, -⟩ := appendExponent_cons hlow hhigh
    have hsign' : 0 < sign ∧ sign < 0x80 := by omega
    have hpointed : IsBusString (pointed l) := by
      cases l with
      | nil => exact isBusString_nil
      | cons c l => exact (isBusString_digits hl.tail).cons (by decide)
    rw [htext, hexponent, List.cons_append]
    exact (hpointed.append (((isBusString_digits hdigits).cons hsign').cons (by decide))).cons
      (by have := hl.head; omega)

theorem isBusString_toChars {x : Double} (hF : F.Lawful) (hx : F.IsValue x.magnitude) :
    IsBusString (toChars F x) := by
  have hmagnitude : IsBusString (magnitudeChars F x.magnitude) := by
    rw [magnitudeChars]
    split_ifs with hzero
    · exact isBusString_ascii (by decide)
    · obtain ⟨b, l, hl, hb, hdigits, hlow, hhigh⟩ := hF.digits x.magnitude hx hzero
      rw [hl]
      exact isBusString_formatBuffer hdigits hb hlow hhigh
  rw [toChars]
  split_ifs
  · exact hmagnitude.cons (by decide)
  · exact hmagnitude

/-! ### Values -/

/-- A value that a text can say. -/
inductive Json.Textual (F : Floats) : Json → Prop
  | null : Textual F .null
  | boolean (b : Bool) : Textual F (.boolean b)
  | integer {n : ℤ} (hlow : -2 ^ 63 ≤ n) (hhigh : n < 2 ^ 64) : Textual F (.integer n)
  | float {x : Double} (h : F.IsValue x.magnitude) : Textual F (.float x)
  | string (s : String) : Textual F (.string s)
  | array {l : List Json} (h : ∀ v ∈ l, Textual F v) : Textual F (.array l)
  | object {m : Object} (hordered : m.Ordered) (h : ∀ e ∈ m, Textual F e.2) :
      Textual F (.object m)

/-- The text has these tokens, whatever comes behind it. -/
def Lexes (F : Floats) (text : Bytes) (ts : List Token) : Prop :=
  ∀ rest, EndsNumber rest → tokenize F (text ++ rest) = ts ++ tokenize F rest

theorem ends_nil : EndsNumber [] := fun _ h => nomatch h

theorem ends_cons {b : ℕ} (h : isDigit b = false ∧ b ≠ 0x2E ∧ isExponent b = false) :
    EndsNumber (b :: rest) := fun c hc => by
  cases hc
  exact h

/-- What is left to be said of a text: its tokens, and that it can be sent. -/
structure Spells (F : Floats) (text : Bytes) (ts : List Token) : Prop where
  lexes : Lexes F text ts
  busString : IsBusString text

/-- A text that is one token. -/
theorem spells_token {t : Token} (htext : IsBusString text) (hend : t ≠ .endOfInput)
    (herror : t ≠ .parseError) (h : ∀ rest, EndsNumber rest → scan F (text ++ rest) = (t, rest)) :
    Spells F text [t] :=
  ⟨fun rest hrest => tokenize_of_scan (h rest hrest) hend herror, htext⟩

/-- One behind the other, where a number cannot go on. -/
theorem Spells.append {b : ℕ} (h : Spells F text ts) (h' : Spells F (b :: text') ts')
    (hb : isDigit b = false ∧ b ≠ 0x2E ∧ isExponent b = false) :
    Spells F (text ++ b :: text') (ts ++ ts') := by
  refine ⟨fun rest hrest => ?_, h.busString.append h'.busString⟩
  rw [List.append_assoc, List.append_assoc, List.cons_append, h.lexes _ (ends_cons hb),
    ← List.cons_append, h'.lexes rest hrest]

/-- A byte that is a token, and a text behind it. -/
theorem Spells.cons {b : ℕ} {t : Token} (hb : 0 < b ∧ b < 0x80) (hend : t ≠ .endOfInput)
    (herror : t ≠ .parseError) (ht : ∀ rest, scan F (b :: rest) = (t, rest)) (h : Spells F text ts) :
    Spells F (b :: text) (t :: ts) := by
  refine ⟨fun rest hrest => ?_, h.busString.cons hb⟩
  rw [List.cons_append, tokenize_of_scan (ht _) hend herror, h.lexes rest hrest]
  rfl

theorem spells_nil : Spells F [] [] := ⟨fun _ _ => rfl, isBusString_nil⟩

/-- A string, and a text behind it. -/
theorem Spells.string (s : String) (h : Spells F text ts) :
    Spells F (0x22 :: escapedText s ++ [0x22] ++ text) (.valueString (Utf8.bytes s) :: ts) := by
  have hstring : IsBusString (0x22 :: escapedText s ++ [0x22]) :=
    ((isBusString_escapedText s).cons (by decide)).append (isBusString_ascii (by decide))
  refine ⟨fun rest hrest => ?_, hstring.append h.busString⟩
  have hscan : scan F (0x22 :: escapedText s ++ [0x22] ++ text ++ rest) =
      (.valueString (Utf8.bytes s), text ++ rest) := by
    simp only [List.append_assoc, List.cons_append, List.nil_append]
    exact scanString_escaped s (text ++ rest)
  rw [tokenize_of_scan hscan Token.noConfusion Token.noConfusion, h.lexes rest hrest]
  rfl

/-- A value is written as `text`, which has the tokens `ts`. -/
structure WrittenValue (F : Floats) (v : Json) (text : Bytes) (ts : List Token) : Prop
    extends Spells F text ts where
  dumps : dump F v = .ok text
  reads : Reads ts (.value v)

/-- Elements are, with commas between them. -/
structure WrittenElements (F : Floats) (l : List Json) (text : Bytes) (ts : List Token) : Prop
    extends Spells F text ts where
  dumps : dumpElements F l = .ok text
  reads : Reads ts (.elements l)
  follows : ∀ {ts₀ l₀}, Reads ts₀ (.elements l₀) →
    Reads (ts₀ ++ .valueSeparator :: ts) (.elements (l₀ ++ l))

/-- Members are. -/
structure WrittenMembers (F : Floats) (m : Object) (text : Bytes) (ts : List Token) : Prop
    extends Spells F text ts where
  dumps : dumpMembers F m = .ok text
  reads : m.Ordered → Reads ts (.members m)
  follows : ∀ {ts₀} {m₀ : Object}, (m₀ ++ m).Ordered → Reads ts₀ (.members m₀) →
    Reads (ts₀ ++ .valueSeparator :: ts) (.members (m₀ ++ m))

theorem exists_writtenElements {l : List Json} (h : ∀ v ∈ l, ∃ text ts, WrittenValue F v text ts)
    (hl : l ≠ []) : ∃ text ts, WrittenElements F l text ts := by
  induction l with
  | nil => exact absurd rfl hl
  | cons v l ih =>
    obtain ⟨text, ts, hv⟩ := h v List.mem_cons_self
    by_cases hnil : l = []
    · subst hnil
      exact ⟨text, ts, hv.toSpells, hv.dumps, .element hv.reads,
        fun hts => .nextElement hts hv.reads⟩
    · obtain ⟨text', ts', hl'⟩ := ih (fun w hw => h w (List.mem_cons_of_mem _ hw)) hnil
      have hcomma : Spells F (0x2C :: text') (.valueSeparator :: ts') :=
        hl'.toSpells.cons (by decide) Token.noConfusion Token.noConfusion fun _ => rfl
      refine ⟨text ++ 0x2C :: text', ts ++ .valueSeparator :: ts',
        hv.toSpells.append hcomma (by decide), ?_, hl'.follows (.element hv.reads), ?_⟩
      · rw [dumpElements, hv.dumps, hl'.dumps]
        · rfl
        · exact hnil
      · intro ts₀ l₀ hts
        have hfollows := hl'.follows (.nextElement hts hv.reads)
        rw [List.append_assoc, List.append_assoc] at hfollows
        exact hfollows

theorem exists_writtenMembers {m : Object} (h : ∀ e ∈ m, ∃ text ts, WrittenValue F e.2 text ts)
    (hm : m ≠ []) : ∃ text ts, WrittenMembers F m text ts := by
  induction m with
  | nil => exact absurd rfl hm
  | cons e m ih =>
    obtain ⟨key, v⟩ := e
    obtain ⟨text, ts, hv⟩ := h (key, v) List.mem_cons_self
    have hmember : Spells F (0x22 :: escapedText key ++ [0x22] ++ 0x3A :: text)
        (.valueString (Utf8.bytes key) :: .nameSeparator :: ts) :=
      .string key (hv.toSpells.cons (by decide) Token.noConfusion Token.noConfusion fun _ => rfl)
    have hone : Reads (.valueString (Utf8.bytes key) :: .nameSeparator :: ts)
        (.members [(key, v)]) := by
      have hreads : Reads (.valueString (Utf8.bytes key) :: .nameSeparator :: ts) _ :=
        .member hv.reads
      rwa [Utf8.decode_bytes] at hreads
    have hnext : ∀ {ts₀} {m₀ : Object}, (m₀ ++ [(key, v)] : Object).Ordered → Reads ts₀ (.members m₀) →
        Reads (ts₀ ++ .valueSeparator :: .valueString (Utf8.bytes key) :: .nameSeparator :: ts)
          (.members (m₀ ++ [(key, v)])) := by
      intro ts₀ m₀ hordered hts
      have hreads : Reads (ts₀ ++ .valueSeparator :: .valueString (Utf8.bytes key) ::
          .nameSeparator :: ts) _ := .nextMember hts hv.reads
      rw [Utf8.decode_bytes, OrdMap.insert_eq_append] at hreads
      · exact hreads
      · exact OrdMap.lt_of_ordered_append hordered
    by_cases hnil : m = []
    · subst hnil
      refine ⟨_, _, hmember, ?_, fun _ => hone, hnext⟩
      rw [dumpMembers, dumpString_eq, hv.dumps]
      rfl
    · obtain ⟨text', ts', hm'⟩ := ih (fun e he => h e (List.mem_cons_of_mem _ he)) hnil
      have hcomma : Spells F (0x2C :: text') (.valueSeparator :: ts') :=
        hm'.toSpells.cons (by decide) Token.noConfusion Token.noConfusion fun _ => rfl
      have hreads : OrdMap.Ordered ((key, v) :: m) → Reads _ (.members ((key, v) :: m)) :=
        fun hordered => hm'.follows hordered hone
      refine ⟨_, _, hmember.append hcomma (by decide), ?_, hreads, ?_⟩
      · rw [dumpMembers, dumpString_eq, hv.dumps, hm'.dumps]
        · rfl
        · exact hnil
      · intro ts₀ m₀ hordered hts
        have hsplit : m₀ ++ (key, v) :: m = (m₀ ++ [(key, v)]) ++ m := by simp
        rw [hsplit] at hordered ⊢
        have hfollows := hm'.follows hordered (hnext (OrdMap.ordered_of_append hordered) hts)
        rw [List.append_assoc] at hfollows
        exact hfollows

/-- **Everything a text can say is written.** -/
theorem exists_written {v : Json} (hF : F.Lawful) (h : v.Textual F) :
    ∃ text ts, WrittenValue F v text ts := by
  induction h with
  | null =>
    exact ⟨_, _, spells_token (isBusString_ascii (by decide)) Token.noConfusion Token.noConfusion
      fun _ _ => rfl, rfl, .scalar rfl⟩
  | boolean b =>
    cases b
    all_goals
      exact ⟨_, _, spells_token (isBusString_ascii (by decide)) Token.noConfusion Token.noConfusion
        fun _ _ => rfl, rfl, .scalar rfl⟩
  | @integer n hlow hhigh =>
    have htoken : integerToken n ≠ .endOfInput ∧ integerToken n ≠ .parseError ∧
        scalar (integerToken n) = some (.integer n) := by
      unfold integerToken
      split_ifs with hneg
      · exact ⟨Token.noConfusion, Token.noConfusion, rfl⟩
      · refine ⟨Token.noConfusion, Token.noConfusion, ?_⟩
        rw [scalar, Int.natAbs_of_nonneg (not_lt.mp hneg)]
    exact ⟨_, _, spells_token (isBusString_dumpInteger n) htoken.1 htoken.2.1
      fun rest hrest => scan_dumpInteger hlow hhigh hrest, rfl, .scalar htoken.2.2⟩
  | float hx =>
    exact ⟨_, _, spells_token (isBusString_toChars hF hx) Token.noConfusion Token.noConfusion
      fun rest hrest => scan_toChars hF hx hrest, rfl, .scalar rfl⟩
  | string s =>
    have hspells := (spells_nil (F := F)).string s
    rw [List.append_nil] at hspells
    refine ⟨_, _, hspells, dumpString_eq s, .scalar ?_⟩
    rw [scalar, Utf8.decode_bytes]
  | @array l h ih =>
    by_cases hnil : l = []
    · subst hnil
      exact ⟨_, _, (spells_nil.cons (b := 0x5D) (by decide) Token.noConfusion Token.noConfusion
        fun _ => rfl).cons (b := 0x5B) (by decide) Token.noConfusion Token.noConfusion fun _ => rfl,
        rfl, .emptyArray⟩
    · obtain ⟨text, ts, hl⟩ := exists_writtenElements ih hnil
      have hend : Spells F [0x5D] [.endArray] :=
        spells_nil.cons (by decide) Token.noConfusion Token.noConfusion fun _ => rfl
      refine ⟨0x5B :: text ++ [0x5D], .beginArray :: ts ++ [.endArray],
        (hl.toSpells.append hend (by decide)).cons (by decide) Token.noConfusion Token.noConfusion
          fun _ => rfl, ?_, .array hl.reads⟩
      obtain ⟨v, l, rfl⟩ := List.exists_cons_of_ne_nil hnil
      rw [dump, hl.dumps]
      rfl
  | @object m hordered h ih =>
    by_cases hnil : m = []
    · subst hnil
      exact ⟨_, _, (spells_nil.cons (b := 0x7D) (by decide) Token.noConfusion Token.noConfusion
        fun _ => rfl).cons (b := 0x7B) (by decide) Token.noConfusion Token.noConfusion fun _ => rfl,
        rfl, .emptyObject⟩
    · obtain ⟨text, ts, hm⟩ := exists_writtenMembers ih hnil
      have hend : Spells F [0x7D] [.endObject] :=
        spells_nil.cons (by decide) Token.noConfusion Token.noConfusion fun _ => rfl
      refine ⟨0x7B :: text ++ [0x7D], .beginObject :: ts ++ [.endObject],
        (hm.toSpells.append hend (by decide)).cons (by decide) Token.noConfusion Token.noConfusion
          fun _ => rfl, ?_, .object (hm.reads hordered)⟩
      obtain ⟨e, m, rfl⟩ := List.exists_cons_of_ne_nil hnil
      rw [dump, hm.dumps]
      rfl

/-! ### Whole texts -/

theorem skipBom_of_ne (h : ∀ b ∈ text.head?, b ≠ 0xEF) : skipBom text = some text := by
  cases text with
  | nil => rfl
  | cons b text =>
    have hb : b ≠ 0xEF := h b rfl
    unfold skipBom
    split
    · next heq => exact absurd (List.cons.inj heq).1 hb
    · next heq => exact absurd (List.cons.inj heq).1 hb
    · rfl

/-- **`json::parse` accepts a text where the grammar derives its tokens**, with that value. -/
theorem parseText_eq_some_iff {v : Json} : parseText F text = some v ↔
    ∃ text' ts rest, skipBom text = some text' ∧ tokenize F text' = ts ++ .endOfInput :: rest ∧
      Reads ts (.value v) := by
  have hparse : parseText F text = some v ↔ ∃ text', skipBom text = some text' ∧
      (State.running .value []).run (tokenize F text') = .accepted v := by
    unfold parseText
    cases skipBom text with
    | none => simp
    | some text' =>
      simp only [Option.some.injEq, exists_eq_left', Option.map_some, tokenize]
      generalize (State.running .value []).run _ = s
      cases s <;> simp
  simp only [hparse, run_eq_accepted_iff]
  constructor
  · rintro ⟨text', hbom, ts, rest, htokens, hreads⟩
    exact ⟨text', ts, rest, hbom, htokens, hreads⟩
  · rintro ⟨text', ts, rest, hbom, htokens, hreads⟩
    exact ⟨text', hbom, ts, rest, htokens, hreads⟩

/-- There is no token behind the end. -/
theorem eq_nil_of_tokens {n : ℕ} (h : tokens F n text = ts ++ .endOfInput :: ts') : ts' = [] := by
  induction n generalizing text ts with
  | zero => simp [tokens] at h
  | succ n ih =>
    rw [tokens] at h
    generalize scan F text = p at h
    obtain ⟨token, rest⟩ := p
    cases ts with
    | nil =>
      cases token with
      | endOfInput => exact (List.cons.inj h).2.symm
      | _ => cases h
    | cons t ts =>
      cases token with
      | endOfInput | parseError => simp at h
      | _ => exact ih (List.cons.inj h).2

/-- **`json::parse` accepts the texts whose tokens the grammar derives**, up to the end, and
gives the value they are derived for. -/
theorem parseText_derives {v : Json} : parseText F text = some v ↔
    ∃ text' ts, skipBom text = some text' ∧ tokenize F text' = ts ++ [.endOfInput] ∧
      Reads ts (.value v) := by
  rw [parseText_eq_some_iff]
  constructor
  · rintro ⟨text', ts, rest, hbom, htokens, hreads⟩
    obtain rfl : rest = [] := eq_nil_of_tokens htokens
    exact ⟨text', ts, hbom, htokens, hreads⟩
  · rintro ⟨text', ts, hbom, htokens, hreads⟩
    exact ⟨text', ts, [], hbom, htokens, hreads⟩

theorem WrittenValue.parse {v : Json} (h : WrittenValue F v text ts) : parseText F text = some v := by
  have htokens : tokenize F text = ts ++ [.endOfInput] := by
    have hlexes := h.lexes [] ends_nil
    rwa [List.append_nil] at hlexes
  have hbom : ∀ b ∈ text.head?, b ≠ 0xEF := by
    rintro b hb rfl
    obtain ⟨rest, rfl⟩ : ∃ rest, text = 0xEF :: rest := List.head?_eq_some_iff.mp hb
    have herror : tokenize F (0xEF :: rest) = [.parseError] := rfl
    rw [herror] at htokens
    cases ts with
    | nil => cases htokens
    | cons t ts => cases ts <;> cases htokens
  exact parseText_eq_some_iff.mpr ⟨text, ts, [], skipBom_of_ne hbom, htokens, h.reads⟩

/-- **What is written is read as it was**, and can be sent. -/
theorem parseText_dump {v : Json} (hF : F.Lawful) (h : v.Textual F) :
    ∃ text, dump F v = .ok text ∧ IsBusString text ∧ parseText F text = some v := by
  obtain ⟨text, ts, hv⟩ := exists_written hF h
  exact ⟨text, hv.dumps, hv.busString, hv.parse⟩

theorem parseText_dump_array : parseText threeHalves (Utf8.bytes "[1.5,-0.0,\"\\n\",-7]") =
    some (.array [.float ⟨false, 3 / 2⟩, .float ⟨true, 0⟩, .string "\n", .integer (-7)]) := by
  obtain ⟨text, hdump, -, hparse⟩ := parseText_dump lawful_threeHalves
    (v := .array [.float ⟨false, 3 / 2⟩, .float ⟨true, 0⟩, .string "\n", .integer (-7)]) (.array (by
      simp only [List.forall_mem_cons]
      exact ⟨.float ⟨3 / 2, if_pos (Or.inl rfl)⟩, .float ⟨0, if_pos (Or.inr rfl)⟩, .string _,
        .integer (by decide) (by decide), fun _ h => absurd h List.not_mem_nil⟩))
  have htext : (dump threeHalves (.array [.float ⟨false, 3 / 2⟩, .float ⟨true, 0⟩, .string "\n",
      .integer (-7)])).toOption = some (Utf8.bytes "[1.5,-0.0,\"\\n\",-7]") := by decide +kernel
  rw [hdump] at htext
  cases htext
  exact hparse

end Nonsense
