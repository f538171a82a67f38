import Nonsense.Text.Parser

/-!
# What the parser accepts

`Reads ts item` says which tokens are a value, the elements of an array or the members of an
object, and what value that is: the grammar of JSON.  `Awaits frames ts` says what has been
read when a value comes next inside of `frames`; with it, `State.Read` says what has been read
at each place of the parser, and one token leads from one to the next (`read_step`).  So the
parser accepts what the grammar derives and nothing else, with the same value
(`run_eq_accepted_iff`).
-/

namespace Nonsense

namespace Parser

open Lexer

/-- What tokens are derived for. -/
inductive Item
  | value (v : Json)
  | elements (l : List Json)
  | members (m : Object)

/-- The grammar.  Where a key comes again its value is replaced. -/
inductive Reads : List Token → Item → Prop
  | scalar {t : Token} {v : Json} (h : scalar t = some v) : Reads [t] (.value v)
  | emptyArray : Reads [.beginArray, .endArray] (.value (.array []))
  | array {ts : List Token} {l : List Json} (h : Reads ts (.elements l)) :
      Reads (.beginArray :: ts ++ [.endArray]) (.value (.array l))
  | emptyObject : Reads [.beginObject, .endObject] (.value (.object []))
  | object {ts : List Token} {m : Object} (h : Reads ts (.members m)) :
      Reads (.beginObject :: ts ++ [.endObject]) (.value (.object m))
  | element {ts : List Token} {v : Json} (h : Reads ts (.value v)) : Reads ts (.elements [v])
  | nextElement {ts ts' : List Token} {l : List Json} {v : Json} (h : Reads ts (.elements l))
      (hv : Reads ts' (.value v)) : Reads (ts ++ .valueSeparator :: ts') (.elements (l ++ [v]))
  | member {ts : List Token} {key : Bytes} {v : Json} (hv : Reads ts (.value v)) :
      Reads (.valueString key :: .nameSeparator :: ts)
        (.members (OrdMap.insert [] (Utf8.decode key) v))
  | nextMember {ts ts' : List Token} {m : Object} {key : Bytes} {v : Json}
      (h : Reads ts (.members m)) (hv : Reads ts' (.value v)) :
      Reads (ts ++ .valueSeparator :: .valueString key :: .nameSeparator :: ts')
        (.members (m.insert (Utf8.decode key) v))

variable {ts ts' : List Token} {frames : List Frame} {v : Json} {l : List Json} {m : Object}
  {s : State} {t : Token}

/-! ### What is derived is accepted -/

theorem run_append : s.run (ts ++ ts') = (s.run ts).run ts' := List.foldl_append

theorem value_scalar (h : scalar t = some v) : value frames t = handleValue v frames := by
  cases t with
  | beginArray | beginObject => cases h
  | _ => simp only [value, h]

/-- The first token of a value is none that ends an array. -/
theorem Reads.head {item : Item} (h : Reads ts item) (hitem : ∀ m, item ≠ .members m) :
    ∃ t ts', ts = t :: ts' ∧ t ≠ .endArray := by
  induction h with
  | scalar h =>
    refine ⟨_, _, rfl, ?_⟩
    rintro rfl
    cases h
  | emptyArray | array | emptyObject | object => exact ⟨_, _, rfl, Token.noConfusion⟩
  | element h ih => exact ih fun m hm => nomatch hm
  | nextElement h hv ih =>
    obtain ⟨t, ts, rfl, ht⟩ := ih fun m hm => nomatch hm
    exact ⟨t, _, rfl, ht⟩
  | member | nextMember => exact absurd rfl (hitem _)

/-- The first token of a member is a key. -/
theorem Reads.head_member (h : Reads ts (.members m)) : ∃ key ts', ts = .valueString key :: ts' := by
  generalize hitem : Item.members m = item at h
  induction h generalizing m with
  | member hv => exact ⟨_, _, rfl⟩
  | nextMember h hv ih =>
    obtain ⟨key, ts, rfl⟩ := ih rfl
    exact ⟨key, _, rfl⟩
  | _ => cases hitem

/-- Behind `[` a value may come as behind a comma. -/
theorem step_arrayStart (ht : t ≠ .endArray) :
    (State.running .arrayStart frames).step t = (State.running .value frames).step t := by
  cases t with
  | endArray => exact absurd rfl ht
  | _ => rfl

theorem run_arrayStart (h : Reads ts (.elements l)) :
    (State.running .arrayStart frames).run ts = (State.running .value frames).run ts := by
  obtain ⟨t, ts, rfl, ht⟩ := h.head fun m hm => nomatch hm
  exact congrArg (List.foldl State.step · ts) (step_arrayStart ht)

/-- Behind `{` a key may come as behind a comma. -/
theorem run_objectStart (h : Reads ts (.members m)) :
    (State.running .objectStart frames).run ts = (State.running .key frames).run ts := by
  obtain ⟨key, ts, rfl⟩ := h.head_member
  rfl

/-- What the parser does with tokens that are an item. -/
def Accepts (ts : List Token) (frames : List Frame) : Item → Prop
  | .value v => (State.running .value frames).run ts = handleValue v frames
  | .elements l => (State.running .value (.array [] :: frames)).run ts =
      .running .evaluation (.array l :: frames)
  | .members m => (State.running .key (.object [] none :: frames)).run ts =
      .running .evaluation (.object m none :: frames)

theorem Reads.accepts {item : Item} (h : Reads ts item) (frames : List Frame) :
    Accepts ts frames item := by
  induction h generalizing frames with
  | scalar h => exact value_scalar h
  | emptyArray => rfl
  | @array ts l h ih =>
    have hts := (run_arrayStart h).trans (ih frames)
    show ((State.running .arrayStart (.array [] :: frames)).run (ts ++ [.endArray])) = _
    rw [run_append, hts]
    rfl
  | emptyObject => rfl
  | @object ts m h ih =>
    have hts := (run_objectStart h).trans (ih frames)
    show ((State.running .objectStart (.object [] none :: frames)).run (ts ++ [.endObject])) = _
    rw [run_append, hts]
    rfl
  | element h ih => exact ih _
  | nextElement h hv ih ihv =>
    have hl : (State.running .value (.array [] :: frames)).run _ = _ := ih frames
    rw [Accepts, run_append, hl]
    exact ihv _
  | member hv ihv => exact ihv _
  | nextMember h hv ih ihv =>
    have hm : (State.running .key (.object [] none :: frames)).run _ = _ := ih frames
    rw [Accepts, run_append, hm]
    exact ihv _

/-! ### What is accepted is derived -/

/-- The tokens behind which a value comes next, inside of `frames`. -/
inductive Awaits : List Frame → List Token → Prop
  | root : Awaits [] []
  | first {frames : List Frame} {ts : List Token} (h : Awaits frames ts) :
      Awaits (.array [] :: frames) (ts ++ [.beginArray])
  | next {frames : List Frame} {ts ts' : List Token} {l : List Json} (h : Awaits frames ts)
      (hl : Reads ts' (.elements l)) :
      Awaits (.array l :: frames) (ts ++ .beginArray :: ts' ++ [.valueSeparator])
  | firstMember {frames : List Frame} {ts : List Token} {key : Bytes} (h : Awaits frames ts) :
      Awaits (.object [] (some (Utf8.decode key)) :: frames)
        (ts ++ [.beginObject, .valueString key, .nameSeparator])
  | nextMember {frames : List Frame} {ts ts' : List Token} {m : Object} {key : Bytes}
      (h : Awaits frames ts) (hm : Reads ts' (.members m)) :
      Awaits (.object m (some (Utf8.decode key)) :: frames)
        (ts ++ .beginObject :: ts' ++ [.valueSeparator, .valueString key, .nameSeparator])

/-- What has been read in a state. -/
inductive State.Read : State → List Token → Prop
  | value {frames : List Frame} {ts : List Token} (h : Awaits frames ts) :
      Read (.running .value frames) ts
  | arrayStart {frames : List Frame} {ts : List Token} (h : Awaits frames ts) :
      Read (.running .arrayStart (.array [] :: frames)) (ts ++ [.beginArray])
  | objectStart {frames : List Frame} {ts : List Token} (h : Awaits frames ts) :
      Read (.running .objectStart (.object [] none :: frames)) (ts ++ [.beginObject])
  | key {frames : List Frame} {ts ts' : List Token} {m : Object} (h : Awaits frames ts)
      (hm : Reads ts' (.members m)) : Read (.running .key (.object m none :: frames))
        (ts ++ .beginObject :: ts' ++ [.valueSeparator])
  | separator {frames : List Frame} {ts : List Token} (h : Awaits frames (ts ++ [.nameSeparator])) :
      Read (.running .separator frames) ts
  | elements {frames : List Frame} {ts ts' : List Token} {l : List Json} (h : Awaits frames ts)
      (hl : Reads ts' (.elements l)) :
      Read (.running .evaluation (.array l :: frames)) (ts ++ .beginArray :: ts')
  | members {frames : List Frame} {ts ts' : List Token} {m : Object} (h : Awaits frames ts)
      (hm : Reads ts' (.members m)) :
      Read (.running .evaluation (.object m none :: frames)) (ts ++ .beginObject :: ts')
  | finished {ts : List Token} {v : Json} (h : Reads ts (.value v)) : Read (.finished v) ts
  | accepted {ts : List Token} {v : Json} (h : Reads ts (.value v)) (rest : List Token) :
      Read (.accepted v) (ts ++ .endOfInput :: rest)
  | errored (ts : List Token) : Read .errored ts

/-- A value is complete. -/
theorem read_handleValue (h : Awaits frames ts) (hv : Reads ts' (.value v)) :
    (handleValue v frames).Read (ts ++ ts') := by
  cases h with
  | root => exact .finished hv
  | first h =>
    rw [List.append_assoc]
    exact .elements h (.element hv)
  | next h hl =>
    rw [List.append_assoc, List.append_assoc]
    exact .elements h (.nextElement hl hv)
  | firstMember h =>
    rw [List.append_assoc]
    exact .members h (.member hv)
  | nextMember h hm =>
    rw [List.append_assoc, List.append_assoc]
    exact .members h (.nextMember hm hv)

theorem read_value (h : Awaits frames ts) (t : Token) : (value frames t).Read (ts ++ [t]) := by
  cases hscalar : scalar t with
  | some v =>
    rw [value_scalar hscalar]
    exact read_handleValue h (.scalar hscalar)
  | none =>
    cases t with
    | beginArray => exact .arrayStart h
    | beginObject => exact .objectStart h
    | valueFloat x =>
      have hnone : value frames (.valueFloat x) = .errored := by
        cases x with
        | none => rfl
        | some x => cases hscalar
      rw [hnone]
      exact .errored _
    | literalTrue | literalFalse | literalNull | valueString | valueUnsigned | valueInteger =>
      cases hscalar
    | _ => exact .errored _

/-- **What a token leaves of it.** -/
theorem read_step (h : s.Read ts) (t : Token) : (s.step t).Read (ts ++ [t]) := by
  cases h with
  | value h => exact read_value h t
  | arrayStart h =>
    by_cases ht : t = .endArray
    · subst ht
      rw [List.append_assoc]
      exact read_handleValue h .emptyArray
    · rw [step_arrayStart ht]
      exact read_value (.first h) t
  | objectStart h =>
    cases t with
    | endObject =>
      rw [List.append_assoc]
      exact read_handleValue h .emptyObject
    | valueString key =>
      refine .separator ?_
      rw [List.append_assoc, List.append_assoc]
      exact .firstMember h
    | _ => exact .errored _
  | key h hm =>
    cases t with
    | valueString key =>
      refine .separator ?_
      rw [List.append_assoc, List.append_assoc]
      exact .nextMember h hm
    | _ => exact .errored _
  | separator h =>
    cases t with
    | nameSeparator => exact .value h
    | _ => exact .errored _
  | elements h hl =>
    cases t with
    | valueSeparator => exact .value (.next h hl)
    | endArray =>
      rw [List.append_assoc]
      exact read_handleValue h (.array hl)
    | _ => exact .errored _
  | members h hm =>
    cases t with
    | valueSeparator => exact .key h hm
    | endObject =>
      rw [List.append_assoc]
      exact read_handleValue h (.object hm)
    | _ => exact .errored _
  | finished h =>
    cases t with
    | endOfInput => exact .accepted h []
    | _ => exact .errored _
  | accepted h rest =>
    rw [List.append_assoc]
    exact .accepted h (rest ++ [t])
  | errored => exact .errored _

theorem read_run (h : s.Read ts) (ts' : List Token) : (s.run ts').Read (ts ++ ts') := by
  induction ts' generalizing s ts with
  | nil =>
    rw [List.append_nil]
    exact h
  | cons t ts' ih =>
    have hrest := ih (read_step h t)
    rw [List.append_assoc] at hrest
    exact hrest

/-- Whatever has been accepted stays so. -/
theorem run_accepted (v : Json) (ts : List Token) : (State.accepted v).run ts = .accepted v := by
  induction ts with
  | nil => rfl
  | cons t ts ih => exact ih

/-- **The parser accepts what the grammar derives, with its value, and nothing else.** -/
theorem run_eq_accepted_iff : (State.running .value []).run ts = .accepted v ↔
    ∃ ts' rest, ts = ts' ++ .endOfInput :: rest ∧ Reads ts' (.value v) := by
  constructor
  · intro h
    have hread := read_run (.value .root) ts
    rw [h] at hread
    cases hread with
    | accepted hts rest => exact ⟨_, rest, rfl, hts⟩
  · rintro ⟨ts', rest, rfl, h⟩
    have hvalue : (State.running .value []).run ts' = .finished v := h.accepts []
    rw [run_append, hvalue]
    exact run_accepted v rest

/-! ### The assertion -/

/-- `object_element` is there for the value, in an object. -/
def Frame.Expects : Frame → Prop
  | .array _ => True
  | .object _ key => key.isSome = true

theorem Awaits.expects (h : Awaits frames ts) : ∀ f ∈ frames, f.Expects := by
  induction h with
  | root => exact fun f hf => absurd hf List.not_mem_nil
  | first _ ih | next _ _ ih =>
    intro f hf
    obtain rfl | hf := List.mem_cons.mp hf
    · exact trivial
    · exact ih f hf
  | firstMember _ ih | nextMember _ _ ih =>
    intro f hf
    obtain rfl | hf := List.mem_cons.mp hf
    · exact rfl
    · exact ih f hf

/-- **`handle_value` finds `object_element`** wherever an object waits for the value: inside of
the innermost array or object that is open, and in it where the value comes next. -/
theorem run_expects {pc : ParsePc}
    (h : (State.running .value []).run ts = .running pc frames) :
    (∀ f ∈ frames.tail, f.Expects) ∧
      (pc = .value ∨ pc = .arrayStart → ∀ f ∈ frames, f.Expects) := by
  have hread := read_run (.value .root) ts
  rw [h] at hread
  have hno : ∀ {pc : ParsePc}, pc ≠ .value → pc ≠ .arrayStart →
      (pc = .value ∨ pc = .arrayStart → ∀ f ∈ frames, f.Expects) :=
    fun hvalue harray hpc => absurd hpc (not_or.mpr ⟨hvalue, harray⟩)
  cases hread with
  | value hawaits =>
    exact ⟨fun f hf => hawaits.expects f (List.mem_of_mem_tail hf), fun _ => hawaits.expects⟩
  | arrayStart hawaits => exact ⟨hawaits.expects, fun _ => (Awaits.first hawaits).expects⟩
  | objectStart hawaits => exact ⟨hawaits.expects, hno ParsePc.noConfusion ParsePc.noConfusion⟩
  | key hawaits _ => exact ⟨hawaits.expects, hno ParsePc.noConfusion ParsePc.noConfusion⟩
  | separator hawaits =>
    exact ⟨fun f hf => hawaits.expects f (List.mem_of_mem_tail hf),
      hno ParsePc.noConfusion ParsePc.noConfusion⟩
  | elements hawaits _ => exact ⟨hawaits.expects, hno ParsePc.noConfusion ParsePc.noConfusion⟩
  | members hawaits _ => exact ⟨hawaits.expects, hno ParsePc.noConfusion ParsePc.noConfusion⟩

theorem run_expects_member : (Frame.object [] (some "a")).Expects ∧
    handleValue .null [.object [] (some "a")] =
      .running .evaluation [.object [("a", .null)] none] :=
  have hrun : (State.running .value []).run [.beginObject, .valueString [0x61], .nameSeparator] =
    .running .value [.object [] (some "a")] := rfl
  ⟨(run_expects hrun).2 (Or.inl rfl) _ List.mem_cons_self, rfl⟩

end Parser

end Nonsense
