import Nonsense.Config.Basic
import Nonsense.Lib.Nested
import Nonsense.Lib.InTurn

/-!
# What the loop over the parameters builds

`keyPath` is the path that a parameter's key leads along.  A parameter `Fits` behind
others if no value of theirs stands on the way, and nothing at its end: `place` is then
`put` (`place_of_free`), and otherwise it stops in one of three ways.  What the others
have put where is said by `ValueAt` and `Occupied`, which look at the parameters alone;
`nodeAt_assembled` says that they are right about the tree that has been built.
-/

namespace Nonsense

instance : Nested String Json where
  members
    | .object m => m
    | _ => []
  branch m := .object m
  members_branch _ := rfl

namespace Json

/-- Neither null nor an object. -/
def isValue : Json → Bool
  | null => false
  | object _ => false
  | _ => true

theorem find_eq_members (j : Json) (key : String) : j.find key = (Nested.members j).find key := by
  cases j <;> rfl

theorem isNull_of_isValue {j : Json} (h : j.isValue = true) : j.isNull = false := by
  cases j <;> first | rfl | cases h

end Json

namespace Config

open Nested

/-! ### One parameter -/

section Place

variable {value tree w : Json} {last seen : String} {path q : List String}

/-- Where nothing is in the way, `place` puts. -/
theorem place_of_free (hwalk : ∀ q w, q <+: path → nodeAt tree q = some w → w.isValue = false)
    (hfree : (nodeAt tree (path ++ [last])).getD .null = .null) :
    place value last path seen tree = .done (put value (path ++ [last]) tree) := by
  induction path generalizing tree seen with
  | nil =>
    have hval := hwalk [] tree List.nil_prefix rfl
    have hnode : nodeAt tree [last] = tree.find last := by
      rw [nodeAt_cons, Json.find_eq_members]
      cases (members tree).find last <;> rfl
    rw [List.nil_append, hnode] at hfree
    cases tree with
    | null => rfl
    | object m =>
      rw [place, hfree]
      rfl
    | _ => cases hval
  | cons subkey path ih =>
    have hval := hwalk [] tree List.nil_prefix rfl
    have hne : path ++ [last] ≠ [] := by simp
    -- what is under `subkey`, and a null where there is nothing
    have hchild : place value last path (seen ++ subkey ++ ".")
        ((OrdMap.find (members tree) subkey).getD .null) =
          .done (put value (path ++ [last])
            ((OrdMap.find (members tree) subkey).getD (.object []))) := by
      rw [List.cons_append, nodeAt_cons] at hfree
      cases hf : OrdMap.find (members tree) subkey with
      | none =>
        have hnull : place value last path (seen ++ subkey ++ ".") .null =
            .done (put value (path ++ [last]) .null) := by
          refine ih (fun q w _ hw => ?_) ?_
          · cases q with
            | nil => obtain rfl := Option.some.inj hw; rfl
            | cons k q => cases hw
          · cases path <;> rfl
        rw [Option.getD_none, Option.getD_none, hnull]
        exact congrArg _ (put_congr hne rfl)
      | some t =>
        rw [hf] at hfree
        refine ih (fun q w hq hw => ?_) hfree
        refine hwalk (subkey :: q) w (List.cons_prefix_cons.mpr ⟨rfl, hq⟩) ?_
        exact nodeAt_cons_eq_some_iff.mpr ⟨t, hf, hw⟩
    cases tree with
    | null =>
      have hchild : place value last path (seen ++ subkey ++ ".") .null =
        .done (put value (path ++ [last]) (.object [])) := hchild
      simp only [place, Json.isNull, if_true, OrdMap.find_nil, Option.getD_none, hchild]
      rfl
    | object m =>
      have hchild : place value last path (seen ++ subkey ++ ".") ((OrdMap.find m subkey).getD .null) =
        .done (put value (path ++ [last]) ((OrdMap.find m subkey).getD (.object []))) := hchild
      simp only [place, Json.isNull, Bool.false_eq_true, if_false, hchild]
      rfl
    | _ => cases hval

/-- A value in the place of the last branch has no members to be written. -/
theorem place_of_parent (hw : nodeAt tree path = some w) (hv : w.isValue = true) :
    ∃ f, place value last path seen tree = .threw f := by
  induction path generalizing tree seen with
  | nil =>
    obtain rfl := Option.some.inj hw
    cases tree with
    | null | object => cases hv
    | _ => exact ⟨_, rfl⟩
  | cons subkey path ih =>
    obtain ⟨t, ht, hnode⟩ := nodeAt_cons_eq_some_iff.mp hw
    cases tree with
    | object m =>
      obtain ⟨f, hf⟩ := @ih t (seen ++ subkey ++ ".") hnode
      have ht : OrdMap.find m subkey = some t := ht
      refine ⟨f, ?_⟩
      simp only [place, Json.isNull, Bool.false_eq_true, if_false, ht, Option.getD_some, hf]
    | _ => cases ht

/-- A value further up is in the way. -/
theorem place_of_blocked (hq : q <+: path) (hne : q ≠ path) (hw : nodeAt tree q = some w)
    (hv : w.isValue = true) : ∃ upTo t, place value last path seen tree = .blocked upTo t := by
  induction path generalizing tree seen q with
  | nil => exact absurd (List.prefix_nil.mp hq) hne
  | cons subkey path ih =>
    cases q with
    | nil =>
      obtain rfl := Option.some.inj hw
      cases tree with
      | null | object => cases hv
      | _ => exact ⟨_, _, rfl⟩
    | cons k q =>
      obtain ⟨rfl, hq'⟩ := List.cons_prefix_cons.mp hq
      obtain ⟨t, ht, hnode⟩ := nodeAt_cons_eq_some_iff.mp hw
      cases tree with
      | object m =>
        obtain ⟨upTo, t', hb⟩ := @ih t (seen ++ k ++ ".") q hq' (fun hc => hne (hc ▸ rfl)) hnode
        have ht : OrdMap.find m k = some t := ht
        refine ⟨upTo, .object (OrdMap.insert m k t'), ?_⟩
        simp only [place, Json.isNull, Bool.false_eq_true, if_false, ht, Option.getD_some, hb]
      | _ => cases ht

/-- Something other than a null at the end has been put there before. -/
theorem place_of_taken (hw : nodeAt tree (path ++ [last]) = some w) (hnull : w.isNull = false) :
    place value last path seen tree = .taken := by
  induction path generalizing tree seen with
  | nil =>
    obtain ⟨t, ht, hnode⟩ := nodeAt_cons_eq_some_iff.mp hw
    obtain rfl := Option.some.inj hnode
    rw [place, Json.find_eq_members, ht, Option.getD_some]
    cases t with
    | null => cases hnull
    | _ => rfl
  | cons subkey path ih =>
    obtain ⟨t, ht, hnode⟩ := nodeAt_cons_eq_some_iff.mp hw
    cases tree with
    | object m =>
      have h := @ih t (seen ++ subkey ++ ".") hnode
      have ht : OrdMap.find m subkey = some t := ht
      simp only [place, Json.isNull, Bool.false_eq_true, if_false, ht, Option.getD_some, h]
    | _ => cases ht

end Place

/-! ### All parameters -/

/-- The path of a key, to its end. -/
def keyPath (key : String) : List String := (splitKey key).1 ++ [(splitKey key).2]

variable (parse : String → Option Json)

/-- The tree of parameters that fit, whatever they write over. -/
def assembled (ps : List ParameterValue) : Json :=
  ps.foldl (fun tree p => put (parameterValue parse p.value) (keyPath p.parameter) tree)
    (.object [])

/-- The parameter puts a value at `q`. -/
def PutsValue (p : ParameterValue) (q : List String) : Prop :=
  ∃ r w, q = keyPath p.parameter ++ r ∧ nodeAt (parameterValue parse p.value) r = some w ∧
    w.isValue = true

/-- The parameter leads through `q`, or puts something other than a null there. -/
def Takes (p : ParameterValue) (q : List String) : Prop :=
  (q <+: keyPath p.parameter ∧ q ≠ keyPath p.parameter) ∨
    ∃ r w, q = keyPath p.parameter ++ r ∧ nodeAt (parameterValue parse p.value) r = some w ∧
      w.isNull = false

/-- One of the parameters puts a value at `q`. -/
def ValueAt (ps : List ParameterValue) (q : List String) : Prop := ∃ p ∈ ps, PutsValue parse p q

/-- One of the parameters takes `q`. -/
def Occupied (ps : List ParameterValue) (q : List String) : Prop := ∃ p ∈ ps, Takes parse p q

/-- There is no value on the way of the parameter, and nothing at its end. -/
structure Fits (before : List ParameterValue) (p : ParameterValue) : Prop where
  walk : ∀ q, q <+: (splitKey p.parameter).1 → ¬ ValueAt parse before q
  free : ¬ Occupied parse before (keyPath p.parameter)

variable {parse : String → Option Json} {ps before after : List ParameterValue}
  {p : ParameterValue} {q : List String} {name : String}

theorem walk_isPrefix (key : String) : (splitKey key).1 <+: keyPath key :=
  List.prefix_append _ _

theorem keyPath_ne_nil (key : String) : keyPath key ≠ [] := by simp [keyPath]

/-- Short of its end a path is as far as its last branch. -/
theorem prefix_splitKey_iff {key : String} :
    q <+: (splitKey key).1 ↔ q <+: keyPath key ∧ q ≠ keyPath key := by
  rw [keyPath, List.prefix_concat_iff]
  constructor
  · intro h
    refine ⟨Or.inr h, ?_⟩
    rintro rfl
    have hlen := h.length_le
    simp at hlen
  · rintro ⟨h, hne⟩
    exact h.resolve_left hne

theorem assembled_append_singleton : assembled parse (ps ++ [p]) =
    put (parameterValue parse p.value) (keyPath p.parameter) (assembled parse ps) := by
  simp [assembled]

theorem valueAt_append_singleton :
    ValueAt parse (ps ++ [p]) q ↔ ValueAt parse ps q ∨ PutsValue parse p q := by
  simp [ValueAt, or_and_right, exists_or]

theorem occupied_append_singleton :
    Occupied parse (ps ++ [p]) q ↔ Occupied parse ps q ∨ Takes parse p q := by
  simp [Occupied, or_and_right, exists_or]

/-- What a node above the end of a path is after something has been put at that end. -/
theorem not_putsValue_of_prefix (hq : q <+: keyPath p.parameter) (hne : q ≠ keyPath p.parameter) :
    ¬ PutsValue parse p q := by
  rintro ⟨r, _, rfl, -⟩
  have hnil : r = [] := by simpa using hq.length_le
  exact hne (by simp [hnil])

theorem not_takes_of_apart (h : Apart (keyPath p.parameter) q) : ¬ Takes parse p q := by
  rintro (⟨hq, -⟩ | ⟨r, _, rfl, -⟩)
  · exact h.2 hq
  · exact h.1 (List.prefix_append _ _)

theorem not_putsValue_of_apart (h : Apart (keyPath p.parameter) q) : ¬ PutsValue parse p q := by
  rintro ⟨r, _, rfl, -⟩
  exact h.1 (List.prefix_append _ _)

theorem putsValue_append {r : List String} : PutsValue parse p (keyPath p.parameter ++ r) ↔
    ∃ w, nodeAt (parameterValue parse p.value) r = some w ∧ w.isValue = true := by
  constructor
  · rintro ⟨r', w, hr, hw⟩
    obtain rfl := List.append_cancel_left hr
    exact ⟨w, hw⟩
  · rintro ⟨w, hw⟩
    exact ⟨r, w, rfl, hw⟩

theorem takes_append {r : List String} : Takes parse p (keyPath p.parameter ++ r) ↔
    ∃ w, nodeAt (parameterValue parse p.value) r = some w ∧ w.isNull = false := by
  constructor
  · rintro (⟨hpre, hne⟩ | ⟨r', w, hr, hw⟩)
    · have hnil : r = [] := by simpa using hpre.length_le
      exact absurd (by simp [hnil]) hne
    · obtain rfl := List.append_cancel_left hr
      exact ⟨w, hw⟩
  · rintro ⟨w, hw⟩
    exact Or.inr ⟨r, w, rfl, hw⟩

/-- Under a null there is nothing, nor under what is not there. -/
theorem isNull_of_nodeAt_append {tree w : Json} {r : List String}
    (h : ∀ w, nodeAt tree q = some w → w.isNull = true) (hw : nodeAt tree (q ++ r) = some w) :
    w.isNull = true := by
  rw [nodeAt_append] at hw
  obtain ⟨t, ht, hr⟩ := Option.bind_eq_some_iff.mp hw
  cases r with
  | nil =>
    obtain rfl := Option.some.inj hr
    exact h _ ht
  | cons k r =>
    obtain ⟨t', ht', -⟩ := nodeAt_cons_eq_some_iff.mp hr
    have hnull := h t ht
    cases t with
    | null => cases ht'
    | _ => cases hnull

/-- The parameters say what is in the tree: where it has values, and where it has anything
but nulls. -/
structure Tells (parse : String → Option Json) (ps : List ParameterValue) (tree : Json) : Prop where
  value : ∀ q, ValueAt parse ps q ↔ ∃ w, nodeAt tree q = some w ∧ w.isValue = true
  occupied : ∀ q, q ≠ [] →
    (Occupied parse ps q ↔ ∃ w, nodeAt tree q = some w ∧ w.isNull = false)

theorem tells_nil (parse : String → Option Json) : Tells parse [] (.object []) := by
  have hnone : ∀ q, q ≠ [] → nodeAt (Json.object []) q = none := by
    intro q hq
    cases q with
    | nil => exact absurd rfl hq
    | cons k q => rfl
  refine ⟨fun q => iff_of_false (by simp [ValueAt]) ?_, fun q hq => ?_⟩
  · rintro ⟨w, hw, hv⟩
    by_cases hq : q = []
    · subst hq
      obtain rfl := Option.some.inj hw
      cases hv
    · rw [hnone q hq] at hw
      cases hw
  · rw [hnone q hq]
    simp [Occupied]

/-- Below the end of a path that is free nothing is told of. -/
theorem Tells.below {tree : Json} (h : Tells parse ps tree)
    (hfree : ¬ Occupied parse ps (keyPath p.parameter)) (r : List String) :
    ¬ Occupied parse ps (keyPath p.parameter ++ r) ∧ ¬ ValueAt parse ps (keyPath p.parameter ++ r) := by
  have hnull : ∀ w, nodeAt tree (keyPath p.parameter) = some w → w.isNull = true := by
    intro w hw
    by_contra hc
    exact hfree ((h.occupied _ (keyPath_ne_nil _)).mpr ⟨w, hw, Bool.eq_false_of_not_eq_true hc⟩)
  rw [h.occupied _ (by simp [keyPath]), h.value]
  constructor
  · rintro ⟨w, hw, hn⟩
    rw [isNull_of_nodeAt_append hnull hw] at hn
    cases hn
  · rintro ⟨w, hw, hv⟩
    have hn := Json.isNull_of_isValue hv
    rw [isNull_of_nodeAt_append hnull hw] at hn
    cases hn

theorem Tells.put {tree : Json} (h : Tells parse ps tree) (hfits : Fits parse ps p) :
    Tells parse (ps ++ [p]) (put (parameterValue parse p.value) (keyPath p.parameter) tree) := by
  have hbelow := h.below hfits.free
  constructor
  · intro q
    rw [valueAt_append_singleton]
    rcases apart_or (keyPath p.parameter) q with hapart | ⟨r, rfl⟩ | ⟨hpre, hne⟩
    · rw [nodeAt_put_apart hapart, or_iff_left (not_putsValue_of_apart hapart), h.value]
    · rw [nodeAt_put_below, or_iff_right (hbelow r).2, putsValue_append]
    · obtain ⟨m, hm⟩ := nodeAt_put_above (v := parameterValue parse p.value) (t := tree) hpre hne
      refine iff_of_false ?_ ?_
      · rintro (hold | hnew)
        · exact hfits.walk q (prefix_splitKey_iff.mpr ⟨hpre, hne⟩) hold
        · exact not_putsValue_of_prefix hpre hne hnew
      · rintro ⟨w, hw, hv⟩
        rw [hm] at hw
        obtain rfl := Option.some.inj hw
        cases hv
  · intro q hq
    rw [occupied_append_singleton]
    rcases apart_or (keyPath p.parameter) q with hapart | ⟨r, rfl⟩ | ⟨hpre, hne⟩
    · rw [nodeAt_put_apart hapart, or_iff_left (not_takes_of_apart hapart), h.occupied q hq]
    · rw [nodeAt_put_below, or_iff_right (hbelow r).1, takes_append]
    · obtain ⟨m, hm⟩ := nodeAt_put_above (v := parameterValue parse p.value) (t := tree) hpre hne
      exact iff_of_true (Or.inr (Or.inl ⟨hpre, hne⟩)) ⟨_, hm, rfl⟩

/-- **Parameters each of which fits behind the ones before it** tell what is assembled. -/
theorem nodeAt_assembled (h : InTurn (Fits parse) ps) : Tells parse ps (assembled parse ps) := by
  induction ps using List.reverseRecOn with
  | nil => exact tells_nil parse
  | append_singleton ps p ih =>
    obtain ⟨hps, hfits⟩ := inTurn_append_singleton.mp h
    rw [assembled_append_singleton]
    exact (ih hps).put hfits

/-! ### How the loop ends -/

theorem place_of_fits (h : InTurn (Fits parse) before) (hp : Fits parse before p) {seen : String} :
    place (parameterValue parse p.value) (splitKey p.parameter).2 (splitKey p.parameter).1 seen
      (assembled parse before) = .done (assembled parse (before ++ [p])) := by
  obtain ⟨hvalue, hoccupied⟩ := nodeAt_assembled h
  rw [assembled_append_singleton]
  refine place_of_free (fun q w hq hw => ?_) ?_
  · by_contra hc
    exact hp.walk q hq ((hvalue q).mpr ⟨w, hw, by simpa using hc⟩)
  · cases hn : nodeAt (assembled parse before) (keyPath p.parameter) with
    | none => rw [keyPath] at hn; rw [hn]; rfl
    | some w =>
      have hnull : w.isNull = true := by
        by_contra hc
        exact hp.free ((hoccupied _ (keyPath_ne_nil _)).mpr ⟨w, hn, by simpa using hc⟩)
      rw [keyPath] at hn
      rw [hn]
      cases w with
      | null => rfl
      | _ => cases hnull

/-- **The loop goes through the parameters that fit.** -/
theorem buildEntity_of_fits (h : InTurn (Fits parse) before) :
    buildEntity parse name (before ++ after) (.object []) =
      buildEntity parse name after (assembled parse before) := by
  induction before using List.reverseRecOn generalizing after with
  | nil => rfl
  | append_singleton before p ih =>
    obtain ⟨hbefore, hp⟩ := inTurn_append_singleton.mp h
    rw [List.append_assoc, ih hbefore]
    simp only [List.singleton_append, buildEntity, place_of_fits hbefore hp]

/-- A value further up than the last branch ends the loop, and `add` leaves what it has built. -/
theorem buildEntity_of_blocked (h : InTurn (Fits parse) before)
    (hq : q <+: (splitKey p.parameter).1) (hne : q ≠ (splitKey p.parameter).1)
    (hv : ValueAt parse before q) :
    ∃ r e, buildEntity parse name (before ++ p :: after) (.object []) = .left r e := by
  obtain ⟨w, hw, hwv⟩ := ((nodeAt_assembled h).1 q).mp hv
  obtain ⟨upTo, t, hplace⟩ : ∃ upTo t, place (parameterValue parse p.value)
      (splitKey p.parameter).2 (splitKey p.parameter).1 "" (assembled parse before) =
        .blocked upTo t := place_of_blocked hq hne hw hwv
  rw [buildEntity_of_fits h]
  simp only [buildEntity, hplace]
  exact ⟨_, _, rfl⟩

/-- A value in the place of the last branch makes `operator[]` throw. -/
theorem buildEntity_of_parent (h : InTurn (Fits parse) before)
    (hv : ValueAt parse before (splitKey p.parameter).1) :
    ∃ f, buildEntity parse name (before ++ p :: after) (.object []) = .threw f := by
  obtain ⟨w, hw, hwv⟩ := ((nodeAt_assembled h).1 _).mp hv
  obtain ⟨f, hplace⟩ : ∃ f, place (parameterValue parse p.value) (splitKey p.parameter).2
      (splitKey p.parameter).1 "" (assembled parse before) = .threw f := place_of_parent hw hwv
  rw [buildEntity_of_fits h]
  simp only [buildEntity, hplace]
  exact ⟨_, rfl⟩

/-- What is at the end of the path already is not written over. -/
theorem buildEntity_of_occupied (h : InTurn (Fits parse) before)
    (ho : Occupied parse before (keyPath p.parameter)) :
    ∃ r, buildEntity parse name (before ++ p :: after) (.object []) = .erased r := by
  obtain ⟨w, hw, hnull⟩ := ((nodeAt_assembled h).2 _ (keyPath_ne_nil _)).mp ho
  have hplace : place (parameterValue parse p.value) (splitKey p.parameter).2
      (splitKey p.parameter).1 "" (assembled parse before) = .taken := place_of_taken hw hnull
  rw [buildEntity_of_fits h]
  simp only [buildEntity, hplace]
  exact ⟨_, rfl⟩

/-- Why a parameter does not fit. -/
theorem not_fits_cases (h : ¬ Fits parse before p) :
    (∃ q, q <+: (splitKey p.parameter).1 ∧ q ≠ (splitKey p.parameter).1 ∧ ValueAt parse before q) ∨
    ValueAt parse before (splitKey p.parameter).1 ∨ Occupied parse before (keyPath p.parameter) := by
  by_contra hc
  rw [not_or, not_or] at hc
  obtain ⟨hblocked, hparent, hfree⟩ := hc
  refine h ⟨fun q hq hv => ?_, hfree⟩
  by_cases hne : q = (splitKey p.parameter).1
  · exact hparent (hne ▸ hv)
  · exact hblocked ⟨q, hq, hne, hv⟩

/-- Some parameter has a value further up in its way. -/
def Blocks (parse : String → Option Json) (ps : List ParameterValue) : Prop :=
  ∃ before p after, ps = before ++ p :: after ∧ InTurn (Fits parse) before ∧
    ∃ q, q <+: (splitKey p.parameter).1 ∧ q ≠ (splitKey p.parameter).1 ∧ ValueAt parse before q

/-- Some parameter has a value in the place of its last branch. -/
def Throws (parse : String → Option Json) (ps : List ParameterValue) : Prop :=
  ∃ before p after, ps = before ++ p :: after ∧ InTurn (Fits parse) before ∧
    ValueAt parse before (splitKey p.parameter).1

/-- **How the loop over the parameters ends.** -/
theorem buildEntity_cases (parse : String → Option Json) (name : String)
    (ps : List ParameterValue) :
    (InTurn (Fits parse) ps ∧
      buildEntity parse name ps (.object []) = .done (assembled parse ps)) ∨
    (¬ InTurn (Fits parse) ps ∧
      ((Blocks parse ps ∧ ∃ r e, buildEntity parse name ps (.object []) = .left r e) ∨
      (Throws parse ps ∧ ∃ f, buildEntity parse name ps (.object []) = .threw f) ∨
      ∃ r, buildEntity parse name ps (.object []) = .erased r)) := by
  by_cases h : InTurn (Fits parse) ps
  · have hall : buildEntity parse name (ps ++ []) (.object []) = _ := buildEntity_of_fits h
    rw [List.append_nil] at hall
    exact Or.inl ⟨h, hall⟩
  · obtain ⟨before, p, after, rfl, hbefore, hp⟩ := exists_first_of_not_inTurn h
    refine Or.inr ⟨h, ?_⟩
    rcases not_fits_cases hp with ⟨q, hq, hne, hv⟩ | hv | ho
    · exact Or.inl ⟨⟨before, p, after, rfl, hbefore, q, hq, hne, hv⟩,
        buildEntity_of_blocked hbefore hq hne hv⟩
    · exact Or.inr (Or.inl ⟨⟨before, p, after, rfl, hbefore, hv⟩, buildEntity_of_parent hbefore hv⟩)
    · exact Or.inr (Or.inr (buildEntity_of_occupied hbefore ho))

theorem buildEntity_eq_done_iff {e : Json} : buildEntity parse name ps (.object []) = .done e ↔
    InTurn (Fits parse) ps ∧ e = assembled parse ps := by
  rcases buildEntity_cases parse name ps with ⟨h, hb⟩ | ⟨h, ⟨-, _, _, hb⟩ | ⟨-, _, hb⟩ | ⟨_, hb⟩⟩
  · rw [hb, Built.done.injEq]
    exact ⟨fun he => ⟨h, he.symm⟩, fun he => he.2.symm⟩
  all_goals
    rw [hb]
    exact iff_of_false (by simp) fun he => h he.1

theorem buildEntity_left_iff (name : String) :
    (∃ r e, buildEntity parse name ps (.object []) = .left r e) ↔ Blocks parse ps := by
  constructor
  · rintro ⟨r, e, he⟩
    rcases buildEntity_cases parse name ps with ⟨-, hb⟩ | ⟨-, ⟨h, -⟩ | ⟨-, _, hb⟩ | ⟨_, hb⟩⟩
    · rw [hb] at he; cases he
    · exact h
    · rw [hb] at he; cases he
    · rw [hb] at he; cases he
  · rintro ⟨before, p, after, rfl, h, q, hq, hne, hv⟩
    exact buildEntity_of_blocked h hq hne hv

theorem not_blocks_of_ne_left (name : String)
    (h : ∀ r e, buildEntity parse name ps (.object []) ≠ .left r e) : ¬ Blocks parse ps := by
  intro hblocks
  obtain ⟨r, e, he⟩ := (buildEntity_left_iff name).mpr hblocks
  exact h r e he

theorem buildEntity_threw_iff (name : String) :
    (∃ f, buildEntity parse name ps (.object []) = .threw f) ↔ Throws parse ps := by
  constructor
  · rintro ⟨f, he⟩
    rcases buildEntity_cases parse name ps with ⟨-, hb⟩ | ⟨-, ⟨-, _, _, hb⟩ | ⟨h, -⟩ | ⟨_, hb⟩⟩
    · rw [hb] at he; cases he
    · rw [hb] at he; cases he
    · exact h
    · rw [hb] at he; cases he
  · rintro ⟨before, p, after, rfl, h, hv⟩
    exact buildEntity_of_parent h hv

end Config

end Nonsense
