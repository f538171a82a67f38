import Nonsense.Config.Assembly
import Nonsense.Config.Verdict

/-!
# What escapes from `add`

`add` is `noexcept`, and only its validation is in a `try` block.  The loop over the
parameters throws where it comes to the last key of a path and finds a value in the
place of the branch (`Throws`): the walk makes sure of an object before each step but
the last.  The validation ends the process by an assertion where it meets an uplink with
a component that is a string (`MeetsDelegation`).  `add_returns_iff` says that there is
nothing else.
-/

namespace Nonsense

namespace Config

open EState Nested

variable {parse : String → Option Json} {ps : List ParameterValue} {c c' : Config}
  {name : String} {tree tree' : Object} {r : ConfigResult}

/-! ### Validation -/

/-- The first check of the network component that does not pass is the uplink's, and the
uplink's component is a string. -/
def MeetsDelegation (tree : Object) (name : String) (e : Object) : Prop :=
  ∃ m types before after, e.keys = "network" :: types ∧ Walked e m ∧
    m.keys = before ++ "uplink" :: after ∧ (∀ k ∈ before, ParameterOk tree name m k) ∧
    ∃ uplink, m.find "uplink" = some uplink ∧ Delegated tree uplink

theorem validateNetwork_asserts_iff {e : Object} (he : tree.find name = some (.object e)) :
    (∃ text tree', validateNetwork name tree = .error (.assertion text) tree') ↔
      ∃ m before after, Walked e m ∧ m.keys = before ++ "uplink" :: after ∧
        (∀ k ∈ before, ParameterOk tree name m k) ∧
        ∃ uplink, m.find "uplink" = some uplink ∧ Delegated tree uplink := by
  by_cases h : ∃ m, Walked e m
  · obtain ⟨m, hm⟩ := h
    obtain ⟨heq, w, hloop⟩ := validateNetwork_of_walked he hm
    have hw : Writes name tree (setNetwork tree name m) := .single w
    rw [heq]
    constructor
    · rintro ⟨text, tree', herr⟩
      obtain ⟨before, key, after, hkeys, -, hb, -, hf⟩ :=
        validateParameters_eq_error hloop (fun _ hk => hk) herr
      obtain ⟨rfl, hdel⟩ := hw.asserts_iff.mp (hf.mp ⟨text, rfl⟩)
      exact ⟨m, before, after, hm, hkeys, fun k hk => hw.parameterOk_iff.mp (hb k hk), hdel⟩
    · rintro ⟨m', before, after, hm', hkeys, hb, hdel⟩
      obtain rfl := hm.unique hm'
      have hasserts : Asserts (setNetwork tree name m) m "uplink" :=
        hw.asserts_iff.mpr ⟨rfl, hdel⟩
      obtain ⟨f, tree', herr, -, hf⟩ := validateParameters_of_fails after hloop
        (by rw [hkeys]; exact fun _ hk => hk) (fun k hk => hw.parameterOk_iff.mpr (hb k hk))
        hasserts.not_parameterOk
      obtain ⟨text, rfl⟩ := hf.mpr hasserts
      rw [hkeys]
      exact ⟨text, tree', herr⟩
  · obtain ⟨what, tree', herr, -⟩ := validateNetwork_of_not_walked he h
    rw [herr]
    refine iff_of_false ?_ ?_
    · rintro ⟨_, _, hc⟩
      cases hc
    · rintro ⟨m, _, _, hm, -⟩
      exact h ⟨m, hm⟩

/-- Only the network component may run into the assertion, and only when it comes first. -/
theorem validateComponents_asserts_iff {types : List String} {e : Object}
    (he : tree.find name = some (.object e)) :
    (∃ text tree', validateComponents name types tree = .error (.assertion text) tree') ↔
      ∃ ts, types = "network" :: ts ∧
        ∃ text tree', validateNetwork name tree = .error (.assertion text) tree' := by
  induction types generalizing tree e with
  | nil =>
    refine iff_of_false ?_ ?_
    · rintro ⟨_, _, hc⟩
      cases hc
    · rintro ⟨_, hc, -⟩
      cases hc
  | cons type types ih =>
    by_cases ht : type = "network"
    · subst ht
      rw [validateComponents_cons_network]
      constructor
      · rintro ⟨text, tree', herr⟩
        rcases bind_eq_error_iff.mp herr with herr | ⟨_, tree₁, h₁, hrest⟩
        · exact ⟨types, rfl, text, tree', herr⟩
        · -- a component that has passed does not fail when it comes again
          obtain ⟨e₁, he₁, hpasses⟩ := networkPasses_of_ok h₁
          obtain ⟨_, -, text', tree₂, herr⟩ := (ih he₁).mp ⟨text, tree', hrest⟩
          obtain ⟨tree₃, h₃⟩ := (validateNetwork_ok_iff he₁).mpr hpasses
          rw [herr] at h₃
          cases h₃
      · rintro ⟨_, -, text, tree', herr⟩
        exact ⟨text, tree', bind_of_error herr⟩
    · obtain ⟨what, herr⟩ := validateComponents_cons_of_ne name tree types ht
      rw [herr]
      refine iff_of_false ?_ ?_
      · rintro ⟨_, _, hc⟩
        cases hc
      · rintro ⟨_, hc, -⟩
        exact ht (List.cons.inj hc).1

/-- **When a validation runs into the assertion.** -/
theorem validateEntity_asserts_iff {e : Object} (he : tree.find name = some (.object e)) :
    (∃ text tree', validateEntity name tree = .error (.assertion text) tree') ↔
      MeetsDelegation tree name e := by
  rw [validateEntity_apply he, validateComponents_asserts_iff he]
  constructor
  · rintro ⟨types, htypes, hasserts⟩
    obtain ⟨m, before, after, hrest⟩ := (validateNetwork_asserts_iff he).mp hasserts
    exact ⟨m, types, before, after, htypes, hrest⟩
  · rintro ⟨m, types, before, after, htypes, hrest⟩
    exact ⟨types, htypes, (validateNetwork_asserts_iff he).mpr ⟨m, before, after, hrest⟩⟩

/-! ### Adding -/

/-- The members of the entity that the parameters make. -/
def entityOf (parse : String → Option Json) (ps : List ParameterValue) : Object :=
  members (assembled parse ps)

theorem assembled_eq : assembled parse ps = .object (entityOf parse ps) := by
  obtain ⟨m, hm⟩ := assembled_eq_object parse ps
  rw [entityOf, hm]
  rfl

theorem entityOf_ordered : (entityOf parse ps).Ordered := by
  induction ps using List.reverseRecOn with
  | nil => exact List.Pairwise.nil
  | append_singleton ps p ih =>
    rw [entityOf, assembled_append_singleton]
    cases hpath : keyPath p.parameter with
    | nil => exact absurd hpath (keyPath_ne_nil _)
    | cons k path =>
      rw [put_cons, members_branch]
      exact OrdMap.Ordered.insert ih

/-- The path of a parameter runs through a value that another one sets. -/
def RunsThrough (parse : String → Option Json) (ps : List ParameterValue) : Prop :=
  ∃ p ∈ ps, ∃ p' ∈ ps, ∃ q, q <+: keyPath p.parameter ∧ q ≠ keyPath p.parameter ∧
    PutsValue parse p' q

/-- One of the two comes first, and then the other one does not fit. -/
theorem RunsThrough.not_inTurn (h : RunsThrough parse ps) : ¬ InTurn (Fits parse) ps := by
  obtain ⟨p, hp, p', hp', q, hq, hne, hputs⟩ := h
  intro hfits
  obtain ⟨before, after, rfl⟩ := List.append_of_mem hp
  have hpne : p' ≠ p := by
    rintro rfl
    exact not_putsValue_of_prefix hq hne hputs
  rcases List.mem_append.mp hp' with hbefore | hafter
  · exact (hfits before p after rfl).walk q (prefix_splitKey_iff.mpr ⟨hq, hne⟩) ⟨p', hbefore, hputs⟩
  · obtain ⟨s, t, rfl⟩ := List.append_of_mem ((List.mem_cons.mp hafter).resolve_left hpne)
    refine (hfits (before ++ p :: s) p' t (by simp)).free ⟨p, by simp, Or.inl ?_⟩
    -- the end of the path of `p'` is on the path of `p`
    obtain ⟨r, w, rfl, -⟩ := hputs
    refine ⟨(List.prefix_append _ r).trans hq, fun hc => hne (hq.eq_of_length_le ?_)⟩
    rw [List.length_append, hc]
    exact Nat.le_add_right _ _

theorem add_of_new (hmut : c.isMutable = true) (hnew : c.configuration.find name = none) :
    add parse c name ps =
      match buildEntity parse name ps (.object []) with
      | .threw f => .terminated f
      | .left result entity =>
        .returned result { c with configuration := c.configuration.insert name entity }
      | .erased result => .returned result c
      | .done entity =>
        match validateEntity name (c.configuration.insert name entity) with
        | .ok () tree => .returned ⟨0, ""⟩ { c with configuration := tree }
        | .error (.exception what) tree =>
          .returned ⟨-EINVAL, what⟩ { c with configuration := tree.erase name }
        | .error (.assertion text) _ => .terminated (.assertion text) := by
  rw [add, hmut, hnew]
  rfl

/-- Parameters that fit leave it to the validation. -/
theorem add_of_fits (hmut : c.isMutable = true) (hnew : c.configuration.find name = none)
    (h : InTurn (Fits parse) ps) :
    add parse c name ps =
      match validateEntity name (c.configuration.insert name (.object (entityOf parse ps))) with
      | .ok () tree => .returned ⟨0, ""⟩ { c with configuration := tree }
      | .error (.exception what) tree =>
        .returned ⟨-EINVAL, what⟩ { c with configuration := tree.erase name }
      | .error (.assertion text) _ => .terminated (.assertion text) := by
  rw [add_of_new hmut hnew, buildEntity_eq_done_iff.mpr ⟨h, rfl⟩, assembled_eq]

/-- **When `add` returns.** -/
theorem add_returns_iff (hmut : c.isMutable = true) :
    ((∃ r c', add parse c name ps = .returned r c') ∧
      (c.configuration.find name = none → RunsThrough parse ps →
        ∃ r c', add parse c name ps = .returned r c' ∧ r.errorCode = -EINVAL)) ↔
      (c.configuration.find name).isSome = true ∨
        (¬ Throws parse ps ∧ ¬ (InTurn (Fits parse) ps ∧
          MeetsDelegation (c.configuration.insert name (.object (entityOf parse ps))) name
            (entityOf parse ps))) := by
  cases hnew : c.configuration.find name with
  | some j =>
    have hadd : ∃ r, add parse c name ps = .returned r c := by
      simp only [add, hmut, hnew]
      exact ⟨_, rfl⟩
    obtain ⟨r, hadd⟩ := hadd
    exact iff_of_true ⟨⟨r, c, hadd⟩, fun hc => by cases hc⟩ (Or.inl rfl)
  | none =>
    have he : (c.configuration.insert name (.object (entityOf parse ps))).find name =
        some (.object (entityOf parse ps)) := OrdMap.find_insert_self _ _ _
    rw [← buildEntity_threw_iff name, ← validateEntity_asserts_iff he]
    simp only [Option.isSome_none, Bool.false_eq_true, false_or, forall_const]
    rcases buildEntity_cases parse name ps with
      ⟨h, hb⟩ | ⟨h, ⟨-, r, e, hb⟩ | ⟨-, f, hb⟩ | ⟨r, hb⟩⟩
    · -- the entity is built, and validation decides
      have hthrough : ¬ RunsThrough parse ps := fun hc => hc.not_inTurn h
      rw [add_of_fits hmut hnew h, hb]
      cases validateEntity name (c.configuration.insert name (.object (entityOf parse ps))) with
      | ok _ tree => simp [hthrough]
      | error f tree =>
        cases f with
        | exception what => simp [hthrough]
        | assertion text => simp [h]
    · have hcode := buildEntity_errorCode (Or.inl ⟨e, hb⟩)
      simp [add_of_new hmut hnew, hb, h, hcode]
    · simp [add_of_new hmut hnew, hb]
    · have hcode := buildEntity_errorCode (Or.inr hb)
      simp [add_of_new hmut hnew, hb, h, hcode]

/-- A value two steps up is seen in time. -/
theorem add_returns_iff_blocked :
    ¬ Throws (fun _ => none) [⟨"network", "x"⟩, ⟨"network.peer.name", "y"⟩] := by
  have hcode : (add (fun _ => none) noEntities "a"
      [⟨"network", "x"⟩, ⟨"network.peer.name", "y"⟩]).errorCode = some (-EINVAL) := by
    decide +kernel
  obtain ⟨r, c', hadd, hr⟩ := Added.errorCode_eq_some_iff.mp hcode
  exact (((add_returns_iff (c := noEntities) rfl).mp
    ⟨⟨r, c', hadd⟩, fun _ _ => ⟨r, c', hadd, hr⟩⟩).resolve_left (by decide)).1

/-- **A value right above the last key ends the daemon.** -/
theorem add_escapes :
    ¬ ∀ (parse : String → Option Json) (c : Config) (name : String) (ps : List ParameterValue),
      c.isMutable = true → ∃ r c', add parse c name ps = .returned r c' := by
  intro h
  let parse : String → Option Json := fun s => if s = "5" then some (.integer 5) else none
  have hcode : (add parse noEntities "a"
      [⟨"network", "5"⟩, ⟨"network.role", "root"⟩]).errorCode = none := by decide +kernel
  obtain ⟨r, c', hadd⟩ := h parse noEntities "a" [⟨"network", "5"⟩, ⟨"network.role", "root"⟩] rfl
  rw [hadd] at hcode
  cases hcode

end Config

end Nonsense
