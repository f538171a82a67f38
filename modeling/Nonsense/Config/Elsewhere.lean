import Nonsense.Config.Accepting

/-!
# Entries elsewhere

A validation looks at the entity it validates, at its uplink, and at the record of the
default where the entity has the parameter.  An entry elsewhere (`Clear`) changes nothing:
neither the verdict nor its text, nor what is written (`validateEntity_insert`).

What an `add` that succeeds writes is its own entry, and the record
(`add_eq_insertAll`).
-/

namespace Nonsense

namespace Json

theorem find_assign {j j' w : Json} {key : String} (h : j.assign key w = .ok j') (x : String) :
    j'.find x = if x = key then some w else j.find x := by
  cases j with
  | null =>
    cases h
    rw [find_object, OrdMap.find_cons]
    rfl
  | object m =>
    cases h
    rw [find_object, find_object, OrdMap.find_insert]
  | _ => cases h

/-- `default` is no number of an element. -/
theorem exists_find_default {j : Json} (h : "default" ∈ j.itemKeys) : ∃ v, j.find "default" = some v := by
  cases j with
  | null => cases h
  | object m => exact mem_itemKeys_object.mp h
  | array l =>
    obtain ⟨i, -, hi⟩ := List.mem_map.mp h
    have hd : 'd' ∈ Nat.toDigits 10 i := by
      have hlist : (toString i).toList = Nat.toDigits 10 i := by simp
      rw [← hlist, hi]
      decide
    exact absurd (Nat.isDigit_of_mem_toDigits (by decide) (by decide) hd) (by decide)
  | _ => exact absurd (List.mem_singleton.mp h) (by decide)

end Json

namespace Config

open EState

variable {k name : String} {v : Json} {tree : Object}

/-- To the validation of `name` the entry `k` is neither the uplink nor, where there is the
parameter `default`, the record. -/
structure Clear (k name : String) (tree : Object) : Prop where
  uplink : (component tree name "network").find "uplink" ≠ some (.string k)
  default : k = ":default-netns" → (component tree name "network").find "default" = none

/-- The computation takes no notice of the entry `k`, while it is clear of `name`. -/
abbrev Ignores {α : Type} (k : String) (v : Json) (name : String) (x : Edit α) : Prop :=
  Respects (fun tree => OrdMap.insert tree k v) (Clear k name) x

/-! ### References -/

theorem component_insert_ne {n type : String} (hn : n ≠ k) :
    component (tree.insert k v) n type = component tree n type := by
  simp only [component, OrdMap.find_insert_ne _ _ hn]

theorem setComponent_insert_ne {n type : String} {j : Json} (hn : n ≠ k) :
    setComponent (tree.insert k v) n type j = (setComponent tree n type j).insert k v := by
  unfold setComponent
  rw [OrdMap.find_insert_ne _ _ hn]
  split
  · exact OrdMap.insert_comm _ _ _ hn.symm
  · rfl

/-- What is assigned to a component is read from that one only. -/
theorem component_setComponent {n type type' : String} {j : Json} :
    component (setComponent tree n type j) name type' = component tree name type' ∨
      n = name ∧ type = type' ∧ component (setComponent tree n type j) name type' = j := by
  unfold setComponent
  split
  · rename_i e he
    by_cases hn : n = name
    · subst hn
      by_cases ht : type = type'
      · subst ht
        refine Or.inr ⟨rfl, rfl, ?_⟩
        simp [component, OrdMap.find_insert_self]
      · left
        simp [component, OrdMap.find_insert_self, OrdMap.find_insert_ne _ _ (Ne.symm ht), he]
    · left
      simp only [component, OrdMap.find_insert_ne _ _ (Ne.symm hn)]
  · exact Or.inl rfl

theorem Clear.setComponent {n key : String} {w j : Json} (h : Clear k name tree)
    (hdefault : key ≠ "default") (huplink : key = "uplink" → w ≠ .string k)
    (ha : (component tree n "network").assign key w = .ok j) :
    Clear k name (setComponent tree n "network" j) := by
  rcases @component_setComponent name tree n "network" "network" j with hsame | ⟨rfl, -, hj⟩
  · exact ⟨by rw [hsame]; exact h.uplink, by rw [hsame]; exact h.default⟩
  · refine ⟨?_, fun hk => ?_⟩
    · rw [hj, Json.find_assign ha]
      split_ifs with hkey
      · rintro hw
        exact huplink hkey.symm (Option.some.inj hw)
      · exact h.uplink
    · rw [hj, Json.find_assign ha, if_neg hdefault.symm, h.default hk]

theorem respects_subscript {n key : String} (hn : n ≠ k) (hdefault : key ≠ "default") :
    Ignores k v name (subscript n "network" key) := by
  intro t ht
  simp only [subscript_apply, component_insert_ne hn]
  cases (component t n "network").find key with
  | some w =>
    refine ⟨rfl, fun a t' h => ?_⟩
    cases h
    exact ht
  | none =>
    dsimp only
    cases ha : (component t n "network").assign key .null with
    | error f => exact ⟨rfl, fun a t' h => by cases h⟩
    | ok j =>
      refine ⟨?_, fun a t' h => ?_⟩
      · dsimp only
        rw [setComponent_insert_ne hn]
        rfl
      · cases h
        exact ht.setComponent hdefault (fun _ => by simp) ha

theorem respects_assign {n key : String} {w : Json} (hn : n ≠ k) (hdefault : key ≠ "default")
    (huplink : key = "uplink" → w ≠ .string k) :
    Ignores k v name (assign n "network" key w) := by
  intro t ht
  simp only [assign_apply, component_insert_ne hn]
  cases ha : (component t n "network").assign key w with
  | error f => exact ⟨rfl, fun a t' h => by cases h⟩
  | ok j =>
    refine ⟨?_, fun a t' h => ?_⟩
    · dsimp only
      rw [setComponent_insert_ne hn]
      rfl
    · cases h
      exact ht.setComponent hdefault huplink ha

theorem respects_lift {α : Type} {f : Object → Object} {P : Object → Prop} (x : Except Fault α) :
    Respects f P (lift x : Edit α) := by
  cases x with
  | error f => exact respects_throw f
  | ok a => exact respects_pure a

/-! ### Validation -/

/-- The record put in does not change the network of an entity that is not called like it. -/
theorem Clear.insert_default {j : Json} (h : Clear k name tree) (hname : name ≠ ":default-netns") :
    Clear k name (tree.insert ":default-netns" j) :=
  ⟨by rw [component_insert_ne hname]; exact h.uplink,
    by rw [component_insert_ne hname]; exact h.default⟩

theorem respects_validateDefault (hname : name ≠ ":default-netns") (hk : k ≠ ":default-netns") :
    Ignores k v name (validateDefault name) := by
  intro t ht
  simp only [validateDefault, get_bind_apply, OrdMap.find_insert_ne _ _ hk.symm]
  cases (OrdMap.find t ":default-netns").getD .null with
  | null =>
    refine ⟨?_, fun a t' h => ?_⟩
    · show EStateM.Result.ok () (OrdMap.insert _ ":default-netns" _) = _
      rw [OrdMap.insert_comm _ _ _ hk]
      rfl
    · cases h
      exact ht.insert_default hname
  | _ =>
    refine (?_ : Ignores k v name _) t ht
    dsimp only
    split
    · exact respects_pure ()
    · exact (respects_lift _).bind fun _ => respects_throw _

theorem respects_validateAddress (hname : name ≠ k) :
    Ignores k v name (validateAddress name) := by
  refine (respects_subscript hname (by decide)).bind fun role => ?_
  split
  · exact respects_pure ()
  · exact respects_throw _

/-- The value that is read for the uplink is not `k`. -/
theorem Clear.ne_of_subscript {w : Json} {tree' : Object} (h : Clear k name tree)
    (hsub : subscript name "network" "uplink" tree = .ok w tree') : w ≠ .string k := by
  rw [subscript_apply] at hsub
  rintro rfl
  split at hsub
  · rename_i w hw
    cases hsub
    exact h.uplink hw
  · split at hsub <;> cases hsub

theorem respects_validateUplink (hname : name ≠ k) :
    Ignores k v name (validateUplink name) := by
  intro t ht
  have hread : Ignores k v name (subscript name "network" "uplink") := respects_subscript hname (by decide)
  obtain ⟨hrun, hkeep⟩ := hread t ht
  rw [validateUplink]
  cases hsub : subscript name "network" "uplink" t with
  | error f t₁ =>
    rw [hsub] at hrun
    rw [bind_of_error hrun, bind_of_error hsub]
    exact ⟨rfl, fun _ _ hc => by cases hc⟩
  | ok uplink t₁ =>
    rw [hsub] at hrun
    have h₁ := hkeep _ _ hsub
    have hne := ht.ne_of_subscript hsub
    rw [bind_of_ok hrun, bind_of_ok hsub, get_bind_apply, get_bind_apply]
    cases uplink with
    | string u =>
      have hu : u ≠ k := fun hc => hne (congrArg Json.string hc)
      dsimp only
      rw [OrdMap.find_insert_ne _ _ hu]
      generalize OrdMap.find t₁ u = entry
      refine (?_ : Ignores k v name _) t₁ h₁
      split
      · exact respects_throw _
      · split
        · exact respects_throw _
        · exact respects_throw _
        · refine (respects_subscript hu (by decide)).bind fun role => ?_
          split
          · exact respects_throw _
          · exact respects_pure _
        · exact respects_throw _
      · exact respects_throw _
    | _ =>
      refine (?_ : Ignores k v name _) t₁ h₁
      exact respects_throw _

theorem respects_validateParameter {key : String} (hname : name ≠ k)
    (hrecord : name ≠ ":default-netns") (hkey : k = ":default-netns" → key ≠ "default") :
    Ignores k v name (validateParameter name key) := by
  unfold validateParameter knownParameters
  split_ifs with hcolon hrole hexternal hdefault haddress huplink
  · exact respects_pure ()
  · exact respects_pure ()
  · exact respects_pure ()
  · exact respects_validateDefault hrecord fun hk => hkey hk hdefault
  · exact respects_validateAddress hname
  · exact respects_validateUplink hname
  · exact respects_throw _

theorem respects_validateNetwork (hname : name ≠ k) (hrecord : name ≠ ":default-netns") :
    Ignores k v name (validateNetwork name) := by
  refine (respects_subscript hname (by decide)).bind fun j => (respects_lift _).bind fun role => ?_
  split
  · exact respects_throw _
  · refine (respects_assign hname (by decide) fun hc => absurd hc (by decide)).bind fun _ => ?_
    -- the keys of the component are the same
    intro t ht
    rw [get_bind_apply, get_bind_apply, component_insert_ne hname, validateParameters_eq_forM]
    refine (respects_forM fun key hmem => ?_ : Ignores k v name _) t ht
    refine respects_validateParameter hname hrecord ?_
    rintro hk rfl
    obtain ⟨w, hw⟩ := Json.exists_find_default hmem
    rw [ht.default hk] at hw
    cases hw

theorem respects_validateComponents {types : List String} (hname : name ≠ k)
    (hrecord : name ≠ ":default-netns") :
    Ignores k v name (validateComponents name types) := by
  induction types with
  | nil => exact respects_pure ()
  | cons type types ih =>
    rw [validateComponents]
    split
    · exact (respects_throw _).bind fun _ => ih
    · exact (respects_validateNetwork hname hrecord).bind fun _ => ih

/-- **An entry elsewhere changes nothing of a validation.** -/
theorem validateEntity_insert (hname : name ≠ k) (hrecord : name ≠ ":default-netns")
    (h : Clear k name tree) :
    validateEntity name (tree.insert k v) =
      mapState (fun t => OrdMap.insert t k v) (validateEntity name tree) := by
  rw [validateEntity, get_bind_apply, get_bind_apply, OrdMap.find_insert_ne _ _ hname]
  exact (respects_validateComponents hname hrecord tree h).1

/-! ### Adding -/

/-- The entity has a network with the parameter `default`. -/
def SetsDefault (entity : Json) : Prop :=
  ∃ m : Object, entity.find "network" = some (.object m) ∧ "default" ∈ m.keys

/-- The configuration with more entries. -/
def extend (c : Config) (entries : Object) : Config :=
  { c with configuration := c.configuration.insertAll entries }

/-- Two ways in which an `add` ends: with the same result, and if it is accepted, with
configurations of which `f` makes the second one from the first. -/
inductive Added.Matches (f : Config → Config) : Added → Added → Prop
  | terminated (fault : Fault) : Matches f (.terminated fault) (.terminated fault)
  | refused {r : ConfigResult} {c c' : Config} : r.errorCode ≠ 0 →
    Matches f (.returned r c) (.returned r c')
  | accepted (r : ConfigResult) (c : Config) : Matches f (.returned r c) (.returned r (f c))

variable {parse : String → Option Json} {ps : List ParameterValue} {c c' : Config}
  {r : ConfigResult}

theorem clear_insert {e : Json} (huplink : entityUplink e ≠ some k)
    (hdefault : k = ":default-netns" → ¬ SetsDefault e) : Clear k name (tree.insert name e) := by
  have hcomponent : component (tree.insert name e) name "network" = (e.find "network").getD .null := by
    rw [component, OrdMap.find_insert_self]
    rfl
  refine ⟨?_, fun hk => ?_⟩
  · rw [hcomponent]
    intro hu
    apply huplink
    cases hn : e.find "network" with
    | none => rw [hn] at hu; cases hu
    | some j =>
      rw [hn, Option.getD_some] at hu
      simp [entityUplink, hn, hu]
  · rw [hcomponent]
    cases hn : e.find "network" with
    | none => rfl
    | some j =>
      rw [Option.getD_some]
      cases hd : j.find "default" with
      | none => rfl
      | some w =>
        obtain ⟨m, rfl, hm⟩ := Json.eq_object_of_find hd
        exact absurd ⟨m, hn, OrdMap.mem_keys_iff.mpr ⟨w, hm⟩⟩ (hdefault hk)

/-- **An entry elsewhere changes nothing of an `add`.** -/
theorem add_extend_singleton (hname : name ≠ k) (hrecord : name ≠ ":default-netns")
    (hclear : ∀ e, buildEntity parse name ps (.object []) = .done e →
      entityUplink e ≠ some k ∧ (k = ":default-netns" → ¬ SetsDefault e)) :
    (add parse c name ps).Matches (fun c => c.extend [(k, v)])
      (add parse (c.extend [(k, v)]) name ps) := by
  have hfind : (c.extend [(k, v)]).configuration.find name = c.configuration.find name :=
    OrdMap.find_insert_ne _ _ hname
  unfold add
  rw [hfind, show (c.extend [(k, v)]).isMutable = c.isMutable from rfl]
  split_ifs
  · exact .refused (by decide)
  · exact .refused (show ¬ -EEXIST = 0 by decide)
  cases hbuild : buildEntity parse name ps (.object []) with
  | threw f => exact .terminated f
  | left r e =>
    refine .refused ?_
    rw [buildEntity_errorCode (Or.inl ⟨e, hbuild⟩)]
    decide
  | erased r =>
    refine .refused ?_
    rw [buildEntity_errorCode (Or.inr hbuild)]
    decide
  | done e =>
    obtain ⟨huplink, hdefault⟩ := hclear e hbuild
    have hclear' : Clear k name (c.configuration.insert name e) := clear_insert huplink hdefault
    have hval := validateEntity_insert (v := v) hname hrecord hclear'
    have hcomm : (c.extend [(k, v)]).configuration.insert name e =
        (c.configuration.insert name e).insert k v := OrdMap.insert_comm _ _ _ hname.symm
    dsimp only
    rw [hcomm, hval]
    cases validateEntity name (c.configuration.insert name e) with
    | ok _ tree' => exact .accepted _ _
    | error f tree' =>
      cases f with
      | exception what => exact .refused (show ¬ -EINVAL = 0 by decide)
      | assertion text => exact .terminated _

/-! ### What is written -/

theorem setNetwork_eq_insert {n : String} {m : Object} (m' : Object)
    (h : network tree n = some m) : ∃ j, setNetwork tree n m' = tree.insert n j := by
  obtain ⟨e, he, -⟩ := network_eq_some_iff.mp h
  exact ⟨_, by rw [setNetwork, Config.setComponent, he]⟩

/-- All that `tree'` has on top of `tree` is the entity's own entry, and the record if there was
none. -/
structure Own (name : String) (tree tree' entries : Object) : Prop where
  eq : tree' = tree.insertAll entries
  own : ∀ e ∈ entries, e.1 = name ∨ e.1 = ":default-netns" ∧ e.2 = .string name
  record : ":default-netns" ∈ entries.keys → recorded tree = none ∧ recorded tree' = some name

section Own

variable {tree' entries : Object}

theorem own_refl (name : String) (tree : Object) : Own name tree tree [] :=
  ⟨rfl, fun _ he => absurd he List.not_mem_nil, fun h => absurd h List.not_mem_nil⟩

theorem Own.eq_of_mem_keys (h : Own name tree tree' entries) (hk : k ∈ entries.keys) :
    k = name ∨ k = ":default-netns" := by
  obtain ⟨e, he, rfl⟩ := List.mem_map.mp hk
  exact (h.own e he).imp_right And.left

/-- One more write to the entity itself. -/
theorem Own.self (h : Own name tree tree' entries) (hname : name ≠ ":default-netns") {m : Object}
    (m' : Object) (hm : network tree' name = some m) :
    ∃ entries', Own name tree (setNetwork tree' name m') entries' := by
  obtain ⟨j, hj⟩ := setNetwork_eq_insert m' hm
  refine ⟨entries ++ [(name, j)], by rw [hj, h.eq, OrdMap.insertAll_append]; rfl, ?_, ?_⟩
  · intro e he
    rcases List.mem_append.mp he with he | he
    · exact h.own e he
    · exact Or.inl (by rw [List.mem_singleton.mp he])
  · intro hk
    rw [setNetwork, recorded_setComponent]
    refine h.record ?_
    simpa [OrdMap.keys, hname.symm] using hk

/-- The record is written where there is none. -/
theorem Own.insert_default (h : Own name tree tree' entries)
    (hd : (tree'.find ":default-netns").getD .null = .null) :
    Own name tree (tree'.insert ":default-netns" (.string name))
      (entries ++ [(":default-netns", .string name)]) := by
  have hno : ":default-netns" ∉ entries.keys := by
    intro hk
    rw [recorded_eq_some_iff.mp (h.record hk).2] at hd
    cases hd
  refine ⟨by rw [h.eq, OrdMap.insertAll_append]; rfl, ?_,
    fun _ => ⟨?_, recorded_eq_some_iff.mpr (OrdMap.find_insert_self _ _ _)⟩⟩
  · intro e he
    rcases List.mem_append.mp he with he | he
    · exact h.own e he
    · rw [List.mem_singleton.mp he]
      exact Or.inr ⟨rfl, rfl⟩
  · rw [h.eq, OrdMap.find_insertAll_of_not_mem hno] at hd
    cases hr : recorded tree with
    | none => rfl
    | some s =>
      rw [recorded_eq_some_iff.mp hr] at hd
      cases hd

/-- The network of another entity is as it was. -/
theorem Own.network_ne (h : Own name tree tree' entries) (hk : k ≠ name) {m : Object}
    (hm : network tree' k = some m) : network tree k = some m := by
  have hno : k ∉ entries.keys := by
    intro hkeys
    obtain rfl := (h.eq_of_mem_keys hkeys).resolve_left hk
    obtain ⟨e, he, -⟩ := network_eq_some_iff.mp hm
    rw [recorded_eq_some_iff.mp (h.record hkeys).2] at he
    cases he
  rwa [h.eq, network_of_find_eq (OrdMap.find_insertAll_of_not_mem hno)] at hm

end Own

/-- **The writes of a validation** where the other networks have a role. -/
theorem Writes.eq_insertAll {tree' : Object} (w : Writes name tree tree')
    (hname : name ≠ ":default-netns")
    (hroles : ∀ k m, k ≠ name → network tree k = some m → ∃ v, m.find "role" = some v) :
    ∃ entries, Own name tree tree' entries := by
  induction w with
  | refl => exact ⟨[], own_refl name tree⟩
  | tail _ w ih =>
    obtain ⟨entries, hown⟩ := ih
    cases w with
    | role r hm => exact hown.self hname _ hm
    | default hd => exact ⟨_, hown.insert_default hd⟩
    | @uplinkRole m u hm hr =>
      by_cases hu : u = name
      · subst hu
        exact hown.self hname _ hm
      · obtain ⟨v, hv⟩ := hroles u m hu (hown.network_ne hu hm)
        rw [hr] at hv
        cases hv

/-- **What an `add` that succeeds writes**: its own entry, and the record if the entity has
the parameter. -/
theorem add_eq_extend (hwf : WellFormed c.configuration) (hname : name ≠ ":default-netns")
    (h : add parse c name ps = .returned r c') (hr : r.errorCode = 0) :
    ∃ entries : Object, c' = c.extend entries ∧
      (∀ e ∈ entries, e.1 = name ∨ e.1 = ":default-netns" ∧ e.2 = .string name) ∧
      (":default-netns" ∈ entries.keys →
        ∃ e, buildEntity parse name ps (.object []) = .done e ∧ SetsDefault e) := by
  obtain ⟨-, -, entity, tree', hbuild, hval, rfl⟩ := add_eq_zero h hr
  have hroles : ∀ k m, k ≠ name → network (c.configuration.insert name entity) k = some m →
      ∃ v, m.find "role" = some v := by
    intro k m hk hm
    rw [network_of_find_eq (OrdMap.find_insert_ne _ _ hk)] at hm
    obtain ⟨role, _, hrole, -⟩ := (hwf.networkOk hm).role
    exact ⟨_, hrole⟩
  obtain ⟨entries, rfl, hentries, hrecord⟩ :=
    (validateEntity_spec hval).1.eq_insertAll hname hroles
  refine ⟨(name, entity) :: entries, rfl, List.forall_mem_cons.mpr ⟨Or.inl rfl, hentries⟩, ?_⟩
  intro hk
  rw [OrdMap.keys_cons, List.mem_cons, or_iff_right hname.symm] at hk
  obtain ⟨hnone, hsome⟩ := hrecord hk
  -- only the parameter has anything recorded
  have hdefault : HasDefault (c.configuration.insert name entity) name := by
    by_contra hno
    rw [(validateEntity_recorded hval).2 hno, hnone] at hsome
    cases hsome
  obtain ⟨m, hm, hkey⟩ := hdefault
  obtain ⟨e, he, hem⟩ := network_eq_some_iff.mp hm
  rw [OrdMap.find_insert_self] at he
  cases he
  exact ⟨_, hbuild, m, hem, hkey⟩

/-- An entity whose uplink is called like the record is refused, whether there is a record
or not. -/
theorem add_refused_of_uplink {e : Json} (hwf : WellFormed c.configuration)
    (hmut : c.isMutable = true) (hname : name ≠ ":default-netns")
    (hnew : c.configuration.find name = none)
    (hno : ∀ m, c.configuration.find ":default-netns" ≠ some (.object m))
    (hbuild : buildEntity parse name ps (.object []) = .done e)
    (huplink : entityUplink e = some ":default-netns") :
    ∃ text c', add parse c name ps = .returned ⟨-EINVAL, text⟩ c' := by
  obtain ⟨m, rfl⟩ := buildEntity_object hbuild
  have he : (c.configuration.insert name (.object m)).find name = some (.object m) :=
    OrdMap.find_insert_self _ _ _
  rw [add_of_new hmut hnew, hbuild]
  dsimp only
  cases hval : validateEntity name (c.configuration.insert name (.object m)) with
  | ok _ tree' =>
    have hup : uplinkOf (c.configuration.insert name (.object m)) name = some ":default-netns" := by
      rw [uplinkOf, he]
      exact huplink
    obtain ⟨n, hn, hu⟩ := uplinkOf_eq_some_iff.mp hup
    have hen := (network_iff_of_object he).mp hn
    obtain ⟨_, hobject, hvalid⟩ := ((validateEntity_ok_iff he).mp ⟨tree', hval⟩).1.network _ hen
    cases hobject
    obtain ⟨u, um, hs, hum, -⟩ := hvalid.uplink _ hu
    cases hs
    obtain ⟨ue, hue, -⟩ := network_eq_some_iff.mp hum
    rw [OrdMap.find_insert_ne _ _ hname.symm] at hue
    exact absurd hue (hno ue)
  | error f tree' =>
    cases f with
    | exception what => exact ⟨_, _, rfl⟩
    | assertion text =>
      exact absurd ((validateEntity_asserts_iff he).mp ⟨text, tree', hval⟩) hwf.not_meetsDelegation

end Config

end Nonsense
