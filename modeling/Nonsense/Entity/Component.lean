import Nonsense.Entity.Basic
import Nonsense.Config.Uplinks

/-!
# The component that is sent

`deep_uplink_info` nests the networks along the uplinks of an entity: each is put
under `uplink` of the one before, and the name that was there is moved to
`:uplink-name`.  `Ascent tree name ms` says that `ms` are these networks, from that of
`name` to one without an uplink, and `nest ms` is what they are made into.

The function reads the networks through the non-constant `operator[]`, which may
write; `deepUplinkInfoEdit` is the function with its writes, and what it returns it
returns without any (`deepUplinkInfoEdit_eq_ok_iff`).
-/

namespace Nonsense

namespace Config

/-- What is under `key`, where that is a string. -/
def text (m : Object) (key : String) : Option String :=
  match m.find key with
  | some (.string s) => some s
  | _ => none

theorem text_eq_some_iff {m : Object} {key s : String} :
    text m key = some s ↔ m.find key = some (.string s) := by
  unfold text
  split
  · rename_i s' hs
    rw [hs, Option.some.injEq, Option.some.injEq, Json.string.injEq]
  · rename_i hno
    constructor
    · intro h
      cases h
    · intro h
      exact absurd h (hno s)

theorem text_of_find_eq {m m' : Object} {key : String} (h : m'.find key = m.find key) :
    text m' key = text m key := by
  rw [text, h, text]

/-- The name of the uplink of an entity with the network `m`; one without an uplink
may say so itself. -/
def uplinkName (m : Object) : Option String :=
  match m.find "uplink" with
  | some _ => text m "uplink"
  | none => text m ":uplink-name"

theorem uplinkName_of_find {m : Object} {u : String} (hup : m.find "uplink" = some (.string u)) :
    uplinkName m = some u := by
  rw [uplinkName, hup]
  exact text_eq_some_iff.mpr hup

/-- The networks from that of `name` to one without an uplink. -/
inductive Ascent (tree : Object) : String → List Object → Prop
  | last {name : String} {m : Object} : network tree name = some m → m.find "uplink" = none →
      Ascent tree name [m]
  | link {name u : String} {m : Object} {ms : List Object} : network tree name = some m →
      m.find "uplink" = some (.string u) → Ascent tree u ms → Ascent tree name (m :: ms)

variable {tree tree' m : Object} {name : String} {ms : List Object}

theorem Ascent.network (h : Ascent tree name (m :: ms)) : Config.network tree name = some m := by
  cases h with
  | last hm _ => exact hm
  | link hm _ _ => exact hm

theorem Ascent.ne_nil (h : Ascent tree name ms) : ms ≠ [] := by
  cases h <;> exact List.cons_ne_nil _ _

/-- The entities of a chain are all different, and in the tree. -/
theorem Ascent.length_le (h : Ascent tree name ms) : ms.length ≤ tree.length := by
  have hfound : ∀ a m, Config.network tree a = some m → a ∈ tree.keys := by
    intro a m hm
    obtain ⟨e, he, -⟩ := network_eq_some_iff.mp hm
    exact OrdMap.mem_keys_iff.mpr ⟨_, he⟩
  have htrail : ∃ l, Trail (uplinkOf tree) name l ∧ l.length = ms.length ∧
      ∀ a ∈ l, a ∈ tree.keys := by
    induction h with
    | @last name m hm hup =>
      refine ⟨[name], .stop ?_, rfl, ?_⟩
      · simp only [Option.eq_none_iff_forall_ne_some]
        intro u hu
        rw [uplinkOf_iff_of_network hm, hup] at hu
        cases hu
      · intro a ha
        rw [List.mem_singleton.mp ha]
        exact hfound _ _ hm
    | @link name u m ms hm hup _ ih =>
      obtain ⟨l, hl, hlength, hkeys⟩ := ih
      refine ⟨name :: l, .step ((uplinkOf_iff_of_network hm).mpr hup) hl, ?_, ?_⟩
      · rw [List.length_cons, List.length_cons, hlength]
      · intro a ha
        rcases List.mem_cons.mp ha with rfl | ha
        · exact hfound _ _ hm
        · exact hkeys a ha
  obtain ⟨l, hl, hlength, hkeys⟩ := htrail
  have hle := hl.nodup.length_le_of_subset hkeys
  rw [OrdMap.keys, List.length_map] at hle
  rwa [← hlength]

/-- **In a well-formed tree the uplinks of an entity make a chain**, where they come
to an end. -/
theorem WellFormed.exists_chain (hwf : WellFormed tree) (hends : Ends (uplinkOf tree) name) :
    ∀ {m}, Config.network tree name = some m → ∃ ms, Ascent tree name (m :: ms) := by
  induction hends with
  | @stop name hnone =>
    intro m hm
    refine ⟨[], .last hm ?_⟩
    cases hup : m.find "uplink" with
    | none => rfl
    | some uplink =>
      obtain ⟨u, _, rfl, -⟩ := (hwf.networkOk hm).uplink _ hup
      rw [(uplinkOf_iff_of_network hm).mpr hup] at hnone
      cases hnone
  | @step name u hs _ ih =>
    intro m hm
    have hup := (uplinkOf_iff_of_network hm).mp hs
    obtain ⟨_, um, hu, hum, -⟩ := (hwf.networkOk hm).uplink _ hup
    cases hu
    obtain ⟨ms, hms⟩ := ih hum
    exact ⟨_, .link hm hup hms⟩

end Config

namespace Entity

open Config (Ascent uplinkName text)

/-! ### The function with its writes -/

/-- `_self["network"]` of the entity `name`, which is `entity`. -/
def selfNetwork (name : String) (entity : Json) : Edit Json :=
  match entity.find "network" with
  | some network => pure network
  | none => do
    let entity ← Config.lift (entity.assign "network" .null)
    modify fun tree => tree.insert name entity
    return .null

/-- `deep_uplink_info` on the running configuration. -/
def deepUplinkInfoEdit : ℕ → Json → Edit Json
  | 0, _ => throw (.assertion "stack overflow")
  | fuel + 1, component =>
    match component.find "uplink" with
    | none => pure component
    | some name => do
      let uplinkName ← Config.lift name.getRefString
      let tree ← get
      match tree.find uplinkName with
      | none => throw (.assertion "uplink_ent")
      | some entity => do
        let uplink ← selfNetwork uplinkName entity
        if uplink.isNull then throw (.assertion "!uplink.is_null()")
        else do
          let uplink ← deepUplinkInfoEdit fuel uplink
          let component ← Config.lift (component.assign ":uplink-name" name)
          Config.lift (component.assign "uplink" uplink)

open EState

variable {tree tree' : Object} {name : String} {component json : Json}

/-- A network that is there is read without a write. -/
theorem selfNetwork_eq_ok_iff {entity v : Json} (hv : v.isNull = false) :
    selfNetwork name entity tree = .ok v tree' ↔ entity.subscript "network" = .ok v ∧ tree = tree' := by
  unfold selfNetwork
  cases hfind : entity.find "network" with
  | some network =>
    obtain ⟨e, rfl, he⟩ := Json.eq_object_of_find hfind
    dsimp only
    rw [pure_eq_ok_iff, Json.subscript, he, Option.getD_some, Except.ok.injEq]
  | none =>
    -- it would be a null
    refine iff_of_false ?_ ?_
    · intro h
      obtain ⟨_, _, -, h⟩ := bind_eq_ok_iff.mp h
      obtain ⟨_, _, -, h⟩ := bind_eq_ok_iff.mp h
      obtain ⟨rfl, -⟩ := pure_eq_ok_iff.mp h
      cases hv
    · rintro ⟨h, -⟩
      unfold Json.subscript at h
      split at h
      · cases h
        cases hv
      · rename_i m
        rw [Json.find_object] at hfind
        rw [hfind] at h
        cases h
        cases hv
      · cases h

/-- What a turn of the recursion does. -/
theorem deepUplinkInfo_succ_eq_ok_iff {fuel : ℕ} {name : Json}
    (hname : component.find "uplink" = some name) :
    deepUplinkInfo tree (fuel + 1) component = .ok json ↔
      ∃ u entity uplink built named, name.getRefString = .ok u ∧ tree.find u = some entity ∧
        entity.subscript "network" = .ok uplink ∧ uplink.isNull = false ∧
        deepUplinkInfo tree fuel uplink = .ok built ∧
        component.assign ":uplink-name" name = .ok named ∧ named.assign "uplink" built = .ok json := by
  rw [deepUplinkInfo, hname]
  dsimp only
  rw [except_bind_eq_ok_iff]
  constructor
  · rintro ⟨u, hu, h⟩
    cases hentity : tree.find u with
    | none => rw [hentity] at h; cases h
    | some entity =>
      rw [hentity] at h
      obtain ⟨uplink, huplink, h⟩ := except_bind_eq_ok_iff.mp h
      split at h
      · cases h
      · rename_i hnull
        obtain ⟨built, hbuilt, h⟩ := except_bind_eq_ok_iff.mp h
        obtain ⟨named, hnamed, h⟩ := except_bind_eq_ok_iff.mp h
        exact ⟨u, entity, uplink, built, named, hu, hentity, huplink, Bool.not_eq_true _ ▸ hnull,
          hbuilt, hnamed, h⟩
  · rintro ⟨u, entity, uplink, built, named, hu, hentity, huplink, hnull, hbuilt, hnamed, h⟩
    refine ⟨u, hu, ?_⟩
    rw [hentity]
    refine except_bind_eq_ok_iff.mpr ⟨uplink, huplink, ?_⟩
    rw [if_neg (by simp [hnull])]
    exact except_bind_eq_ok_iff.mpr ⟨built, hbuilt, except_bind_eq_ok_iff.mpr ⟨named, hnamed, h⟩⟩

/-- **Building the component leaves the configuration as it is**, and makes what
`deepUplinkInfo` says. -/
theorem deepUplinkInfoEdit_eq_ok_iff {fuel : ℕ} :
    deepUplinkInfoEdit fuel component tree = .ok json tree' ↔
      deepUplinkInfo tree fuel component = .ok json ∧ tree = tree' := by
  induction fuel generalizing component json tree' with
  | zero =>
    refine iff_of_false throw_ne_ok ?_
    rintro ⟨h, -⟩
    cases h
  | succ fuel ih =>
    cases hname : component.find "uplink" with
    | none =>
      rw [deepUplinkInfoEdit, deepUplinkInfo, hname]
      dsimp only
      rw [pure_eq_ok_iff, Except.ok.injEq]
    | some name =>
      rw [deepUplinkInfo_succ_eq_ok_iff hname, deepUplinkInfoEdit, hname]
      dsimp only
      constructor
      · intro h
        obtain ⟨u, t, hlift, h⟩ := bind_eq_ok_iff.mp h
        obtain ⟨hu, rfl⟩ := Config.lift_eq_ok_iff.mp hlift
        rw [get_bind_apply] at h
        cases hentity : tree.find u with
        | none => rw [hentity] at h; exact absurd h throw_ne_ok
        | some entity =>
          rw [hentity] at h
          obtain ⟨uplink, t, hself, h⟩ := bind_eq_ok_iff.mp h
          split at h
          · exact absurd h throw_ne_ok
          · rename_i hnull
            rw [Bool.not_eq_true] at hnull
            obtain ⟨huplink, rfl⟩ := (selfNetwork_eq_ok_iff hnull).mp hself
            obtain ⟨built, t, hbuild, h⟩ := bind_eq_ok_iff.mp h
            obtain ⟨hbuilt, rfl⟩ := ih.mp hbuild
            obtain ⟨named, t, hassign, h⟩ := bind_eq_ok_iff.mp h
            obtain ⟨hnamed, rfl⟩ := Config.lift_eq_ok_iff.mp hassign
            obtain ⟨hlast, rfl⟩ := Config.lift_eq_ok_iff.mp h
            exact ⟨⟨u, entity, uplink, built, named, hu, hentity, huplink, hnull, hbuilt, hnamed,
              hlast⟩, rfl⟩
      · rintro ⟨⟨u, entity, uplink, built, named, hu, hentity, huplink, hnull, hbuilt, hnamed,
          hlast⟩, rfl⟩
        rw [bind_of_ok (Config.lift_eq_ok_iff.mpr ⟨hu, rfl⟩), get_bind_apply, hentity]
        dsimp only
        rw [bind_of_ok ((selfNetwork_eq_ok_iff hnull).mpr ⟨huplink, rfl⟩), if_neg (by simp [hnull]),
          bind_of_ok (ih.mpr ⟨hbuilt, rfl⟩), bind_of_ok (Config.lift_eq_ok_iff.mpr ⟨hnamed, rfl⟩)]
        exact Config.lift_eq_ok_iff.mpr ⟨hlast, rfl⟩

/-! ### What is built -/

/-- The networks of a chain, one inside the other. -/
def nest : List Object → Object
  | [] => []
  | [m] => m
  | m :: ms =>
    OrdMap.insert (OrdMap.insert m ":uplink-name" ((OrdMap.find m "uplink").getD .null)) "uplink"
      (.object (nest ms))

theorem nest_cons {m : Object} {ms : List Object} (h : ms ≠ []) :
    nest (m :: ms) = OrdMap.insert
      (OrdMap.insert m ":uplink-name" ((OrdMap.find m "uplink").getD .null)) "uplink"
      (.object (nest ms)) := by
  cases ms with
  | nil => exact absurd rfl h
  | cons _ _ => rw [nest]; exact List.cons_ne_nil _ _

theorem find_nest {m : Object} {ms : List Object} {key : String} (hname : key ≠ ":uplink-name")
    (huplink : key ≠ "uplink") : (nest (m :: ms)).find key = m.find key := by
  cases ms with
  | nil => rfl
  | cons m' ms => rw [nest_cons (List.cons_ne_nil _ _), OrdMap.find_insert_ne _ _ huplink,
      OrdMap.find_insert_ne _ _ hname]

theorem find_nest_uplink {m : Object} {ms : List Object} (h : ms ≠ []) :
    (nest (m :: ms)).find "uplink" = some (.object (nest ms)) := by
  rw [nest_cons h, OrdMap.find_insert_self]

/-- The name of the uplink ends up under `:uplink-name`. -/
theorem text_nest_uplinkName {m : Object} {ms : List Object} (h : Ascent tree name (m :: ms)) :
    text (nest (m :: ms)) ":uplink-name" = uplinkName m := by
  cases h with
  | last _ hup =>
    rw [uplinkName, hup]
    rfl
  | link _ hup hchain =>
    have hfind : (nest (m :: ms)).find ":uplink-name" = m.find "uplink" := by
      rw [nest_cons hchain.ne_nil, OrdMap.find_insert_ne _ _ (by decide), OrdMap.find_insert_self,
        hup, Option.getD_some]
    rw [uplinkName, hup, text, hfind, text]

theorem deepUplinkInfo_chain {ms : List Object} {m : Object} (h : Ascent tree name (m :: ms)) :
    ∀ fuel, ms.length < fuel →
      deepUplinkInfo tree fuel (.object m) = .ok (.object (nest (m :: ms))) := by
  generalize hl : m :: ms = l at h
  induction h generalizing m ms with
  | last hm hup =>
    cases hl
    intro fuel hfuel
    obtain ⟨fuel, rfl⟩ := Nat.exists_eq_add_of_lt hfuel
    rw [deepUplinkInfo, Json.find_object, hup]
    rfl
  | @link name u m' ms' hm hup hchain ih =>
    cases hl
    intro fuel hfuel
    obtain ⟨m₁, ms₁, rfl⟩ := List.exists_cons_of_ne_nil hchain.ne_nil
    rw [List.length_cons] at hfuel
    obtain ⟨fuel, rfl⟩ := Nat.exists_eq_succ_of_ne_zero (by omega : fuel ≠ 0)
    obtain ⟨e, he, hem⟩ := Config.network_eq_some_iff.mp hchain.network
    rw [deepUplinkInfo_succ_eq_ok_iff (by rw [Json.find_object, hup])]
    refine ⟨u, .object e, .object m₁, _, _, rfl, he, ?_, rfl, ih rfl fuel (by omega), rfl, ?_⟩
    · rw [Json.subscript, hem]
      rfl
    · rw [nest_cons (List.cons_ne_nil _ _), hup]
      rfl

/-- **What is sent for a chain** is its networks, one inside the other. -/
theorem sent_chain {ms : List Object} {m : Object} (h : Ascent tree name (m :: ms)) :
    sent tree "network" (.object m) = .ok (.object (nest (m :: ms))) := by
  rw [sent, if_pos rfl]
  have hle := h.length_le
  rw [List.length_cons] at hle
  exact deepUplinkInfo_chain h _ (by omega)

/-- In a well-formed tree nothing but a chain is built. -/
theorem chain_of_deepUplinkInfo (hwf : Config.WellFormed tree) : ∀ {fuel : ℕ} {name : String}
    {m : Object} {j : Json}, Config.network tree name = some m →
    deepUplinkInfo tree fuel (.object m) = .ok j →
    ∃ ms, Ascent tree name (m :: ms) := by
  intro fuel
  induction fuel with
  | zero => intro _ _ _ _ h; cases h
  | succ fuel ih =>
    intro name m j hm h
    cases hup : m.find "uplink" with
    | none => exact ⟨[], .last hm hup⟩
    | some uplink =>
      obtain ⟨u, um, rfl, hum, -⟩ := (hwf.networkOk hm).uplink _ hup
      obtain ⟨u', entity, value, built, named, hu, hentity, hvalue, -, hbuilt, -⟩ :=
        (deepUplinkInfo_succ_eq_ok_iff (by rw [Json.find_object, hup])).mp h
      cases hu
      obtain ⟨e, he, hem⟩ := Config.network_eq_some_iff.mp hum
      rw [he] at hentity
      cases hentity
      rw [Json.subscript, hem] at hvalue
      cases hvalue
      obtain ⟨ms, hms⟩ := ih hum hbuilt
      exact ⟨_, .link hm hup hms⟩

/-- **What is sent** of an entity of a well-formed tree. -/
theorem sent_eq_ok_iff (hwf : Config.WellFormed tree) {m : Object} {j : Json}
    (hm : Config.network tree name = some m) :
    sent tree "network" (.object m) = .ok j ↔
      ∃ ms, Ascent tree name (m :: ms) ∧ j = .object (nest (m :: ms)) := by
  constructor
  · intro h
    have hbuilt := h
    rw [sent, if_pos rfl] at hbuilt
    obtain ⟨ms, hms⟩ := chain_of_deepUplinkInfo hwf hm hbuilt
    rw [sent_chain hms] at h
    cases h
    exact ⟨ms, hms, rfl⟩
  · rintro ⟨ms, hms, rfl⟩
    exact sent_chain hms

end Entity

end Nonsense
