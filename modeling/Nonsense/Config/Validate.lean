import Nonsense.Config.WellFormed

/-!
# What a validation that returns has checked

For each function of the validator first what it does if it returns
(`validateUplink_cases`, `ParameterTurn`), and from it one lemma: it made only
`Writes`, and what it looked at holds in the tree it leaves.  The loop over the
parameters keeps the component it walks (`validateParameters_spec`), so what was
checked at one key still holds at the end.
-/

namespace Nonsense

namespace Config

open EState

variable {name : String} {tree tree' : Object}

theorem subscript_apply (name type key : String) (tree : Object) :
    subscript name type key tree =
      match (component tree name type).find key with
      | some v => .ok v tree
      | none =>
        match (component tree name type).assign key .null with
        | .error f => .error f tree
        | .ok j => .ok .null (setComponent tree name type j) := by
  rw [subscript, get_bind_apply]
  cases (component tree name type).find key with
  | some v => rfl
  | none => cases (component tree name type).assign key .null <;> rfl

theorem subscript_of_find {type key : String} {v : Json}
    (h : (component tree name type).find key = some v) :
    subscript name type key tree = .ok v tree := by
  rw [subscript_apply, h]

theorem assign_apply (name type key : String) (v : Json) (tree : Object) :
    assign name type key v tree =
      match (component tree name type).assign key v with
      | .error f => .error f tree
      | .ok j => .ok () (setComponent tree name type j) := by
  rw [assign, get_bind_apply]
  cases (component tree name type).assign key v <;> rfl

theorem lift_eq_ok_iff {α : Type} {x : Except Fault α} {a : α} :
    lift x tree = .ok a tree' ↔ x = .ok a ∧ tree = tree' := by
  cases x with
  | ok b => rw [lift, pure_eq_ok_iff, Except.ok.injEq]
  | error f => simp [lift, throw_apply]

/-! ### What the cases of the loop do -/

theorem validateDefault_cases (h : validateDefault name tree = .ok () tree') :
    ((OrdMap.find tree ":default-netns").getD .null = .null ∧
      tree' = OrdMap.insert tree ":default-netns" (.string name)) ∨
    (OrdMap.find tree ":default-netns" = some (.string name) ∧ tree' = tree) := by
  rw [validateDefault, get_bind_apply] at h
  cases hd : (OrdMap.find tree ":default-netns").getD .null with
  | null =>
    rw [hd] at h
    cases h
    exact Or.inl ⟨rfl, rfl⟩
  | _ =>
    rw [hd] at h
    dsimp only at h
    split at h
    · rename_i heq
      cases h
      refine Or.inr ⟨?_, rfl⟩
      cases hf : OrdMap.find tree ":default-netns" with
      | none => rw [hf] at hd; cases hd
      | some j =>
        rw [hf, Option.getD_some] at hd
        rw [hd, Json.eqString_iff.mp heq]
    · obtain ⟨_, _, -, h⟩ := bind_eq_ok_iff.mp h
      exact absurd h throw_ne_ok

theorem validateAddress_cases (h : validateAddress name tree = .ok () tree') :
    ∃ role, subscript name "network" ":role" tree = .ok role tree' ∧
      role.eqInteger NetworkRole.switch.toInt := by
  obtain ⟨role, tree₁, hrole, h⟩ := bind_eq_ok_iff.mp h
  split at h
  · rename_i he
    cases h
    exact ⟨role, hrole, he⟩
  · exact absurd h throw_ne_ok

/-- An uplink that is accepted is a string, and has a network component, whose role is
looked at. -/
theorem validateUplink_cases (h : validateUplink name tree = .ok () tree') :
    ∃ u tree₁ m role, subscript name "network" "uplink" tree = .ok (.string u) tree₁ ∧
      network tree₁ u = some m ∧ subscript u "network" "role" tree₁ = .ok role tree' ∧
      ¬ role.eqString "client" := by
  obtain ⟨uplink, tree₁, huplink, h⟩ := bind_eq_ok_iff.mp h
  rw [get_bind_apply] at h
  -- what is not an object with a network object on the way is refused
  cases uplink with
  | string u => ?_
  | _ => exact absurd h throw_ne_ok
  dsimp only at h
  cases he : OrdMap.find tree₁ u with
  | none => rw [he] at h; exact absurd h throw_ne_ok
  | some j => ?_
  rw [he] at h
  cases j with
  | object e => ?_
  | _ => exact absurd h throw_ne_ok
  dsimp only at h
  cases hj : OrdMap.find e "network" with
  | none => rw [hj] at h; exact absurd h throw_ne_ok
  | some j => ?_
  rw [hj] at h
  cases j with
  | object m => ?_
  | _ => exact absurd h throw_ne_ok
  obtain ⟨role, tree₂, hrole, h⟩ := bind_eq_ok_iff.mp h
  split at h
  · exact absurd h throw_ne_ok
  · rename_i hclient
    cases h
    exact ⟨u, tree₁, m, role, huplink, network_eq_some_iff.mpr ⟨e, he, hj⟩, hrole, hclient⟩

/-- A turn of the loop that returns, by its key. -/
inductive ParameterTurn (name : String) (tree : Object) : String → Object → Prop
  | colon {key : String} : startsWithColon key → ParameterTurn name tree key tree
  | role : ParameterTurn name tree "role" tree
  | external : ParameterTurn name tree "external" tree
  | default {tree' : Object} : validateDefault name tree = .ok () tree' →
    ParameterTurn name tree "default" tree'
  | address {tree' : Object} : validateAddress name tree = .ok () tree' →
    ParameterTurn name tree "address" tree'
  | uplink {tree' : Object} : validateUplink name tree = .ok () tree' →
    ParameterTurn name tree "uplink" tree'

theorem validateParameter_cases {key : String} (h : validateParameter name key tree = .ok () tree') :
    ParameterTurn name tree key tree' := by
  unfold validateParameter at h
  split at h
  · rename_i hcolon
    cases h
    exact .colon hcolon
  · unfold knownParameters at h
    split_ifs at h with hrole hexternal hdefault haddress huplink
    · cases h; exact hrole ▸ .role
    · cases h; exact hexternal ▸ .external
    · exact hdefault ▸ .default h
    · exact haddress ▸ .address h
    · exact huplink ▸ .uplink h
    · exact absurd h throw_ne_ok

/-! ### The parameters -/

theorem validateDefault_spec (h : validateDefault name tree = .ok () tree') :
    Writes name tree tree' ∧ ∀ k, network tree' k = network tree k := by
  rcases validateDefault_cases h with ⟨hd, rfl⟩ | ⟨-, rfl⟩
  · exact ⟨.single (.default hd), fun k => network_insert_default k hd⟩
  · exact ⟨.refl, fun _ => rfl⟩

theorem validateAddress_spec {m : Object} {role : Json} (hm : network tree name = some m)
    (hr : m.find ":role" = some role) (h : validateAddress name tree = .ok () tree') :
    tree' = tree ∧ role.eqInteger NetworkRole.switch.toInt := by
  obtain ⟨v, hv, he⟩ := validateAddress_cases h
  rw [subscript_of_find (by rw [component_of_network hm]; exact hr)] at hv
  cases hv
  exact ⟨rfl, he⟩

theorem validateUplink_spec {m : Object} {uplink : Json} (hm : network tree name = some m)
    (hr : ∃ v, m.find "role" = some v) (hu : m.find "uplink" = some uplink)
    (h : validateUplink name tree = .ok () tree') :
    Writes name tree tree' ∧ network tree' name = some m ∧ UplinkOk tree' uplink := by
  obtain ⟨u, tree₁, um, role, huplink, hnet, hrole, hclient⟩ := validateUplink_cases h
  rw [subscript_of_find (by rw [component_of_network hm]; exact hu)] at huplink
  cases huplink
  rw [subscript_apply, component_of_network hnet, Json.find_object] at hrole
  cases hf : OrdMap.find um "role" with
  | some v =>
    rw [hf] at hrole
    cases hrole
    refine ⟨.refl, hm, u, um, rfl, hnet, fun hc => hclient ?_⟩
    rw [hf] at hc
    rw [Json.eqString_iff, Option.some.inj hc]
  | none =>
    -- the uplink has no role yet: a null is put there, which is not a client's
    rw [hf] at hrole
    cases hrole
    have hne : name ≠ u := by
      rintro rfl
      obtain ⟨v, hv⟩ := hr
      rw [hm] at hnet
      cases hnet
      rw [hf] at hv
      cases hv
    have hw : Write name tree (setNetwork tree u (OrdMap.insert um "role" .null)) :=
      .uplinkRole hnet hf
    refine ⟨.single hw, (network_setNetwork_ne hne).trans hm, u, _, rfl,
      network_setNetwork_self hnet, ?_⟩
    rw [OrdMap.find_insert_self]
    simp

/-- What the turn of the loop at `key` makes sure of. -/
structure Checked (tree m : Object) (key : String) : Prop where
  known : startsWithColon key ∨ key ∈ ["role", "external", "default", "address", "uplink"]
  address : key = "address" → ∀ role, m.find ":role" = some role →
    role.eqInteger NetworkRole.switch.toInt
  uplink : key = "uplink" → ∀ uplink, m.find "uplink" = some uplink → UplinkOk tree uplink

theorem Checked.writes {m : Object} {key : String} (w : Writes name tree tree')
    (h : Checked tree m key) : Checked tree' m key :=
  ⟨h.known, h.address, fun hk uplink hu => w.uplinkOk (h.uplink hk uplink hu)⟩

/-- **One turn of the loop.** -/
theorem validateParameter_spec {m : Object} {key : String} (hm : network tree name = some m)
    (hr : ∃ v, m.find "role" = some v) (hr' : ∃ v, m.find ":role" = some v) (hk : key ∈ m.keys)
    (h : validateParameter name key tree = .ok () tree') :
    Writes name tree tree' ∧ network tree' name = some m ∧ Checked tree' m key := by
  cases validateParameter_cases h with
  | colon hcolon =>
    -- a key that starts with a colon is none of the known ones
    exact ⟨.refl, hm, Or.inl hcolon, fun hc => absurd hcolon (by rw [hc]; decide),
      fun hc => absurd hcolon (by rw [hc]; decide)⟩
  | role | external =>
    exact ⟨.refl, hm, Or.inr (by decide), fun hc => absurd hc (by decide),
      fun hc => absurd hc (by decide)⟩
  | default h =>
    obtain ⟨hw, hn⟩ := validateDefault_spec h
    exact ⟨hw, (hn name).trans hm, Or.inr (by decide), fun hc => absurd hc (by decide),
      fun hc => absurd hc (by decide)⟩
  | address h =>
    obtain ⟨role, hrole⟩ := hr'
    obtain ⟨rfl, he⟩ := validateAddress_spec hm hrole h
    refine ⟨.refl, hm, Or.inr (by decide), ?_, fun hc => absurd hc (by decide)⟩
    intro _ role' hr'
    rw [hrole] at hr'
    cases hr'
    exact he
  | uplink h =>
    obtain ⟨uplink, hu⟩ := OrdMap.mem_keys_iff.mp hk
    obtain ⟨hw, hm', hok⟩ := validateUplink_spec hm hr hu h
    refine ⟨hw, hm', Or.inr (by decide), fun hc => absurd hc (by decide), ?_⟩
    intro _ uplink' hu'
    rw [hu] at hu'
    cases hu'
    exact hok

/-- **The loop over the parameters**: every key it was given is checked in the tree
it leaves. -/
theorem validateParameters_spec {m : Object} : ∀ {keys : List String} {tree : Object},
    network tree name = some m → (∃ v, m.find "role" = some v) → (∃ v, m.find ":role" = some v) →
    (∀ key ∈ keys, key ∈ m.keys) → validateParameters name keys tree = .ok () tree' →
    Writes name tree tree' ∧ network tree' name = some m ∧ ∀ key ∈ keys, Checked tree' m key := by
  intro keys
  induction keys with
  | nil =>
    intro tree hm _ _ _ h
    cases h
    exact ⟨.refl, hm, fun key hk => absurd hk List.not_mem_nil⟩
  | cons key keys ih =>
    intro tree hm hr hr' hkeys h
    obtain ⟨_, tree₁, h₁, h⟩ := bind_eq_ok_iff.mp h
    obtain ⟨hw₁, hm₁, hc⟩ := validateParameter_spec hm hr hr' (hkeys key List.mem_cons_self) h₁
    obtain ⟨hw, hm', hcs⟩ := ih hm₁ hr hr' (fun k hk => hkeys k (List.mem_cons_of_mem key hk)) h
    refine ⟨hw₁.trans hw, hm', ?_⟩
    intro k hk
    rcases List.mem_cons.mp hk with rfl | hk
    · exact hc.writes hw
    · exact hcs k hk

/-! ### A component and an entity -/

theorem eq_switch_of_toInt {role : String} {r : NetworkRole} (hr : knownNetworkRoles role = some r)
    (h : (Json.integer r.toInt).eqInteger NetworkRole.switch.toInt) : role = "switch" := by
  have hs : r = .switch := by cases r <;> first | rfl | exact absurd h (by decide)
  subst hs
  unfold knownNetworkRoles at hr
  split_ifs at hr <;> simp_all

/-- A validation of a component that returns has found the role and written its
number, and has come through the loop over the parameters. -/
theorem validateNetwork_loop (h : validateNetwork name tree = .ok () tree') :
    ∃ (m : Object) (role : String) (r : NetworkRole),
      network tree name = some m ∧ m.find "role" = some (.string role) ∧
      knownNetworkRoles role = some r ∧
      validateParameters name (m.insert ":role" (.integer r.toInt)).keys
        (setNetwork tree name (m.insert ":role" (.integer r.toInt))) = .ok () tree' := by
  rw [validateNetwork, bind_eq_ok_iff] at h
  obtain ⟨v, tree₁, hv, h⟩ := h
  rw [bind_eq_ok_iff] at h
  obtain ⟨role, tree₂, hrole, h⟩ := h
  rw [lift_eq_ok_iff] at hrole
  obtain ⟨hrole, rfl⟩ := hrole
  obtain rfl := Json.getRefString_eq_ok hrole
  -- the role is there: a missing one would have been read as null
  rw [subscript_apply] at hv
  cases hf : (component tree name "network").find "role" with
  | none =>
    rw [hf] at hv
    cases ha : (component tree name "network").assign "role" .null <;> rw [ha] at hv <;> cases hv
  | some v =>
    rw [hf] at hv
    cases hv
    obtain ⟨m, hm, hmr⟩ := Json.eq_object_of_find hf
    have hnet : network tree name = some m := by rw [network, hm]
    cases hkr : knownNetworkRoles role with
    | none => rw [hkr] at h; exact absurd h throw_ne_ok
    | some r =>
      rw [hkr] at h
      dsimp only at h
      rw [bind_eq_ok_iff] at h
      obtain ⟨_, tree₃, ha, h⟩ := h
      rw [assign_apply, hm] at ha
      cases ha
      rw [get_bind_apply] at h
      have hitems : (component (setNetwork tree name (m.insert ":role" (.integer r.toInt))) name
          "network").itemKeys = (m.insert ":role" (.integer r.toInt)).keys := by
        rw [component_of_network (network_setNetwork_self hnet)]
        rfl
      refine ⟨m, role, r, hnet, hmr, hkr, ?_⟩
      rw [← hitems]
      exact h

/-- **`validateNetwork` checks the component** and records the number of its role. -/
theorem validateNetwork_spec (h : validateNetwork name tree = .ok () tree') :
    ∃ (m : Object) (role : String) (r : NetworkRole),
      network tree name = some m ∧ m.find "role" = some (.string role) ∧
      knownNetworkRoles role = some r ∧ Writes name tree tree' ∧
      network tree' name = some (m.insert ":role" (.integer r.toInt)) ∧
      NetworkOk tree' (m.insert ":role" (.integer r.toInt)) := by
  obtain ⟨m, role, r, hnet, hmr, hkr, h⟩ := validateNetwork_loop h
  let m' : Object := m.insert ":role" (.integer r.toInt)
  have hw : Write name tree (setNetwork tree name m') := .role r.toInt hnet
  have hnet' : network (setNetwork tree name m') name = some m' := network_setNetwork_self hnet
  have hrole' : OrdMap.find m' "role" = some (.string role) := by
    rw [OrdMap.find_insert_ne _ _ (by decide)]
    exact hmr
  have hrole'' : OrdMap.find m' ":role" = some (.integer r.toInt) :=
    OrdMap.find_insert_self m _ _
  obtain ⟨hws, hm', hcs⟩ :=
    validateParameters_spec hnet' ⟨_, hrole'⟩ ⟨_, hrole''⟩ (fun _ hk => hk) h
  refine ⟨m, role, r, hnet, hmr, hkr, .head hw hws, hm', ⟨role, r, hrole', hkr, hrole''⟩,
    fun key hk => (hcs key hk).known, ?_, ?_⟩
  · intro ha
    rw [hrole', eq_switch_of_toInt hkr ((hcs _ ha).address rfl _ hrole'')]
  · intro uplink hu
    exact (hcs _ (OrdMap.mem_keys_iff.mpr ⟨uplink, hu⟩)).uplink rfl uplink hu

theorem validateComponents_cons_cases {type : String} {types : List String}
    (h : validateComponents name (type :: types) tree = .ok () tree') :
    (knownComponents type).isSome ∧ ∃ tree₁, validateNetwork name tree = .ok () tree₁ ∧
      validateComponents name types tree₁ = .ok () tree' := by
  rw [validateComponents] at h
  cases hk : knownComponents type with
  | none => rw [hk] at h; cases h
  | some c =>
    cases c
    rw [hk] at h
    obtain ⟨_, tree₁, h₁, h⟩ := bind_eq_ok_iff.mp h
    exact ⟨rfl, tree₁, h₁, h⟩

theorem validateComponents_spec : ∀ {types : List String} {tree : Object},
    validateComponents name types tree = .ok () tree' →
    Writes name tree tree' ∧ (∀ type ∈ types, (knownComponents type).isSome) ∧
      (types ≠ [] → ∃ m, network tree' name = some m ∧ NetworkOk tree' m) := by
  intro types
  induction types with
  | nil =>
    intro tree h
    cases h
    exact ⟨.refl, fun type ht => absurd ht List.not_mem_nil, fun hn => absurd rfl hn⟩
  | cons type types ih =>
    intro tree h
    obtain ⟨hk, tree₁, h₁, h⟩ := validateComponents_cons_cases h
    obtain ⟨m, role, r, -, -, -, hw₁, hm', hok⟩ := validateNetwork_spec h₁
    obtain ⟨hw, hts, hnet⟩ := ih h
    refine ⟨hw₁.trans hw, ?_, ?_⟩
    · intro t ht
      rcases List.mem_cons.mp ht with rfl | ht
      · exact hk
      · exact hts t ht
    · intro _
      cases types with
      | nil => cases h; exact ⟨_, hm', hok⟩
      | cons t ts => exact hnet (List.cons_ne_nil t ts)

theorem Write.types (w : Write name tree tree') {k : String} (hent : IsEntity tree' k)
    (h : ∀ e, tree.find k = some e → ∀ type ∈ e.itemKeys, (knownComponents type).isSome) :
    ∀ e, tree'.find k = some e → ∀ type ∈ e.itemKeys, (knownComponents type).isSome := by
  intro e' he' type ht
  rcases w.find k with hf | ⟨hk, -, hf⟩ | ⟨e, m, m', he, -, hf⟩
  · exact h e' (hf ▸ he') type ht
  · exact absurd ⟨hk, _, hf⟩ hent.2.2
  · rw [hf] at he'
    cases he'
    rcases OrdMap.mem_keys_insert.mp ht with rfl | ht
    · rfl
    · exact h _ he type ht

theorem Writes.types (w : Writes name tree tree') {k : String} (hent : IsEntity tree' k)
    (h : ∀ e, tree.find k = some e → ∀ type ∈ e.itemKeys, (knownComponents type).isSome) :
    ∀ e, tree'.find k = some e → ∀ type ∈ e.itemKeys, (knownComponents type).isSome := by
  induction w with
  | refl => exact h
  | tail _ w ih => exact w.types hent (ih (w.isEntity hent))

/-- **A validation that returns has made the entity as it should be.** -/
theorem validateEntity_spec (h : validateEntity name tree = .ok () tree') :
    Writes name tree tree' ∧ (IsEntity tree' name → EntityOk tree' name) := by
  rw [validateEntity, get_bind_apply] at h
  obtain ⟨hw, hts, hnet⟩ := validateComponents_spec h
  refine ⟨hw, fun hent => ⟨hw.types hent ?_, ?_⟩⟩
  · intro e he type ht
    apply hts type
    rw [he]
    exact ht
  · intro e j he hj
    by_cases hnil : ((tree.find name).getD .null).itemKeys = []
    · -- nothing was validated, and an entity without components has no network
      rw [hnil] at h
      cases h
      obtain ⟨m, rfl, hm⟩ := Json.eq_object_of_find hj
      have hk := Json.mem_itemKeys_object.mpr ⟨j, hm⟩
      rw [he, Option.getD_some] at hnil
      rw [hnil] at hk
      exact absurd hk List.not_mem_nil
    · obtain ⟨m, hm, hok⟩ := hnet hnil
      obtain ⟨e', he', hem⟩ := network_eq_some_iff.mp hm
      rw [he] at he'
      cases he'
      rw [Json.find_object, hem] at hj
      cases hj
      exact ⟨m, rfl, hok⟩

end Config

end Nonsense
