import Nonsense.Config.Writes

/-!
# Well-formed configurations

`WellFormed tree` is what the daemon relies on when it starts an entity: the
components of every entity are of a known type, and a network component has a
known role, only known parameters, an address only for a switch, and an uplink
that names an entity with a network component that is not a client's.

`validateEntity_spec` establishes it for one entity, `EntityOk.writes` says that
validating another entity keeps it, and `load_wellFormed` and `add_wellFormed`
put the two together.
-/

namespace Nonsense

namespace Config

/-- An entry that is an entity: not the metadata, nor the recorded default. -/
def IsEntity (tree : Object) (name : String) : Prop :=
  (tree.find name).isSome ∧ name ≠ "!metadata" ∧
    ¬ (name = ":default-netns" ∧ ∃ s, tree.find name = some (.string s))

/-- `uplink` names something with a network object that is not a client's. -/
def UplinkOk (tree : Object) (uplink : Json) : Prop :=
  ∃ u m, uplink = .string u ∧ network tree u = some m ∧ m.find "role" ≠ some (.string "client")

/-- What validation makes sure of for a network component. -/
structure NetworkOk (tree m : Object) : Prop where
  role : ∃ role r, m.find "role" = some (.string role) ∧ knownNetworkRoles role = some r ∧
    m.find ":role" = some (.integer r.toInt)
  keys : ∀ key ∈ m.keys, startsWithColon key ∨
    key ∈ ["role", "external", "default", "address", "uplink"]
  address : "address" ∈ m.keys → m.find "role" = some (.string "switch")
  uplink : ∀ uplink, m.find "uplink" = some uplink → UplinkOk tree uplink

/-- What validation makes sure of for an entity. -/
structure EntityOk (tree : Object) (name : String) : Prop where
  types : ∀ e, tree.find name = some e → ∀ type ∈ e.itemKeys, (knownComponents type).isSome
  network : ∀ e j, tree.find name = some e → e.find "network" = some j →
    ∃ m : Object, j = .object m ∧ NetworkOk tree m

/-- Every entity is as it should be, and the metadata is not an entity. -/
structure WellFormed (tree : Object) : Prop where
  metadata : ∃ j, tree.find "!metadata" = some j ∧ j.find "network" = none
  entity : ∀ name, IsEntity tree name → EntityOk tree name

theorem EntityOk.of_network {tree m : Object} {name : String} (h : EntityOk tree name)
    (hm : Config.network tree name = some m) : NetworkOk tree m := by
  obtain ⟨e, he, hem⟩ := network_eq_some_iff.mp hm
  obtain ⟨m', hm', hok⟩ := h.network _ _ he hem
  cases hm'
  exact hok

/-- What has a network component is an entity. -/
theorem WellFormed.isEntity_of_network {tree m : Object} {name : String} (h : WellFormed tree)
    (hm : Config.network tree name = some m) : IsEntity tree name := by
  obtain ⟨e, he, hem⟩ := network_eq_some_iff.mp hm
  refine ⟨by rw [he]; rfl, ?_, ?_⟩
  · rintro rfl
    obtain ⟨j, hj, hjn⟩ := h.metadata
    rw [he] at hj
    cases hj
    rw [Json.find_object, hem] at hjn
    cases hjn
  · rintro ⟨-, s, hs⟩
    rw [he] at hs
    cases hs

theorem WellFormed.networkOk {tree m : Object} {name : String} (h : WellFormed tree)
    (hm : Config.network tree name = some m) : NetworkOk tree m :=
  (h.entity name (h.isEntity_of_network hm)).of_network hm

/-! ### Writes keep what is well formed -/

variable {name : String} {tree tree' : Object}

theorem Write.isEntity (w : Write name tree tree') {k : String} (h : IsEntity tree' k) :
    IsEntity tree k := by
  obtain ⟨hs, hm, hd⟩ := h
  rcases w.find k with hf | ⟨rfl, -, hf⟩ | ⟨e, m, m', he, -, hf⟩
  · rw [hf] at hs hd
    exact ⟨hs, hm, hd⟩
  · exact absurd ⟨rfl, _, hf⟩ hd
  · refine ⟨by rw [he]; rfl, hm, ?_⟩
    rintro ⟨-, s, hs'⟩
    rw [he] at hs'
    cases hs'

theorem Write.uplinkOk (w : Write name tree tree') {uplink : Json} (h : UplinkOk tree uplink) :
    UplinkOk tree' uplink := by
  obtain ⟨u, m, rfl, hm, hrole⟩ := h
  rcases w.network hm with hm' | ⟨-, r, hm'⟩ | ⟨-, hm'⟩
  · exact ⟨u, m, rfl, hm', hrole⟩
  · refine ⟨u, _, rfl, hm', ?_⟩
    rw [OrdMap.find_insert_ne _ _ (by decide)]
    exact hrole
  · refine ⟨u, _, rfl, hm', ?_⟩
    rw [OrdMap.find_insert_self]
    simp

theorem NetworkOk.mono {m : Object} (hmono : ∀ uplink, UplinkOk tree uplink → UplinkOk tree' uplink)
    (h : NetworkOk tree m) : NetworkOk tree' m :=
  ⟨h.role, h.keys, h.address, fun uplink hu => hmono uplink (h.uplink uplink hu)⟩

/-- **Validating one entity keeps what is known of another.** -/
theorem EntityOk.write (w : Write name tree tree') {k : String} (hk : k ≠ name)
    (hent : IsEntity tree' k) (h : EntityOk tree k) : EntityOk tree' k := by
  -- the entry of `k` is unchanged: an uplink that is validated has a role
  have hfind : tree'.find k = tree.find k := by
    cases w with
    | role r hm => exact find_setComponent_ne hk
    | default hd =>
      by_cases hkd : k = ":default-netns"
      · subst hkd
        exact absurd ⟨rfl, _, OrdMap.find_insert_self tree _ _⟩ hent.2.2
      · exact OrdMap.find_insert_ne tree _ hkd
    | @uplinkRole m u hm hr =>
      by_cases hku : k = u
      · subst hku
        obtain ⟨role, r, hrole, -⟩ := (h.of_network hm).role
        rw [hr] at hrole
        cases hrole
      · exact find_setComponent_ne hku
  refine ⟨fun e he => h.types e (hfind ▸ he), ?_⟩
  intro e j he hj
  obtain ⟨m, hm, hok⟩ := h.network e j (hfind ▸ he) hj
  exact ⟨m, hm, hok.mono fun _ => w.uplinkOk⟩

theorem Writes.isEntity (w : Writes name tree tree') {k : String} (h : IsEntity tree' k) :
    IsEntity tree k := by
  induction w with
  | refl => exact h
  | tail _ w ih => exact ih (w.isEntity h)

theorem Writes.uplinkOk (w : Writes name tree tree') {uplink : Json} (h : UplinkOk tree uplink) :
    UplinkOk tree' uplink := by
  induction w with
  | refl => exact h
  | tail _ w ih => exact w.uplinkOk ih

theorem EntityOk.writes (w : Writes name tree tree') {k : String} (hk : k ≠ name)
    (hent : IsEntity tree' k) (h : EntityOk tree k) : EntityOk tree' k := by
  induction w with
  | refl => exact h
  | tail _ w ih => exact (ih (w.isEntity hent)).write w hk hent

theorem Writes.metadata (w : Writes name tree tree')
    (h : ∃ j, tree.find "!metadata" = some j ∧ j.find "network" = none) :
    ∃ j, tree'.find "!metadata" = some j ∧ j.find "network" = none := by
  induction w with
  | refl => exact h
  | tail _ w ih =>
    obtain ⟨j, hj, hn⟩ := ih
    rcases w.find "!metadata" with hf | ⟨hf, -⟩ | ⟨e, m, m', he, hem, -⟩
    · exact ⟨j, hf.trans hj, hn⟩
    · exact absurd hf (by decide)
    · rw [he] at hj
      cases hj
      rw [Json.find_object, hem] at hn
      cases hn

end Config

end Nonsense
