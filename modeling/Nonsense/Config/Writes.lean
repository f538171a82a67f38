import Nonsense.Config.Basic
import Nonsense.Lib.Edit
import Mathlib.Logic.Relation

/-!
# What validation writes

A validation that does not throw changes the tree in three ways only, and
`Write` lists them: it records the role's number in the component it checks, it
records the default namespace where none is recorded, and it puts a null under
the `role` of an uplink that has none.  `validateEntity_spec` says that a
successful `validateEntity` is a sequence of such writes after which the entity
is as it should be (`EntityOk`).

`network tree name` is the network object of an entity, the only part of an
entity that validation reads or writes.
-/

namespace Nonsense

namespace Config

/-- The members of the network component of `name`, if it is an object. -/
def network (tree : Object) (name : String) : Option Object :=
  match component tree name "network" with
  | .object m => some m
  | _ => none

/-- Write the members of the network component of `name`. -/
def setNetwork (tree : Object) (name : String) (m : Object) : Object :=
  setComponent tree name "network" (.object m)

theorem component_of_network {tree m : Object} {name : String} (h : network tree name = some m) :
    component tree name "network" = .object m := by
  unfold network at h
  split at h
  · rename_i m' hm
    rw [hm, Option.some.inj h]
  · cases h

theorem network_eq_some_iff {tree m : Object} {name : String} :
    network tree name = some m ↔
      ∃ e : Object, tree.find name = some (.object e) ∧ e.find "network" = some (.object m) := by
  constructor
  · intro h
    have hc := component_of_network h
    unfold component at hc
    cases he : tree.find name with
    | none => rw [he] at hc; cases hc
    | some e =>
      rw [he] at hc
      cases hj : e.find "network" with
      | none => simp [hj] at hc
      | some j =>
        obtain ⟨e', rfl, hj'⟩ := Json.eq_object_of_find hj
        simp only [Option.bind_some, hj, Option.getD_some] at hc
        exact ⟨e', rfl, hc ▸ hj'⟩
  · rintro ⟨e, he, hm⟩
    simp [network, component, he, hm]

/-- The network component of an entry that is an object. -/
theorem network_iff_of_object {tree e m : Object} {name : String}
    (he : tree.find name = some (.object e)) :
    network tree name = some m ↔ e.find "network" = some (.object m) := by
  rw [network_eq_some_iff, he]
  constructor
  · rintro ⟨e', he', hm⟩
    cases he'
    exact hm
  · exact fun hm => ⟨e, rfl, hm⟩

theorem network_of_find_eq {tree tree' : Object} {name : String}
    (h : tree'.find name = tree.find name) : network tree' name = network tree name := by
  simp only [network, component, h]

/-! ### Writing through a reference -/

theorem find_setComponent_ne {tree : Object} {name type k : String} {j : Json} (h : k ≠ name) :
    (setComponent tree name type j).find k = tree.find k := by
  unfold setComponent
  split
  · exact OrdMap.find_insert_ne tree _ h
  · rfl

theorem find_setComponent_self {tree e : Object} {name type : String} {j : Json}
    (h : tree.find name = some (.object e)) :
    (setComponent tree name type j).find name = some (.object (e.insert type j)) := by
  simp [setComponent, h]

theorem network_setNetwork_self {tree m m' : Object} {name : String}
    (h : network tree name = some m) : network (setNetwork tree name m') name = some m' := by
  obtain ⟨e, he, -⟩ := network_eq_some_iff.mp h
  exact network_eq_some_iff.mpr
    ⟨_, find_setComponent_self he, OrdMap.find_insert_self e "network" _⟩

theorem find_setNetwork_ne {tree m : Object} {name k : String} (h : k ≠ name) :
    (setNetwork tree name m).find k = tree.find k :=
  find_setComponent_ne h

theorem network_setNetwork_ne {tree m : Object} {name k : String} (h : k ≠ name) :
    network (setNetwork tree name m) k = network tree k :=
  network_of_find_eq (find_setComponent_ne h)

/-- `:default-netns` has no network component while it is not recorded, nor
once it is. -/
theorem network_insert_default {tree : Object} {name : String} (k : String)
    (h : (tree.find ":default-netns").getD .null = .null) :
    network (tree.insert ":default-netns" (.string name)) k = network tree k := by
  by_cases hk : k = ":default-netns"
  · subst hk
    have hn : network tree ":default-netns" = none := by
      cases hm : network tree ":default-netns" with
      | none => rfl
      | some m =>
        obtain ⟨e, he, -⟩ := network_eq_some_iff.mp hm
        simp [he] at h
    rw [hn]
    simp [network, component, Json.find]
  · exact network_of_find_eq (OrdMap.find_insert_ne tree _ hk)

/-! ### The writes -/

/-- One write of a validation of the entity `name` that goes on after it. -/
inductive Write (name : String) : Object → Object → Prop
  | role {tree m : Object} (r : Int) : network tree name = some m →
      Write name tree (setNetwork tree name (m.insert ":role" (.integer r)))
  | default {tree : Object} : (tree.find ":default-netns").getD .null = .null →
      Write name tree (tree.insert ":default-netns" (.string name))
  | uplinkRole {tree m : Object} {uplinkName : String} : network tree uplinkName = some m →
      m.find "role" = none →
      Write name tree (setNetwork tree uplinkName (m.insert "role" .null))

/-- The writes of a validation of the entity `name`. -/
abbrev Writes (name : String) : Object → Object → Prop := Relation.ReflTransGen (Write name)

variable {name : String} {tree tree' : Object}

/-- What no write changes, all writes of a validation leave as it is. -/
theorem Writes.iff_of_write {P : Object → Prop} (w : Writes name tree tree')
    (hwrite : ∀ {tree tree' : Object}, Write name tree tree' → (P tree' ↔ P tree)) :
    P tree' ↔ P tree := by
  induction w with
  | refl => exact Iff.rfl
  | tail _ w ih => exact (hwrite w).trans ih

/-- **What a write does to a network component.** -/
theorem Write.network (w : Write name tree tree') {k : String} {m : Object}
    (h : network tree k = some m) :
    network tree' k = some m ∨
      (k = name ∧ ∃ r, Config.network tree' k = some (m.insert ":role" (.integer r))) ∨
      (m.find "role" = none ∧ Config.network tree' k = some (m.insert "role" .null)) := by
  cases w with
  | role r hm =>
    by_cases hk : k = name
    · subst hk
      rw [h] at hm
      cases hm
      exact Or.inr (Or.inl ⟨rfl, r, network_setNetwork_self h⟩)
    · exact Or.inl ((network_setNetwork_ne hk).trans h)
  | default hd => exact Or.inl ((network_insert_default k hd).trans h)
  | @uplinkRole m' u hm hr =>
    by_cases hk : k = u
    · subst hk
      rw [h] at hm
      cases hm
      exact Or.inr (Or.inr ⟨hr, network_setNetwork_self h⟩)
    · exact Or.inl ((network_setNetwork_ne hk).trans h)

/-- No write makes a network component. -/
theorem Write.exists_network (w : Write name tree tree') {k : String} {m' : Object}
    (h : Config.network tree' k = some m') : ∃ m, Config.network tree k = some m := by
  cases w with
  | @role m r hm =>
    by_cases hk : k = name
    · exact ⟨m, hk ▸ hm⟩
    · exact ⟨m', (network_setNetwork_ne hk).symm.trans h⟩
  | default hd => exact ⟨m', (network_insert_default k hd).symm.trans h⟩
  | @uplinkRole m u hm _ =>
    by_cases hk : k = u
    · exact ⟨m, hk ▸ hm⟩
    · exact ⟨m', (network_setNetwork_ne hk).symm.trans h⟩

/-- The tree with one network component written, read anywhere. -/
theorem find_setNetwork {m m' : Object} {u k : String} (hm : Config.network tree u = some m) :
    (setNetwork tree u m').find k = tree.find k ∨
      ∃ e : Object, tree.find k = some (.object e) ∧ e.find "network" = some (.object m) ∧
        (setNetwork tree u m').find k = some (.object (e.insert "network" (.object m'))) := by
  by_cases hk : k = u
  · subst hk
    obtain ⟨e, he, hem⟩ := network_eq_some_iff.mp hm
    exact Or.inr ⟨e, he, hem, find_setComponent_self he⟩
  · exact Or.inl (find_setComponent_ne hk)

/-- **What a write does to an entry**: nothing, or it records the default, or it
overwrites a network component that is there. -/
theorem Write.find (w : Write name tree tree') (k : String) :
    tree'.find k = tree.find k ∨
      (k = ":default-netns" ∧ (tree.find k).getD .null = .null ∧
        tree'.find k = some (.string name)) ∨
      ∃ e m m' : Object, tree.find k = some (.object e) ∧ e.find "network" = some (.object m) ∧
        tree'.find k = some (.object (e.insert "network" (.object m'))) := by
  cases w with
  | role r hm =>
    rcases find_setNetwork (k := k) hm with h | ⟨e, he, hem, h⟩
    · exact Or.inl h
    · exact Or.inr (Or.inr ⟨e, _, _, he, hem, h⟩)
  | default hd =>
    by_cases hk : k = ":default-netns"
    · subst hk
      exact Or.inr (Or.inl ⟨rfl, hd, OrdMap.find_insert_self tree _ _⟩)
    · exact Or.inl (OrdMap.find_insert_ne tree _ hk)
  | uplinkRole hm _ =>
    rcases find_setNetwork (k := k) hm with h | ⟨e, he, hem, h⟩
    · exact Or.inl h
    · exact Or.inr (Or.inr ⟨e, _, _, he, hem, h⟩)

end Config

end Nonsense
