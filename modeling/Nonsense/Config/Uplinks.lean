import Nonsense.Config.Accepted
import Nonsense.Lib.Follow

/-!
# The uplink relation

`uplinkOf tree name` is the name under `network.uplink` of an entity.  Validation
looks one step ahead only, and nothing it writes changes the relation.

Loading keeps the relation of the file, whatever it is.  An `add` puts in an
entity that nothing names yet, so it makes a cycle only where the new entity
names itself, which the lookup of the uplink finds because the entity is already
in the tree (`add_acyclic_iff`).
-/

namespace Nonsense

namespace Config

/-- The name under `network.uplink` of an entity. -/
def entityUplink (entity : Json) : Option String :=
  match (entity.find "network").bind fun component => component.find "uplink" with
  | some (.string uplink) => some uplink
  | _ => none

/-- The entity that the uplink of `name` names. -/
def uplinkOf (tree : Object) (name : String) : Option String :=
  (tree.find name).bind entityUplink

variable {name : String} {tree tree' : Object}

theorem uplinkOf_eq_some_iff {u : String} :
    uplinkOf tree name = some u ↔
      ∃ m, network tree name = some m ∧ m.find "uplink" = some (.string u) := by
  constructor
  · intro h
    obtain ⟨e, he, hu⟩ := Option.bind_eq_some_iff.mp h
    unfold entityUplink at hu
    split at hu
    · rename_i u' hu'
      cases hu
      obtain ⟨j, hj, hju⟩ := Option.bind_eq_some_iff.mp hu'
      obtain ⟨em, rfl, hej⟩ := Json.eq_object_of_find hj
      obtain ⟨m, rfl, hmu⟩ := Json.eq_object_of_find hju
      exact ⟨m, network_eq_some_iff.mpr ⟨em, he, hej⟩, hmu⟩
    · cases hu
  · rintro ⟨m, hm, hu⟩
    obtain ⟨e, he, hem⟩ := network_eq_some_iff.mp hm
    simp [uplinkOf, he, entityUplink, hem, hu]

/-- The uplink of an entity, read from its network. -/
theorem uplinkOf_iff_of_network {m : Object} {u : String} (hm : network tree name = some m) :
    uplinkOf tree name = some u ↔ m.find "uplink" = some (.string u) := by
  rw [uplinkOf_eq_some_iff, hm]
  simp

theorem uplinkOf_of_find_eq {k : String} (h : tree'.find k = tree.find k) :
    uplinkOf tree' k = uplinkOf tree k := by
  rw [uplinkOf, h, uplinkOf]

/-- Where no chain of uplinks has `n` steps there is no cycle. -/
theorem acyclic_of_keys (n : ℕ) (h : ∀ k ∈ tree.keys, ascend (uplinkOf tree) n k = none) :
    Acyclic (uplinkOf tree) := by
  intro k
  cases hu : uplinkOf tree k with
  | none => exact .stop hu
  | some u =>
    have hk : k ∈ tree.keys := by
      obtain ⟨e, he, -⟩ := Option.bind_eq_some_iff.mp hu
      exact OrdMap.mem_keys_iff.mpr ⟨e, he⟩
    exact ends_of_ascend (h k hk)

/-- Networks with the same uplinks make the same relation. -/
theorem uplinkOf_congr {k : String}
    (h : ∀ m, network tree k = some m →
      ∃ m', network tree' k = some m' ∧ m'.find "uplink" = m.find "uplink")
    (h' : ∀ m', network tree' k = some m' → ∃ m, network tree k = some m) :
    uplinkOf tree' k = uplinkOf tree k := by
  apply Option.ext
  intro u
  rw [uplinkOf_eq_some_iff, uplinkOf_eq_some_iff]
  constructor
  · rintro ⟨m', hm', hu⟩
    obtain ⟨m, hm⟩ := h' m' hm'
    obtain ⟨m₁, hm₁, hmu⟩ := h m hm
    rw [hm'] at hm₁
    cases hm₁
    exact ⟨m, hm, hmu ▸ hu⟩
  · rintro ⟨m, hm, hu⟩
    obtain ⟨m', hm', hmu⟩ := h m hm
    exact ⟨m', hm', hmu.trans hu⟩

/-! ### Validation does not change it -/

theorem Write.uplinkOf (w : Write name tree tree') : uplinkOf tree' = uplinkOf tree := by
  funext k
  refine uplinkOf_congr (fun m hm => ?_) fun m' hm' => w.exists_network hm'
  rcases w.network hm with hm' | ⟨-, r, hm'⟩ | ⟨-, hm'⟩
  · exact ⟨m, hm', rfl⟩
  · exact ⟨_, hm', OrdMap.find_insert_ne m _ (by decide)⟩
  · exact ⟨_, hm', OrdMap.find_insert_ne m _ (by decide)⟩

theorem Writes.uplinkOf (w : Writes name tree tree') :
    Config.uplinkOf tree' = Config.uplinkOf tree := by
  induction w with
  | refl => rfl
  | tail _ w ih => exact w.uplinkOf.trans ih

theorem validateEntries_uplinkOf {keys : List String}
    (h : validateEntries keys tree = .ok () tree') : uplinkOf tree' = uplinkOf tree :=
  validateEntries_keeps (P := fun t => uplinkOf t = uplinkOf tree) h rfl
    fun w ih => w.uplinkOf.trans ih

/-- **What is loaded has the uplinks of the file.** -/
theorem load_uplinkOf {file : Object} {c : Config} (h : load (.object file) = .ok c) :
    uplinkOf c.configuration = uplinkOf file := by
  obtain ⟨_, hj, -, hrun⟩ := load_eq_ok h
  cases hj
  exact validateEntries_uplinkOf hrun

/-! ### Adding -/

/-- An uplink names an entity that is there. -/
theorem WellFormed.find_of_uplinkOf {a u : String} (h : WellFormed tree)
    (ha : uplinkOf tree a = some u) : ∃ e : Object, tree.find u = some (.object e) := by
  obtain ⟨m, hm, hu⟩ := uplinkOf_eq_some_iff.mp ha
  obtain ⟨_, _, hs, hum, -⟩ := (h.networkOk hm).uplink _ hu
  cases hs
  obtain ⟨e, he, -⟩ := network_eq_some_iff.mp hum
  exact ⟨e, he⟩

variable {parse : String → Option Json} {c c' : Config} {params : List ParameterValue}
  {r : ConfigResult}

/-- The entity the parameters make names `name` as its uplink. -/
def NamesItself (parse : String → Option Json) (name : String) (params : List ParameterValue) :
    Prop :=
  ∃ entity, buildEntity parse name params (.object []) = .done entity ∧
    entityUplink entity = some name

instance (parse : String → Option Json) (name : String) (params : List ParameterValue) :
    Decidable (NamesItself parse name params) :=
  match h : buildEntity parse name params (.object []) with
  | .done entity => decidable_of_iff (entityUplink entity = some name) (by simp [NamesItself, h])
  | .left .. | .erased .. | .threw .. => .isFalse (by simp [NamesItself, h])

/-- **When an `add` that succeeds makes a cycle.** -/
theorem add_acyclic_iff (hwf : WellFormed c.configuration)
    (h : add parse c name params = .returned r c') (hr : r.errorCode = 0) :
    Acyclic (uplinkOf c'.configuration) ↔
      Acyclic (uplinkOf c.configuration) ∧ ¬ NamesItself parse name params := by
  obtain ⟨-, hname, entity, tree', hbuild, hval, rfl⟩ := add_eq_zero h hr
  have hup : uplinkOf tree' = uplinkOf (c.configuration.insert name entity) :=
    (validateEntity_spec hval).1.uplinkOf
  have hself : uplinkOf (c.configuration.insert name entity) name = entityUplink entity := by
    rw [uplinkOf, OrdMap.find_insert_self]
    rfl
  have hnames : NamesItself parse name params ↔ entityUplink entity = some name := by
    constructor
    · rintro ⟨e, he, hu⟩
      rw [hbuild] at he
      cases he
      exact hu
    · exact fun hu => ⟨entity, hbuild, hu⟩
  rw [hnames, ← hself, show uplinkOf ({ c with configuration := tree' } : Config).configuration =
    uplinkOf (c.configuration.insert name entity) from hup]
  refine acyclic_extend_iff (fun a ha => uplinkOf_of_find_eq (OrdMap.find_insert_ne _ _ ha))
    (fun a ha => ?_) (by rw [uplinkOf, hname]; rfl)
  obtain ⟨e, he⟩ := hwf.find_of_uplinkOf ha
  rw [hname] at he
  cases he

end Config

end Nonsense
