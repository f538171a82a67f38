import Nonsense.Lib.OrdMap

/-!
# Paths in nested maps

In a `Nested κ τ` a `τ` has `members`, each again a `τ`, and any map is the members
of a `branch`.  `nodeAt` follows a path of keys from member to member, and `put`
writes at the end of a path, with a branch for everything on the way that is none.

Two paths are `Apart` if neither leads on to the other.  What is put at one of them is
not seen at the other (`nodeAt_put_apart`), and the order of the two does not matter
(`put_comm`).
-/

class Nested (κ : outParam Type*) (τ : Type*) where
  members : τ → Nonsense.OrdMap κ τ
  branch : Nonsense.OrdMap κ τ → τ
  members_branch : ∀ m, members (branch m) = m

namespace Nested

open Nonsense

/-- Neither of the paths leads on to the other. -/
def Apart {κ : Type*} (p q : List κ) : Prop := ¬ p <+: q ∧ ¬ q <+: p

instance {κ : Type*} [DecidableEq κ] : DecidableRel (Apart : List κ → List κ → Prop) :=
  fun p q => inferInstanceAs (Decidable (¬ p <+: q ∧ ¬ q <+: p))

section Paths

variable {κ : Type*} {k l : κ} {p q : List κ}

theorem Apart.symm (h : Apart p q) : Apart q p := ⟨h.2, h.1⟩

theorem not_apart_self : ¬ Apart p p := fun h => h.1 (List.prefix_refl p)

theorem apart_cons_self : Apart (k :: p) (k :: q) ↔ Apart p q := by
  simp [Apart, List.cons_prefix_cons]

theorem apart_cons_of_ne (h : k ≠ l) : Apart (k :: p) (l :: q) := by
  simp [Apart, List.cons_prefix_cons, h, h.symm]

/-- How two paths may lie to each other. -/
theorem apart_or (p q : List κ) : Apart p q ∨ (∃ r, q = p ++ r) ∨ q <+: p ∧ q ≠ p := by
  by_cases hpq : p <+: q
  · obtain ⟨r, rfl⟩ := hpq
    exact Or.inr (Or.inl ⟨r, rfl⟩)
  · by_cases hqp : q <+: p
    · refine Or.inr (Or.inr ⟨hqp, ?_⟩)
      rintro rfl
      exact hpq hqp
    · exact Or.inl ⟨hpq, hqp⟩

end Paths

section Write

variable {κ τ : Type*} [DecidableEq κ] [Nested κ τ] {k l : κ} {p q r : List κ} {t v w : τ}

/-! ### Reading -/

/-- The node at the end of a path. -/
def nodeAt : τ → List κ → Option τ
  | t, [] => some t
  | t, k :: q =>
    match (members t).find k with
    | none => none
    | some t' => nodeAt t' q

@[simp] theorem nodeAt_nil : nodeAt t [] = some t := rfl

theorem nodeAt_cons : nodeAt t (k :: q) = ((members t).find k).bind fun t' => nodeAt t' q := by
  rw [nodeAt]
  cases (members t).find k <;> rfl

theorem nodeAt_cons_eq_some_iff :
    nodeAt t (k :: q) = some w ↔ ∃ t', (members t).find k = some t' ∧ nodeAt t' q = some w := by
  rw [nodeAt_cons, Option.bind_eq_some_iff]

theorem nodeAt_append : nodeAt t (p ++ q) = (nodeAt t p).bind fun t' => nodeAt t' q := by
  induction p generalizing t with
  | nil => rfl
  | cons k p ih =>
    rw [List.cons_append, nodeAt_cons, nodeAt_cons]
    cases (members t).find k with
    | none => rfl
    | some t' => exact ih

/-- Where a node is not there, it may as well be one without members. -/
theorem nodeAt_getD (h : q ≠ []) (m : Option τ) :
    nodeAt (m.getD (branch [])) q = m.bind fun t => nodeAt t q := by
  cases m with
  | some t => rfl
  | none =>
    cases q with
    | nil => exact absurd rfl h
    | cons k q =>
      rw [Option.getD_none, nodeAt_cons, members_branch]
      rfl

/-! ### Writing -/

variable [LT κ] [DecidableLT κ]

/-- Write at the end of a path. -/
def put (v : τ) : List κ → τ → τ
  | [], _ => v
  | k :: p, t =>
    branch ((members t).insert k (put v p (((members t).find k).getD (branch []))))

@[simp] theorem put_nil : put v [] t = v := rfl

theorem put_cons : put v (k :: p) t =
    branch ((members t).insert k (put v p (((members t).find k).getD (branch [])))) := rfl

/-- Of what is written over only the members matter. -/
theorem put_congr {t' : τ} (hp : p ≠ []) (h : members t = members t') : put v p t = put v p t' := by
  cases p with
  | nil => exact absurd rfl hp
  | cons k p => rw [put_cons, put_cons, h]

theorem nodeAt_put_below : nodeAt (put v p t) (p ++ q) = nodeAt v q := by
  induction p generalizing t with
  | nil => rfl
  | cons k p ih =>
    rw [put_cons, List.cons_append, nodeAt_cons, members_branch, OrdMap.find_insert_self]
    exact ih

theorem nodeAt_put_self : nodeAt (put v p t) p = some v := by
  have h := nodeAt_put_below (v := v) (p := p) (q := []) (t := t)
  rwa [List.append_nil] at h

/-- Above the end of the path there are branches. -/
theorem nodeAt_put_above (hq : q <+: p) (hne : q ≠ p) :
    ∃ m, nodeAt (put v p t) q = some (branch m) := by
  induction p generalizing q t with
  | nil => exact absurd (List.prefix_nil.mp hq) hne
  | cons k p ih =>
    cases q with
    | nil => exact ⟨_, rfl⟩
    | cons l q =>
      obtain ⟨rfl, hq'⟩ := List.cons_prefix_cons.mp hq
      rw [put_cons, nodeAt_cons, members_branch, OrdMap.find_insert_self]
      exact ih hq' fun hc => hne (hc ▸ rfl)

/-- **What is put at a path is not seen apart from it.** -/
theorem nodeAt_put_apart (h : Apart p q) : nodeAt (put v p t) q = nodeAt t q := by
  induction p generalizing q t with
  | nil => exact absurd (List.nil_prefix) h.1
  | cons k p ih =>
    cases q with
    | nil => exact absurd (List.nil_prefix) h.2
    | cons l q =>
      rw [put_cons, nodeAt_cons, members_branch, nodeAt_cons]
      by_cases hkl : k = l
      · subst hkl
        have hpq := apart_cons_self.mp h
        have hq : q ≠ [] := by
          rintro rfl
          exact hpq.2 List.nil_prefix
        rw [OrdMap.find_insert_self, Option.bind_some, ih hpq, nodeAt_getD hq]
      · rw [OrdMap.find_insert_ne _ _ fun hc => hkl hc.symm]

end Write

section Comm

variable {κ τ : Type*} [LinearOrder κ] [Nested κ τ] {p q : List κ}

/-- **What is put apart may be put in either order.** -/
theorem put_comm {v w t : τ} (h : Apart p q) :
    put v p (put w q t) = put w q (put v p t) := by
  induction p generalizing q t with
  | nil => exact absurd (List.nil_prefix) h.1
  | cons k p ih =>
    cases q with
    | nil => exact absurd (List.nil_prefix) h.2
    | cons l q =>
      simp only [put_cons, members_branch]
      by_cases hkl : k = l
      · subst hkl
        rw [OrdMap.find_insert_self, OrdMap.find_insert_self, OrdMap.insert_insert_self,
          OrdMap.insert_insert_self, Option.getD_some, Option.getD_some, ih (apart_cons_self.mp h)]
      · rw [OrdMap.find_insert_ne _ _ hkl, OrdMap.find_insert_ne _ _ fun hc => hkl hc.symm,
          OrdMap.insert_comm _ _ _ fun hc => hkl hc.symm]

end Comm

end Nested
