import Mathlib.Data.List.Basic

/-!
# Undoing a list of steps

A `Undoable α σ` are steps `α` on states `σ` that may fail, some of which have another
that undoes them.  `run` makes all of a list of steps, and fails where one does;
`attemptAll` makes them whether or not they fail, which is how undoing goes.  `undos` is
what undoes a list of steps, the last one first.

What it undoes it to is up to a relation: `Undoes R R' a` says that from what is `R'`
behind the step `a` undoing it leads to what is `R` in front of it.  Steps that keep one
relation can be put one after the other (`attemptAll_undos`), and so can lists of steps
(`undos_append`).
-/

namespace Nonsense

universe u v

/-- Steps on states, and what undoes them. -/
structure Undoable (α : Type u) (σ : Type v) where
  apply : α → σ → Option σ
  undo : α → Option α

namespace Undoable

variable {α : Type u} {σ : Type v} (S : Undoable α σ)

/-- Make all the steps. -/
def run : List α → σ → Option σ
  | [], s => some s
  | a :: l, s => (S.apply a s).bind (run l)

/-- What comes of a step, which may fail. -/
def attempt (s : σ) (a : α) : σ := (S.apply a s).getD s

/-- What comes of the steps, each of which may fail. -/
def attemptAll (l : List α) (s : σ) : σ := l.foldl S.attempt s

/-- What undoes the steps. -/
def undos (l : List α) : List α := (l.filterMap S.undo).reverse

/-- What comes of undoing one step. -/
def undoOne (a : α) (s : σ) : σ := S.attemptAll (S.undo a).toList s

/-- Undoing `a` leads from `R'` behind it to `R` in front of it. -/
def Undoes (R R' : σ → σ → Prop) (a : α) : Prop :=
  ∀ s s' t, S.apply a s = some s' → R' s' t → R s (S.undoOne a t)

variable {S} {l l' : List α} {a : α} {s s' t : σ} {R R' : σ → σ → Prop}

theorem run_append : S.run (l ++ l') s = (S.run l s).bind (S.run l') := by
  induction l generalizing s with
  | nil => rfl
  | cons a l ih =>
    rw [List.cons_append, run, run]
    cases S.apply a s with
    | none => rfl
    | some s' => exact ih

theorem run_cons_eq_some_iff :
    S.run (a :: l) s = some t ↔ ∃ s', S.apply a s = some s' ∧ S.run l s' = some t :=
  Option.bind_eq_some_iff

theorem run_append_eq_some_iff :
    S.run (l ++ l') s = some t ↔ ∃ s', S.run l s = some s' ∧ S.run l' s' = some t := by
  rw [run_append, Option.bind_eq_some_iff]

/-- A step that may fail keeps what it keeps when it does not. -/
theorem attempt_keeps {P : σ → Prop} (hs : P s) (h : ∀ s', S.apply a s = some s' → P s') :
    P (S.attempt s a) := by
  unfold attempt
  cases happly : S.apply a s with
  | none => exact hs
  | some s' => exact h s' happly

theorem attempt_of_some (h : S.apply a s = some s') : S.attempt s a = s' := by
  rw [attempt, h, Option.getD_some]

theorem attemptAll_append : S.attemptAll (l ++ l') s = S.attemptAll l' (S.attemptAll l s) :=
  List.foldl_append

/-- What comes later is undone first. -/
theorem undos_append : S.undos (l ++ l') = S.undos l' ++ S.undos l := by
  rw [undos, List.filterMap_append, List.reverse_append, undos, undos]

theorem undos_cons : S.undos (a :: l) = S.undos l ++ (S.undo a).toList := by
  rw [undos, undos, List.filterMap_cons]
  cases S.undo a with
  | none => simp
  | some u => simp

/-- **Undoing steps that keep a relation** leads back to where they began. -/
theorem attemptAll_undos (hl : ∀ a ∈ l, S.Undoes R R a) (h : S.run l s = some s') (hR : R s' t) :
    R s (S.attemptAll (S.undos l) t) := by
  induction l generalizing s with
  | nil =>
    cases h
    exact hR
  | cons a l ih =>
    obtain ⟨s₁, ha, hrest⟩ := run_cons_eq_some_iff.mp h
    have hlater := ih (fun b hb => hl b (List.mem_cons_of_mem _ hb)) hrest
    rw [undos_cons, attemptAll_append]
    exact hl a List.mem_cons_self s s₁ _ ha hlater

/-- The same for a step that leads from one relation to another. -/
theorem attemptAll_undos_cons (ha : S.Undoes R R' a)
    (hl : ∀ s₁, S.apply a s = some s₁ → S.run l s₁ = some s' →
      R' s₁ (S.attemptAll (S.undos l) t))
    (h : S.run (a :: l) s = some s') : R s (S.attemptAll (S.undos (a :: l)) t) := by
  obtain ⟨s₁, happly, hrest⟩ := run_cons_eq_some_iff.mp h
  rw [undos_cons, attemptAll_append]
  exact ha s s₁ _ happly (hl s₁ happly hrest)

/-- The same for two lists of steps. -/
theorem attemptAll_undos_append (hl : ∀ a ∈ l, S.Undoes R R a)
    (hl' : ∀ s₁, S.run l s = some s₁ → S.run l' s₁ = some s' →
      R s₁ (S.attemptAll (S.undos l') t))
    (h : S.run (l ++ l') s = some s') : R s (S.attemptAll (S.undos (l ++ l')) t) := by
  obtain ⟨s₁, hfirst, hrest⟩ := run_append_eq_some_iff.mp h
  rw [undos_append, attemptAll_append]
  exact attemptAll_undos hl hfirst (hl' s₁ hfirst hrest)

/-- What every step keeps, the steps keep. -/
theorem run_invariant {P : σ → Prop} (hl : ∀ a ∈ l, ∀ s s', S.apply a s = some s' → P s → P s')
    (h : S.run l s = some s') (hs : P s) : P s' := by
  induction l generalizing s with
  | nil =>
    cases h
    exact hs
  | cons a l ih =>
    obtain ⟨s₁, happly, hrest⟩ := run_cons_eq_some_iff.mp h
    exact ih (fun b hb => hl b (List.mem_cons_of_mem _ hb)) hrest
      (hl a List.mem_cons_self s s₁ happly hs)

/-- What a step that nothing undoes has to keep. -/
theorem Undoes.of_none (hundo : S.undo a = none)
    (h : ∀ s s' t, S.apply a s = some s' → R' s' t → R s t) : S.Undoes R R' a := by
  intro s s' t happly hR
  rw [undoOne, hundo]
  exact h s s' t happly hR

theorem Undoes.of_some {u : α} (hundo : S.undo a = some u)
    (h : ∀ s s' t, S.apply a s = some s' → R' s' t → R s (S.attempt t u)) : S.Undoes R R' a := by
  intro s s' t happly hR
  rw [undoOne, hundo]
  exact h s s' t happly hR

end Undoable

end Nonsense
