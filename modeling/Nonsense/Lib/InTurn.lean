import Mathlib.Data.List.Induction

/-!
# Lists that pass a check one element at a time

`InTurn P l`: each element of `l` passes a check that also sees the elements before it.
A list that does not pass has a first element that fails
(`exists_first_of_not_inTurn`).
-/

namespace Nonsense

variable {α : Type*} {P : List α → α → Prop} {l l' : List α} {x : α}

/-- Each element passes, given the ones before it. -/
def InTurn (P : List α → α → Prop) (l : List α) : Prop :=
  ∀ before x after, l = before ++ x :: after → P before x

theorem inTurn_nil : InTurn P [] := by
  intro before x after h
  simp at h

theorem InTurn.of_append (h : InTurn P (l ++ l')) : InTurn P l := by
  rintro before x after rfl
  exact h before x (after ++ l') (by simp)

theorem inTurn_append_singleton : InTurn P (l ++ [x]) ↔ InTurn P l ∧ P l x := by
  constructor
  · exact fun h => ⟨h.of_append, h l x [] rfl⟩
  · rintro ⟨h, hx⟩ before y after hl
    -- the split is at the new element, or before it
    rcases List.eq_nil_or_concat after with rfl | ⟨after', z, rfl⟩
    · obtain ⟨rfl, hy⟩ := List.append_inj' hl rfl
      cases hy
      exact hx
    · rw [List.concat_eq_append, ← List.cons_append, ← List.append_assoc] at hl
      exact h before y after' (List.append_inj' hl rfl).1

/-- The first element that fails. -/
theorem exists_first_of_not_inTurn (h : ¬ InTurn P l) :
    ∃ before x after, l = before ++ x :: after ∧ InTurn P before ∧ ¬ P before x := by
  induction l using List.reverseRecOn with
  | nil => exact absurd inTurn_nil h
  | append_singleton l x ih =>
    by_cases hl : InTurn P l
    · exact ⟨l, x, [], rfl, hl, fun hx => h (inTurn_append_singleton.mpr ⟨hl, hx⟩)⟩
    · obtain ⟨before, y, after, rfl, hb, hy⟩ := ih hl
      exact ⟨before, y, after ++ [x], by simp, hb, hy⟩

/-- The same for a check that looks at the element alone. -/
theorem exists_first {Q : α → Prop} (h : ¬ ∀ x ∈ l, Q x) :
    ∃ before x after, l = before ++ x :: after ∧ (∀ y ∈ before, Q y) ∧ ¬ Q x := by
  have hno : ¬ InTurn (fun _ x => Q x) l := by
    intro hall
    refine h fun x hx => ?_
    obtain ⟨s, t, rfl⟩ := List.append_of_mem hx
    exact hall s x t rfl
  obtain ⟨before, x, after, hl, hb, hx⟩ := exists_first_of_not_inTurn hno
  refine ⟨before, x, after, hl, fun y hy => ?_, hx⟩
  obtain ⟨s, t, rfl⟩ := List.append_of_mem hy
  exact hb s y t rfl

/-- Of two elements the later one has passed with the earlier one before it. -/
theorem InTurn.of_sublist {y : α} (h : InTurn P l) (hl : [x, y].Sublist l) :
    ∃ before, x ∈ before ∧ P before y := by
  obtain ⟨l₁, l₂, rfl, hx, hy⟩ := List.cons_sublist_iff.mp hl
  obtain ⟨s, t, rfl⟩ := List.append_of_mem (List.singleton_sublist.mp hy)
  exact ⟨l₁ ++ s, List.mem_append_left s hx, h _ y t (by simp)⟩

/-- There is one first element that fails a check that looks at the element alone. -/
theorem first_unique {Q : α → Prop} {before before' after after' : List α} {y : α}
    (h : before ++ x :: after = before' ++ y :: after') (hb : ∀ z ∈ before, Q z) (hx : ¬ Q x)
    (hb' : ∀ z ∈ before', Q z) (hy : ¬ Q y) : before = before' ∧ x = y := by
  induction before generalizing before' with
  | nil =>
    cases before' with
    | nil => exact ⟨rfl, (List.cons.inj h).1⟩
    | cons z before' =>
      obtain ⟨rfl, -⟩ := List.cons.inj h
      exact absurd (hb' _ List.mem_cons_self) hx
  | cons z before ih =>
    cases before' with
    | nil =>
      obtain ⟨rfl, -⟩ := List.cons.inj h
      exact absurd (hb _ List.mem_cons_self) hy
    | cons z' before' =>
      obtain ⟨rfl, htail⟩ := List.cons.inj h
      obtain ⟨rfl, hxy⟩ := ih htail (fun w hw => hb w (List.mem_cons_of_mem _ hw))
        fun w hw => hb' w (List.mem_cons_of_mem _ hw)
      exact ⟨rfl, hxy⟩

end Nonsense
