import Mathlib.Data.Nat.Notation
import Mathlib.Logic.Function.Basic
import Mathlib.Logic.Relation

/-!
# Threads that need one another

`Threads` are programs, one for each `t : τ`, whose actions take turns on one state.  An
action may fail.  A thread begins when those that it `needs` are through, and otherwise the
turns are taken in any order (`Step`).

An `Outline` says for every thread what is so when it has done its first `n` actions: its
next action succeeds and leads on, and takes from no other thread what is so for that one.
Then no thread ever fails, whatever the order (`Outline.reaches`, `Outline.progress`), and
all of them get through (`Outline.exists_through`).

`Threads.on` are the same programs with actions on another state, of which a `view` is seen.
Where these do what is seen of them (`Shown`), they come to the same places
(`Shown.reaches`, `Shown.lift`).
-/

namespace Nonsense

open Relation (ReflTransGen TransGen)

structure Threads (τ α σ : Type*) where
  program : τ → List α
  apply : τ → α → σ → Option σ
  needs : τ → τ → Prop

namespace Threads

variable {τ α σ : Type*} [DecidableEq τ]

/-- The state, and how much of its program each thread has done. -/
structure At (τ σ : Type*) where
  state : σ
  done : τ → ℕ

/-- Nothing has been done. -/
def At.start (τ : Type*) {σ : Type*} (s : σ) : At τ σ := ⟨s, fun _ => 0⟩

variable (T : Threads τ α σ)

/-- The thread has come to its end. -/
def Through (s : At τ σ) (t : τ) : Prop := s.done t = (T.program t).length

/-- The thread may go on with `a`. -/
structure Ready (s : At τ σ) (t : τ) (a : α) : Prop where
  next : (T.program t)[s.done t]? = some a
  needs : ∀ u, T.needs t u → T.Through s u

/-- `t` takes a turn. -/
inductive Step (s : At τ σ) (t : τ) : At τ σ → Prop
  | act {a : α} {state : σ} : T.Ready s t a → T.apply t a s.state = some state →
      Step s t ⟨state, Function.update s.done t (s.done t + 1)⟩

def Reaches : At τ σ → At τ σ → Prop := ReflTransGen fun s s' => ∃ t, T.Step s t s'

section

variable {T} {s s' : At τ σ} {t : τ}

/-- A step is one of a thread that is not through. -/
theorem done_of_step (h : T.Step s t s') :
    s.done t < (T.program t).length ∧ s'.done = Function.update s.done t (s.done t + 1) := by
  cases h with
  | act hready _ => exact ⟨(List.getElem?_eq_some_iff.mp hready.next).1, rfl⟩

theorem done_le {s₀ : σ} (hs : T.Reaches (At.start τ s₀) s) (t : τ) :
    s.done t ≤ (T.program t).length := by
  induction hs with
  | refl => exact Nat.zero_le _
  | tail _ hstep ih =>
    obtain ⟨u, hstep⟩ := hstep
    obtain ⟨hlt, hdone⟩ := done_of_step hstep
    rw [hdone]
    by_cases htu : t = u
    · rw [htu, Function.update_self]
      exact hlt
    · rwa [Function.update_of_ne htu]

/-- Who is through, stays so. -/
theorem through_reaches (hs : T.Reaches s s') (ht : T.Through s t) : T.Through s' t := by
  induction hs with
  | refl => exact ht
  | tail _ hstep ih =>
    obtain ⟨u, hstep⟩ := hstep
    obtain ⟨hlt, hdone⟩ := done_of_step hstep
    have htu : t ≠ u := by
      rintro rfl
      exact Nat.ne_of_lt hlt ih
    rwa [Through, hdone, Function.update_of_ne htu]

end

/-- What is so for each thread when it has done that much; `Always` is so in any case. -/
structure Outline (T : Threads τ α σ) (so : τ → ℕ → σ → Prop) (Always : σ → Prop) : Prop where
  nonempty : ∀ t u, T.needs t u → T.program u ≠ []
  acts : ∀ t n a s, (T.program t)[n]? = some a → Always s → so t n s →
    (∀ u, TransGen T.needs t u → so u (T.program u).length s) →
    ∃ s', T.apply t a s = some s' ∧ Always s' ∧ so t (n + 1) s' ∧
      ∀ u ≠ t, ∀ k, so u k s → so u k s'

namespace Outline

variable {T} {so : τ → ℕ → σ → Prop} {Always : σ → Prop} {s s' : At τ σ} {t u : τ} {a : α}

/-- What has been done, was done behind what it needs. -/
def InOrder (T : Threads τ α σ) (s : At τ σ) : Prop :=
  ∀ t, s.done t ≠ 0 → ∀ u, T.needs t u → T.Through s u

omit [DecidableEq τ] in
/-- A thread that goes on has all that it needs, and what that needs. -/
theorem through_of_leads (h : T.Outline so Always) (hs : InOrder T s)
    (hneeds : ∀ u, T.needs t u → T.Through s u) (hu : TransGen T.needs t u) : T.Through s u := by
  induction hu with
  | single hu => exact hneeds _ hu
  | @tail x u htx hx ih =>
    apply hs x _ u hx
    rw [show s.done x = (T.program x).length from ih]
    obtain ⟨y, -, hyx⟩ := TransGen.tail'_iff.mp htx
    exact mt List.length_eq_zero_iff.mp (h.nonempty y x hyx)

theorem inOrder_step (hs : InOrder T s) (h : T.Step s t s') : InOrder T s' := by
  have hkeep : ∀ u, T.Through s u → T.Through s' u := fun u => through_reaches (.single ⟨t, h⟩)
  intro x hx u hu
  by_cases hxt : x = t
  · subst hxt
    cases h with
    | act hready _ => exact hkeep u (hready.needs u hu)
  · rw [(done_of_step h).2, Function.update_of_ne hxt] at hx
    exact hkeep u (hs x hx u hu)

/-- **Whatever the order**, each thread is where it should be. -/
theorem reaches (h : T.Outline so Always) {s₀ : σ} (halways : Always s₀) (hso : ∀ t, so t 0 s₀)
    (hs : T.Reaches (At.start τ s₀) s) :
    InOrder T s ∧ Always s.state ∧ ∀ t, so t (s.done t) s.state := by
  induction hs with
  | refl => exact ⟨fun t ht => absurd rfl ht, halways, hso⟩
  | @tail s s' _ hstep ih =>
    obtain ⟨horder, halways, hso⟩ := ih
    obtain ⟨t, hstep⟩ := hstep
    refine ⟨inOrder_step horder hstep, ?_⟩
    cases hstep with
    | @act a state hready happly =>
      have habove : ∀ u, TransGen T.needs t u → so u (T.program u).length s.state := by
        intro u hu
        rw [← show s.done u = _ from h.through_of_leads horder hready.needs hu]
        exact hso u
      obtain ⟨state', happly', halways', hown, hothers⟩ :=
        h.acts t _ a s.state hready.next halways (hso t) habove
      cases happly.symm.trans happly'
      refine ⟨halways', fun x => ?_⟩
      by_cases hx : x = t
      · subst hx
        show so x (Function.update s.done x (s.done x + 1) x) state
        rw [Function.update_self]
        exact hown
      · show so x (Function.update s.done t (s.done t + 1) x) state
        rw [Function.update_of_ne hx]
        exact hothers x hx _ (hso x)

/-- What is so when a thread may go on: for the thread, and for all that it needs. -/
theorem ready (h : T.Outline so Always) {s₀ : σ} (halways : Always s₀) (hso : ∀ t, so t 0 s₀)
    (hs : T.Reaches (At.start τ s₀) s) (hready : T.Ready s t a) :
    Always s.state ∧ so t (s.done t) s.state ∧
      ∀ u, TransGen T.needs t u → so u (T.program u).length s.state := by
  obtain ⟨horder, halways, hso⟩ := h.reaches halways hso hs
  refine ⟨halways, hso t, fun u hu => ?_⟩
  rw [← show s.done u = _ from h.through_of_leads horder hready.needs hu]
  exact hso u

/-- **No action fails.** -/
theorem progress (h : T.Outline so Always) {s₀ : σ} (halways : Always s₀) (hso : ∀ t, so t 0 s₀)
    (hs : T.Reaches (At.start τ s₀) s) (hready : T.Ready s t a) : ∃ s', T.Step s t s' := by
  obtain ⟨halways, hown, habove⟩ := h.ready halways hso hs hready
  obtain ⟨state, happly, -⟩ := h.acts t _ a s.state hready.next halways hown habove
  exact ⟨_, .act hready happly⟩

/-- A thread that has what it needs can be brought to its end. -/
theorem goes_on (h : T.Outline so Always) {s₀ : σ} (halways : Always s₀) (hso : ∀ t, so t 0 s₀)
    (hs : T.Reaches (At.start τ s₀) s) (hneeds : ∀ u, T.needs t u → T.Through s u) :
    ∃ s', T.Reaches s s' ∧ T.Through s' t := by
  obtain ⟨k, hk⟩ := Nat.exists_eq_add_of_le (done_le hs t)
  induction k generalizing s with
  | zero => exact ⟨s, .refl, hk.symm⟩
  | succ k ih =>
    have hlt : s.done t < (T.program t).length := by omega
    have hnext : (T.program t)[s.done t]? = some (T.program t)[s.done t] :=
      List.getElem?_eq_getElem hlt
    obtain ⟨s', hstep⟩ := h.progress halways hso hs ⟨hnext, hneeds⟩
    have hs' : T.Reaches s s' := .single ⟨t, hstep⟩
    have hdone : s'.done t = s.done t + 1 := by
      rw [(done_of_step hstep).2, Function.update_self]
    obtain ⟨s'', hs'', hthrough⟩ := ih (hs.trans hs') (fun u hu => through_reaches hs' (hneeds u hu))
      (by omega)
    exact ⟨s'', hs'.trans hs'', hthrough⟩

theorem through_all {P : τ → Prop} {s₀ : σ} (hs : T.Reaches (At.start τ s₀) s) (l : List τ)
    (h : ∀ t, P t → ∀ s, T.Reaches (At.start τ s₀) s → ∃ s', T.Reaches s s' ∧ T.Through s' t) :
    ∃ s', T.Reaches s s' ∧ ∀ t ∈ l, P t → T.Through s' t := by
  induction l with
  | nil => exact ⟨s, .refl, fun t ht => (by cases ht)⟩
  | cons x l ih =>
    obtain ⟨s', hs', hl⟩ := ih
    by_cases hx : P x
    · obtain ⟨s'', hs'', hthrough⟩ := h x hx s' (hs.trans hs')
      refine ⟨s'', hs'.trans hs'', fun t ht hpt => ?_⟩
      rcases List.mem_cons.mp ht with rfl | ht
      · exact hthrough
      · exact through_reaches hs'' (hl t ht hpt)
    · refine ⟨s', hs', fun t ht hpt => ?_⟩
      rcases List.mem_cons.mp ht with rfl | ht
      · exact absurd hpt hx
      · exact hl t ht hpt

/-- **All the threads of `l` get through**, from wherever they have come to. -/
theorem exists_through (h : T.Outline so Always) {s₀ : σ} (halways : Always s₀)
    (hso : ∀ t, so t 0 s₀) (hfinite : ∀ t, ∃ l : List τ, ∀ u, T.needs t u → u ∈ l)
    (hends : ∀ t, Acc (fun u t => T.needs t u) t) (hs : T.Reaches (At.start τ s₀) s) (l : List τ) :
    ∃ s', T.Reaches s s' ∧ ∀ t ∈ l, T.Through s' t := by
  have hone : ∀ t s, T.Reaches (At.start τ s₀) s → ∃ s', T.Reaches s s' ∧ T.Through s' t := by
    intro t
    induction hends t with
    | intro t _ ih =>
      intro s hs
      obtain ⟨needed, hneeded⟩ := hfinite t
      obtain ⟨s', hs', hthrough⟩ := through_all (T := T) (P := T.needs t) hs needed ih
      obtain ⟨s'', hs'', ht⟩ := h.goes_on halways hso (hs.trans hs') fun u hu =>
        hthrough u (hneeded u hu) hu
      exact ⟨s'', hs'.trans hs'', ht⟩
  obtain ⟨s', hs', hthrough⟩ := through_all (T := T) (P := fun _ => True) hs l fun t _ => hone t
  exact ⟨s', hs', fun t ht => hthrough t ht trivial⟩

end Outline

/-! ### The same programs on another state -/

/-- The programs, with other actions. -/
def on {ρ : Type*} (T : Threads τ α σ) (apply : τ → α → ρ → Option ρ) : Threads τ α ρ :=
  ⟨T.program, apply, T.needs⟩

/-- What is seen of it. -/
def At.map {ρ : Type*} (u : At τ ρ) (view : ρ → σ) : At τ σ := ⟨view u.state, u.done⟩

/-- From `u₀` on, what may be done, can be done, and is done to the other state as well. -/
structure Shown {ρ : Type*} (T : Threads τ α σ) (apply : τ → α → ρ → Option ρ) (view : ρ → σ)
    (u₀ : ρ) : Prop where
  progress : ∀ s t a, T.Reaches (At.start τ (view u₀)) s → T.Ready s t a → ∃ s', T.Step s t s'
  acts : ∀ u t a state, (T.on apply).Reaches (At.start τ u₀) u →
    T.Reaches (At.start τ (view u₀)) (u.map view) → T.Ready (u.map view) t a →
    T.apply t a (view u.state) = some state →
    ∃ state', apply t a u.state = some state' ∧ view state' = state

namespace Shown

variable {ρ : Type*} {T} {apply : τ → α → ρ → Option ρ} {view : ρ → σ} {u₀ : ρ} {u u' : At τ ρ}
  {s : At τ σ} {t : τ} {a : α}

omit [DecidableEq τ] in
theorem ready_iff : (T.on apply).Ready u t a ↔ T.Ready (u.map view) t a :=
  ⟨fun h => ⟨h.next, h.needs⟩, fun h => ⟨h.next, h.needs⟩⟩

/-- **What is seen are the threads.** -/
theorem reaches (h : T.Shown apply view u₀) (hu : (T.on apply).Reaches (At.start τ u₀) u) :
    T.Reaches (At.start τ (view u₀)) (u.map view) := by
  induction hu with
  | refl => exact .refl
  | @tail u u' hu hstep ih =>
    obtain ⟨t, hstep⟩ := hstep
    cases hstep with
    | @act a state hready happly =>
      have hready' : T.Ready (u.map view) t a := ready_iff.mp hready
      obtain ⟨s', hs'⟩ := h.progress _ t a ih hready'
      cases hs' with
      | @act a' seen hnext hseen =>
        obtain rfl : a = a' := Option.some.inj (hready'.next.symm.trans hnext.next)
        obtain ⟨state', happly', rfl⟩ := h.acts u t a seen hu ih hready' hseen
        cases happly.symm.trans happly'
        exact ih.tail ⟨t, .act hready' hseen⟩

/-- What is seen can be done. -/
theorem exists_step (h : T.Shown apply view u₀) (hu : (T.on apply).Reaches (At.start τ u₀) u)
    (hstep : T.Step (u.map view) t s) : ∃ u', (T.on apply).Step u t u' ∧ u'.map view = s := by
  cases hstep with
  | @act a state hready hseen =>
    obtain ⟨state', happly, rfl⟩ := h.acts u t a state hu (h.reaches hu) hready hseen
    exact ⟨_, .act (ready_iff.mpr hready) happly, rfl⟩

/-- **Wherever the threads can get**, the others can. -/
theorem lift (h : T.Shown apply view u₀) (hu : (T.on apply).Reaches (At.start τ u₀) u)
    (hs : T.Reaches (u.map view) s) : ∃ u', (T.on apply).Reaches u u' ∧ u'.map view = s := by
  induction hs with
  | refl => exact ⟨u, .refl, rfl⟩
  | tail _ hstep ih =>
    obtain ⟨u', hu', rfl⟩ := ih
    obtain ⟨t, hstep⟩ := hstep
    obtain ⟨u'', hu'', rfl⟩ := h.exists_step (hu.trans hu') hstep
    exact ⟨u'', hu'.tail ⟨t, hu''⟩, rfl⟩

end Shown

end Threads

end Nonsense
