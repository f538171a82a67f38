import Mathlib.Logic.Relation
import Mathlib.Tactic.SplitIfs

/-!
# Partial step machines

A `Machine` is a partial function `step` from a state and an input to the next
state: `none` says the input is not possible there.  A run is a list of inputs.
Nothing here knows what the states or the inputs are.

`Reaches C` is reachability by steps that all meet a condition `C` on the state
before the step and the input; `Always` is the condition every step meets.  The
rule the whole development uses is `Reaches.invariant`: what the start has and
every admitted step keeps, every reached state has.

`Simulation` relates two machines: a step of the first is matched by finitely
many steps of the second.  `Simulation.reaches` lifts it to runs, so that an
invariant of the second machine is one of the first.
-/

namespace Nonsense

/-- A machine with states `σ` and inputs `ι`. -/
structure Machine (σ ι : Type*) where
  step : σ → ι → Option σ

namespace Machine

variable {σ ι τ κ : Type*} {M : Machine σ ι} {N : Machine τ κ}

/-- The state after a list of inputs, if each of them is possible. -/
def run (M : Machine σ ι) : σ → List ι → Option σ
  | s, [] => some s
  | s, i :: is => (M.step s i).bind fun s' => M.run s' is

/-- One step whose state and input meet `C`. -/
def StepWith (M : Machine σ ι) (C : σ → ι → Prop) (s s' : σ) : Prop :=
  ∃ i, C s i ∧ M.step s i = some s'

/-- Finitely many steps that all meet `C`. -/
def Reaches (M : Machine σ ι) (C : σ → ι → Prop) : σ → σ → Prop :=
  Relation.ReflTransGen (M.StepWith C)

/-- The condition that every step meets. -/
def Always (_ : σ) (_ : ι) : Prop := True

namespace Reaches

variable {C D : σ → ι → Prop} {s t u : σ}

theorem refl (s : σ) : M.Reaches C s s := Relation.ReflTransGen.refl

theorem trans (h : M.Reaches C s t) (g : M.Reaches C t u) : M.Reaches C s u :=
  Relation.ReflTransGen.trans h g

theorem tail {i : ι} (h : M.Reaches C s t) (hC : C t i) (hi : M.step t i = some u) :
    M.Reaches C s u :=
  Relation.ReflTransGen.tail h ⟨i, hC, hi⟩

theorem mono (hCD : ∀ s i, C s i → D s i) (h : M.Reaches C s t) : M.Reaches D s t :=
  Relation.ReflTransGen.mono (fun _ _ ⟨i, hC, hi⟩ => ⟨i, hCD _ i hC, hi⟩) _ _ h

/-- **The invariant rule.** -/
theorem invariant {I : σ → Prop} (h : M.Reaches C s t) (h0 : I s)
    (hstep : ∀ s i s', I s → C s i → M.step s i = some s' → I s') : I t := by
  induction h with
  | refl => exact h0
  | tail _ hb ih =>
    obtain ⟨i, hC, hi⟩ := hb
    exact hstep _ i _ ih hC hi

/-- The invariant rule, with what is already known of the reached states at hand. -/
theorem invariant_of_reaches {I : σ → Prop} (h : M.Reaches C s t) (h0 : I s)
    (hstep : ∀ t i t', M.Reaches C s t → I t → C t i → M.step t i = some t' → I t') : I t := by
  have h' : M.Reaches C s t ∧ I t := by
    refine h.invariant (I := fun t => M.Reaches C s t ∧ I t) ⟨refl s, h0⟩ ?_
    intro t i t' ⟨ht, hI⟩ hC hi
    exact ⟨ht.tail hC hi, hstep t i t' ht hI hC hi⟩
  exact h'.2

end Reaches

theorem run_cons_eq_some {s u : σ} {i : ι} {is : List ι} :
    M.run s (i :: is) = some u ↔ ∃ t, M.step s i = some t ∧ M.run t is = some u := by
  simp [run, Option.bind_eq_some_iff]

theorem run_append {s : σ} {is is' : List ι} :
    M.run s (is ++ is') = (M.run s is).bind fun t => M.run t is' := by
  induction is generalizing s with
  | nil => rfl
  | cons i is ih =>
    rw [List.cons_append, run, run, Option.bind_assoc]
    exact congrArg _ (funext fun t => ih)

theorem run_append_pair {s t t' u : σ} {is : List ι} {i i' : ι} (h : M.run s is = some t)
    (hi : M.step t i = some t') (hi' : M.step t' i' = some u) : M.run s (is ++ [i, i']) = some u := by
  rw [run_append, h, Option.bind_some, run_cons_eq_some]
  exact ⟨t', hi, run_cons_eq_some.mpr ⟨u, hi', rfl⟩⟩

/-- A list of inputs that meet the condition anywhere. -/
theorem reaches_of_run_of_forall {C : σ → ι → Prop} {s t : σ} {is : List ι}
    (h : M.run s is = some t) (hC : ∀ i ∈ is, ∀ s, C s i) : M.Reaches C s t := by
  induction is generalizing s with
  | nil => cases h; exact Reaches.refl _
  | cons i is ih =>
    obtain ⟨s', hi, his⟩ := run_cons_eq_some.mp h
    have hhead : M.Reaches C s s' := (Reaches.refl _).tail (hC i (List.mem_cons_self ..) s) hi
    exact hhead.trans (ih his fun j hj => hC j (List.mem_cons_of_mem _ hj))

/-- A list of inputs that runs is a reachable state. -/
theorem reaches_of_run {s t : σ} {is : List ι} (h : M.run s is = some t) :
    M.Reaches Always s t := reaches_of_run_of_forall h fun _ _ _ => trivial

/-- `run`, for as long as the steps pass a test. -/
def runChecked (M : Machine σ ι) (test : σ → ι → Bool) : σ → List ι → Option σ
  | s, [] => some s
  | s, i :: is => if test s i then (M.step s i).bind fun s' => M.runChecked test s' is else none

theorem reaches_of_runChecked {test : σ → ι → Bool} {s t : σ} {is : List ι}
    (h : M.runChecked test s is = some t) : M.Reaches (fun s i => test s i = true) s t := by
  induction is generalizing s with
  | nil => cases h; exact Reaches.refl _
  | cons i is ih =>
    rw [runChecked] at h
    split_ifs at h with htest
    obtain ⟨s', hi, his⟩ := Option.bind_eq_some_iff.mp h
    have hhead : M.Reaches (fun s i => test s i = true) s s' := (Reaches.refl s).tail htest hi
    exact hhead.trans (ih his)

/-- `R` relates the states of `M` to those of `N`, and every step of `M` that
meets `C` is matched by finitely many steps of `N`. -/
structure Simulation (M : Machine σ ι) (N : Machine τ κ) (C : σ → ι → Prop) (R : σ → τ → Prop) :
    Prop where
  step : ∀ s i s' t, R s t → C s i → M.step s i = some s' →
    ∃ t', N.Reaches Always t t' ∧ R s' t'

theorem Simulation.reaches {C : σ → ι → Prop} {R : σ → τ → Prop} (sim : Simulation M N C R)
    {s s' : σ} {t : τ} (h : M.Reaches C s s') (hR : R s t) :
    ∃ t', N.Reaches Always t t' ∧ R s' t' := by
  refine h.invariant (I := fun s' => ∃ t', N.Reaches Always t t' ∧ R s' t')
    ⟨t, Reaches.refl t, hR⟩ ?_
  rintro a i a' ⟨b, hb, hab⟩ hC hi
  obtain ⟨b', hbb, hab'⟩ := sim.step a i a' b hab hC hi
  exact ⟨b', hb.trans hbb, hab'⟩

end Machine

end Nonsense
