import Nonsense.Lib.Machine
import Mathlib.Algebra.Ring.Nat

/-!
# Machines that come to rest

A `Pays` is a number that every admitted input of a machine has to pay out of: what an
input costs is its `price`, and some may be free.  It bounds how many inputs that are not
free a run can have (`Pays.run_le`).  Where an input that is not free is possible as long
as the machine is not at rest, some run of such inputs brings it to rest
(`Pays.exists_rest`).
-/

namespace Nonsense

namespace Machine

variable {σ ι : Type*}

/-- The admitted inputs keep `I` and pay their prices out of `potential`. -/
structure Pays (M : Machine σ ι) (admitted : ι → Prop) (I : σ → Prop) (potential : σ → ℕ)
    (price : ι → ℕ) : Prop where
  keeps : ∀ s i s', I s → admitted i → M.step s i = some s' → I s'
  pays : ∀ s i s', I s → admitted i → M.step s i = some s' → potential s' + price i ≤ potential s

variable {M : Machine σ ι} {admitted : ι → Prop} {I : σ → Prop} {potential : σ → ℕ} {price : ι → ℕ}
  {s s' : σ} {is : List ι}

theorem Pays.run_keeps (h : M.Pays admitted I potential price) (hs : I s)
    (his : ∀ i ∈ is, admitted i) (hrun : M.run s is = some s') : I s' := by
  induction is generalizing s with
  | nil => cases hrun; exact hs
  | cons i is ih =>
    obtain ⟨t, hi, ht⟩ := run_cons_eq_some.mp hrun
    have hadmitted : admitted i := his i List.mem_cons_self
    exact ih (h.keeps s i t hs hadmitted hi) (fun j hj => his j (List.mem_cons_of_mem _ hj)) ht

/-- **A run costs no more than there was.** -/
theorem Pays.run_le (h : M.Pays admitted I potential price) (hs : I s)
    (his : ∀ i ∈ is, admitted i) (hrun : M.run s is = some s') :
    potential s' + (is.map price).sum ≤ potential s := by
  induction is generalizing s with
  | nil => cases hrun; exact Nat.le_refl _
  | cons i is ih =>
    obtain ⟨t, hi, ht⟩ := run_cons_eq_some.mp hrun
    have hadmitted : admitted i := his i List.mem_cons_self
    have hfirst := h.pays s i t hs hadmitted hi
    have hrest := ih (h.keeps s i t hs hadmitted hi) (fun j hj => his j (List.mem_cons_of_mem _ hj)) ht
    rw [List.map_cons, List.sum_cons]
    omega

/-- **The machine can be brought to rest**, where something that is not free can happen
as long as it is not. -/
theorem Pays.exists_rest (h : M.Pays admitted I potential price) {Rest : σ → Prop}
    (hprogress : ∀ s, I s → ¬ Rest s →
      ∃ i s', admitted i ∧ 0 < price i ∧ M.step s i = some s') (hs : I s) :
    ∃ is s', (∀ i ∈ is, admitted i) ∧ M.run s is = some s' ∧ Rest s' := by
  induction hn : potential s using Nat.strong_induction_on generalizing s with
  | _ n ih =>
    by_cases hrest : Rest s
    · exact ⟨[], s, nofun, rfl, hrest⟩
    · obtain ⟨i, t, hadmitted, hprice, hi⟩ := hprogress s hs hrest
      have hpays := h.pays s i t hs hadmitted hi
      obtain ⟨is, s', his, hrun, hrest'⟩ := ih (potential t) (by omega) (h.keeps s i t hs hadmitted hi) rfl
      refine ⟨i :: is, s', ?_, run_cons_eq_some.mpr ⟨t, hi, hrun⟩, hrest'⟩
      exact List.forall_mem_cons.mpr ⟨hadmitted, his⟩

end Machine

end Nonsense
