import Mathlib.Data.List.Nodup

/-!
# One-shot waiters

Waiters are numbered in the order in which they are registered, and each is resumed at
most once.  The history of a registry is who was registered, each with what it waits
for, and which numbers were resumed.  `waiting` are those that are still registered, the
one that has waited longest first.
-/

namespace Nonsense

/-- Who was registered, and the numbers that were resumed. -/
structure OneShot (β : Type*) where
  registered : List β
  resumed : List Nat
  deriving DecidableEq

namespace OneShot

variable {β : Type*} {h : OneShot β} {p : β → Bool} {w : β × Nat}

def empty : OneShot β := ⟨[], []⟩

def register (h : OneShot β) (bs : List β) : OneShot β :=
  { h with registered := h.registered ++ bs }

def resume (h : OneShot β) (n : Nat) : OneShot β := { h with resumed := h.resumed ++ [n] }

/-- The waiters that were not resumed, in the order of their registration. -/
def waiting (h : OneShot β) : List (β × Nat) :=
  h.registered.zipIdx.filter fun w => w.2 ∉ h.resumed

/-- The earliest waiter not yet resumed for which `p` holds. -/
def first (h : OneShot β) (p : β → Bool) : Option (β × Nat) := h.waiting.find? fun w => p w.1

/-- Only who was registered was resumed, and once. -/
structure Valid (h : OneShot β) : Prop where
  lt : ∀ n ∈ h.resumed, n < h.registered.length
  nodup : h.resumed.Nodup

theorem valid_empty : (empty : OneShot β).Valid := ⟨by simp [empty], List.nodup_nil⟩

theorem Valid.register (hv : h.Valid) (bs : List β) : (h.register bs).Valid where
  lt n hn := by
    have hlt : n < h.registered.length := hv.lt n hn
    rw [OneShot.register, List.length_append]
    omega
  nodup := hv.nodup

theorem mem_waiting : w ∈ h.waiting ↔ h.registered[w.2]? = some w.1 ∧ w.2 ∉ h.resumed := by
  rw [waiting, List.mem_filter, List.mem_zipIdx_iff_getElem?, decide_eq_true_iff]

theorem Valid.resume (hv : h.Valid) (hw : w ∈ h.waiting) : (h.resume w.2).Valid where
  lt n hn := by
    rcases List.mem_append.mp hn with hn | hn
    · exact hv.lt n hn
    · rw [List.mem_singleton.mp hn]
      exact (List.getElem?_eq_some_iff.mp (mem_waiting.mp hw).1).1
  nodup := by
    rw [OneShot.resume, List.nodup_append]
    refine ⟨hv.nodup, List.nodup_singleton _, ?_⟩
    rintro n hn m hm rfl
    exact (mem_waiting.mp hw).2 (List.mem_singleton.mp hm ▸ hn)

/-- The numbers of the waiters go up. -/
theorem pairwise_waiting (h : OneShot β) : h.waiting.Pairwise fun v w => v.2 < w.2 := by
  refine List.Pairwise.filter _ ?_
  have hsnd : (h.registered.zipIdx.map Prod.snd).Pairwise (· < ·) := by
    rw [List.zipIdx_map_snd]
    exact List.pairwise_lt_range'
  exact List.pairwise_map.mp hsnd

theorem waiting_register (hv : h.Valid) (bs : List β) :
    (h.register bs).waiting = h.waiting ++ bs.zipIdx h.registered.length := by
  rw [waiting, register, List.zipIdx_append, List.filter_append, Nat.zero_add]
  refine congrArg (h.waiting ++ ·) (List.filter_eq_self.mpr fun w hw => ?_)
  rw [decide_eq_true_iff]
  intro hmem
  have hle : h.registered.length ≤ w.2 := (List.mem_zipIdx hw).1
  exact Nat.not_lt.mpr hle (hv.lt w.2 hmem)

theorem waiting_resume (h : OneShot β) (n : Nat) :
    (h.resume n).waiting = h.waiting.filter fun w => w.2 ≠ n := by
  rw [waiting, waiting, List.filter_filter]
  refine List.filter_congr fun w _ => ?_
  simp only [resume, List.mem_append, List.mem_singleton, not_or]
  rw [Bool.decide_and, Bool.and_comm]

/-- Taking a waiter out leaves the others in place. -/
theorem waiting_resume_of_append {before after : List (β × Nat)}
    (hwaiting : h.waiting = before ++ w :: after) : (h.resume w.2).waiting = before ++ after := by
  obtain ⟨-, hafter, hlt⟩ := List.pairwise_append.mp (hwaiting ▸ h.pairwise_waiting)
  rw [waiting_resume, hwaiting, List.filter_append, List.filter_cons_of_neg (by simp),
    List.filter_eq_self.mpr, List.filter_eq_self.mpr]
  · intro v hv
    exact decide_eq_true (Nat.ne_of_gt ((List.pairwise_cons.mp hafter).1 v hv))
  · intro v hv
    exact decide_eq_true (Nat.ne_of_lt (hlt v hv w List.mem_cons_self))

theorem first_of_append {before after : List (β × Nat)} (hwaiting : h.waiting = before ++ w :: after)
    (hbefore : ∀ v ∈ before, ¬ p v.1) (hw : p w.1) : h.first p = some w := by
  rw [first, List.find?_eq_some_iff_append]
  exact ⟨hw, before, after, hwaiting, fun v hv => by simpa using hbefore v hv⟩

theorem first_eq_none (hp : ∀ w ∈ h.waiting, ¬ p w.1) : h.first p = none :=
  List.find?_eq_none.mpr hp

end OneShot

end Nonsense
