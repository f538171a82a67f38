import Mathlib.Logic.Relation
import Mathlib.Data.Set.Basic
import Mathlib.Data.List.Perm.Subperm

/-!
# Following a partial function

`next : α → Option α` says where one goes from a point, if anywhere.  `Ends next a`
says that following it from `a` comes to a point from where one goes nowhere, and
`Acyclic next` says so of every point.

`acyclic_extend` adds one point to the domain: nothing went there before, so what
was acyclic stays so unless the new point goes to itself.  `Acyclic.no_closed` is
the form deadlock freedom uses: no nonempty set of points each leads to another
of the same set.

`Trail next a l` says that `l` are the points one passes from `a` on, to the last.
They are all different (`Trail.nodup`), so where there are finitely many there is a
bound on how many are passed (`Trail.length_le`), and `passed` finds them.
-/

namespace Nonsense

variable {α : Type*} {next next' : α → Option α}

/-- Following `next` from a point comes to an end. -/
inductive Ends (next : α → Option α) : α → Prop
  | stop {a : α} : next a = none → Ends next a
  | step {a b : α} : next a = some b → Ends next b → Ends next a

/-- Following `next` comes to an end from every point. -/
def Acyclic (next : α → Option α) : Prop := ∀ a, Ends next a

/-- `b` is where one gets from `a` in one step or more. -/
def Leads (next : α → Option α) : α → α → Prop :=
  Relation.TransGen fun a b => next a = some b

/-- Where one gets from a point in `n` steps. -/
def ascend (next : α → Option α) : ℕ → α → Option α
  | 0, a => some a
  | n + 1, a => (next a).bind (ascend next n)

/-- Where there are no `n` steps there is an end. -/
theorem ends_of_ascend {n : ℕ} {a : α} (h : ascend next n a = none) : Ends next a := by
  induction n generalizing a with
  | zero => cases h
  | succ n ih =>
    cases hs : next a with
    | none => exact .stop hs
    | some b =>
      rw [ascend, hs, Option.bind_some] at h
      exact .step hs (ih h)

/-- Where there is an end, one can do induction from it. -/
theorem Ends.acc {a : α} (h : Ends next a) :
    Acc (fun b a => next a = some b) a := by
  induction h with
  | stop hn => exact ⟨_, fun b hb => by rw [hn] at hb; cases hb⟩
  | step hs _ ih => exact ⟨_, fun c hc => by rw [hs] at hc; cases hc; exact ih⟩

/-- Going to fewer places, one comes to an end sooner. -/
theorem Ends.mono {a : α} (hle : ∀ a b, next a = some b → next' a = some b) (h : Ends next' a) :
    Ends next a := by
  induction h with
  | @stop a hn =>
    apply Ends.stop
    cases ha : next a with
    | none => rfl
    | some b => rw [hle a b ha] at hn; cases hn
  | @step a b hs _ ih =>
    cases ha : next a with
    | none => exact .stop ha
    | some c =>
      have hc := hle a c ha
      rw [hs] at hc
      cases hc
      exact .step ha ih

theorem Acyclic.mono (hle : ∀ a b, next a = some b → next' a = some b) (h : Acyclic next') :
    Acyclic next := fun a => (h a).mono hle

/-- From a point that goes to itself there is no end. -/
theorem not_ends_of_self {a : α} (ha : next a = some a) : ¬ Ends next a := by
  intro h
  induction h with
  | stop hn => rw [hn] at ha; cases ha
  | step hs hb ih =>
    rw [hs] at ha
    cases ha
    exact ih hs

/-- **Adding one point.**  `next'` is `next` and goes somewhere from `x` too, where
nothing of `next` went. -/
theorem acyclic_extend {x : α} (hne : ∀ a, a ≠ x → next' a = next a)
    (hx : ∀ a, next a ≠ some x) (hxx : next' x ≠ some x) (h : Acyclic next) : Acyclic next' := by
  have hold : ∀ a, Ends next a → a ≠ x → Ends next' a := by
    intro a ha
    induction ha with
    | stop hn => exact fun hax => .stop ((hne _ hax).trans hn)
    | @step a b hs _ ih =>
      intro hax
      exact .step ((hne _ hax).trans hs) (ih fun hb => hx a (hb ▸ hs))
  intro a
  by_cases hax : a = x
  · subst hax
    cases ha : next' a with
    | none => exact .stop ha
    | some b =>
      have hb : b ≠ a := fun hb => hxx (hb ▸ ha)
      exact .step ha (hold b (h b) hb)
  · exact hold a (h a) hax

theorem acyclic_extend_iff {x : α} (hne : ∀ a, a ≠ x → next' a = next a)
    (hx : ∀ a, next a ≠ some x) (hxn : next x = none) :
    Acyclic next' ↔ Acyclic next ∧ next' x ≠ some x := by
  constructor
  · intro h
    refine ⟨h.mono ?_, fun hxx => not_ends_of_self hxx (h x)⟩
    intro a b hab
    by_cases hax : a = x
    · rw [hax, hxn] at hab
      cases hab
    · exact (hne a hax).trans hab
  · rintro ⟨h, hxx⟩
    exact acyclic_extend hne hx hxx h

/-- **No nonempty set is closed** in the sense that each of its points leads to
another of its points. -/
theorem Acyclic.no_closed (h : Acyclic next) (S : Set α) (hS : S.Nonempty) :
    ¬ ∀ a ∈ S, ∃ b ∈ S, Leads next a b := by
  intro hcl
  have key : ∀ a, Ends next a → ∀ b, Relation.ReflTransGen (fun a b => next a = some b) a b →
      b ∉ S := by
    intro a ha
    induction ha with
    | @stop a hn =>
      intro b hab hb
      obtain ⟨c, -, hbc⟩ := hcl b hb
      have hac : Leads next a c := Relation.TransGen.trans_right hab hbc
      obtain ⟨d, hd, -⟩ := Relation.TransGen.head'_iff.mp hac
      rw [hn] at hd
      cases hd
    | @step a b hs _ ih =>
      intro c hac hc
      obtain ⟨d, hd, hcd⟩ := hcl c hc
      have had : Leads next a d := Relation.TransGen.trans_right hac hcd
      obtain ⟨b', hb', hbd⟩ := Relation.TransGen.head'_iff.mp had
      rw [hs] at hb'
      cases hb'
      exact ih d hbd hd
  obtain ⟨a, ha⟩ := hS
  exact key a (h a) a .refl ha

/-- No point leads to itself. -/
theorem Acyclic.not_leads (h : Acyclic next) {a : α} : ¬ Leads next a a := by
  intro ha
  refine h.no_closed {a} ⟨a, rfl⟩ ?_
  rintro b rfl
  exact ⟨b, rfl, ha⟩

/-- All ways go over the next point. -/
theorem Leads.eq_or_leads {a b c : α} (h : Leads next a c) (hab : next a = some b) :
    c = b ∨ Leads next b c := by
  obtain ⟨b', hab', hbc⟩ := Relation.TransGen.head'_iff.mp h
  rw [hab] at hab'
  cases hab'
  exact Relation.reflTransGen_iff_eq_or_transGen.mp hbc

/-! ### The points that are passed -/

/-- `l` are the points from `a` on, to one that goes nowhere. -/
inductive Trail (next : α → Option α) : α → List α → Prop
  | stop {a : α} : next a = none → Trail next a [a]
  | step {a b : α} {l : List α} : next a = some b → Trail next b l → Trail next a (a :: l)

theorem Trail.unique {a : α} {l l' : List α} (h : Trail next a l) (h' : Trail next a l') :
    l = l' := by
  induction h generalizing l' with
  | stop hn =>
    cases h' with
    | stop _ => rfl
    | step hs _ => rw [hn] at hs; cases hs
  | step hs _ ih =>
    cases h' with
    | stop hn => rw [hn] at hs; cases hs
    | step hs' h' =>
      rw [hs] at hs'
      cases hs'
      rw [ih h']

/-- From a point that is passed there is a trail as well, and no longer one. -/
theorem Trail.of_mem {a x : α} {l : List α} (h : Trail next a l) (hx : x ∈ l) :
    ∃ l', Trail next x l' ∧ l'.length ≤ l.length := by
  induction h with
  | stop hn =>
    rw [List.mem_singleton.mp hx]
    exact ⟨_, .stop hn, le_rfl⟩
  | step hs hl ih =>
    rcases List.mem_cons.mp hx with rfl | hx
    · exact ⟨_, .step hs hl, le_rfl⟩
    · obtain ⟨l', hl', hle⟩ := ih hx
      exact ⟨l', hl', hle.trans (by simp)⟩

/-- **No point is passed twice.** -/
theorem Trail.nodup {a : α} {l : List α} (h : Trail next a l) : l.Nodup := by
  induction h with
  | stop _ => simp
  | @step a b l hs hl ih =>
    refine List.nodup_cons.mpr ⟨?_, ih⟩
    intro ha
    -- the trail from `a` would be a shorter one
    obtain ⟨l', hl', hle⟩ := hl.of_mem ha
    rw [← (Trail.step hs hl).unique hl', List.length_cons] at hle
    omega

theorem Ends.exists_trail {a : α} (h : Ends next a) : ∃ l, Trail next a l := by
  induction h with
  | stop hn => exact ⟨_, .stop hn⟩
  | step hs _ ih =>
    obtain ⟨l, hl⟩ := ih
    exact ⟨_, .step hs hl⟩

/-- All but the last go somewhere. -/
theorem Trail.isSome_of_mem_dropLast {a x : α} {l : List α} (h : Trail next a l)
    (hx : x ∈ l.dropLast) : (next x).isSome := by
  induction h with
  | stop _ => cases hx
  | @step a b l hs hl ih =>
    have hne : l ≠ [] := by cases hl <;> simp
    rw [List.dropLast_cons_of_ne_nil hne] at hx
    rcases List.mem_cons.mp hx with rfl | hx
    · rw [hs]
      rfl
    · exact ih hx

/-- Where only what is in `domain` goes anywhere, no more than that and one are passed. -/
theorem Trail.length_le {a : α} {l domain : List α} (h : Trail next a l)
    (hdomain : ∀ x, (next x).isSome → x ∈ domain) : l.length ≤ domain.length + 1 := by
  have hsub : l.dropLast ⊆ domain := fun x hx => hdomain x (h.isSome_of_mem_dropLast hx)
  have hnodup : l.dropLast.Nodup := h.nodup.sublist (List.dropLast_sublist l)
  have hle := (List.subperm_of_subset hnodup hsub).length_le
  rw [List.length_dropLast] at hle
  omega

/-- The points from `a` on, `n` steps at most. -/
def passed (next : α → Option α) : ℕ → α → List α
  | 0, a => [a]
  | n + 1, a =>
    match next a with
    | none => [a]
    | some b => a :: passed next n b

theorem Trail.passed_eq {a : α} {l : List α} {n : ℕ} (h : Trail next a l) (hn : l.length ≤ n + 1) :
    passed next n a = l := by
  induction h generalizing n with
  | stop hstop => cases n <;> simp [passed, hstop]
  | @step a b l hs hl ih =>
    have hpos : 0 < l.length := by cases hl <;> simp
    rw [List.length_cons] at hn
    obtain ⟨n, rfl⟩ := Nat.exists_eq_succ_of_ne_zero (by omega : n ≠ 0)
    rw [passed, hs]
    exact congrArg (a :: ·) (ih (by omega))

end Nonsense
