/-!
# Stateful computations that may throw

`EStateM ε σ` keeps the state when it throws.  The lemmas here take a computation
that did not throw apart, one step at a time, and say of a loop that threw how far it
came (`forM_eq_error_iff`).

`Respects f P x` is that `x` takes no notice of what `f` does to the state.
-/

namespace Nonsense

namespace EState

variable {ε σ α β : Type} {s t : σ} {a a' : α} {b : β}

theorem bind_of_ok {x : EStateM ε σ α} {f : α → EStateM ε σ β} (h : x s = .ok a t) :
    (x >>= f) s = f a t := by
  show EStateM.bind x f s = _
  rw [EStateM.bind, h]

theorem bind_of_error {x : EStateM ε σ α} {f : α → EStateM ε σ β} {e : ε}
    (h : x s = .error e t) : (x >>= f) s = .error e t := by
  show EStateM.bind x f s = _
  rw [EStateM.bind, h]

/-- **A sequence that returns went through both parts.** -/
theorem bind_eq_ok_iff {x : EStateM ε σ α} {f : α → EStateM ε σ β} :
    (x >>= f) s = .ok b t ↔ ∃ a s', x s = .ok a s' ∧ f a s' = .ok b t := by
  show EStateM.bind x f s = _ ↔ _
  unfold EStateM.bind
  cases h : x s with
  | ok a s' =>
    constructor
    · intro hf
      exact ⟨a, s', rfl, hf⟩
    · rintro ⟨a', s'', he, hf⟩
      cases he
      exact hf
  | error e s' => simp

/-- The same without a state. -/
theorem except_bind_eq_ok_iff {x : Except ε α} {f : α → Except ε β} :
    (x >>= f) = .ok b ↔ ∃ a, x = .ok a ∧ f a = .ok b := by
  cases x with
  | error e =>
    refine iff_of_false (fun h => by cases h) ?_
    rintro ⟨_, h, -⟩
    cases h
  | ok a =>
    constructor
    · intro h
      exact ⟨a, rfl, h⟩
    · rintro ⟨_, h, hf⟩
      cases h
      exact hf

/-- What is done with a value that is there. -/
theorem toOption_bind_eq_some_iff {x : Except ε α} {f : α → Option β} :
    x.toOption.bind f = some b ↔ ∃ a, x = .ok a ∧ f a = some b := by
  cases x with
  | error e => simp [Except.toOption]
  | ok a => simp [Except.toOption]

/-! ### Running the basic computations -/

theorem pure_apply : (pure a : EStateM ε σ α) s = .ok a s := rfl

theorem throw_apply {e : ε} : (throw e : EStateM ε σ α) s = .error e s := rfl

theorem get_bind_apply {f : σ → EStateM ε σ β} : (get >>= f) s = f s s := rfl

theorem pure_eq_ok_iff : (pure a : EStateM ε σ α) s = .ok a' t ↔ a = a' ∧ s = t := by
  rw [pure_apply, EStateM.Result.ok.injEq]

theorem throw_ne_ok {e : ε} : (throw e : EStateM ε σ α) s ≠ .ok a t := by
  rw [throw_apply]
  intro h
  cases h

theorem bind_eq_error_iff {x : EStateM ε σ α} {f : α → EStateM ε σ β} {e : ε} :
    (x >>= f) s = .error e t ↔
      x s = .error e t ∨ ∃ a s', x s = .ok a s' ∧ f a s' = .error e t := by
  show EStateM.bind x f s = _ ↔ _
  unfold EStateM.bind
  cases x s with
  | error e' s' => simp
  | ok a s' =>
    constructor
    · exact fun h => Or.inr ⟨a, s', rfl, h⟩
    · rintro (h | ⟨_, _, h, hf⟩)
      · cases h
      · cases h
        exact hf

/-! ### Loops -/

section Loop

variable {γ : Type} {f : γ → EStateM ε σ Unit} {l l' : List γ} {x : γ} {e : ε}

theorem forM_cons : (x :: l).forM f = (f x >>= fun _ => l.forM f) := rfl

theorem forM_append_eq_ok_iff : (l ++ l').forM f s = .ok () t ↔
    ∃ s', l.forM f s = .ok () s' ∧ l'.forM f s' = .ok () t := by
  induction l generalizing s with
  | nil =>
    constructor
    · exact fun h => ⟨s, rfl, h⟩
    · rintro ⟨s', h, h'⟩
      cases h
      exact h'
  | cons x l ih =>
    simp only [List.cons_append, forM_cons, bind_eq_ok_iff, ih]
    constructor
    · rintro ⟨a, s₁, hx, s', hl, h⟩
      exact ⟨s', ⟨a, s₁, hx, hl⟩, h⟩
    · rintro ⟨s', ⟨a, s₁, hx, hl⟩, h⟩
      exact ⟨a, s₁, hx, s', hl, h⟩

/-- **A loop that throws has come through what is in front of the element that throws.** -/
theorem forM_eq_error_iff : l.forM f s = .error e t ↔
    ∃ before x after s', l = before ++ x :: after ∧ before.forM f s = .ok () s' ∧
      f x s' = .error e t := by
  induction l generalizing s with
  | nil =>
    refine iff_of_false (fun h => by cases h) ?_
    rintro ⟨before, x, after, s', h, -⟩
    simp at h
  | cons x l ih =>
    rw [forM_cons, bind_eq_error_iff]
    constructor
    · rintro (hx | ⟨⟨⟩, s₁, hx, hl⟩)
      · exact ⟨[], x, l, s, rfl, rfl, hx⟩
      · obtain ⟨before, y, after, s', rfl, hb, hy⟩ := ih.mp hl
        exact ⟨x :: before, y, after, s', rfl, bind_eq_ok_iff.mpr ⟨(), s₁, hx, hb⟩, hy⟩
    · rintro ⟨before, y, after, s', hl, hb, hy⟩
      cases before with
      | nil =>
        cases hl
        cases hb
        exact Or.inl hy
      | cons z before =>
        cases hl
        obtain ⟨⟨⟩, s₁, hz, hb⟩ := bind_eq_ok_iff.mp hb
        exact Or.inr ⟨(), s₁, hz, ih.mpr ⟨before, y, after, s', rfl, hb, hy⟩⟩

end Loop

/-! ### What takes no notice of a change -/

section Respects

variable {f : σ → σ} {P : σ → Prop} {x : EStateM ε σ α} {g : α → EStateM ε σ β}

/-- The result with the state changed. -/
def mapState (f : σ → σ) : EStateM.Result ε σ α → EStateM.Result ε σ α
  | .ok a s => .ok a (f s)
  | .error e s => .error e (f s)

/-- From `f s` on `x` does what it does from `s` on, wherever `P` holds, and it keeps `P`. -/
def Respects (f : σ → σ) (P : σ → Prop) (x : EStateM ε σ α) : Prop :=
  ∀ s, P s → x (f s) = mapState f (x s) ∧ ∀ a t, x s = .ok a t → P t

theorem respects_pure (a : α) : Respects f P (pure a : EStateM ε σ α) := by
  intro s hs
  refine ⟨rfl, fun a' t h => ?_⟩
  cases h
  exact hs

theorem respects_throw (e : ε) : Respects f P (throw e : EStateM ε σ α) :=
  fun _ _ => ⟨rfl, fun _ _ h => absurd h throw_ne_ok⟩

/-- **A sequence takes no notice if no part does.** -/
theorem Respects.bind (hx : Respects f P x) (hg : ∀ a, Respects f P (g a)) :
    Respects f P (x >>= g) := by
  intro s hs
  obtain ⟨hrun, hkeep⟩ := hx s hs
  cases h : x s with
  | error e t =>
    rw [h] at hrun
    rw [bind_of_error hrun, bind_of_error h]
    exact ⟨rfl, fun _ _ hc => by cases hc⟩
  | ok a t =>
    rw [h] at hrun
    rw [bind_of_ok hrun, bind_of_ok h]
    exact hg a t (hkeep a t h)

theorem respects_forM {γ : Type} {l : List γ} {g : γ → EStateM ε σ Unit}
    (h : ∀ x ∈ l, Respects f P (g x)) : Respects f P (l.forM g) := by
  induction l with
  | nil => exact respects_pure ()
  | cons x l ih =>
    rw [forM_cons]
    exact (h x List.mem_cons_self).bind fun _ => ih fun y hy => h y (List.mem_cons_of_mem x hy)

end Respects

end EState

end Nonsense
