import Nonsense.Async.Sound

/-!
# How a coroutine's end is propagated

A coroutine `h` has a `Chain` of ancestors, the last of which serves a message.  When `h`
ends with an error, `return_value` climbs the chain without anything else in between,
the root replies, and then the frames of the chain go, the root's first.  What the
destructors do meanwhile happens on top of what is left of the chain and cannot touch
it: `Apart` is what a step leaves alone, and `Stage` is how far the propagation has come,
in every state that is reached from there.
-/

namespace Nonsense

namespace Coroutines

variable {s s' t t' : Coroutines} {h p c root : Nat} {payload : Payload} {status : Status} {i : Input}
  {stack old new rest below closing nested : List Activity} {a : Activity} {v : Returned}
  {ps order : List Nat} {es past : List Event}

/-! ### What a step leaves alone -/

def Event.coroutine : Event → Nat
  | replied h _ | resumed h | localDestroyed h | destroyed h => h

def Event.isLocal : Event → Bool
  | localDestroyed _ => true
  | _ => false

/-- What a step may touch that takes `old` from the stack. -/
def Concerns (s : Coroutines) (old : List Activity) (c : Nat) : Prop :=
  (∃ a ∈ old, a.coroutine = c) ∨ s.Awake c ∨ c = s.created

structure Apart (s s' : Coroutines) (old new rest : List Activity) (es : List Event) : Prop where
  one : old.length ≤ 1
  stack : s.stack = old ++ rest
  stack' : s'.stack = new ++ rest
  events : s'.events = s.events ++ es
  created : s.created ≤ s'.created
  frames : ∀ c, ¬ s.Concerns old c → s'.frames c = s.frames c
  new : ∀ a ∈ new, s.Concerns old a.coroutine
  concerned : ∀ e ∈ es, s.Concerns old e.coroutine

/-- The steps that change at most one frame, which is of what they concern. -/
theorem apart_of_ne (c : Nat) (hone : old.length ≤ 1) (hstack : s.stack = old ++ rest)
    (hstack' : s'.stack = new ++ rest) (hcreated : s.created ≤ s'.created)
    (hevents : s'.events = s.events ++ es) (hframes : ∀ d, d ≠ c → s'.frames d = s.frames d)
    (hc : s.Concerns old c) (hnew : ∀ a ∈ new, a.coroutine = c) (hes : ∀ e ∈ es, e.coroutine = c) :
    Apart s s' old new rest es where
  one := hone
  stack := hstack
  stack' := hstack'
  events := hevents
  created := hcreated
  frames d hd := hframes d fun heq => hd (heq.symm ▸ hc)
  new a ha := hnew a ha ▸ hc
  concerned e he := hes e he ▸ hc

theorem concerns_top (a : Activity) : s.Concerns [a] a.coroutine :=
  .inl ⟨a, List.mem_singleton_self a, rfl⟩

theorem concerns_created (old : List Activity) : s.Concerns old s.created := .inr (.inr rfl)

theorem concerns_of_awake (hframe : s.frames c = some ⟨payload, status⟩) (hawake : status.Awake) :
    s.Concerns old c := .inr (.inl ⟨payload, status, hframe, hawake⟩)

theorem apart_call : Apart s (s.start payload s.stack) [] [.body s.created] s.stack [] :=
  apart_of_ne s.created (by simp) rfl rfl (Nat.le_succ _) (List.append_nil _).symm
    (fun _ hd => Function.update_of_ne hd ..) (concerns_created []) (by simp [Activity.coroutine])
    (by simp)

theorem apart_wake {source : Source}
    (hframe : s.frames h = some ⟨payload, .suspended (.source source)⟩) :
    Apart s
      { s.setFrame h (some ⟨payload, .running⟩) (.body h :: s.stack) with
        events := s.events ++ [.resumed h] }
      [] [.body h] s.stack [.resumed h] :=
  apart_of_ne h (by simp) rfl rfl (Nat.le_refl _) rfl (fun _ hd => Function.update_of_ne hd ..)
    (concerns_of_awake hframe (awake_source source)) (by simp [Activity.coroutine])
    (by simp [Event.coroutine])

theorem apart_methodError (hframe : s.frames h = some ⟨payload, .suspended (.source .call)⟩) :
    Apart s
      (s.setFrame h (some ⟨payload, .suspended .nobody⟩) (.returnValue h v :: .destroy h :: s.stack))
      [] [.returnValue h v, .destroy h] s.stack [] :=
  apart_of_ne h (by simp) rfl rfl (Nat.le_refl _) (List.append_nil _).symm
    (fun _ hd => frames_setFrame_of_ne hd) (concerns_of_awake hframe (awake_source .call))
    (by simp [Activity.coroutine]) (by simp)

/-- A step takes at most the top of the stack, and touches what it belongs to, what
somebody is going to resume, and what is new. -/
theorem Moves.apart (hm : Moves s i s') : ∃ old new rest es, Apart s s' old new rest es := by
  cases hm with
  | abort | refused _ | goOn _ =>
    exact ⟨[], [], s.stack, [], apart_of_ne s.created (by simp) rfl rfl (Nat.le_refl _)
      (List.append_nil _).symm (fun _ _ => rfl) (concerns_created []) (by simp) (by simp)⟩
  | call hruns => exact ⟨_, _, _, _, apart_call⟩
  | @awaitSubtask h payload stack hstack hframe =>
    refine ⟨[.body h], [.body s.created], stack, [], by simp, hstack, rfl, (List.append_nil _).symm,
      Nat.le_succ _, fun d hd => ?_, ?_, by simp⟩
    · have hh : d ≠ h := by
        rintro rfl
        exact hd (concerns_top (.body d))
      have hcreated : d ≠ s.created := by
        rintro rfl
        exact hd (concerns_created _)
      exact (Function.update_of_ne hcreated ..).trans (Function.update_of_ne hh ..)
    · intro a ha
      rw [List.mem_singleton.mp ha]
      exact concerns_created _
  | @await h payload stack source hstack hframe =>
    exact ⟨[.body h], [], stack, [], apart_of_ne h (by simp) hstack rfl (Nat.le_refl _)
      (List.append_nil _).symm (fun _ hd => frames_setFrame_of_ne hd) (concerns_top (.body h)) (by simp)
      (by simp)⟩
  | wake hruns hframe => exact ⟨_, _, _, _, apart_wake hframe⟩
  | methodError hruns hframe => exact ⟨_, _, _, _, apart_methodError hframe⟩
  | @coReturn h payload stack v hstack hframe =>
    exact ⟨[.body h], [_, _], stack, [], apart_of_ne h (by simp) hstack rfl (Nat.le_refl _)
      (List.append_nil _).symm (fun _ hd => frames_setFrame_of_ne hd) (concerns_top (.body h))
      (by simp [Activity.coroutine]) (by simp)⟩
  | @coYield h payload stack code hcode hstack hframe =>
    exact ⟨[.body h], [_, _], stack, [], apart_of_ne h (by simp) hstack rfl (Nat.le_refl _)
      (List.append_nil _).symm (fun _ hd => frames_setFrame_of_ne hd) (concerns_top (.body h))
      (by simp [Activity.coroutine]) (by simp)⟩
  | @reply h v status stack sent hstack hframe =>
    exact ⟨[.returnValue h v], [], stack, _, apart_of_ne h (by simp) hstack rfl (Nat.le_refl _) rfl
      (fun _ _ => rfl) (concerns_top (.returnValue h v)) (by simp) (by simp [Event.coroutine])⟩
  | @report h p v payload status stack sent hv hstack hframe hp =>
    exact ⟨[.returnValue h v], [_, _], stack, [], apart_of_ne p (by simp) hstack rfl (Nat.le_refl _)
      (List.append_nil _).symm (fun _ hd => frames_setFrame_of_ne hd)
      (concerns_of_awake hp (awake_subtask h)) (by simp [Activity.coroutine]) (by simp)⟩
  | @resumeParent h p payload status stack sent hstack hframe hp =>
    exact ⟨[.returnValue h .unit], [.body p], stack, [.resumed p], apart_of_ne p (by simp) hstack rfl
      (Nat.le_refl _) rfl (fun _ hd => Function.update_of_ne hd ..)
      (concerns_of_awake hp (awake_subtask h)) (by simp [Activity.coroutine])
      (by simp [Event.coroutine])⟩
  | @destroy h payload stack sent hstack hframe =>
    exact ⟨[.destroy h], [.unwind h], stack, [], apart_of_ne h (by simp) hstack rfl (Nat.le_refl _)
      (List.append_nil _).symm (fun _ hd => frames_setFrame_of_ne hd) (concerns_top (.destroy h))
      (by simp [Activity.coroutine]) (by simp)⟩
  | @destroyLocal h stack hstack =>
    exact ⟨[.unwind h], [.unwind h], stack, [.localDestroyed h], apart_of_ne h (by simp) hstack hstack
      (Nat.le_refl _) rfl (fun _ _ => rfl) (concerns_top (.unwind h)) (by simp [Activity.coroutine])
      (by simp [Event.coroutine])⟩
  | @free h payload stack hstack hframe =>
    exact ⟨[.unwind h], [], stack, [.destroyed h], apart_of_ne h (by simp) hstack rfl (Nat.le_refl _) rfl
      (fun _ hd => Function.update_of_ne hd ..) (concerns_top (.unwind h)) (by simp)
      (by simp [Event.coroutine])⟩

/-! ### Chains -/

/-- `h` has the ancestors `ps`, and the last one is `root`, which serves a message. -/
inductive Chain (s : Coroutines) (root : Nat) : Nat → List Nat → Prop
  | root {status : Status} : s.frames root = some ⟨.message, status⟩ → Chain s root root []
  | child {h p : Nat} {ps : List Nat} {status : Status} : s.frames h = some ⟨.handle p, status⟩ →
      Chain s root p ps → Chain s root h (p :: ps)

/-- A chain depends on the payloads. -/
theorem Chain.congr (hchain : s.Chain root h ps)
    (hframes : ∀ c payload status, s.frames c = some ⟨payload, status⟩ →
      ∃ status', s'.frames c = some ⟨payload, status'⟩) : s'.Chain root h ps := by
  induction hchain with
  | root hframe =>
    obtain ⟨status', hframe'⟩ := hframes _ _ _ hframe
    exact .root hframe'
  | child hframe _ ih =>
    obtain ⟨status', hframe'⟩ := hframes _ _ _ hframe
    exact .child hframe' ih

theorem Chain.setFrame (hchain : s.Chain root h ps) (hframe : s.frames c = some ⟨payload, status⟩)
    (status' : Status) (stack : List Activity) :
    (s.setFrame c (some ⟨payload, status'⟩) stack).Chain root h ps := by
  refine hchain.congr fun d payload' status'' hd => ?_
  by_cases hc : d = c
  · subst hc
    cases hframe.symm.trans hd
    exact ⟨status', frames_setFrame_self⟩
  · exact ⟨status'', (frames_setFrame_of_ne hc).trans hd⟩

theorem Chain.frames_ne_none (hchain : s.Chain root h ps) : ∀ c ∈ h :: ps, s.frames c ≠ none := by
  induction hchain with
  | root hframe =>
    intro c hc
    rw [List.mem_singleton.mp hc, hframe]
    exact Option.some_ne_none _
  | child hframe _ ih =>
    intro c hc
    rcases List.mem_cons.mp hc with rfl | hc
    · rw [hframe]
      exact Option.some_ne_none _
    · exact ih c hc

/-- Ancestors are older. -/
theorem Chain.pairwise (hs : s.Sound) (hchain : s.Chain root h ps) : (h :: ps).Pairwise (· > ·) := by
  induction hchain with
  | root => exact List.pairwise_singleton _ _
  | @child h p ps status hframe _ ih =>
    have hlt : p < h := hs.parent_lt h p status hframe
    refine List.pairwise_cons.mpr ⟨fun c hc => ?_, ih⟩
    rcases List.mem_cons.mp hc with rfl | hc
    · exact hlt
    · exact Nat.lt_trans ((List.pairwise_cons.mp ih).1 c hc) hlt

/-- Whoever is going to report has a chain, of coroutines that are each suspended for the
one before. -/
theorem Sound.exists_chain (hs : s.Sound) (hframe : s.frames h = some ⟨payload, status⟩)
    (hawake : status.Awake) : ∃ root ps, s.Chain root h ps := by
  induction h using Nat.strongRecOn generalizing payload status with
  | ind h ih =>
    cases payload with
    | message => exact ⟨h, [], .root hframe⟩
    | handle p =>
      obtain ⟨payload', hp⟩ := hs.reports h p ⟨status, hframe, .inl hawake⟩
      obtain ⟨root, ps, hchain⟩ := ih p (hs.parent_lt h p status hframe) hp (awake_subtask h)
      exact ⟨root, p :: ps, .child hframe hchain⟩

/-! ### What is recorded of a chain -/

/-- The events of these coroutines, their locals apart. -/
def about (order : List Nat) (events : List Event) : List Event :=
  events.filter fun e => !e.isLocal && decide (e.coroutine ∈ order)

theorem about_append (order : List Nat) (es es' : List Event) :
    about order (es ++ es') = about order es ++ about order es' := List.filter_append ..

theorem about_of_notMem (hes : ∀ e ∈ es, e.coroutine ∉ order) : about order es = [] := by
  refine List.filter_eq_nil_iff.mpr fun e he => ?_
  simp [hes e he]

theorem about_local (order : List Nat) (h : Nat) : about order [.localDestroyed h] = [] := rfl

theorem about_of_mem {e : Event} (hlocal : e.isLocal = false) (hmem : e.coroutine ∈ order) :
    about order [e] = [e] := by
  simp [about, hlocal, hmem]

theorem about_replied (hmem : root ∈ order) (replies : List Reply) :
    about order (replies.map (.replied root)) = replies.map (.replied root) := by
  refine List.filter_eq_self.mpr fun e he => ?_
  obtain ⟨reply, -, rfl⟩ := List.mem_map.mp he
  simp [Event.isLocal, Event.coroutine, hmem]

/-! ### How far a propagation has come -/

def Activity.isClosing : Activity → Bool
  | destroy _ | unwind _ => true
  | _ => false

section

variable (root : Nat) (order : List Nat) (v : Returned) (below : List Activity) (past : List Event)

/-- `return_value` has come to the coroutine that `a` is going to destroy, and has yet to
climb to `ps`. -/
structure Climbing (a : Activity) (ps : List Nat) (closing : List Activity) (s : Coroutines) :
    Prop where
  stack : s.stack = .returnValue a.coroutine v :: a :: (closing ++ below)
  chain : s.Chain root a.coroutine ps
  order_eq : order = ps.reverse ++ (a :: closing).map Activity.coroutine
  closes : ∀ b ∈ a :: closing, b.isClosing
  recorded : about order s.events = past

/-- The frames of `done` are gone, those of `closing` are next, and `nested` is what a
destructor has brought up. -/
structure Falling (done : List Nat) (nested closing : List Activity) (s : Coroutines) : Prop where
  ne_nil : closing ≠ []
  stack : s.stack = nested ++ (closing ++ below)
  order_eq : order = done ++ closing.map Activity.coroutine
  closes : ∀ a ∈ closing, a.isClosing
  apart : ∀ a ∈ nested, a.coroutine ∉ order
  gone : ∀ c ∈ done, s.frames c = none
  recorded : about order s.events = past ++ v.replies.map (.replied root) ++ done.map .destroyed

structure Finished (s : Coroutines) : Prop where
  gone : ∀ c ∈ order, s.frames c = none
  recorded : about order s.events = past ++ v.replies.map (.replied root) ++ order.map .destroyed

/-- How far the propagation of `v` has come along `order`, which begins with `root`, over a
stack `below`; `past` is what was recorded before. -/
inductive Stage (s : Coroutines) : Prop
  | climbing {a : Activity} {ps : List Nat} {closing : List Activity} :
      Climbing root order v below past a ps closing s → Stage s
  | falling {done : List Nat} {nested closing : List Activity} :
      Falling root order v below past done nested closing s → Stage s
  | finished : Finished root order v past s → Stage s

end

theorem Sound.not_awake_of_isClosing (hs : s.Sound) (ha : a ∈ s.stack) (hclosing : a.isClosing) :
    ¬ s.Awake a.coroutine := by
  have hfits : s.Fits a := hs.fits a ha
  cases a with
  | destroy h =>
    obtain ⟨payload, hframe⟩ := hfits
    exact not_awake_of_frame hframe not_awake_nobody
  | unwind h =>
    obtain ⟨payload, hframe⟩ := hfits
    exact not_awake_of_frame hframe not_awake_leaving
  | body h => nomatch hclosing
  | returnValue h v => nomatch hclosing

theorem Sound.frames_ne_none (hs : s.Sound) (ha : a ∈ s.stack) : s.frames a.coroutine ≠ none := by
  have hfits : s.Fits a := hs.fits a ha
  cases a with
  | body h | destroy h | unwind h =>
    obtain ⟨payload, hframe⟩ := hfits
    exact hframe ▸ Option.some_ne_none _
  | returnValue h v =>
    obtain ⟨payload, status, hframe, -⟩ := hfits
    exact hframe ▸ Option.some_ne_none _

theorem not_awake_of_none (hframe : s.frames c = none) : ¬ s.Awake c := by
  rintro ⟨payload, status, hframe', -⟩
  exact Option.some_ne_none _ (hframe'.symm.trans hframe)

/-- The process may have ended, or a `co_yield` has gone on. -/
structure Same (s s' : Coroutines) : Prop where
  frames : s'.frames = s.frames
  stack : s'.stack = s.stack
  events : s'.events = s.events

theorem Stage.same (hstage : Stage root order v below past s) (h : Same s s') :
    Stage root order v below past s' := by
  obtain ⟨hframes, hstack, hevents⟩ := h
  cases hstage with
  | climbing hc =>
    have hchain := hc.chain.congr fun c payload status hframe => ⟨status, hframes ▸ hframe⟩
    exact .climbing ⟨hstack.trans hc.stack, hchain, hc.order_eq, hc.closes, hevents ▸ hc.recorded⟩
  | falling hf =>
    exact .falling ⟨hf.ne_nil, hstack.trans hf.stack, hf.order_eq, hf.closes, hf.apart,
      hframes ▸ hf.gone, hevents ▸ hf.recorded⟩
  | finished hf => exact .finished ⟨hframes ▸ hf.gone, hevents ▸ hf.recorded⟩

theorem Moves.of_returnValue (hm : Moves s i s') (hstack : s.stack = .returnValue h v :: stack)
    (hv : v ≠ .unit) :
    Same s s' ∨
    (∃ status, s.frames h = some ⟨.message, status⟩ ∧
      s' = { s with stack, events := s.events ++ v.replies.map (.replied h) }) ∨
    ∃ p payload status, s.frames h = some ⟨.handle p, status⟩ ∧
      s.frames p = some ⟨payload, .suspended (.subtask h)⟩ ∧
      s' = s.setFrame p (some ⟨payload, .suspended .nobody⟩)
        (.returnValue p v :: .destroy p :: stack) := by
  have hruns : ¬ s.runs := by simp [runs, hstack]
  cases hm with
  | abort | refused _ | goOn _ => exact .inl ⟨rfl, rfl, rfl⟩
  | call h | wake h _ | methodError h _ => exact absurd h hruns
  | reply hstack' hframe =>
    cases hstack.symm.trans hstack'
    exact .inr (.inl ⟨_, hframe, rfl⟩)
  | report _ hstack' hframe hp =>
    cases hstack.symm.trans hstack'
    exact .inr (.inr ⟨_, _, _, hframe, hp, rfl⟩)
  | resumeParent hstack' _ _ =>
    cases hstack.symm.trans hstack'
    exact absurd rfl hv
  | awaitSubtask hstack' _ | await hstack' _ | coReturn hstack' _ | coYield _ hstack' _
  | destroy hstack' _ | destroyLocal hstack' | free hstack' _ => cases hstack.symm.trans hstack'

theorem Moves.of_destroy (hm : Moves s i s') (hstack : s.stack = .destroy h :: stack) :
    Same s s' ∨ ∃ payload, s' = s.setFrame h (some ⟨payload, .leaving⟩) (.unwind h :: stack) := by
  have hruns : ¬ s.runs := by simp [runs, hstack]
  cases hm with
  | abort | refused _ | goOn _ => exact .inl ⟨rfl, rfl, rfl⟩
  | call h | wake h _ | methodError h _ => exact absurd h hruns
  | destroy hstack' hframe =>
    cases hstack.symm.trans hstack'
    exact .inr ⟨_, rfl⟩
  | reply hstack' _ | report _ hstack' _ _ | resumeParent hstack' _ _ | awaitSubtask hstack' _
  | await hstack' _ | coReturn hstack' _ | coYield _ hstack' _ | destroyLocal hstack'
  | free hstack' _ => cases hstack.symm.trans hstack'

/-- While locals are destroyed, something may be put on top of the stack. -/
theorem Moves.of_unwind (hm : Moves s i s') (hstack : s.stack = .unwind h :: stack) :
    Same s s' ∨
    s' = { s with events := s.events ++ [.localDestroyed h] } ∨
    s' = { s.setFrame h none stack with events := s.events ++ [.destroyed h] } ∨
    ∃ new es, Apart s s' [] new s.stack es := by
  cases hm with
  | abort | refused _ | goOn _ => exact .inl ⟨rfl, rfl, rfl⟩
  | destroyLocal hstack' =>
    cases hstack.symm.trans hstack'
    exact .inr (.inl rfl)
  | free hstack' _ =>
    cases hstack.symm.trans hstack'
    exact .inr (.inr (.inl rfl))
  | call hruns => exact .inr (.inr (.inr ⟨_, _, apart_call⟩))
  | wake hruns hframe => exact .inr (.inr (.inr ⟨_, _, apart_wake hframe⟩))
  | methodError hruns hframe => exact .inr (.inr (.inr ⟨_, _, apart_methodError hframe⟩))
  | reply hstack' _ | report _ hstack' _ _ | resumeParent hstack' _ _ | awaitSubtask hstack' _
  | await hstack' _ | coReturn hstack' _ | coYield _ hstack' _ | destroy hstack' _ =>
    cases hstack.symm.trans hstack'

/-! ### The climb -/

theorem Climbing.step (hc : Climbing root order v below past a ps closing s) (hm : Moves s i s')
    (hv : v ≠ .unit) : Stage root order v below past s' := by
  rcases hm.of_returnValue hc.stack hv with h | ⟨status, hframe, rfl⟩ |
    ⟨p, payload, status, hframe, hp, rfl⟩
  · exact (Stage.climbing hc).same h
  · -- the root replies, and its frame is the first to go
    obtain ⟨hstack, hchain, horder, hclosing, hpast⟩ := hc
    generalize hroot : a.coroutine = c at hchain hframe
    cases hchain with
    | child hframe' _ => cases hframe.symm.trans hframe'
    | root _ =>
      have hmem : root ∈ order := by rw [horder, ← hroot]; exact List.mem_cons_self
      have hrecorded : about order (s.events ++ v.replies.map (.replied root)) =
          past ++ v.replies.map (.replied root) := by
        rw [about_append, hpast, about_replied hmem]
      exact .falling (Falling.mk (List.cons_ne_nil a closing) (List.nil_append _).symm horder hclosing
        nofun nofun (hrecorded.trans (List.append_nil _).symm))
  · obtain ⟨hstack, hchain, horder, hclosing, hpast⟩ := hc
    generalize hchild : a.coroutine = c at hchain hframe
    cases hchain with
    | root hframe' => cases hframe.symm.trans hframe'
    | @child _ p' ps status' hframe' hrest =>
      cases hframe.symm.trans hframe'
      have horder' : order = ps.reverse ++ (.destroy p :: a :: closing).map Activity.coroutine := by
        rw [horder, List.reverse_cons, List.append_assoc]
        rfl
      refine .climbing ⟨rfl, hrest.setFrame hp _ _, horder', ?_, hpast⟩
      intro b hb
      rcases List.mem_cons.mp hb with rfl | hb
      · rfl
      · exact hclosing b hb

/-! ### The fall -/

/-- Nothing that a step may touch is of the chain, unless it is on top of the stack. -/
theorem not_concerns (hcreated : ∀ c ∈ order, c < s.created)
    (hasleep : ∀ c ∈ order, ¬ s.Awake c) (hold : ∀ a ∈ old, a.coroutine ∉ order) :
    ∀ c ∈ order, ¬ s.Concerns old c := by
  rintro c hc (⟨a, ha, rfl⟩ | hawake | rfl)
  · exact hold a ha hc
  · exact hasleep c hc hawake
  · exact Nat.lt_irrefl _ (hcreated _ hc)

section

variable {done : List Nat}

theorem Falling.mem_stack (hf : Falling root order v below past done nested closing s) :
    ∀ a ∈ closing, a ∈ s.stack := by
  intro a ha
  rw [hf.stack]
  exact List.mem_append_right _ (List.mem_append_left _ ha)

theorem Falling.not_awake (hf : Falling root order v below past done nested closing s)
    (hs : s.Sound) : ∀ c ∈ order, ¬ s.Awake c := by
  intro c hc
  rw [hf.order_eq] at hc
  rcases List.mem_append.mp hc with hc | hc
  · exact not_awake_of_none (hf.gone c hc)
  · obtain ⟨a, ha, rfl⟩ := List.mem_map.mp hc
    exact hs.not_awake_of_isClosing (hf.mem_stack a ha) (hf.closes a ha)

/-- A step above what is left of the chain. -/
theorem Falling.above (hf : Falling root order v below past done nested closing s) (hs : s.Sound)
    (hcreated : ∀ c ∈ order, c < s.created) (hold : ∀ a ∈ old, a.coroutine ∉ order)
    (h : Apart s s' old new rest es) {left : List Activity}
    (hrest : rest = left ++ (closing ++ below))
    (hleft : ∀ a ∈ left, a.coroutine ∉ order) :
    Falling root order v below past done (new ++ left) closing s' := by
  have happart : ∀ c ∈ order, ¬ s.Concerns old c := not_concerns hcreated (hf.not_awake hs) hold
  refine ⟨hf.ne_nil, ?_, hf.order_eq, hf.closes, ?_, ?_, ?_⟩
  · rw [h.stack', hrest, List.append_assoc]
  · intro a ha
    rcases List.mem_append.mp ha with ha | ha
    · exact fun hmem => happart _ hmem (h.new a ha)
    · exact hleft a ha
  · intro c hc
    rw [h.frames c (happart c (hf.order_eq ▸ List.mem_append_left _ hc))]
    exact hf.gone c hc
  · have hes : about order es = [] :=
      about_of_notMem fun e he hmem => happart _ hmem (h.concerned e he)
    rw [h.events, about_append, hes, List.append_nil]
    exact hf.recorded

/-- The frame on top begins to be destroyed. -/
theorem Falling.destroy (hf : Falling root order v below past done [] (.destroy c :: closing) s)
    (hs : s.Sound) (status : Status) :
    Falling root order v below past done [] (.unwind c :: closing)
      (s.setFrame c (some ⟨payload, status⟩) (.unwind c :: (closing ++ below))) := by
  have hc : s.frames c ≠ none := hs.frames_ne_none (hf.mem_stack _ List.mem_cons_self)
  refine ⟨List.cons_ne_nil _ _, rfl, hf.order_eq, ?_, nofun, ?_, hf.recorded⟩
  · intro a ha
    rcases List.mem_cons.mp ha with rfl | ha
    · rfl
    · exact hf.closes a (List.mem_cons_of_mem _ ha)
  · intro d hd
    have hne : d ≠ c := by
      rintro rfl
      exact hc (hf.gone d hd)
    exact (frames_setFrame_of_ne hne).trans (hf.gone d hd)

/-- The frame on top is freed, and the next one in the chain is on top. -/
theorem Falling.free (hf : Falling root order v below past done [] (.unwind c :: closing) s) :
    Stage root order v below past
      { s.setFrame c none (closing ++ below) with events := s.events ++ [.destroyed c] } := by
  have hgone : ∀ d ∈ done ++ [c], Function.update s.frames c none d = none := by
    intro d hd
    by_cases hc : d = c
    · rw [hc, Function.update_self]
    · rw [Function.update_of_ne hc]
      exact hf.gone d ((List.mem_append.mp hd).resolve_right fun h => hc (List.mem_singleton.mp h))
  have horder : order = done ++ [c] ++ closing.map Activity.coroutine := by
    rw [hf.order_eq, List.append_assoc]
    rfl
  have hmem : c ∈ order := horder ▸ by simp
  have hrecorded : about order (s.events ++ [.destroyed c]) =
      past ++ v.replies.map (.replied root) ++ (done ++ [c]).map .destroyed := by
    rw [about_append, hf.recorded, about_of_mem rfl hmem, List.map_append, ← List.append_assoc]
    rfl
  by_cases hempty : closing = []
  · subst hempty
    rw [List.map_nil, List.append_nil] at horder
    exact .finished ⟨horder ▸ hgone, by rw [hrecorded, ← horder]⟩
  · have hcloses : ∀ a ∈ closing, a.isClosing := fun a ha => hf.closes a (List.mem_cons_of_mem _ ha)
    exact .falling ⟨hempty, (List.nil_append _).symm, horder, hcloses, nofun, hgone, hrecorded⟩

theorem Falling.step (hf : Falling root order v below past done nested closing s) (hs : s.Sound)
    (hm : Moves s i s') (hcreated : ∀ c ∈ order, c < s.created) :
    Stage root order v below past s' := by
  cases nested with
  | cons b nested =>
    obtain ⟨old, new, rest, es, h⟩ := hm.apart
    have hsplit : old ++ rest = b :: nested ++ (closing ++ below) := h.stack.symm.trans hf.stack
    have hone := h.one
    match old with
    | [] => exact .falling (hf.above hs hcreated (by simp) h hsplit hf.apart)
    | [x] =>
      obtain ⟨rfl, hrest⟩ := List.cons.inj hsplit
      have hold : ∀ a ∈ [x], a.coroutine ∉ order := fun a ha =>
        List.mem_singleton.mp ha ▸ hf.apart x List.mem_cons_self
      have hleft : ∀ a ∈ nested, a.coroutine ∉ order := fun a ha =>
        hf.apart a (List.mem_cons_of_mem _ ha)
      exact .falling (hf.above hs hcreated hold h hrest hleft)
    | _ :: _ :: _ => simp at hone
  | nil =>
    obtain ⟨a, closing, rfl⟩ := List.exists_cons_of_ne_nil hf.ne_nil
    cases a with
    | body c => nomatch hf.closes _ List.mem_cons_self
    | returnValue c v => nomatch hf.closes _ List.mem_cons_self
    | destroy c =>
      rcases hm.of_destroy hf.stack with h | ⟨payload, rfl⟩
      · exact (Stage.falling hf).same h
      · exact .falling (hf.destroy hs .leaving)
    | unwind c =>
      rcases hm.of_unwind hf.stack with h | rfl | rfl | ⟨new, es, h⟩
      · exact (Stage.falling hf).same h
      · refine .falling { hf with recorded := ?_ }
        rw [about_append, about_local, List.append_nil]
        exact hf.recorded
      · exact hf.free
      · exact .falling (hf.above hs hcreated (by simp) h hf.stack (by simp))

end

/-! ### Every state that is reached -/

theorem Finished.step (hf : Finished root order v past s) (hs : s.Sound) (hm : Moves s i s')
    (hcreated : ∀ c ∈ order, c < s.created) : Finished root order v past s' := by
  obtain ⟨old, new, rest, es, h⟩ := hm.apart
  have hold : ∀ a ∈ old, a.coroutine ∉ order := fun a ha hmem =>
    hs.frames_ne_none (h.stack ▸ List.mem_append_left _ ha) (hf.gone _ hmem)
  have happart := not_concerns hcreated (fun c hc => not_awake_of_none (hf.gone c hc)) hold
  refine ⟨fun c hc => (h.frames c (happart c hc)).trans (hf.gone c hc), ?_⟩
  have hes : about order es = [] :=
    about_of_notMem fun e he hmem => happart _ hmem (h.concerned e he)
  rw [h.events, about_append, hes, List.append_nil]
  exact hf.recorded

theorem Stage.step (hstage : Stage root order v below past s) (hs : s.Sound) (hm : Moves s i s')
    (hv : v ≠ .unit) (hcreated : ∀ c ∈ order, c < s.created) :
    Stage root order v below past s' := by
  cases hstage with
  | climbing hc => exact hc.step hm hv
  | falling hf => exact hf.step hs hm hcreated
  | finished hf => exact .finished (hf.step hs hm hcreated)

theorem Moves.created_le (hm : Moves s i s') : s.created ≤ s'.created := by
  obtain ⟨_, _, _, _, h⟩ := hm.apart
  exact h.created

theorem Stage.reaches (hstage : Stage root order v below past s) (hs : s.Sound) (hv : v ≠ .unit)
    (hcreated : ∀ c ∈ order, c < s.created) (h : machine.Reaches Machine.Always s s') :
    Stage root order v below past s' := by
  have hall : Stage root order v below past s' ∧ s'.Sound ∧ ∀ c ∈ order, c < s'.created := by
    refine h.invariant (I := fun t => Stage root order v below past t ∧ t.Sound ∧
      ∀ c ∈ order, c < t.created) ⟨hstage, hs, hcreated⟩ ?_
    intro t i t' ⟨hstage, ht, hcreated⟩ _ hi
    have hm : Moves t i t' := ht.moves hi
    exact ⟨hstage.step ht hm hv hcreated, ht.keep hm,
      fun c hc => Nat.lt_of_lt_of_le (hcreated c hc) hm.created_le⟩
  exact hall.1

/-- What is recorded so far, and all of it once control is back. -/
theorem Stage.sofar (hstage : Stage root order v below past s) :
    ∃ sofar, about order s.events = past ++ sofar ∧
      sofar <+: v.replies.map (.replied root) ++ order.map .destroyed ∧
      (s.stack.length ≤ below.length →
        sofar = v.replies.map (.replied root) ++ order.map .destroyed ∧
          ∀ c ∈ order, s.frames c = none) := by
  cases hstage with
  | climbing hc =>
    refine ⟨[], by rw [hc.recorded, List.append_nil], List.nil_prefix, fun hle => ?_⟩
    rw [hc.stack] at hle
    simp only [List.length_cons, List.length_append] at hle
    omega
  | falling hf =>
    refine ⟨_, by rw [hf.recorded, List.append_assoc], ?_, fun hle => ?_⟩
    · rw [List.prefix_append_right_inj, hf.order_eq, List.map_append]
      exact List.prefix_append _ _
    · have hpos := List.length_pos_iff.mpr hf.ne_nil
      rw [hf.stack] at hle
      simp only [List.length_append] at hle
      omega
  | finished hf =>
    exact ⟨_, by rw [hf.recorded, List.append_assoc], List.prefix_rfl, fun _ => ⟨rfl, hf.gone⟩⟩

/-! ### It does come to an end -/

theorem reaches_step (hi : s.step i = some s') : machine.Reaches Machine.Always s s' :=
  (Machine.Reaches.refl s).tail (i := i) trivial hi

theorem step_returnValue (hhalted : s.halted = none) (hstack : s.stack = .returnValue h v :: stack)
    (sent : Bool) : s.step (.proceed sent) = some (s.returnValue h v sent stack) := by
  simp [step, hhalted, hstack]

theorem climbs (hs : s.Sound) (hhalted : s.halted = none) (hv : v ≠ .unit)
    (hchain : s.Chain root h ps) (hstack : s.stack = .returnValue h v :: stack) :
    ∃ s', machine.Reaches Machine.Always s s' ∧ s'.halted = none ∧
      s'.stack = ps.reverse.map .destroy ++ stack := by
  induction ps generalizing s h stack with
  | nil =>
    cases hchain with
    | root hframe =>
      refine ⟨_, reaches_step (step_returnValue hhalted hstack true), ?_⟩
      rw [returnValue, hframe]
      cases v with
      | unit => exact absurd rfl hv
      | error | status => simp [hhalted]
  | cons p ps ih =>
    cases hchain with
    | @child _ _ _ status hframe hrest =>
      have hi := step_returnValue hhalted hstack true
      obtain ⟨payload, hp⟩ := hs.reports h p ⟨status, hframe, .inr ⟨v, by rw [hstack]; rfl⟩⟩
      have hs' : s.returnValue h v true stack = s.setFrame p (some ⟨payload, .suspended .nobody⟩)
          (.returnValue p v :: .destroy p :: stack) := by
        rw [returnValue, hframe]
        cases v with
        | unit => exact absurd rfl hv
        | error | status => exact giveUp_eq hp _
      rw [hs'] at hi
      obtain ⟨s', hreaches, hhalted', hstack'⟩ :=
        ih (hs.keep (hs.moves hi)) hhalted (hrest.setFrame hp _ _) rfl
      refine ⟨s', (reaches_step hi).trans hreaches, hhalted', ?_⟩
      rw [hstack', List.reverse_cons, List.map_append, List.append_assoc]
      rfl

theorem frees (hhalted : s.halted = none) (hstack : s.stack = .unwind h :: stack) :
    ∃ s', s.step .free = some s' ∧ s'.halted = none ∧ s'.stack = stack := by
  refine ⟨{ s.setFrame h none stack with events := s.events ++ [.destroyed h] }, ?_, hhalted, rfl⟩
  simp [step, hhalted, hstack]

theorem falls (hs : s.Sound) (hhalted : s.halted = none) (hclosing : ∀ a ∈ closing, a.isClosing)
    (hstack : s.stack = closing ++ below) :
    ∃ s', machine.Reaches Machine.Always s s' ∧ s'.halted = none ∧ s'.stack = below := by
  induction closing generalizing s with
  | nil => exact ⟨s, .refl s, hhalted, hstack⟩
  | cons a closing ih =>
    have hclosing' : ∀ b ∈ closing, b.isClosing := fun b hb => hclosing b (List.mem_cons_of_mem _ hb)
    cases a with
    | body c => nomatch hclosing _ List.mem_cons_self
    | returnValue c v => nomatch hclosing _ List.mem_cons_self
    | unwind c =>
      obtain ⟨t, hi, ht, htstack⟩ := frees hhalted hstack
      obtain ⟨s', hreaches, hs'⟩ := ih (hs.keep (hs.moves hi)) ht hclosing' htstack
      exact ⟨s', (reaches_step hi).trans hreaches, hs'⟩
    | destroy c =>
      obtain ⟨payload, hframe⟩ := hs.destroys hstack
      have hi : s.step (.proceed true) = some (s.setFrame c (some ⟨payload, .leaving⟩)
          (.unwind c :: (closing ++ below))) := by
        rw [← destroy_eq hframe]
        simp [step, hhalted, hstack]
      have ht := hs.keep (hs.moves hi)
      obtain ⟨u, hi', hu, hustack⟩ := frees (s := s.setFrame c (some ⟨payload, .leaving⟩)
        (.unwind c :: (closing ++ below))) hhalted rfl
      obtain ⟨s', hreaches, hs'⟩ := ih (ht.keep (ht.moves hi')) hu hclosing' hustack
      exact ⟨s', ((reaches_step hi).trans (reaches_step hi')).trans hreaches, hs'⟩

/-! ### The four ways to end with an error, and the way without -/

/-- `i` ends `h` with an error of negative code, and `v` is what its promise is given. -/
inductive Ends (s : Coroutines) (h : Nat) : Input → Returned → List Activity → Prop
  | returnError {error : BusError} {below : List Activity} : s.stack = .body h :: below →
      Ends s h (.coReturn (.error error)) (.error error) below
  | returnStatus {code : Int} {error : Option BusError} {below : List Activity} : code < 0 →
      s.stack = .body h :: below →
      Ends s h (.coReturn (.status code error)) (.status code error) below
  | yield {code : Int} {below : List Activity} : code < 0 → s.stack = .body h :: below →
      Ends s h (.coYield code) (.status code none) below
  | methodError {errno : Int} {error : Option BusError} : 0 < errno →
      Ends s h (.methodError h errno error) (.status (-errno) error) s.stack

theorem Ends.replies (hends : s.Ends h i v below) :
    v ≠ .unit ∧ ∃ reply, v.replies = [reply] ∧ reply.isError := by
  cases hends with
  | returnError _ => exact ⟨nofun, _, rfl, rfl⟩
  | returnStatus hcode _ | yield hcode _ => exact ⟨nofun, _, if_pos hcode, rfl⟩
  | methodError herrno => exact ⟨nofun, _, if_pos (Int.neg_neg_of_pos herrno), rfl⟩

theorem halted_of_step (hi : s.step i = some s') : s.halted = none := by
  unfold step at hi
  split at hi
  · nomatch hi
  · next hhalted => simpa using hhalted

/-- Whichever way it is, `return_value` is called on its promise, and its frame is going
to be destroyed behind it. -/
theorem Ends.step (hs : s.Sound) (hends : s.Ends h i v below) (hi : s.step i = some s') :
    ∃ a, a.coroutine = h ∧ a.isClosing ∧ s'.stack = .returnValue h v :: a :: below ∧
      s'.events = s.events ∧ s'.halted = none ∧
      ∀ {root ps}, s.Chain root h ps → s'.Chain root h ps := by
  have hm := hs.moves hi
  have hhalted : s.halted = none := halted_of_step hi
  cases hends with
  | returnError hstack | returnStatus _ hstack =>
    cases hm with
    | coReturn hstack' hframe =>
      cases hstack.symm.trans hstack'
      exact ⟨.unwind h, rfl, rfl, rfl, rfl, hhalted, fun hchain => hchain.setFrame hframe _ _⟩
  | yield hcode hstack =>
    cases hm with
    | goOn hcode' => exact absurd hcode hcode'
    | coYield _ hstack' hframe =>
      cases hstack.symm.trans hstack'
      exact ⟨.destroy h, rfl, rfl, rfl, rfl, hhalted, fun hchain => hchain.setFrame hframe _ _⟩
  | methodError herrno =>
    cases hm with
    | methodError _ hframe =>
      exact ⟨.destroy h, rfl, rfl, rfl, rfl, hhalted, fun hchain => hchain.setFrame hframe _ _⟩

theorem Stage.start (hs : s.Sound) (hchain : s.Chain root h ps) (hends : s.Ends h i v below)
    (hi : s.step i = some s') :
    Stage root (h :: ps).reverse v below (about (h :: ps).reverse s.events) s' := by
  obtain ⟨a, rfl, hclosing, hstack, hevents, -, hpayloads⟩ := hends.step hs hi
  have horder : (a.coroutine :: ps).reverse = ps.reverse ++ [a].map Activity.coroutine :=
    List.reverse_cons
  have hclosings : ∀ b ∈ [a], b.isClosing := fun b hb => List.mem_singleton.mp hb ▸ hclosing
  exact .climbing ⟨hstack, hpayloads hchain, horder, hclosings, hevents ▸ rfl⟩

/-- Where `h` ends with an error, in any state that a run has come to. -/
theorem error_propagation (hs : s.Sound) (hchain : s.Chain root h ps) (hends : s.Ends h i v below)
    (hi : s.step i = some s') (hreaches : machine.Reaches Machine.Always s' t) :
    t.Sound ∧ ∃ sofar, about (h :: ps).reverse t.events = about (h :: ps).reverse s.events ++ sofar ∧
      sofar <+: v.replies.map (.replied root) ++ (h :: ps).reverse.map .destroyed ∧
      (t.stack.length ≤ below.length →
        sofar = v.replies.map (.replied root) ++ (h :: ps).reverse.map .destroyed ∧
          ∀ c ∈ (h :: ps).reverse, t.frames c = none) := by
  have hm : Moves s i s' := hs.moves hi
  have hs' : s'.Sound := hs.keep hm
  have hcreated : ∀ c ∈ (h :: ps).reverse, c < s'.created := fun c hc =>
    Nat.lt_of_lt_of_le (hs.created c (hchain.frames_ne_none c (List.mem_reverse.mp hc)))
      hm.created_le
  have hstage := Stage.start hs hchain hends hi
  exact ⟨hs'.reaches hreaches, (hstage.reaches hs' hends.replies.1 hcreated hreaches).sofar⟩

/-- The propagation can go on until it is over. -/
theorem error_propagates (hs : s.Sound) (hchain : s.Chain root h ps) (hends : s.Ends h i v below)
    (hi : s.step i = some s') :
    ∃ t, machine.Reaches Machine.Always s' t ∧ t.halted = none ∧ t.stack = below := by
  obtain ⟨a, rfl, hclosing, hstack, -, hhalted, hpayloads⟩ := hends.step hs hi
  have hs' : s'.Sound := hs.keep (hs.moves hi)
  obtain ⟨t, hclimb, ht, htstack⟩ := climbs hs' hhalted hends.replies.1 (hpayloads hchain) hstack
  have hclosings : ∀ b ∈ ps.reverse.map .destroy ++ [a], b.isClosing := by
    intro b hb
    rcases List.mem_append.mp hb with hb | hb
    · obtain ⟨c, -, rfl⟩ := List.mem_map.mp hb
      rfl
    · exact List.mem_singleton.mp hb ▸ hclosing
  have hsplit : t.stack = (ps.reverse.map .destroy ++ [a]) ++ below := by
    rw [htstack, List.append_assoc]
    rfl
  obtain ⟨u, hfall, hu⟩ := falls (hs'.reaches hclimb) ht hclosings hsplit
  exact ⟨u, hclimb.trans hfall, hu⟩

theorem step_of_returnValue (hstack : s.stack = .returnValue h v :: stack) (hi : s.step i = some s') :
    ∃ sent, s' = s.returnValue h v sent stack := by
  have hhalted : s.halted = none := halted_of_step hi
  cases i with
  | proceed sent =>
    exact ⟨sent, (Option.some.inj ((step_returnValue hhalted hstack sent).symm.trans hi)).symm⟩
  | _ => simp [step, hhalted, hstack, runs] at hi

/-- `return_value(unit)` resumes the parent, and nothing else can happen first. -/
theorem Sound.resumes_parent (hs : s.Sound) (hhalted : s.halted = none)
    (hstack : s.stack = .returnValue h .unit :: stack)
    (hframe : s.frames h = some ⟨.handle p, status⟩) :
    ∃ t, (∀ sent, s.step (.proceed sent) = some t) ∧ (∀ j u, s.step j = some u → u = t) ∧
      t.events = s.events ++ [.resumed p] ∧ t.stack = .body p :: stack ∧
      (∃ payload, t.frames p = some ⟨payload, .running⟩) ∧
      ∀ c, c ≠ p → t.frames c = s.frames c := by
  obtain ⟨payload, hp⟩ := hs.reports h p ⟨status, hframe, .inr ⟨.unit, by rw [hstack]; rfl⟩⟩
  have hreturn : ∀ sent, s.returnValue h .unit sent stack =
      { s.setFrame p (some ⟨payload, .running⟩) (.body p :: stack) with
        events := s.events ++ [.resumed p] } := fun sent => by
    rw [returnValue, hframe]
    exact resume_eq hp
  refine ⟨_, fun sent => (step_returnValue hhalted hstack sent).trans (congrArg some (hreturn sent)),
    ?_, rfl, rfl, ⟨payload, Function.update_self ..⟩, fun c hc => Function.update_of_ne hc ..⟩
  intro j u hj
  obtain ⟨sent, rfl⟩ := step_of_returnValue hstack hj
  exact hreturn sent

/-- A coroutine that ends without an error resumes its parent, and nothing is destroyed. -/
theorem unit_propagation (hs : s.Sound) (hframe : s.frames h = some ⟨.handle p, status⟩)
    (hstack : s.stack = .body h :: below) (hi : s.step (.coReturn .unit) = some s') :
    ∃ t, (∀ sent, s'.step (.proceed sent) = some t) ∧ (∀ j u, s'.step j = some u → u = t) ∧
      t.events = s.events ++ [.resumed p] ∧ t.stack = .body p :: .unwind h :: below ∧
      (∃ payload, t.frames p = some ⟨payload, .running⟩) ∧
      t.frames h = some ⟨.handle p, .leaving⟩ ∧ ∀ c, c ≠ h → c ≠ p → t.frames c = s.frames c := by
  have hhalted : s.halted = none := halted_of_step hi
  have hm := hs.moves hi
  have hs' : s'.Sound := hs.keep hm
  cases hm with
  | coReturn hstack' hframe' =>
    cases hstack.symm.trans hstack'
    cases hframe.symm.trans hframe'
    obtain ⟨t, hproceed, honly, hevents, hstack'', hparent, hother⟩ :=
      hs'.resumes_parent hhalted rfl frames_setFrame_self
    have hne : h ≠ p := Nat.ne_of_gt (hs.parent_lt h p _ hframe)
    refine ⟨t, hproceed, honly, hevents, hstack'', hparent,
      (hother h hne).trans frames_setFrame_self, ?_⟩
    intro c hch hcp
    exact (hother c hcp).trans (frames_setFrame_of_ne hch)

/-- **The end of a coroutine reaches its ancestors.**  In every state of every run: who
runs or waits has a chain of ancestors.  If it ends with an error, then what is recorded
of the chain from there on, whatever else goes on, is one error reply of the root and
then each frame destroyed, once control is back where it was; and it can get there.  If
it ends without, its parent is resumed before anything is destroyed. -/
theorem propagation (h : machine.Reaches Machine.Always init s) :
    (∀ c, s.Awake c → ∃ root ps, s.Chain root c ps) ∧
    (∀ root c ps i v below s', s.Chain root c ps → s.Ends c i v below → s.step i = some s' →
      ∃ order reply, order.Nodup ∧ (∀ d, d ∈ order ↔ d ∈ c :: ps) ∧ reply.isError ∧
      (∀ t, machine.Reaches Machine.Always s' t →
        t.halted ≠ some .undefined ∧
        ∃ sofar, about order t.events = about order s.events ++ sofar ∧
          sofar <+: .replied root reply :: order.map .destroyed ∧
          (t.stack.length ≤ below.length → sofar = .replied root reply :: order.map .destroyed ∧
            ∀ d ∈ order, t.frames d = none)) ∧
      ∃ t, machine.Reaches Machine.Always s' t ∧ t.halted = none ∧ t.stack = below) ∧
    (∀ c p status below s', s.frames c = some ⟨.handle p, status⟩ → s.stack = .body c :: below →
      s.step (.coReturn .unit) = some s' →
      ∃ t, (∀ sent, s'.step (.proceed sent) = some t) ∧ (∀ j u, s'.step j = some u → u = t) ∧
        t.events = s.events ++ [.resumed p] ∧ t.stack = .body p :: .unwind c :: below ∧
        (∃ payload, t.frames p = some ⟨payload, .running⟩) ∧
        t.frames c = some ⟨.handle p, .leaving⟩ ∧ ∀ d, d ≠ c → d ≠ p → t.frames d = s.frames d) := by
  have hs : s.Sound := sound_of_reaches h
  refine ⟨?_, ?_, fun c p status below s' hframe hstack hi => unit_propagation hs hframe hstack hi⟩
  · rintro c ⟨payload, status, hframe, hawake⟩
    exact hs.exists_chain hframe hawake
  · intro root c ps i v below s' hchain hends hi
    obtain ⟨-, reply, hreplies, herror⟩ := hends.replies
    refine ⟨(c :: ps).reverse, reply, ?_, fun d => List.mem_reverse, herror, ?_,
      error_propagates hs hchain hends hi⟩
    · exact List.pairwise_reverse.mpr ((hchain.pairwise hs).imp fun hlt => Nat.ne_of_lt hlt)
    · intro t hreaches
      obtain ⟨ht, hsofar⟩ := error_propagation hs hchain hends hi hreaches
      rw [hreplies] at hsofar
      exact ⟨ht.defined, hsofar⟩

/-- A handler whose subtask ends with an error. -/
theorem propagation_two :
    ∃ s s' t, machine.run init [.call, .awaitSubtask] = some s ∧
      s.step (.coReturn (.error ⟨"name", "message"⟩)) = some s' ∧
      machine.Reaches Machine.Always s' t ∧ t.stack = [] ∧ t.frames 0 = none ∧ t.frames 1 = none := by
  have hrun : machine.run init [.call, .awaitSubtask] = some _ := rfl
  obtain ⟨order, reply, -, horder, -, hall, t, hreaches, -, hstack⟩ :=
    (propagation (Machine.reaches_of_run hrun)).2.1 0 1 [0] (.coReturn (.error ⟨"name", "message"⟩))
      _ [] _ (.child rfl (.root rfl)) (.returnError rfl) rfl
  obtain ⟨-, sofar, -, -, hover⟩ := hall t hreaches
  have hgone := (hover (Nat.le_of_eq (congrArg List.length hstack))).2
  exact ⟨_, _, t, hrun, rfl, hreaches, hstack, hgone 0 ((horder 0).mpr (by simp)),
    hgone 1 ((horder 1).mpr (by simp))⟩

end Coroutines

end Nonsense
