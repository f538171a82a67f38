import Nonsense.Async.Coroutines
import Mathlib.Tactic.SplitIfs

/-!
# Whose frame is whose

`Moves` is what a step does in a state that is `Sound`: there every activity on the call
stack finds its frame as it needs it, and a parent is suspended for just the child that is
going to report to it.  Steps keep this (`Sound.step`), so that nothing `undefined`
happens in any run (`sound_of_reaches`).
-/

namespace Nonsense

namespace Coroutines

variable {s s' : Coroutines} {h p c : Nat} {payload : Payload} {status : Status} {i : Input}
  {stack old new rest : List Activity} {a : Activity}

/-! ### Small facts -/

def Activity.coroutine : Activity → Nat
  | body h | returnValue h _ | destroy h | unwind h => h

/-- `return_value` is called on behalf of what lies below it. -/
def Activity.isCall : Activity → Bool
  | returnValue _ _ => true
  | _ => false

/-- Somebody is going to resume it, or it runs. -/
def Status.Awake (status : Status) : Prop := status ≠ .suspended .nobody ∧ status ≠ .leaving

@[simp] theorem awake_running : Status.running.Awake := ⟨nofun, nofun⟩
@[simp] theorem awake_subtask (child : Nat) : (Status.suspended (.subtask child)).Awake :=
  ⟨nofun, nofun⟩
@[simp] theorem awake_source (source : Source) : (Status.suspended (.source source)).Awake :=
  ⟨nofun, nofun⟩
@[simp] theorem not_awake_nobody : ¬ (Status.suspended .nobody).Awake := fun h => h.1 rfl
@[simp] theorem not_awake_leaving : ¬ Status.leaving.Awake := fun h => h.2 rfl

def Awake (s : Coroutines) (h : Nat) : Prop :=
  ∃ payload status, s.frames h = some ⟨payload, status⟩ ∧ status.Awake

theorem not_awake_of_frame (hframe : s.frames h = some ⟨payload, status⟩) (hawake : ¬ status.Awake) :
    ¬ s.Awake h := by
  rintro ⟨payload', status', hframe', hawake'⟩
  cases hframe.symm.trans hframe'
  exact hawake hawake'

section

variable {f : Option Frame}

@[simp] theorem frames_setFrame_self : (s.setFrame h f stack).frames h = f :=
  Function.update_self ..

theorem frames_setFrame_of_ne (hne : c ≠ h) : (s.setFrame h f stack).frames c = s.frames c :=
  Function.update_of_ne hne ..

@[simp] theorem setFrame_setFrame {f' : Option Frame} {stack' : List Activity} :
    (s.setFrame h f stack).setFrame h f' stack' = s.setFrame h f' stack' := by
  simp [setFrame]

end

theorem suspend_eq (hframe : s.frames h = some ⟨payload, status⟩) (resumer : Resumer) :
    s.suspend h resumer stack = s.setFrame h (some ⟨payload, .suspended resumer⟩) stack := by
  rw [suspend, hframe]
  rfl

theorem giveUp_eq {resumer : Resumer} (hframe : s.frames h = some ⟨payload, .suspended resumer⟩)
    (v : Returned) :
    s.giveUp h v stack = s.setFrame h (some ⟨payload, .suspended .nobody⟩)
      (.returnValue h v :: .destroy h :: stack) := by
  rw [giveUp, hframe]
  rfl

theorem resume_eq {resumer : Resumer} (hframe : s.frames h = some ⟨payload, .suspended resumer⟩) :
    s.resume h stack = { s.setFrame h (some ⟨payload, .running⟩) (.body h :: stack) with
      events := s.events ++ [.resumed h] } := by
  rw [resume, hframe]

theorem destroy_eq {resumer : Resumer} (hframe : s.frames h = some ⟨payload, .suspended resumer⟩) :
    s.destroy h stack = s.setFrame h (some ⟨payload, .leaving⟩) (.unwind h :: stack) := by
  rw [destroy, hframe]

theorem waitsFor_iff {source : Source} : s.waitsFor h source ↔
    ∃ payload, s.frames h = some ⟨payload, .suspended (.source source)⟩ := by
  unfold waitsFor
  split
  · next f hf =>
    rw [hf, decide_eq_true_iff]
    constructor
    · intro hstatus
      exact ⟨f.payload, by rw [← hstatus]⟩
    · rintro ⟨payload, hpayload⟩
      rw [Option.some.inj hpayload]
  · next hf => simp [hf]

/-- The stack under a call has no call in it, where the top one may be. -/
theorem runs_iff : s.runs ↔ ∀ a, s.stack.head? = some a →
    (∃ h, a = .body h) ∨ ∃ h, a = .unwind h := by
  unfold runs
  split
  · next hstack => simp [hstack]
  · next hstack => simp [hstack]
  · next hreturn hdestroy =>
    refine iff_of_true rfl fun a ha => ?_
    obtain ⟨stack, hstack⟩ := List.head?_eq_some_iff.mp ha
    cases a with
    | body h => exact .inl ⟨h, rfl⟩
    | unwind h => exact .inr ⟨h, rfl⟩
    | returnValue h v => exact absurd hstack (hreturn h v stack)
    | destroy h => exact absurd hstack (hdestroy h stack)

/-! ### Soundness -/

/-- An activity finds its frame in the status that it needs. -/
def Fits (s : Coroutines) : Activity → Prop
  | .body h => ∃ payload, s.frames h = some ⟨payload, .running⟩
  | .destroy h => ∃ payload, s.frames h = some ⟨payload, .suspended .nobody⟩
  | .unwind h => ∃ payload, s.frames h = some ⟨payload, .leaving⟩
  | .returnValue h _ => ∃ payload status, s.frames h = some ⟨payload, status⟩ ∧ ¬ status.Awake

/-- `h` is going to report to `p`, or is about to. -/
def Reports (s : Coroutines) (h p : Nat) : Prop :=
  ∃ status, s.frames h = some ⟨.handle p, status⟩ ∧
    (status.Awake ∨ ∃ v, s.stack.head? = some (.returnValue h v))

structure Sound (s : Coroutines) : Prop where
  created : ∀ h, s.frames h ≠ none → h < s.created
  parent_lt : ∀ h p status, s.frames h = some ⟨.handle p, status⟩ → p < h
  reports : ∀ h p, s.Reports h p →
    ∃ payload, s.frames p = some ⟨payload, .suspended (.subtask h)⟩
  fits : ∀ a ∈ s.stack, s.Fits a
  nodup : ((s.stack.filter fun a => !a.isCall).map Activity.coroutine).Nodup
  top : ∀ a ∈ s.stack.tail, a.isCall = false
  defined : s.halted ≠ some .undefined

/-! ### What a step does -/

/-- What a step does in a sound state. -/
inductive Moves (s : Coroutines) : Input → Coroutines → Prop
  | abort : Moves s .abort (s.halt .aborted)
  | call : s.runs → Moves s .call (s.start .message s.stack)
  | awaitSubtask {h : Nat} {payload : Payload} {stack : List Activity} :
      s.stack = .body h :: stack → s.frames h = some ⟨payload, .running⟩ →
      Moves s .awaitSubtask
        ((s.setFrame h (some ⟨payload, .suspended (.subtask s.created)⟩) stack).start (.handle h) stack)
  | await {h : Nat} {payload : Payload} {stack : List Activity} {source : Source} :
      s.stack = .body h :: stack → s.frames h = some ⟨payload, .running⟩ →
      Moves s (.await source) (s.setFrame h (some ⟨payload, .suspended (.source source)⟩) stack)
  | wake {h : Nat} {payload : Payload} {source : Source} :
      s.runs → s.frames h = some ⟨payload, .suspended (.source source)⟩ →
      Moves s (.wake h)
        { s.setFrame h (some ⟨payload, .running⟩) (.body h :: s.stack) with
          events := s.events ++ [.resumed h] }
  | methodError {h : Nat} {payload : Payload} {errno : Int} {error : Option BusError} :
      s.runs → s.frames h = some ⟨payload, .suspended (.source .call)⟩ →
      Moves s (.methodError h errno error)
        (s.setFrame h (some ⟨payload, .suspended .nobody⟩)
          (.returnValue h (.status (-errno) error) :: .destroy h :: s.stack))
  | coReturn {h : Nat} {payload : Payload} {stack : List Activity} {v : Returned} :
      s.stack = .body h :: stack → s.frames h = some ⟨payload, .running⟩ →
      Moves s (.coReturn v)
        (s.setFrame h (some ⟨payload, .leaving⟩) (.returnValue h v :: .unwind h :: stack))
  | coYield {h : Nat} {payload : Payload} {stack : List Activity} {code : Int} : code < 0 →
      s.stack = .body h :: stack → s.frames h = some ⟨payload, .running⟩ →
      Moves s (.coYield code)
        (s.setFrame h (some ⟨payload, .suspended .nobody⟩)
          (.returnValue h (.status code none) :: .destroy h :: stack))
  | goOn {code : Int} : ¬ code < 0 → Moves s (.coYield code) s
  /-- The bus does not take the reply, or there is no parent to resume. -/
  | refused {h : Nat} {v : Returned} {stack : List Activity} {sent : Bool} :
      s.stack = .returnValue h v :: stack → Moves s (.proceed sent) (s.halt .aborted)
  | reply {h : Nat} {v : Returned} {status : Status} {stack : List Activity} {sent : Bool} :
      s.stack = .returnValue h v :: stack → s.frames h = some ⟨.message, status⟩ →
      Moves s (.proceed sent) { s with stack, events := s.events ++ v.replies.map (.replied h) }
  | report {h p : Nat} {v : Returned} {payload : Payload} {status : Status} {stack : List Activity}
      {sent : Bool} : v ≠ .unit → s.stack = .returnValue h v :: stack →
      s.frames h = some ⟨.handle p, status⟩ → s.frames p = some ⟨payload, .suspended (.subtask h)⟩ →
      Moves s (.proceed sent)
        (s.setFrame p (some ⟨payload, .suspended .nobody⟩) (.returnValue p v :: .destroy p :: stack))
  | resumeParent {h p : Nat} {payload : Payload} {status : Status} {stack : List Activity}
      {sent : Bool} : s.stack = .returnValue h .unit :: stack →
      s.frames h = some ⟨.handle p, status⟩ → s.frames p = some ⟨payload, .suspended (.subtask h)⟩ →
      Moves s (.proceed sent)
        { s.setFrame p (some ⟨payload, .running⟩) (.body p :: stack) with
          events := s.events ++ [.resumed p] }
  | destroy {h : Nat} {payload : Payload} {stack : List Activity} {sent : Bool} :
      s.stack = .destroy h :: stack → s.frames h = some ⟨payload, .suspended .nobody⟩ →
      Moves s (.proceed sent) (s.setFrame h (some ⟨payload, .leaving⟩) (.unwind h :: stack))
  | destroyLocal {h : Nat} {stack : List Activity} : s.stack = .unwind h :: stack →
      Moves s .destroyLocal { s with events := s.events ++ [.localDestroyed h] }
  | free {h : Nat} {payload : Payload} {stack : List Activity} :
      s.stack = .unwind h :: stack → s.frames h = some ⟨payload, .leaving⟩ →
      Moves s .free { s.setFrame h none stack with events := s.events ++ [.destroyed h] }

theorem Sound.body (hs : s.Sound) (hstack : s.stack = .body h :: stack) :
    ∃ payload, s.frames h = some ⟨payload, .running⟩ :=
  hs.fits (.body h) (by rw [hstack]; exact List.mem_cons_self)

theorem Sound.destroys (hs : s.Sound) (hstack : s.stack = .destroy h :: stack) :
    ∃ payload, s.frames h = some ⟨payload, .suspended .nobody⟩ :=
  hs.fits (.destroy h) (by rw [hstack]; exact List.mem_cons_self)

theorem Sound.unwinds (hs : s.Sound) (hstack : s.stack = .unwind h :: stack) :
    ∃ payload, s.frames h = some ⟨payload, .leaving⟩ :=
  hs.fits (.unwind h) (by rw [hstack]; exact List.mem_cons_self)

theorem Sound.returns {v : Returned} (hs : s.Sound) (hstack : s.stack = .returnValue h v :: stack) :
    ∃ payload status, s.frames h = some ⟨payload, status⟩ ∧ ¬ status.Awake ∧
      ∀ p, payload = .handle p →
        ∃ payload', s.frames p = some ⟨payload', .suspended (.subtask h)⟩ := by
  obtain ⟨payload, status, hframe, hawake⟩ :=
    hs.fits (.returnValue h v) (by rw [hstack]; exact List.mem_cons_self)
  refine ⟨payload, status, hframe, hawake, ?_⟩
  rintro p rfl
  exact hs.reports h p ⟨status, hframe, .inr ⟨v, by rw [hstack]; rfl⟩⟩

/-- What `return_value` does there. -/
theorem Sound.returnValue_moves {v : Returned} {sent : Bool} (hs : s.Sound)
    (hstack : s.stack = .returnValue h v :: stack) :
    Moves s (.proceed sent) (s.returnValue h v sent stack) := by
  obtain ⟨payload, status, hframe, -, hparent⟩ := hs.returns hstack
  rw [returnValue, hframe]
  cases payload with
  | message =>
    cases v with
    | unit => exact .refused hstack
    | error | status =>
      dsimp only
      split_ifs
      · exact .reply hstack hframe
      · exact .refused hstack
  | handle p =>
    obtain ⟨payload, hp⟩ := hparent p rfl
    cases v with
    | unit =>
      dsimp only
      rw [resume_eq hp]
      exact .resumeParent hstack hframe hp
    | error | status =>
      dsimp only
      rw [giveUp_eq hp]
      exact .report nofun hstack hframe hp

theorem Sound.moves (hs : s.Sound) (h : s.step i = some s') : Moves s i s' := by
  unfold step at h
  split at h
  · nomatch h
  · split at h
    · split_ifs at h with hruns
      cases h
      exact .call hruns
    · next h' stack hstack =>
      cases h
      obtain ⟨payload, hframe⟩ := hs.body hstack
      rw [suspend_eq hframe]
      exact .awaitSubtask hstack hframe
    · next source h' stack hstack =>
      cases h
      obtain ⟨payload, hframe⟩ := hs.body hstack
      rw [suspend_eq hframe]
      exact .await hstack hframe
    · next h' =>
      split_ifs at h with hruns
      cases h
      obtain ⟨hruns, hwaits⟩ := hruns
      obtain ⟨source, payload, hframe⟩ :
          ∃ source payload, s.frames h' = some ⟨payload, .suspended (.source source)⟩ := by
        rcases hwaits with hwaits | hwaits | hwaits <;> exact ⟨_, waitsFor_iff.mp hwaits⟩
      rw [resume_eq hframe]
      exact .wake hruns hframe
    · next h' errno error =>
      split_ifs at h with hruns
      cases h
      obtain ⟨payload, hframe⟩ := waitsFor_iff.mp hruns.2
      rw [giveUp_eq hframe]
      exact .methodError hruns.1 hframe
    · next v h' stack hstack =>
      cases h
      obtain ⟨payload, hframe⟩ := hs.body hstack
      rw [hframe]
      exact .coReturn hstack hframe
    · next code h' stack hstack =>
      obtain ⟨payload, hframe⟩ := hs.body hstack
      split_ifs at h with hcode
      · cases h
        rw [suspend_eq hframe, giveUp_eq frames_setFrame_self, setFrame_setFrame]
        exact .coYield hcode hstack hframe
      · cases h
        exact .goOn hcode
    · next sent h' v stack hstack =>
      cases h
      exact hs.returnValue_moves hstack
    · next sent h' stack hstack =>
      cases h
      obtain ⟨payload, hframe⟩ := hs.destroys hstack
      rw [destroy_eq hframe]
      exact .destroy hstack hframe
    · next h' stack hstack =>
      cases h
      exact .destroyLocal hstack
    · next h' stack hstack =>
      cases h
      obtain ⟨payload, hframe⟩ := hs.unwinds hstack
      exact .free hstack hframe
    · split_ifs at h
      cases h
      exact .abort
    · nomatch h

/-! ### Steps keep soundness -/

theorem Fits.congr (hfits : s.Fits a) (hframe : s'.frames a.coroutine = s.frames a.coroutine) :
    s'.Fits a := by
  cases a <;> simp only [Activity.coroutine] at hframe <;> simpa only [Fits, hframe] using hfits

theorem Sound.rest_of_cons (hs : s.Sound) (hstack : s.stack = a :: rest) (ha : a.isCall = false) :
    ∀ b ∈ rest, b.isCall = false ∧ b.coroutine ≠ a.coroutine := by
  intro b hb
  have hcall : b.isCall = false := hs.top b (by rw [hstack]; exact hb)
  refine ⟨hcall, fun heq => ?_⟩
  have hnodup := hs.nodup
  rw [hstack, List.filter_cons_of_pos (by rw [ha]; rfl), List.map_cons] at hnodup
  refine (List.nodup_cons.mp hnodup).1 (heq ▸ List.mem_map_of_mem ?_)
  exact List.mem_filter.mpr ⟨hb, by rw [hcall]; rfl⟩

/-- What somebody is going to resume is not on the stack. -/
theorem Sound.coroutine_ne (hs : s.Sound) (hframe : s.frames c = some ⟨payload, status⟩)
    (hawake : status.Awake) (hrunning : status ≠ .running) : ∀ b ∈ s.stack, b.coroutine ≠ c := by
  rintro b hb rfl
  have hfits : s.Fits b := hs.fits b hb
  cases b with
  | body h =>
    obtain ⟨payload', hframe'⟩ := hfits
    cases hframe.symm.trans hframe'
    exact hrunning rfl
  | destroy h =>
    obtain ⟨payload', hframe'⟩ := hfits
    exact not_awake_of_frame hframe' not_awake_nobody ⟨_, _, hframe, hawake⟩
  | unwind h =>
    obtain ⟨payload', hframe'⟩ := hfits
    exact not_awake_of_frame hframe' not_awake_leaving ⟨_, _, hframe, hawake⟩
  | returnValue h v =>
    obtain ⟨payload', status', hframe', hawake'⟩ := hfits
    exact not_awake_of_frame hframe' hawake' ⟨_, _, hframe, hawake⟩

theorem Sound.isCall_of_runs (hs : s.Sound) (hruns : s.runs) : ∀ b ∈ s.stack, b.isCall = false := by
  intro b hb
  cases hstack : s.stack with
  | nil => rw [hstack] at hb; nomatch hb
  | cons a rest =>
    rw [hstack] at hb
    rcases List.mem_cons.mp hb with rfl | hb
    · rcases runs_iff.mp hruns b (by rw [hstack]; rfl) with ⟨h, rfl⟩ | ⟨h, rfl⟩ <;> rfl
    · exact hs.top b (by rw [hstack]; exact hb)

/-- A coroutine that waits has nothing on the stack when it is resumed. -/
theorem Sound.rest_of_runs (hs : s.Sound) (hruns : s.runs) {source : Source}
    (hframe : s.frames c = some ⟨payload, .suspended (.source source)⟩) :
    ∀ b ∈ s.stack, b.isCall = false ∧ b.coroutine ≠ c := fun b hb =>
  ⟨hs.isCall_of_runs hruns b hb, hs.coroutine_ne hframe (awake_source source) nofun b hb⟩

theorem Sound.rest_of_returns {v : Returned} {child : Nat} (hs : s.Sound)
    (hstack : s.stack = .returnValue h v :: rest)
    (hframe : s.frames c = some ⟨payload, .suspended (.subtask child)⟩) :
    ∀ b ∈ rest, b.isCall = false ∧ b.coroutine ≠ c := fun b hb =>
  ⟨hs.top b (by rw [hstack]; exact hb),
    hs.coroutine_ne hframe (awake_subtask child) nofun b
      (by rw [hstack]; exact List.mem_cons_of_mem _ hb)⟩

/-- The child that has reported is not going to be resumed. -/
theorem Sound.child_of_returns {v : Returned} (hs : s.Sound)
    (hstack : s.stack = .returnValue h v :: stack) :
    ∀ child, Status.suspended (.subtask h) = .suspended (.subtask child) → ¬ s.Awake child := by
  rintro child hchild
  cases hchild
  obtain ⟨_, _, hframe, hawake, -⟩ := hs.returns hstack
  exact not_awake_of_frame hframe hawake

/-- What is about to report and to be destroyed. -/
theorem fits_giveUp (hframe : s.frames h = some ⟨payload, .suspended .nobody⟩) (v : Returned) :
    ∀ a ∈ [Activity.returnValue h v, .destroy h], a.coroutine = h ∧ s.Fits a := by
  intro a ha
  rcases List.mem_cons.mp ha with rfl | ha
  · exact ⟨rfl, payload, _, hframe, not_awake_nobody⟩
  · rw [List.mem_singleton.mp ha]
    exact ⟨rfl, payload, hframe⟩

/-- What has ended, behind which its locals are destroyed. -/
theorem fits_return (hframe : s.frames h = some ⟨payload, .leaving⟩) (v : Returned) :
    ∀ a ∈ [Activity.returnValue h v, .unwind h], a.coroutine = h ∧ s.Fits a := by
  intro a ha
  rcases List.mem_cons.mp ha with rfl | ha
  · exact ⟨rfl, payload, _, hframe, not_awake_leaving⟩
  · rw [List.mem_singleton.mp ha]
    exact ⟨rfl, payload, hframe⟩

/-- One frame goes from `status` to `next`, or is freed, and `new` comes for `old` on top
of the stack. -/
structure Turn (s s' : Coroutines) (c : Nat) (payload : Payload) (status : Status)
    (next : Option Status) (old new rest : List Activity) : Prop where
  frame : s.frames c = some ⟨payload, status⟩
  stack : s.stack = old ++ rest
  under : ∀ a ∈ rest, a.isCall = false ∧ a.coroutine ≠ c
  fits : ∀ a ∈ new, a.coroutine = c ∧ s'.Fits a
  frames : s'.frames = Function.update s.frames c (next.map fun st => ⟨payload, st⟩) := by rfl
  stack' : s'.stack = new ++ rest := by rfl
  created : s'.created = s.created := by rfl
  halted : s'.halted = s.halted := by rfl
  one : (new.filter fun a => !a.isCall).length ≤ 1 := by simp [Activity.isCall]
  tail : ∀ a ∈ new.tail, a.isCall = false := by simp [Activity.isCall]
  awake : ∀ st, next = some st → st.Awake → status.Awake := by simp
  returns : ∀ v, .returnValue c v ∈ new → status.Awake := by simp
  child : ∀ child, status = .suspended (.subtask child) → ¬ s.Awake child := by simp

namespace Turn

variable {next : Option Status}

theorem frames_self (h : Turn s s' c payload status next old new rest) :
    s'.frames c = next.map fun st => ⟨payload, st⟩ := by
  rw [h.frames, Function.update_self]

theorem frames_of_ne {d : Nat} (h : Turn s s' c payload status next old new rest) (hne : d ≠ c) :
    s'.frames d = s.frames d := by
  rw [h.frames, Function.update_of_ne hne]

theorem mem_new_of_head {d : Nat} {v : Returned} (h : Turn s s' c payload status next old new rest)
    (hhead : s'.stack.head? = some (.returnValue d v)) : .returnValue d v ∈ new := by
  rw [h.stack'] at hhead
  cases new with
  | nil => nomatch (h.under _ (List.mem_of_mem_head? hhead)).1
  | cons a new => cases hhead; exact List.mem_cons_self

/-- The frame itself reports as it did. -/
theorem reports_self (h : Turn s s' c payload status next old new rest) (hs : s.Sound)
    (hreports : s'.Reports c p) :
    ∃ payload', s'.frames p = some ⟨payload', .suspended (.subtask c)⟩ := by
  obtain ⟨st, hp, hor⟩ := hreports
  obtain ⟨st', hnext, hst⟩ := Option.map_eq_some_iff.mp (h.frames_self.symm.trans hp)
  cases hst
  have hstatus : status.Awake := by
    rcases hor with hst | ⟨v, hv⟩
    · exact h.awake st hnext hst
    · exact h.returns v (h.mem_new_of_head hv)
  have hlt : p < c := hs.parent_lt c p status h.frame
  obtain ⟨payload', hparent⟩ := hs.reports c p ⟨status, h.frame, .inl hstatus⟩
  exact ⟨payload', (h.frames_of_ne (Nat.ne_of_lt hlt)).trans hparent⟩

/-- Another frame does not report to this one. -/
theorem reports_of_ne {d : Nat} (h : Turn s s' c payload status next old new rest) (hs : s.Sound)
    (hne : d ≠ c) (hreports : s'.Reports d p) :
    ∃ payload', s'.frames p = some ⟨payload', .suspended (.subtask d)⟩ := by
  obtain ⟨st, hp, hor⟩ := hreports
  have hframe : s.frames d = some ⟨.handle p, st⟩ := (h.frames_of_ne hne).symm.trans hp
  have hst : st.Awake := by
    rcases hor with hst | ⟨v, hv⟩
    · exact hst
    · exact absurd (h.fits _ (h.mem_new_of_head hv)).1 hne
  obtain ⟨payload', hparent⟩ := hs.reports d p ⟨st, hframe, .inl hst⟩
  refine ⟨payload', (h.frames_of_ne ?_).trans hparent⟩
  rintro rfl
  cases h.frame.symm.trans hparent
  exact h.child d rfl ⟨_, _, hframe, hst⟩

theorem nodup (h : Turn s s' c payload status next old new rest) (hs : s.Sound) :
    ((s'.stack.filter fun a => !a.isCall).map Activity.coroutine).Nodup := by
  have hnodup := hs.nodup
  rw [h.stack, List.filter_append, List.map_append] at hnodup
  rw [h.stack', List.filter_append, List.map_append]
  refine List.nodup_append.mpr ⟨?_, (List.nodup_append.mp hnodup).2.1, ?_⟩
  · have hone := h.one
    generalize new.filter (fun a => !a.isCall) = l at hone
    match l with
    | [] => exact List.nodup_nil
    | [a] => exact List.pairwise_singleton _ _
    | a :: b :: l => simp at hone
  · rintro _ hx _ hy rfl
    obtain ⟨a, ha, rfl⟩ := List.mem_map.mp hx
    obtain ⟨b, hb, heq⟩ := List.mem_map.mp hy
    refine (h.under b (List.mem_filter.mp hb).1).2 (heq.trans ?_)
    exact (h.fits a (List.mem_filter.mp ha).1).1

theorem top (h : Turn s s' c payload status next old new rest) :
    ∀ a ∈ s'.stack.tail, a.isCall = false := by
  intro a ha
  rw [h.stack'] at ha
  cases new with
  | nil => exact (h.under a (List.mem_of_mem_tail ha)).1
  | cons b new =>
    rcases List.mem_append.mp ha with ha | ha
    · exact h.tail a ha
    · exact (h.under a ha).1

theorem sound (h : Turn s s' c payload status next old new rest) (hs : s.Sound) : s'.Sound where
  created d hne := by
    rw [h.created]
    by_cases hd : d = c
    · exact hs.created d (by rw [hd, h.frame]; exact Option.some_ne_none _)
    · exact hs.created d (h.frames_of_ne hd ▸ hne)
  parent_lt d p st hp := by
    by_cases hd : d = c
    · subst hd
      obtain ⟨st', -, hst⟩ := Option.map_eq_some_iff.mp (h.frames_self.symm.trans hp)
      cases hst
      exact hs.parent_lt d p status h.frame
    · exact hs.parent_lt d p st ((h.frames_of_ne hd).symm.trans hp)
  reports d p hreports := by
    by_cases hd : d = c
    · subst hd
      exact h.reports_self hs hreports
    · exact h.reports_of_ne hs hd hreports
  fits a ha := by
    rw [h.stack'] at ha
    rcases List.mem_append.mp ha with ha | ha
    · exact (h.fits a ha).2
    · exact (hs.fits a (h.stack ▸ List.mem_append_right _ ha)).congr (h.frames_of_ne (h.under a ha).2)
  nodup := h.nodup hs
  top := h.top
  defined := h.halted ▸ hs.defined

end Turn

/-- A new coroutine, whose parent, if it has one, is suspended for it. -/
theorem Sound.start (hs : s.Sound) (hcalls : ∀ a ∈ s.stack, a.isCall = false)
    (hparent : ∀ p, payload = .handle p → p < s.created ∧
      ∃ payload', s.frames p = some ⟨payload', .suspended (.subtask s.created)⟩) :
    (s.start payload s.stack).Sound := by
  have hnew : s.frames s.created = none := by
    by_contra hne
    exact Nat.lt_irrefl _ (hs.created _ hne)
  have hself : (s.start payload s.stack).frames s.created = some ⟨payload, .running⟩ :=
    Function.update_self ..
  have hother : ∀ {c}, c ≠ s.created → (s.start payload s.stack).frames c = s.frames c :=
    fun hne => Function.update_of_ne hne ..
  have hold : ∀ a ∈ s.stack, a.coroutine ≠ s.created := by
    intro a ha heq
    have hfits := hs.fits a ha
    cases a <;> simp_all [Fits, Activity.coroutine]
  refine ⟨?_, ?_, ?_, ?_, ?_, fun a ha => hcalls a ha, hs.defined⟩
  · intro h hne
    by_cases hc : h = s.created
    · exact hc ▸ Nat.lt_succ_self _
    · exact Nat.lt_succ_of_lt (hs.created h fun hnone => hne ((hother hc).trans hnone))
  · intro h p st hp
    by_cases hc : h = s.created
    · subst hc
      cases hself.symm.trans hp
      exact (hparent p rfl).1
    · exact hs.parent_lt h p st ((hother hc).symm.trans hp)
  · rintro h p ⟨st, hp, hor⟩
    by_cases hc : h = s.created
    · subst hc
      cases hself.symm.trans hp
      obtain ⟨hlt, payload', hp'⟩ := hparent p rfl
      exact ⟨payload', (hother (Nat.ne_of_lt hlt)).trans hp'⟩
    · have hframe : s.frames h = some ⟨.handle p, st⟩ := (hother hc).symm.trans hp
      have hst : st.Awake := hor.resolve_right fun ⟨v, hv⟩ => nomatch hv
      obtain ⟨payload', hp'⟩ := hs.reports h p ⟨st, hframe, .inl hst⟩
      refine ⟨payload', (hother ?_).trans hp'⟩
      rintro rfl
      exact Option.some_ne_none _ (hp'.symm.trans hnew)
  · intro a ha
    rcases List.mem_cons.mp ha with rfl | ha
    · exact ⟨payload, hself⟩
    · exact (hs.fits a ha).congr (hother (hold a ha))
  · change (((Activity.body s.created :: s.stack).filter fun a => !a.isCall).map
      Activity.coroutine).Nodup
    rw [List.filter_cons_of_pos rfl, List.map_cons, List.nodup_cons]
    refine ⟨fun hmem => ?_, hs.nodup⟩
    obtain ⟨a, ha, heq⟩ := List.mem_map.mp hmem
    exact hold a (List.mem_filter.mp ha).1 heq

/-- The frames stay, and at most the top of the stack goes. -/
theorem Sound.pop (hs : s.Sound) (hframes : s'.frames = s.frames) (hcreated : s'.created = s.created)
    (hstack : s.stack = s'.stack ∨ ∃ a, s.stack = a :: s'.stack)
    (hhalted : s'.halted ≠ some .undefined) : s'.Sound := by
  have hsuffix : s'.stack <:+ s.stack := by
    rcases hstack with hstack | ⟨a, hstack⟩
    · exact hstack ▸ List.suffix_rfl
    · exact hstack ▸ List.suffix_cons a _
  refine ⟨?_, ?_, ?_, ?_, ?_, ?_, hhalted⟩
  · rw [hframes, hcreated]
    exact hs.created
  · rw [hframes]
    exact hs.parent_lt
  · rintro h p ⟨st, hp, hor⟩
    rw [hframes] at hp ⊢
    refine hs.reports h p ⟨st, hp, hor.imp_right ?_⟩
    rintro ⟨v, hv⟩
    rcases hstack with hstack | ⟨a, hstack⟩
    · exact ⟨v, hstack ▸ hv⟩
    · have hcall : Activity.isCall (.returnValue h v) = false :=
        hs.top _ (by rw [hstack]; exact List.mem_of_mem_head? hv)
      nomatch hcall
  · intro a ha
    exact (hs.fits a (hsuffix.subset ha)).congr (congrFun hframes _)
  · exact hs.nodup.sublist ((hsuffix.sublist.filter _).map _)
  · intro a ha
    rcases hstack with hstack | ⟨b, hstack⟩
    · exact hs.top a (hstack ▸ ha)
    · exact hs.top a (by rw [hstack]; exact List.mem_of_mem_tail ha)

theorem Sound.keep (hs : s.Sound) (h : Moves s i s') : s'.Sound := by
  cases h with
  | abort => exact hs.pop rfl rfl (.inl rfl) nofun
  | refused _ => exact hs.pop rfl rfl (.inl rfl) nofun
  | call hruns => exact hs.start (hs.isCall_of_runs hruns) nofun
  | @awaitSubtask h payload stack hstack hframe =>
    have hunder := hs.rest_of_cons hstack rfl
    have turn : Turn s (s.setFrame h (some ⟨payload, .suspended (.subtask s.created)⟩) stack) h payload
        .running (some (.suspended (.subtask s.created))) [.body h] [] stack :=
      { frame := hframe, stack := hstack, under := hunder, fits := by simp }
    refine (turn.sound hs).start (fun a ha => (hunder a ha).1) ?_
    intro p hp
    cases hp
    exact ⟨hs.created h (by rw [hframe]; exact Option.some_ne_none _), payload, frames_setFrame_self⟩
  | @await h payload stack source hstack hframe =>
    refine Turn.sound (?_ : Turn s _ h payload .running (some (.suspended (.source source)))
      [.body h] [] stack) hs
    exact { frame := hframe, stack := hstack, under := hs.rest_of_cons hstack rfl, fits := by simp }
  | @wake h payload source hruns hframe =>
    refine Turn.sound (?_ : Turn s _ h payload (.suspended (.source source)) (some .running)
      [] [.body h] s.stack) hs
    exact
      { frame := hframe, stack := rfl, under := hs.rest_of_runs hruns hframe
        fits := by simp [Activity.coroutine, Fits] }
  | @methodError h payload errno error hruns hframe =>
    refine Turn.sound (?_ : Turn s _ h payload (.suspended (.source .call)) (some (.suspended .nobody))
      [] [.returnValue h (.status (-errno) error), .destroy h] s.stack) hs
    exact
      { frame := hframe, stack := rfl, under := hs.rest_of_runs hruns hframe
        fits := fits_giveUp frames_setFrame_self _ }
  | @coReturn h payload stack v hstack hframe =>
    refine Turn.sound (?_ : Turn s _ h payload .running (some .leaving)
      [.body h] [.returnValue h v, .unwind h] stack) hs
    exact
      { frame := hframe, stack := hstack, under := hs.rest_of_cons hstack rfl
        fits := fits_return frames_setFrame_self _ }
  | @coYield h payload stack code hcode hstack hframe =>
    refine Turn.sound (?_ : Turn s _ h payload .running (some (.suspended .nobody))
      [.body h] [.returnValue h (.status code none), .destroy h] stack) hs
    exact
      { frame := hframe, stack := hstack, under := hs.rest_of_cons hstack rfl
        fits := fits_giveUp frames_setFrame_self _ }
  | goOn _ => exact hs
  | reply hstack _ => exact hs.pop rfl rfl (.inr ⟨_, hstack⟩) hs.defined
  | @report h p v payload status stack sent hv hstack hframe hp =>
    refine Turn.sound (?_ : Turn s _ p payload (.suspended (.subtask h)) (some (.suspended .nobody))
      [.returnValue h v] [.returnValue p v, .destroy p] stack) hs
    exact
      { frame := hp, stack := hstack, under := hs.rest_of_returns hstack hp
        fits := fits_giveUp frames_setFrame_self _
        child := hs.child_of_returns hstack }
  | @resumeParent h p payload status stack sent hstack hframe hp =>
    refine Turn.sound (?_ : Turn s _ p payload (.suspended (.subtask h)) (some .running)
      [.returnValue h .unit] [.body p] stack) hs
    exact
      { frame := hp, stack := hstack, under := hs.rest_of_returns hstack hp
        fits := by simp [Activity.coroutine, Fits]
        child := hs.child_of_returns hstack }
  | @destroy h payload stack sent hstack hframe =>
    refine Turn.sound (?_ : Turn s _ h payload (.suspended .nobody) (some .leaving)
      [.destroy h] [.unwind h] stack) hs
    exact
      { frame := hframe, stack := hstack, under := hs.rest_of_cons hstack rfl
        fits := by simp [Activity.coroutine, Fits] }
  | destroyLocal hstack => exact hs.pop rfl rfl (.inl rfl) hs.defined
  | @free h payload stack hstack hframe =>
    refine Turn.sound (?_ : Turn s _ h payload .leaving none [.unwind h] [] stack) hs
    exact { frame := hframe, stack := hstack, under := hs.rest_of_cons hstack rfl, fits := by simp }

theorem sound_init : init.Sound where
  created _ hne := absurd rfl hne
  parent_lt _ _ _ hp := nomatch hp
  reports := by
    rintro h p ⟨st, hp, -⟩
    nomatch hp
  fits _ ha := nomatch ha
  nodup := List.nodup_nil
  top _ ha := nomatch ha
  defined := nofun

theorem Sound.reaches (hs : s.Sound) (h : machine.Reaches Machine.Always s s') : s'.Sound :=
  h.invariant hs fun _ _ _ ht _ hi => ht.keep (ht.moves hi)

/-- No run uses a frame that is gone, or resumes or destroys one that is not suspended. -/
theorem sound_of_reaches (h : machine.Reaches Machine.Always init s) : s.Sound :=
  sound_init.reaches h

end Coroutines

end Nonsense
