import Nonsense.Daemon.Basic
import Nonsense.Entity.Steps
import Nonsense.Lib.OrdMap
import Nonsense.Transactions.Effects

/-!
# What one step of the daemon can do

`step_cases` takes a step apart into the four things that happen: a request comes
in, a call to the transaction manager is served, the innermost frame of a chain
has its turn, or a frame is destroyed.  `turn_cases` and `drop_cases` go on from
there.
-/

namespace Nonsense

/-- The chain after a turn, if there is anything left of it. -/
def Chain.settled (chain : Chain) : Control → Option Chain
  | .goto pc | .suspend pc => some (chain.goTo pc)
  | .call child => some (chain.enter child)
  | .done =>
    match chain.awaiting with
    | [] => none
    | parent :: awaiting => some (chain.back parent awaiting)
  | .fail _ => none

namespace Daemon

variable {parse : String → Option Json} {d d' : Daemon} {i : Input}

/-- The chain `id` has its turn with the outcome `o`, on top of `stack`. -/
inductive Turns (d : Daemon) : Input → Nat → Outcome → List Activity → Prop
  | wake {id : Nat} {o : Outcome} {chain : Chain} : d.stack = [] →
      d.chains.find id = some chain → awaitsMessage chain.frame.pc = true →
      Turns d (.wake id o) id o []
  | tick {id : Nat} {o : Outcome} {stack : List Activity} : d.stack = .run id :: stack →
      Turns d (.tick o) id o stack

/-- A frame has its turn at such a point, and with such an outcome. -/
def TurnAt (d : Daemon) (i : Input) (P : Pc → Outcome → Prop) : Prop :=
  ∃ id o stack chain, Turns d i id o stack ∧ d.chains.find id = some chain ∧ P chain.frame.pc o

/-- What the input says of an external call. -/
def Input.outcome : Input → Outcome
  | wake _ o | tick o => o
  | _ => .ok

theorem Turns.outcome {id : Nat} {o : Outcome} {stack : List Activity} (h : Turns d i id o stack) :
    i.outcome = o := by
  cases h <;> rfl

inductive Step (parse : String → Option Json) (d : Daemon) : Input → Daemon → Prop
  | request {method : Method} {parsed : Except Failure String} : d.stack = [] →
      Step parse d (.request method parsed) (d.request method parsed)
  | call {call : Call} {manager : Transactions} {replies : List Reply} : d.stack = [] →
      d.world.manager.serve parse call = some (.replied manager replies) →
      Step parse d (.call call) ({ d with
        world := { d.world with manager }
        nextId := d.nextId + 1 }.send d.nextId none replies)
  | turn {i : Input} {id : Nat} {o : Outcome} {stack : List Activity} {chain : Chain}
      {world : World} {control : Control} : Turns d i id o stack →
      d.chains.find id = some chain → resumeFrame d.world id chain.frame o = some (world, control) →
      Step parse d i (d.settle world id chain stack control)
  | drop {o : Outcome} {id : Nat} {name : String} {stack : List Activity} {d' : Daemon} :
      d.stack = .drop id name :: stack → d.drop name stack = some d' → Step parse d (.tick o) d'

theorem turn_of_resume {id : Nat} {o : Outcome} {stack : List Activity}
    (hi : Turns d i id o stack) (h : d.resume id o stack = some d') : Step parse d i d' := by
  unfold resume at h
  split at h
  · cases h
  · rename_i chain hchain
    obtain ⟨⟨world, control⟩, hframe, he⟩ := Option.map_eq_some_iff.mp h
    cases he
    exact .turn hi hchain hframe

/-- **What a step does.** -/
theorem step_cases (h : (machine parse).step d i = some d') : Step parse d i d' := by
  change step parse d i = some d' at h
  unfold step at h
  split at h
  · rename_i hs
    cases h
    exact .request hs
  · rename_i hs
    unfold call at h
    split at h
    · rename_i manager replies hserve
      cases h
      exact .call hs hserve
    · cases h
  · rename_i id o hs
    split at h
    · rename_i chain hchain
      split at h
      · rename_i hawaits
        exact turn_of_resume (.wake hs hchain hawaits) h
      · cases h
    · cases h
  · rename_i hs
    exact turn_of_resume (.tick hs) h
  · rename_i hs
    exact .drop hs h
  · cases h

/-- A turn that is given goes through with what the frame does. -/
theorem step_of_turns {id : Nat} {o : Outcome} {stack : List Activity} {chain : Chain}
    (hi : Turns d i id o stack) (hchain : d.chains.find id = some chain)
    (h : (machine parse).step d i = some d') :
    ∃ world control, resumeFrame d.world id chain.frame o = some (world, control) ∧
      d.settle world id chain stack control = d' := by
  have hresume : d.resume id o stack = some d' := by
    change step parse d i = some d' at h
    cases hi with
    | wake hs hchain' hawaits => simpa [step, hs, hchain', hawaits] using h
    | tick hs => simpa [step, hs] using h
  simp only [resume, hchain] at hresume
  obtain ⟨⟨world, control⟩, hframe, he⟩ := Option.map_eq_some_iff.mp hresume
  exact ⟨world, control, hframe, he⟩

/-! ### Turns -/

/-- What the turn of a frame does. -/
inductive Turn (w : World) (id : Nat) (frame : Frame) (o : Outcome) : World → Control → Prop
  | taken : frame.pc = .enqueue → (w.queues frame.entity.name).held = false →
      Turn w id frame o
        (w.setQueue frame.entity.name
          { held := true, queue := (w.queues frame.entity.name).queue })
        (.goto frame.method.entry)
  | queued : frame.pc = .enqueue → (w.queues frame.entity.name).held = true →
      Turn w id frame o
        (w.setQueue frame.entity.name
          { held := true, queue := (w.queues frame.entity.name).queue ++ [id] })
        (.suspend .waiting)
  | start {pc : StartPc} {w' : World} {control : Control} : frame.pc = .start pc →
      Entity.StartStep w frame.entity pc o w' control → Turn w id frame o w' control
  | stop {pc : StopPc} {w' : World} {control : Control} : frame.pc = .stop pc →
      Entity.StopStep w frame.entity pc o w' control → Turn w id frame o w' control

theorem turn_cases {w w' : World} {id : Nat} {frame : Frame} {o : Outcome} {control : Control}
    (h : resumeFrame w id frame o = some (w', control)) : Turn w id frame o w' control := by
  unfold resumeFrame at h
  split at h
  · rename_i hpc
    simp only [Entity.enqueue, Queue.awaitReady, Queue.awaitResume, Queue.awaitSuspend] at h
    cases hq : (w.queues frame.entity.name).held with
    | false =>
      simp only [hq, Bool.not_false, if_true, Bool.false_eq_true, if_false, Option.map_some] at h
      cases h
      exact .taken hpc hq
    | true =>
      simp only [hq, Bool.not_true, Bool.false_eq_true, if_false, if_true, Option.map_some] at h
      cases h
      exact .queued hpc hq
  · rename_i pc hpc
    exact .start hpc (Entity.start_step h)
  · rename_i pc hpc
    exact .stop hpc (Entity.stop_step h)
  · cases h

/-! ### Destruction -/

/-- What the destruction of a frame with the token of `name` does. -/
inductive Dropped (d : Daemon) (name : String) (stack : List Activity) : Daemon → Prop
  | freed : (d.world.queues name).held = true → (d.world.queues name).queue = [] →
      Dropped d name stack { d with
        world := d.world.setQueue name { held := false, queue := [] }
        stack }
  | handed {id : Nat} {chain : Chain} {queue : List Nat} : (d.world.queues name).held = true →
      (d.world.queues name).queue = id :: queue → d.chains.find id = some chain →
      chain.frame.pc = .waiting →
      Dropped d name stack { d with
        world := d.world.setQueue name { held := true, queue }
        chains := d.chains.insert id (chain.goTo chain.frame.method.entry)
        stack := .run id :: stack }

theorem drop_cases {name : String} {stack : List Activity} (h : d.drop name stack = some d') :
    Dropped d name stack d' := by
  unfold drop at h
  unfold Queue.release at h
  cases hheld : (d.world.queues name).held with
  | false => simp [hheld] at h
  | true =>
    cases hqueue : (d.world.queues name).queue with
    | nil =>
      simp only [hheld, hqueue, if_true] at h
      cases h
      exact .freed hheld hqueue
    | cons id queue =>
      simp only [hheld, hqueue, if_true, Queue.awaitResume, Bool.false_eq_true, if_false] at h
      cases hchain : d.chains.find id with
      | none => simp [hchain] at h
      | some chain =>
        simp only [hchain] at h
        split at h
        · rename_i hpc
          cases h
          exact .handed hheld hqueue hchain hpc
        · cases h

/-! ### Where a turn leaves the daemon -/

variable {w : World} {id k : Nat} {chain : Chain} {stack : List Activity} {control : Control}

theorem find_settle :
    (d.settle w id chain stack control).chains.find k =
      if k = id then chain.settled control else d.chains.find k := by
  cases control with
  | goto pc => exact OrdMap.find_insert ..
  | suspend pc => exact OrdMap.find_insert ..
  | call child => exact OrdMap.find_insert ..
  | done =>
    unfold settle Chain.settled
    cases chain.awaiting with
    | nil => exact OrdMap.find_erase ..
    | cons parent awaiting => exact OrdMap.find_insert ..
  | fail replies => exact OrdMap.find_erase ..

@[simp] theorem send_world {request : Option (Method × String)} {replies : List Reply} :
    (d.send id request replies).world = d.world := rfl

@[simp] theorem send_chains {request : Option (Method × String)} {replies : List Reply} :
    (d.send id request replies).chains = d.chains := rfl

@[simp] theorem send_stack {request : Option (Method × String)} {replies : List Reply} :
    (d.send id request replies).stack = d.stack := rfl

@[simp] theorem send_nextId {request : Option (Method × String)} {replies : List Reply} :
    (d.send id request replies).nextId = d.nextId := rfl

@[simp] theorem request_world {method : Method} {parsed : Except Failure String} :
    (d.request method parsed).world = d.world := by
  unfold request
  split
  · rfl
  · split <;> rfl

@[simp] theorem settle_world : (d.settle w id chain stack control).world = w := by
  unfold settle
  split
  · rfl
  · rfl
  · rfl
  · split <;> rfl
  · rfl

@[simp] theorem settle_nextId : (d.settle w id chain stack control).nextId = d.nextId := by
  unfold settle
  split
  · rfl
  · rfl
  · rfl
  · split <;> rfl
  · rfl

end Daemon

end Nonsense
