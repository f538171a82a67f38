import Nonsense.Daemon.Holders
import Nonsense.Lib.Potential

/-!
# The work that is left

A request that is under way has so many turns left, whatever its external calls come to:
`work` counts them, with one for the destruction of each frame.  A start that has not yet
looked for its uplink has the start of the uplink before it, and that of the uplink's own
uplink, and so on; in an acyclic configuration these come to an end (`startWork_uplink`).

Waiting for a bus that is still being opened is a loop without a bound, so such a turn is
free.  Every other step that serves what is under way costs something (`step_work`).
-/

namespace Nonsense

/-! ### The turns of a frame -/

/-- The calls that are left, with this one. -/
def Setup.left : Setup → ℕ
  | setFd => 5
  | setBusClient => 4
  | registerBus => 3
  | busStart => 2
  | process => 1

/-- The turns for the units after this one. -/
def SystemdUnit.left : SystemdUnit → ℕ
  | slice => 3
  | scope => 0

/-- The turns that are left of a start of an entity with `n` components; `climb` is the
work of starting its uplink. -/
def StartPc.work (n climb : ℕ) : StartPc → ℕ
  | check => 2 * n + 16 + climb
  | socketpair => 2 * n + 15
  | fork => 2 * n + 14
  | busNew _ => 2 * n + 13
  | setup _ call => 2 * n + 7 + call.left
  | startUnit _ unit => 2 * n + 4 + unit.left
  | unitReply _ unit => 2 * n + 3 + unit.left
  | unitJob _ unit => 2 * n + 2 + unit.left
  | components _ rest => 2 * rest.length + 1
  | added _ _ rest => 2 * rest.length + 2

def StopPc.work : StopPc → ℕ
  | find => 7
  | shutdown _ => 6
  | waitpid _ => 5
  | erase => 4
  | stopUnit => 3
  | stopReply => 2
  | stopJob => 1

def Pc.work (n climb : ℕ) (method : Method) : Pc → ℕ
  | start pc => pc.work n climb
  | stop pc => pc.work
  | waiting => 1 + match method with
    | .start => StartPc.check.work n climb
    | .stop => StopPc.find.work
  | enqueue => 2 + match method with
    | .start => StartPc.check.work n climb
    | .stop => StopPc.find.work

/-! ### The work of a start -/

namespace Config

/-- The entities from `name` on, along the uplinks. -/
def uplinks (tree : Object) (name : String) : List String :=
  passed (uplinkOf tree) tree.length name

/-- One frame that starts `name`, with its destruction. -/
def frameWork (tree : Object) (name : String) : ℕ :=
  2 * ((tree.find name).getD .null).items.length + 19

/-- The start of `name`, with what is started before it. -/
def startWork (tree : Object) (name : String) : ℕ :=
  ((uplinks tree name).map (frameWork tree)).sum

variable {tree : Object} {name u : String}

theorem uplinks_eq {l : List String} (h : Trail (uplinkOf tree) name l) : uplinks tree name = l := by
  have hdomain : ∀ k, (uplinkOf tree k).isSome → k ∈ tree.keys := by
    intro k hk
    obtain ⟨u, hu⟩ := Option.isSome_iff_exists.mp hk
    obtain ⟨e, he, -⟩ := Option.bind_eq_some_iff.mp hu
    exact OrdMap.mem_keys_iff.mpr ⟨e, he⟩
  have hle := h.length_le hdomain
  rw [OrdMap.keys, List.length_map] at hle
  exact h.passed_eq hle

/-- **The start of an entity is that of its uplink and its own.** -/
theorem startWork_eq (hac : Acyclic (uplinkOf tree)) (name : String) :
    startWork tree name =
      frameWork tree name + ((uplinkOf tree name).map (startWork tree)).getD 0 := by
  obtain ⟨l, hl⟩ := (hac name).exists_trail
  rw [startWork, uplinks_eq hl]
  cases hl with
  | stop hn => simp [hn]
  | step hs hl => simp [hs, startWork, uplinks_eq hl]

end Config

/-! ### The work of a daemon -/

namespace Entity

variable (tree : Object) (e : Entity)

/-- The start of the uplink. -/
def climb : ℕ := ((Config.entityUplink e.self).map (Config.startWork tree)).getD 0

/-- A frame of `e` that awaits the start of the uplink, with its destruction. -/
def callerWork : ℕ := 2 * e.self.items.length + 16

end Entity

def Frame.work (tree : Object) (frame : Frame) : ℕ :=
  frame.pc.work frame.entity.self.items.length (frame.entity.climb tree) frame.method

/-- What is left of a frame after such a turn. -/
def Control.work (tree : Object) (frame : Frame) : Control → ℕ
  | goto pc | suspend pc => Frame.work tree { frame with pc }
  | call child => 2 * frame.entity.self.items.length + 15 +
      (Frame.work tree ⟨child, .start, .enqueue⟩ + 1)
  | done | fail _ => 0

def Chain.work (tree : Object) (chain : Chain) : ℕ :=
  chain.frame.work tree + 1 + (chain.awaiting.map Entity.callerWork).sum

/-- A turn that only finds that its bus is still being opened is free. -/
def Outcome.price : Outcome → ℕ
  | again => 0
  | _ => 1

/-- What happens on top of the stack is counted with the chains. -/
def Activity.isDrop : Activity → Bool
  | run _ => false
  | drop _ _ => true

/-! ### The order of the points -/

/-- The point where a turn leaves its frame. -/
def Control.next : Control → Option Pc
  | goto pc | suspend pc => some pc
  | _ => none

/-- The point of a start that comes after another. -/
inductive StartPc.Next (e : Entity) : StartPc → StartPc → Prop
  | check : Next e check socketpair
  | socketpair : Next e socketpair fork
  | fork {pid : Nat} : Next e fork (busNew pid)
  | busNew {pid : Nat} : Next e (busNew pid) (setup pid .setFd)
  | setup {pid : Nat} {call : Setup} : Next e (setup pid call) (Entity.afterSetup pid call)
  | startUnit {pid : Nat} {unit : SystemdUnit} : Next e (startUnit pid unit) (unitReply pid unit)
  | unitReply {pid : Nat} {unit : SystemdUnit} : Next e (unitReply pid unit) (unitJob pid unit)
  | unitJob {pid : Nat} {unit : SystemdUnit} : Next e (unitJob pid unit) (e.afterUnit pid unit)
  | send {pid : Nat} {type : String} {component : Json} {rest : List (String × Json)} :
      Next e (components pid ((type, component) :: rest)) (added pid type rest)
  | acknowledged {pid : Nat} {type : String} {rest : List (String × Json)} :
      Next e (added pid type rest) (components pid rest)

/-- The point of a stop that comes after another. -/
inductive StopPc.Next : StopPc → StopPc → Prop
  | find {pid : Nat} : Next find (shutdown pid)
  | shutdown {pid : Nat} : Next (shutdown pid) (waitpid pid)
  | waitpid {pid : Nat} : Next (waitpid pid) erase
  | erase : Next erase stopUnit
  | stopUnit : Next stopUnit stopReply
  | stopReply : Next stopReply stopJob

section

variable {w w' : World} {e : Entity} {o : Outcome} {control : Control} {q : Pc} {n climb : ℕ}

/-- **A start goes on to the next point**, or tries again. -/
theorem start_next {pc : StartPc} (h : Entity.start w e pc o = some (w', control))
    (hq : control.next = some q) :
    ∃ pc', q = .start pc' ∧ (pc.Next e pc' ∨ o = .again ∧ pc' = pc) := by
  unfold Entity.start at h
  split at h
  case h_1 =>
    split at h
    · cases h; cases hq
    · split at h
      · cases h; cases hq
        exact ⟨_, rfl, .inl .check⟩
      · obtain ⟨child, -, hc⟩ := Option.map_eq_some_iff.mp h
        cases hc; cases hq
      · cases h
  case h_4 | h_15 =>
    split at h <;> cases h <;> cases hq
    exact ⟨_, rfl, .inl (by constructor)⟩
  case h_9 =>
    cases h; cases hq
    exact ⟨_, rfl, .inr ⟨rfl, rfl⟩⟩
  case h_18 =>
    split at h <;> cases h
    cases hq
    exact ⟨_, rfl, .inl .send⟩
  all_goals cases h <;> cases hq
  all_goals exact ⟨_, rfl, .inl (by constructor)⟩

theorem stop_next {pc : StopPc} (h : Entity.stop w e pc o = some (w', control))
    (hq : control.next = some q) : ∃ pc', q = .stop pc' ∧ pc.Next pc' := by
  unfold Entity.stop at h
  split at h
  case h_1 =>
    split at h <;> cases h <;> cases hq
    exact ⟨_, rfl, .find⟩
  case h_10 => split at h <;> cases h <;> cases hq
  all_goals cases h <;> cases hq
  all_goals exact ⟨_, rfl, by constructor⟩

theorem StartPc.work_pos (pc : StartPc) : 0 < pc.work n climb := by
  cases pc <;> simp [StartPc.work]

theorem StopPc.work_pos (pc : StopPc) : 0 < pc.work := by
  cases pc <;> simp [StopPc.work]

theorem StartPc.Next.work {pc pc' : StartPc} (h : pc.Next e pc') :
    pc'.work e.self.items.length climb < pc.work e.self.items.length climb := by
  cases h with
  | @setup pid call =>
    cases call <;> simp [Entity.afterSetup, StartPc.work, Setup.left, SystemdUnit.left]
  | @unitJob pid unit => cases unit <;> simp [Entity.afterUnit, StartPc.work, SystemdUnit.left]
  | check | send =>
    simp only [StartPc.work, List.length_cons]
    omega
  | _ => simp [StartPc.work, Setup.left]

theorem StopPc.Next.work {pc pc' : StopPc} (h : pc.Next pc') : pc'.work < pc.work := by
  cases h <;> simp [StopPc.work]

theorem Outcome.price_le (o : Outcome) : o.price ≤ 1 := by
  cases o <;> simp [Outcome.price]

end

/-! ### What a turn costs -/

section

variable {w w' : World} {frame : Frame} {o : Outcome} {control : Control} {id : ℕ}

/-- The work that a call of the child adds is that of the climb. -/
theorem call_work {child : Entity} {u : String} {tree : Object} (hac : Acyclic (Config.uplinkOf tree))
    (hup : Config.entityUplink frame.entity.self = some u) (hself : tree.find u = some child.self) :
    (Control.call child).work tree frame =
      2 * frame.entity.self.items.length + 15 + frame.entity.climb tree := by
  have hchild : Config.uplinkOf tree u = Config.entityUplink child.self := by
    rw [Config.uplinkOf, hself]
    rfl
  rw [Entity.climb, hup, Option.map_some, Option.getD_some, Config.startWork_eq hac, hchild,
    Config.frameWork, hself]
  simp only [Control.work, Frame.work, Pc.work, StartPc.work, Entity.climb, Option.getD_some]
  omega

/-- A start that awaits its uplink has looked for it. -/
theorem start_work (hac : Acyclic (Config.uplinkOf w.manager.running.configuration))
    {pc : StartPc} (hpc : frame.pc = .start pc)
    (h : Entity.start w frame.entity pc o = some (w', control)) :
    control.work w.manager.running.configuration frame + o.price ≤
      frame.work w.manager.running.configuration := by
  have hprice := o.price_le
  have hframe : frame.work w.manager.running.configuration =
      pc.work frame.entity.self.items.length
        (frame.entity.climb w.manager.running.configuration) := by
    rw [Frame.work, hpc]
    rfl
  rw [hframe]
  have hgoes : ∀ q, control.next = some q →
      Frame.work w.manager.running.configuration { frame with pc := q } + o.price ≤
        pc.work frame.entity.self.items.length
          (frame.entity.climb w.manager.running.configuration) := by
    intro q hq
    obtain ⟨pc', rfl, hnext | ⟨rfl, rfl⟩⟩ := start_next h hq
    · exact (Nat.add_le_add_left hprice _).trans hnext.work
    · exact Nat.le_refl _
  cases control with
  | goto q | suspend q => exact hgoes q rfl
  | done | fail _ => exact (Nat.zero_add _).trans_le (hprice.trans pc.work_pos)
  | call child =>
    cases Entity.start_step h with
    | uplink hlive hup hget =>
      obtain ⟨-, hself, -⟩ := tryGet_eq_some hget
      rw [call_work hac (Entity.uplink_eq_some.mp hup) hself]
      simp only [StartPc.work]
      omega

theorem stop_work {tree : Object} {pc : StopPc} (hpc : frame.pc = .stop pc)
    (h : Entity.stop w frame.entity pc o = some (w', control)) :
    control.work tree frame + o.price ≤ frame.work tree := by
  have hprice := o.price_le
  have hframe : frame.work tree = pc.work := by rw [Frame.work, hpc]; rfl
  rw [hframe]
  have hgoes : ∀ q, control.next = some q →
      Frame.work tree { frame with pc := q } + o.price ≤ pc.work := by
    intro q hq
    obtain ⟨pc', rfl, hnext⟩ := stop_next h hq
    exact (Nat.add_le_add_left hprice _).trans hnext.work
  cases control with
  | goto q | suspend q => exact hgoes q rfl
  | done | fail _ => exact (Nat.zero_add _).trans_le (hprice.trans pc.work_pos)
  | call child => nomatch Entity.stop_step h

/-- **What a turn costs** comes out of the work of its frame. -/
theorem turn_work (hac : Acyclic (Config.uplinkOf w.manager.running.configuration))
    (h : Daemon.resumeFrame w id frame o = some (w', control)) :
    control.work w.manager.running.configuration frame + o.price ≤
      frame.work w.manager.running.configuration := by
  cases hpc : frame.pc with
  | start pc =>
    simp only [Daemon.resumeFrame, hpc] at h
    exact start_work hac hpc h
  | stop pc =>
    simp only [Daemon.resumeFrame, hpc] at h
    exact stop_work hpc h
  | waiting => simp [Daemon.resumeFrame, hpc] at h
  | enqueue =>
    have hprice := o.price_le
    cases Daemon.turn_cases h with
    | taken _ _ =>
      cases hmethod : frame.method <;>
        simp only [Control.work, Frame.work, Pc.work, Method.entry, hpc, hmethod] <;> omega
    | queued _ _ =>
      simp only [Control.work, Frame.work, Pc.work, hpc]
      omega
    | start hstart | stop hstop => simp_all

end

namespace Daemon

open Machine

variable {parse : String → Option Json} {d d' : Daemon} {i : Input} {id : Nat} {n : String}
  {chain : Chain} {stack : List Activity} {w : World} {control : Control} {c : Config}

/-- The entries of the running configuration. -/
def running (d : Daemon) : Object := d.world.manager.running.configuration

/-- The turns and the destructions that are left. -/
def work (d : Daemon) : ℕ := d.chains.sum (Chain.work d.running) + d.stack.countP Activity.isDrop

/-- Nothing new comes in. -/
def Input.isInternal : Input → Bool
  | request .. | call _ => false
  | wake .. | tick _ => true

/-- What a step costs. -/
def Input.price (i : Input) : ℕ := i.outcome.price

theorem countP_drops (id : Nat) (entities : List Entity) :
    (drops id entities).countP Activity.isDrop = entities.length := by
  rw [drops, List.countP_map]
  exact List.countP_eq_length.mpr fun _ _ => rfl

theorem length_le_callerWork (entities : List Entity) :
    entities.length ≤ (entities.map Entity.callerWork).sum := by
  induction entities with
  | nil => exact Nat.le_refl 0
  | cons e entities ih =>
    rw [List.length_cons, List.map_cons, List.sum_cons, Entity.callerWork]
    omega

/-- **What a turn leaves** of the chain is what it leaves of the frame, and its
callers go on or are destroyed. -/
theorem work_settle (hd : d.Indexed) (hw : w.manager = d.world.manager)
    (hchain : d.chains.find id = some chain) :
    (d.settle w id chain stack control).work + chain.frame.work d.running ≤
      d.chains.sum (Chain.work d.running) + stack.countP Activity.isDrop +
        control.work d.running chain.frame := by
  have hrunning : (d.settle w id chain stack control).running = d.running := by
    rw [running, settle_world, hw]
    rfl
  have hreplace : ∀ chain' : Chain, (d.chains.insert id chain').sum (Chain.work d.running) +
      chain.work d.running = d.chains.sum (Chain.work d.running) + chain'.work d.running :=
    fun chain' => OrdMap.sum_insert_of_some hd.ordered hchain
  have herase : (d.chains.erase id).sum (Chain.work d.running) + chain.work d.running =
      d.chains.sum (Chain.work d.running) := OrdMap.sum_erase hd.ordered hchain
  have hold : chain.work d.running =
      chain.frame.work d.running + 1 + (chain.awaiting.map Entity.callerWork).sum := rfl
  rw [work, hrunning]
  cases control with
  | goto pc | suspend pc =>
    have hsum := hreplace (chain.goTo pc)
    have hnew : (chain.goTo pc).work d.running =
        Frame.work d.running ⟨chain.frame.entity, chain.frame.method, pc⟩ + 1 +
          (chain.awaiting.map Entity.callerWork).sum := rfl
    simp only [settle, Control.work, List.countP_cons, Activity.isDrop, Bool.false_eq_true, if_false]
    omega
  | call child =>
    have hsum := hreplace (chain.enter child)
    have hnew : (chain.enter child).work d.running =
        Frame.work d.running ⟨child, .start, .enqueue⟩ + 1 +
          (chain.frame.entity.callerWork + (chain.awaiting.map Entity.callerWork).sum) := rfl
    rw [Entity.callerWork] at hnew
    simp only [settle, Control.work, List.countP_cons, Activity.isDrop, Bool.false_eq_true, if_false]
    omega
  | done =>
    simp only [settle, Control.work]
    cases ha : chain.awaiting with
    | nil =>
      rw [ha] at hold
      simp only [List.map_nil, List.sum_nil] at hold
      simp only [send_chains, send_stack, List.countP_cons, Activity.isDrop, if_true]
      omega
    | cons parent awaiting =>
      have hsum := hreplace (chain.back parent awaiting)
      have hnew : (chain.back parent awaiting).work d.running =
          2 * parent.self.items.length + 15 + 1 + (awaiting.map Entity.callerWork).sum := rfl
      rw [ha, List.map_cons, List.sum_cons, Entity.callerWork] at hold
      simp only [List.countP_cons, Activity.isDrop, Bool.false_eq_true, if_false, if_true]
      omega
  | fail replies =>
    have hdrops := countP_drops id (chain.awaiting.reverse ++ [chain.frame.entity])
    have hcallers := length_le_callerWork chain.awaiting
    rw [List.length_append, List.length_reverse, List.length_singleton] at hdrops
    simp only [settle, Control.work, send_chains, send_stack, List.countP_append]
    omega

theorem Turns.countP_isDrop {o : Outcome} (h : Turns d i id o stack) :
    d.stack.countP Activity.isDrop = stack.countP Activity.isDrop := by
  cases h with
  | wake hs => rw [hs]
  | tick hs => rw [hs, List.countP_cons_of_neg (by simp [Activity.isDrop])]

/-- The destruction of a frame gives way to the turn of one that has waited. -/
theorem work_drop (hd : d.Indexed) (hstack : d.stack = .drop id n :: stack)
    (hdrop : Dropped d n stack d') : d'.work + 1 ≤ d.work := by
  have hcount : d.stack.countP Activity.isDrop = stack.countP Activity.isDrop + 1 := by
    rw [hstack, List.countP_cons_of_pos rfl]
  rw [work, work, hcount]
  cases hdrop with
  | freed _ _ => exact Nat.le_refl _
  | @handed k chain queue _ _ hchain hpc =>
    have hsum : (d.chains.insert k (chain.goTo chain.frame.method.entry)).sum
        (Chain.work d.running) + chain.work d.running = d.chains.sum (Chain.work d.running) +
          (chain.goTo chain.frame.method.entry).work d.running :=
      OrdMap.sum_insert_of_some hd.ordered hchain
    have hless : (chain.goTo chain.frame.method.entry).work d.running + 1 = chain.work d.running := by
      simp only [Chain.work, Chain.goTo, Frame.work, hpc, Pc.work]
      cases chain.frame.method <;> simp only [Method.entry] <;> omega
    rw [List.countP_cons_of_neg (by simp [Activity.isDrop])]
    change (d.chains.insert k _).sum (Chain.work d.running) + _ + 1 ≤ _
    omega

theorem step_running (hi : i.isInternal = true) (hstep : (machine parse).step d i = some d') :
    d'.running = d.running := by
  rcases step_manager hstep with h | ⟨call, replies, rfl, -⟩
  · rw [running, h]
    rfl
  · cases hi

/-- **A step that serves what is under way** costs what there is of work. -/
theorem step_work (hd : (machine parse).Reaches Always (start c) d)
    (hac : Acyclic (Config.uplinkOf d.running)) (hi : i.isInternal = true)
    (hstep : (machine parse).step d i = some d') : d'.work + i.price ≤ d.work := by
  have hindexed := reaches_indexed hd
  cases step_cases hstep with
  | request _ => cases hi
  | call _ _ => cases hi
  | @turn _ id o stack chain w control hturns hchain hframe =>
    have hsettle : (d.settle w id chain stack control).work + chain.frame.work d.running ≤ _ :=
      work_settle hindexed (turn_manager (turn_cases hframe)) hchain
    have hturn : control.work d.running chain.frame + o.price ≤ chain.frame.work d.running :=
      turn_work hac hframe
    have hwork : d.work = d.chains.sum (Chain.work d.running) + stack.countP Activity.isDrop := by
      rw [work, hturns.countP_isDrop]
    rw [Input.price, hturns.outcome]
    omega
  | @drop o id name stack d' hstack hdrop =>
    have hprice : Input.price (.tick o) ≤ 1 := o.price_le
    have hwork := work_drop hindexed hstack (drop_cases hdrop)
    omega

/-- What is under way pays for its turns. -/
theorem pays (parse : String → Option Json) (c : Config) :
    (machine parse).Pays (fun i => i.isInternal = true)
      (fun d => (machine parse).Reaches Always (start c) d ∧ Acyclic (Config.uplinkOf d.running))
      work Input.price where
  keeps d i d' h hi hstep :=
    ⟨h.1.tail trivial hstep, by rw [step_running hi hstep]; exact h.2⟩
  pays d i d' h hi hstep := step_work h.1 h.2 hi hstep

end Daemon

end Nonsense
