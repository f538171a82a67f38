import Nonsense.Config.Grows
import Nonsense.Daemon.Queues

/-!
# The shape of the chains

`step_became` says how a chain that is there after a step came to be what it is:
it was opened, it was left alone, it had its turn, or it was let through a queue.

From it: a chain of frames follows the uplinks of the running configuration, from
the entity that was asked for at its end to the one in front, whatever has been
committed since the references were made (`reaches_shaped`).
-/

namespace Nonsense

/-- What an entity that was made earlier still says of the running configuration. -/
structure Entity.Knows (tree : Object) (e : Entity) : Prop where
  find : (tree.find e.name).isSome
  uplink : Config.uplinkOf tree e.name = Config.entityUplink e.self
  types : ∀ j, Config.IsEntity tree e.name → tree.find e.name = some j →
    ∀ type ∈ j.itemKeys, type ∈ e.self.itemKeys

/-- The point is one of the coroutine `method`. -/
def Pc.Of (method : Method) : Pc → Prop
  | enqueue | waiting => True
  | start _ => method = .start
  | stop _ => method = .stop

/-- The turn is one of the coroutine `method`. -/
def Control.Of (method : Method) : Control → Prop
  | goto pc | suspend pc => pc.Of method
  | call _ => method = .start
  | done | fail _ => True

/-- The entities of the frames, innermost first. -/
def Chain.entities (chain : Chain) : List Entity := chain.frame.entity :: chain.awaiting

structure Chain.Shaped (tree : Object) (chain : Chain) : Prop where
  knows : ∀ e ∈ chain.entities, e.Knows tree
  linked : List.IsChain (fun e e' : Entity => Config.uplinkOf tree e'.name = some e.name)
    chain.entities
  root : chain.entities.getLast?.map Entity.name = some chain.name
  pc : chain.frame.pc.Of chain.frame.method
  method : if chain.awaiting = [] then chain.frame.method = chain.method
    else chain.frame.method = .start ∧ chain.method = .start

variable {tree tree' : Object} {e : Entity} {chain chain' : Chain}

/-! ### Entities -/

theorem Entity.Knows.mono (h : e.Knows tree) (hg : Config.Grows tree tree') : e.Knows tree' := by
  refine ⟨hg.find _ h.find, (hg.uplink _ h.find).trans h.uplink, ?_⟩
  intro j hent hj type htype
  obtain ⟨hent', j', hj', htypes⟩ := hg.types _ j hent hj h.find
  exact h.types j' hent' hj' type ((htypes type).mp htype)

theorem tryGet_eq_some {w : World} {name : String} (h : w.tryGet name = some e) :
    e.name = name ∧ w.manager.running.configuration.find name = some e.self ∧
      e.generation = w.manager.generation := by
  obtain ⟨self, hself, he⟩ := Option.map_eq_some_iff.mp h
  cases he
  exact ⟨rfl, hself, rfl⟩

theorem knows_of_tryGet {w : World} {name : String} (h : w.tryGet name = some e) :
    e.Knows w.manager.running.configuration := by
  obtain ⟨rfl, hself, -⟩ := tryGet_eq_some h
  refine ⟨by rw [hself]; rfl, ?_, ?_⟩
  · rw [Config.uplinkOf, hself]
    rfl
  · intro j _ hj type htype
    have he : e.self = j := Option.some.inj (hself.symm.trans hj)
    rw [he]
    exact htype

theorem Entity.uplink_eq_some {u : String} :
    e.uplink = some (.string u) ↔ Config.entityUplink e.self = some u := by
  unfold Config.entityUplink Entity.uplink
  constructor
  · intro h
    rw [h]
  · intro h
    split at h
    · rename_i u' hu'
      cases h
      exact hu'
    · cases h

/-! ### Chains -/

theorem Chain.Shaped.mono (h : chain.Shaped tree) (hg : Config.Grows tree tree') :
    chain.Shaped tree' :=
  ⟨fun e he => (h.knows e he).mono hg, h.linked.imp fun _ _ hu => hg.uplinkOf hu, h.root, h.pc,
    h.method⟩

theorem Chain.Shaped.goTo {pc : Pc} (h : chain.Shaped tree) (hpc : pc.Of chain.frame.method) :
    (chain.goTo pc).Shaped tree := ⟨h.knows, h.linked, h.root, hpc, h.method⟩

theorem Chain.Shaped.enter {child : Entity} (h : chain.Shaped tree) (hchild : child.Knows tree)
    (hlink : Config.uplinkOf tree chain.frame.entity.name = some child.name)
    (hmethod : chain.frame.method = .start) : (chain.enter child).Shaped tree := by
  refine ⟨?_, List.isChain_cons_cons.mpr ⟨hlink, h.linked⟩, ?_, trivial, ?_⟩
  · intro e he
    rcases List.mem_cons.mp he with rfl | he
    · exact hchild
    · exact h.knows e he
  · have hroot := h.root
    rwa [Chain.entities, ← List.getLast?_cons_cons (a := child)] at hroot
  · have hroot : chain.method = .start := by
      have hm := h.method
      split at hm
      · exact hm ▸ hmethod
      · exact hm.2
    exact ⟨rfl, hroot⟩

theorem Chain.Shaped.back {parent : Entity} {awaiting : List Entity} (h : chain.Shaped tree)
    (ha : chain.awaiting = parent :: awaiting) : (chain.back parent awaiting).Shaped tree := by
  obtain ⟨hknows, hlinked, hroot, -, hmethod⟩ := h
  rw [Chain.entities, ha] at hknows hlinked hroot
  rw [ha, if_neg (List.cons_ne_nil _ _)] at hmethod
  refine ⟨fun e he => hknows e (List.mem_cons_of_mem _ he), (List.isChain_cons_cons.mp hlinked).2,
    ?_, rfl, ?_⟩
  · rwa [List.getLast?_cons_cons] at hroot
  · split
    · exact hmethod.2.symm
    · exact ⟨rfl, hmethod.2⟩

theorem Method.of_entry (method : Method) : method.entry.Of method := by
  cases method <;> rfl

/-- The callers are reached along the uplinks from behind. -/
theorem leads_of_linked {e' : Entity} : ∀ {l : List Entity},
    List.IsChain (fun e e' : Entity => Config.uplinkOf tree e'.name = some e.name) (e :: l) →
      e' ∈ l → Leads (Config.uplinkOf tree) e'.name e.name := by
  intro l
  induction l generalizing e with
  | nil => intro _ he; cases he
  | cons e₁ l ih =>
    intro h he
    obtain ⟨hlink, hl⟩ := List.isChain_cons_cons.mp h
    rcases List.mem_cons.mp he with rfl | he
    · exact .single hlink
    · exact (ih hl he).tail hlink

namespace Daemon

open Machine

variable {parse : String → Option Json} {d d' : Daemon} {i : Input} {id : Nat} {w : World}
  {control : Control} {o : Outcome} {c : Config}

/-! ### How a chain came to be -/

/-- What `chain'` was before the step. -/
inductive Became (d : Daemon) (i : Input) (id : Nat) : Chain → Prop
  | opened {method : Method} {name : String} {entity : Entity} :
      i = .request method (.ok name) → id = d.nextId → d.world.tryGet name = some entity →
      Became d i id ⟨method, name, ⟨entity, method, .enqueue⟩, []⟩
  | kept {chain : Chain} : d.chains.find id = some chain → Became d i id chain
  | turned {o : Outcome} {stack : List Activity} {chain chain' : Chain} {w : World}
      {control : Control} : Turns d i id o stack → d.chains.find id = some chain →
      Turn d.world id chain.frame o w control → chain.settled control = some chain' →
      Became d i id chain'
  | resumed {chain : Chain} : d.chains.find id = some chain → chain.frame.pc = .waiting →
      Became d i id (chain.goTo chain.frame.method.entry)

theorem request_became (method : Method) (parsed : Except Failure String)
    (h : (d.request method parsed).chains.find id = some chain) :
    Became d (.request method parsed) id chain := by
  unfold request at h
  split at h
  · exact .kept h
  · split at h
    · exact .kept h
    · rename_i hget
      change (d.chains.insert _ _).find id = some chain at h
      rw [OrdMap.find_insert] at h
      split_ifs at h with hid
      · cases h
        exact .opened rfl hid hget
      · exact .kept h

/-- **Where a chain comes from.** -/
theorem step_became (hstep : (machine parse).step d i = some d')
    (h : d'.chains.find id = some chain') : Became d i id chain' := by
  cases step_cases hstep with
  | request _ => exact request_became _ _ h
  | call _ _ => exact .kept h
  | @turn i k o stack chain w control hturns hchain hframe =>
    rw [find_settle] at h
    split_ifs at h with hid
    · subst hid
      exact .turned hturns hchain (turn_cases hframe) h
    · exact .kept h
  | drop _ hdrop =>
    cases drop_cases hdrop with
    | freed _ _ => exact .kept h
    | @handed k chain queue _ _ hchain hpc =>
      change (d.chains.insert _ _).find id = some chain' at h
      rw [OrdMap.find_insert] at h
      split_ifs at h with hid
      · subst hid
        cases h
        exact .resumed hchain hpc
      · exact .kept h

/-! ### The running configuration -/

theorem start_manager {e : Entity} {pc : StartPc} (h : Entity.StartStep w e pc o w' control) :
    w'.manager = w.manager := by
  cases h with
  | emplace => unfold World.emplace; split <;> rfl
  | send _ => unfold World.update; split <;> rfl
  | acknowledged => unfold World.update; split <;> rfl
  | _ => rfl

theorem stop_manager {e : Entity} {pc : StopPc} (h : Entity.StopStep w e pc o w' control) :
    w'.manager = w.manager := by
  cases h with
  | shutdown _ => unfold World.update; split <;> rfl
  | _ => rfl

theorem turn_manager {frame : Frame} {w' : World} (h : Turn w id frame o w' control) :
    w'.manager = w.manager := by
  cases h with
  | taken _ _ => rfl
  | queued _ _ => rfl
  | start _ hs => exact start_manager hs
  | stop _ hs => exact stop_manager hs

/-- **Only a call to the transaction manager changes what it has.** -/
theorem step_manager (hstep : (machine parse).step d i = some d') :
    d'.world.manager = d.world.manager ∨ ∃ call replies, i = .call call ∧
      d.world.manager.serve parse call = some (.replied d'.world.manager replies) := by
  cases step_cases hstep with
  | request _ => exact Or.inl (by rw [request_world])
  | @call call manager replies _ hserve => exact Or.inr ⟨call, replies, rfl, hserve⟩
  | turn hturns hchain hframe =>
    left
    rw [settle_world]
    exact turn_manager (turn_cases hframe)
  | drop _ hdrop =>
    left
    cases drop_cases hdrop with
    | freed _ _ => rfl
    | handed _ _ _ _ => rfl

theorem step_grows (hstep : (machine parse).step d i = some d') :
    Config.Grows d.world.manager.running.configuration
      d'.world.manager.running.configuration := by
  rcases step_manager hstep with h | ⟨call, replies, -, hserve⟩
  · rw [h]
    exact Config.Grows.refl _
  · exact Transactions.serve_grows hserve

/-! ### The shape is kept -/

theorem start_of {e : Entity} {pc : StartPc} {w' : World}
    (h : Entity.StartStep w e pc o w' control) : control.Of .start := by
  cases h <;> first | rfl | trivial

theorem stop_of {e : Entity} {pc : StopPc} {w' : World}
    (h : Entity.StopStep w e pc o w' control) : control.Of .stop := by
  cases h <;> first | rfl | trivial

theorem turn_of {frame : Frame} {w' : World} (h : Turn w id frame o w' control)
    (hpc : frame.pc.Of frame.method) : control.Of frame.method := by
  cases h with
  | taken _ _ => exact Method.of_entry frame.method
  | queued _ _ => trivial
  | start hpc' hs =>
    rw [hpc'] at hpc
    exact hpc ▸ start_of hs
  | stop hpc' hs =>
    rw [hpc'] at hpc
    exact hpc ▸ stop_of hs

/-- The child that a turn calls is the uplink. -/
theorem turn_call {frame : Frame} {w' : World} {child : Entity}
    (h : Turn w id frame o w' (.call child)) : ∃ u, frame.pc = .start .check ∧
      w.live.find frame.entity.name = none ∧ frame.entity.uplink = some (.string u) ∧
      w.tryGet u = some child := by
  cases h with
  | start hpc hs =>
    cases hs with
    | uplink hlive hup hget => exact ⟨_, hpc, hlive, hup, hget⟩
  | stop hpc hs => cases hs

theorem settled_shaped (h : chain.Shaped d.world.manager.running.configuration)
    (ht : Turn d.world id chain.frame o w control) (hs : chain.settled control = some chain') :
    chain'.Shaped d.world.manager.running.configuration := by
  have hof := turn_of ht h.pc
  unfold Chain.settled at hs
  split at hs
  · cases hs
    exact h.goTo hof
  · cases hs
    exact h.goTo hof
  · cases hs
    obtain ⟨u, -, -, hup, hget⟩ := turn_call ht
    obtain ⟨hname, -, -⟩ := tryGet_eq_some hget
    have hself := h.knows chain.frame.entity (List.mem_cons_self ..)
    refine h.enter (knows_of_tryGet hget) ?_ hof
    rw [hname]
    exact hself.uplink.trans (Entity.uplink_eq_some.mp hup)
  · split at hs
    · cases hs
    · rename_i hawaiting
      cases hs
      exact h.back hawaiting
  · cases hs

/-- **The chains follow the uplinks.** -/
theorem reaches_shaped (h : (machine parse).Reaches Always (start c) d)
    (hchain : d.chains.find id = some chain) :
    chain.Shaped d.world.manager.running.configuration := by
  have hall : ∀ id chain, d.chains.find id = some chain →
      chain.Shaped d.world.manager.running.configuration := by
    refine h.invariant (I := fun d => ∀ id chain, d.chains.find id = some chain →
      chain.Shaped d.world.manager.running.configuration) (fun _ _ h => nomatch h) ?_
    intro d i d' ih _ hstep id chain hchain
    refine Chain.Shaped.mono ?_ (step_grows hstep)
    cases step_became hstep hchain with
    | opened _ _ hget =>
      refine ⟨?_, List.IsChain.singleton _, ?_, trivial, rfl⟩
      · intro e he
        rcases List.mem_singleton.mp he with rfl
        exact knows_of_tryGet hget
      · exact congrArg some (tryGet_eq_some hget).1
    | kept h => exact ih id chain h
    | turned _ h ht hs => exact settled_shaped (ih id _ h) ht hs
    | resumed h _ => exact (ih id _ h).goTo (Method.of_entry _)
  exact hall id chain hchain

end Daemon

end Nonsense
