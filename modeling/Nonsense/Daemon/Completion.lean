import Nonsense.Daemon.Readable
import Nonsense.Daemon.Replies
import Nonsense.Daemon.Work
import Mathlib.Data.Fintype.EquivFin

/-!
# What is under way is served

A frame that does not wait has its turn, and what is waited for is either a message or a
queue that another request holds (`Driven`).  Where the uplinks of the running
configuration have no cycle, nobody waits for a queue for ever, and every turn can go on
with a call that succeeds (`exists_step`).

So whatever is under way comes to an end: it takes no more than `work` turns and
destructions (`served_within`), and as long as not everything is served there is a turn
that goes on (`exists_served`).
-/

namespace Nonsense

/-- What a call that succeeds returns, with `fresh` for a new process. -/
def Pc.success (fresh : Nat) : Pc → Outcome
  | start .fork => .forked fresh
  | start (.unitJob _ _) | stop .stopJob => .result "done"
  | start (.added _ _ _) => .value true
  | _ => .ok

theorem Pc.success_fails (fresh : Nat) (pc : Pc) : (pc.success fresh).fails = false := by
  unfold success
  split <;> rfl

theorem Pc.success_price (fresh : Nat) (pc : Pc) : (pc.success fresh).price = 1 := by
  unfold success
  split <;> rfl

/-- There is always a process number that is not in use. -/
theorem World.exists_fresh (w : World) : ∃ fresh, w.processes.find fresh = none := by
  obtain ⟨fresh, hfresh⟩ := Infinite.exists_notMem_finset w.processes.keys.toFinset
  exact ⟨fresh, OrdMap.find_eq_none_iff.mpr fun hmem => hfresh (List.mem_toFinset.mpr hmem)⟩

namespace Daemon

open Machine

variable {parse : String → Option Json} {d d' : Daemon} {i : Input} {id k : Nat} {n : String}
  {chain chain' : Chain} {stack : List Activity} {w w' : World} {control : Control} {o : Outcome}
  {c : Config} {file : Object} {is : List Input}

/-! ### A turn that succeeds -/

/-- **A frame that does not wait can go on.** -/
theorem exists_turn {frame : Frame} {fresh : Nat}
    (hable : frame.entity.Able w.manager.running.configuration)
    (hrest : frame.pc.rest <:+ frame.entity.self.items)
    (hfresh : w.processes.find fresh = none) (hpc : frame.pc ≠ .waiting) :
    ∃ r, resumeFrame w id frame (frame.pc.success fresh) = some r := by
  cases hp : frame.pc with
  | waiting => exact absurd hp hpc
  | enqueue =>
    simp only [resumeFrame, hp, Pc.success, Entity.enqueue, Queue.awaitReady, Queue.awaitResume,
      Queue.awaitSuspend]
    by_cases hheld : (w.queues frame.entity.name).held = true
    · simp [hheld]
    · simp [hheld]
  | stop pc =>
    simp only [resumeFrame, hp]
    cases pc with
    | find =>
      simp only [Pc.success, Entity.stop]
      split <;> exact ⟨_, rfl⟩
    | _ => exact ⟨_, rfl⟩
  | start pc =>
    simp only [resumeFrame, hp]
    cases pc with
    | check =>
      simp only [Pc.success, Entity.start]
      split
      · exact ⟨_, rfl⟩
      · cases hup : frame.entity.uplink with
        | none => exact ⟨_, rfl⟩
        | some j =>
          obtain ⟨u, rfl, hu⟩ := hable.uplink j hup
          obtain ⟨self, hself⟩ := Option.isSome_iff_exists.mp hu
          exact ⟨_, by simp [World.tryGet, Config.tryGet, hself]; rfl⟩
    | fork =>
      simp only [Pc.success, Entity.start, hfresh]
      exact ⟨_, rfl⟩
    | components pid rest =>
      cases rest with
      | nil => exact ⟨_, rfl⟩
      | cons x rest =>
        rw [hp] at hrest
        have hmem : x ∈ frame.entity.self.items := hrest.subset List.mem_cons_self
        obtain ⟨json, hjson⟩ := hable.sent x hmem
        simp only [Pc.success, Entity.start, hjson]
        exact ⟨_, rfl⟩
    | unitJob pid unit => exact ⟨_, rfl⟩
    | _ => exact ⟨_, rfl⟩

/-! ### Who goes on -/

/-- A turn suspends a frame for a message, or for its queue. -/
theorem turn_suspend {frame : Frame} {pc : Pc}
    (h : resumeFrame w id frame o = some (w', .suspend pc)) :
    pc = .waiting ∨ awaitsMessage pc = true := by
  cases hp : frame.pc with
  | enqueue =>
    cases turn_cases h with
    | queued _ _ => exact Or.inl rfl
    | start hpc _ => rw [hp] at hpc; cases hpc
    | stop hpc _ => rw [hp] at hpc; cases hpc
  | waiting => simp [resumeFrame, hp] at h
  | start pc =>
    simp only [resumeFrame, hp] at h
    unfold Entity.start at h
    right
    split at h
    case h_1 =>
      split at h
      · cases h
      · split at h
        · cases h
        · obtain ⟨_, -, hc⟩ := Option.map_eq_some_iff.mp h
          cases hc
        · cases h
    case h_4 | h_15 => split at h <;> cases h
    case h_18 => split at h <;> cases h; rfl
    all_goals cases h
    all_goals rfl
  | stop pc =>
    simp only [resumeFrame, hp] at h
    unfold Entity.stop at h
    right
    split at h
    case h_1 => split at h <;> cases h; rfl
    case h_10 => split at h <;> cases h
    all_goals cases h
    all_goals rfl

/-- The frame that runs is there and does not wait; one that does not run waits for a
message, or for its queue. -/
structure Driven (d : Daemon) : Prop where
  running : ∀ id stack, d.stack = .run id :: stack →
    ∃ chain, d.chains.find id = some chain ∧ chain.frame.pc ≠ .waiting
  below : ∀ id, .run id ∉ d.stack.tail
  chains : ∀ id chain, d.chains.find id = some chain →
    chain.frame.pc = .waiting ∨ awaitsMessage chain.frame.pc = true ∨
      d.stack.head? = some (.run id)

/-- What a turn puts above the rest of the stack. -/
theorem settle_stack (d : Daemon) (w : World) (id : Nat) (chain : Chain) (stack : List Activity)
    (control : Control) : ∃ above, (d.settle w id chain stack control).stack = above ++ stack ∧
      (∀ k, .run k ∉ above.tail) ∧
      ((above = [] ∧ ∃ pc, control = .suspend pc) ∨
        (above.head? = some (.run id) ∧ ∃ chain', chain.settled control = some chain') ∨
        ((∃ n, above.head? = some (.drop id n)) ∧ chain.settled control = none)) := by
  cases control with
  | goto pc | call child => exact ⟨[.run id], rfl, by simp, Or.inr (Or.inl ⟨rfl, _, rfl⟩)⟩
  | suspend pc => exact ⟨[], rfl, by simp, Or.inl ⟨rfl, _, rfl⟩⟩
  | done =>
    simp only [settle, Chain.settled]
    cases chain.awaiting with
    | nil => exact ⟨[_], rfl, by simp, Or.inr (Or.inr ⟨⟨_, rfl⟩, rfl⟩)⟩
    | cons parent awaiting => exact ⟨[_, _], rfl, by simp, Or.inr (Or.inl ⟨rfl, _, rfl⟩)⟩
  | fail replies =>
    refine ⟨drops id (chain.awaiting.reverse ++ [chain.frame.entity]), rfl, fun k hk => ?_,
      Or.inr (Or.inr ⟨?_, rfl⟩)⟩
    · obtain ⟨e, -, he⟩ := List.mem_map.mp (List.mem_of_mem_tail hk)
      cases he
    · cases chain.awaiting.reverse with
      | nil => exact ⟨_, rfl⟩
      | cons e l => exact ⟨_, rfl⟩

/-- The chain after a turn does not wait, unless it was suspended. -/
theorem settled_not_waiting (ht : Turn w id chain.frame o w' control)
    (hs : chain.settled control = some chain') (hno : ∀ pc, control ≠ .suspend pc) :
    chain'.frame.pc ≠ .waiting := by
  have hkeeps : control.Keeps := by
    cases ht with
    | taken _ _ => exact Method.hasToken_entry chain.frame.method
    | queued _ _ => exact absurd rfl (hno _)
    | start _ h => exact start_keeps h
    | stop _ h => exact stop_keeps h
  rcases settled_pc hkeeps hs with hpc | hpc
  · intro hwait
    rw [hwait] at hpc
    cases hpc
  · rw [hpc]
    simp

/-- A frame that is not on top of the stack waits for something. -/
theorem Driven.waits (h : d.Driven) (hchain : d.chains.find k = some chain)
    (htop : d.stack.head? ≠ some (.run k)) :
    chain.frame.pc = .waiting ∨ awaitsMessage chain.frame.pc = true := by
  rcases h.chains k chain hchain with hpc | hpc | hpc
  · exact Or.inl hpc
  · exact Or.inr hpc
  · exact absurd hpc htop

theorem Turns.below (h : Turns d i id o stack) (hd : d.Driven) : ∀ k, .run k ∉ stack := by
  cases h with
  | wake _ => simp
  | tick hs =>
    have hbelow := hd.below
    rw [hs] at hbelow
    exact hbelow

theorem Turns.head_ne (h : Turns d i id o stack) (hk : k ≠ id) :
    d.stack.head? ≠ some (.run k) := by
  cases h with
  | wake hs => rw [hs]; simp
  | tick hs => rw [hs]; simpa using fun he => hk he.symm

theorem Driven.turn (h : d.Driven) (hturns : Turns d i id o stack)
    (hchain : d.chains.find id = some chain)
    (hframe : resumeFrame d.world id chain.frame o = some (w, control)) :
    (d.settle w id chain stack control).Driven := by
  obtain ⟨above, hstack, habove, hcases⟩ := settle_stack d w id chain stack control
  have hnone : ∀ k, .run k ∉ stack := hturns.below h
  have hother : ∀ k chain', k ≠ id → d.chains.find k = some chain' →
      chain'.frame.pc = .waiting ∨ awaitsMessage chain'.frame.pc = true :=
    fun k chain' hk hc => h.waits hc (hturns.head_ne hk)
  have hhead : ∀ k, (above ++ stack).head? = some (.run k) → k = id ∧
      ∃ chain', chain.settled control = some chain' ∧ chain'.frame.pc ≠ .waiting := by
    intro k hk
    rcases hcases with ⟨rfl, -⟩ | ⟨hrun, chain', hs⟩ | ⟨⟨n, hdrop⟩, -⟩
    · exact absurd (List.mem_of_head? hk) (hnone k)
    · rw [List.head?_append, hrun] at hk
      cases hk
      refine ⟨rfl, chain', hs, settled_not_waiting (turn_cases hframe) hs ?_⟩
      rintro pc rfl
      obtain rfl : above = [] := List.append_left_eq_self.mp hstack.symm
      cases hrun
    · rw [List.head?_append, hdrop] at hk
      cases hk
  refine ⟨?_, ?_, ?_⟩
  · intro k rest hk
    obtain ⟨rfl, chain', hs, hpc⟩ := hhead k (by rw [← hstack, hk]; rfl)
    exact ⟨chain', by rw [find_settle, if_pos rfl, hs], hpc⟩
  · intro k hk
    rw [hstack] at hk
    cases above with
    | nil => exact hnone k (List.mem_of_mem_tail hk)
    | cons a above =>
      rcases List.mem_append.mp hk with hk | hk
      · exact habove k hk
      · exact hnone k hk
  · intro k chain' hk
    rw [find_settle] at hk
    split_ifs at hk with hki
    · subst hki
      rcases hcases with ⟨-, pc, rfl⟩ | ⟨hrun, -⟩ | ⟨-, hs⟩
      · cases hk
        exact (turn_suspend hframe).imp_right Or.inl
      · exact Or.inr (Or.inr (by rw [hstack, List.head?_append, hrun]; rfl))
      · rw [hs] at hk
        cases hk
    · exact (hother k chain' hki hk).imp_right Or.inl

theorem Driven.drop (h : d.Driven) (hstack : d.stack = .drop id n :: stack)
    (hdrop : Dropped d n stack d') : d'.Driven := by
  have hnone : ∀ k, .run k ∉ stack := by
    have hbelow := h.below
    rw [hstack] at hbelow
    exact hbelow
  have hold : ∀ k chain, d.chains.find k = some chain →
      chain.frame.pc = .waiting ∨ awaitsMessage chain.frame.pc = true :=
    fun k chain hc => h.waits hc (by rw [hstack]; simp)
  cases hdrop with
  | freed _ _ =>
    refine ⟨?_, fun k hk => hnone k (List.mem_of_mem_tail hk), fun k chain hc =>
      (hold k chain hc).imp_right Or.inl⟩
    rintro k rest rfl
    exact absurd List.mem_cons_self (hnone k)
  | @handed j chain queue _ _ hchain hpc =>
    have hfind : ∀ k, (d.chains.insert j (chain.goTo chain.frame.method.entry)).find k =
        if k = j then some (chain.goTo chain.frame.method.entry) else d.chains.find k :=
      fun k => OrdMap.find_insert ..
    refine ⟨?_, hnone, ?_⟩
    · intro k rest hk
      cases hk
      refine ⟨_, by rw [hfind, if_pos rfl], ?_⟩
      show chain.frame.method.entry ≠ .waiting
      cases chain.frame.method <;> simp [Method.entry]
    · intro k chain' hk
      rw [hfind] at hk
      split_ifs at hk with hkj
      · exact Or.inr (Or.inr (hkj ▸ rfl))
      · exact (hold k chain' hk).imp_right Or.inl

theorem Driven.request (h : d.Driven) (hs : d.stack = []) (method : Method)
    (parsed : Except Failure String) : (d.request method parsed).Driven := by
  have hsame : ∀ sent nextId, Driven { d with sent, nextId } :=
    fun _ _ => ⟨h.running, h.below, h.chains⟩
  unfold Daemon.request
  split
  · exact hsame _ _
  · split
    · exact hsame _ _
    · rename_i name _ entity _
      have hfind : ∀ k, (d.chains.insert d.nextId ⟨method, name, ⟨entity, method, .enqueue⟩, []⟩).find
          k = if k = d.nextId then some ⟨method, name, ⟨entity, method, .enqueue⟩, []⟩
            else d.chains.find k := fun k => OrdMap.find_insert ..
      refine ⟨?_, by simp, ?_⟩
      · intro k rest hk
        cases hk
        exact ⟨_, by rw [hfind, if_pos rfl], by simp⟩
      · intro k chain hk
        rw [hfind] at hk
        split_ifs at hk with hkn
        · exact Or.inr (Or.inr (hkn ▸ rfl))
        · exact (h.waits hk (by rw [hs]; simp)).imp_right Or.inl

theorem reaches_driven (h : (machine parse).Reaches Always (start c) d) : d.Driven := by
  refine h.invariant_of_reaches (I := Driven) ⟨?_, ?_, ?_⟩ ?_
  · intro id stack hs
    cases hs
  · intro id hid
    cases hid
  · intro id chain hc
    cases hc
  · intro d i d' _ ih _ hstep
    cases step_cases hstep with
    | request hs => exact ih.request hs _ _
    | call _ _ => exact ⟨ih.running, ih.below, ih.chains⟩
    | turn hturns hchain hframe => exact ih.turn hturns hchain hframe
    | drop hs hdrop => exact ih.drop hs (drop_cases hdrop)

/-! ### As long as not everything is served -/

/-- Nothing is under way. -/
structure Idle (d : Daemon) : Prop where
  stack : d.stack = []
  chains : d.chains = []

/-- **A destructor never fails.** -/
theorem exists_drop (hd : (machine parse).Reaches Always (start c) d)
    (hs : d.stack = .drop id n :: stack) : ∃ d', d.drop n stack = some d' := by
  have hheld : (d.world.queues n).held = true := by
    rw [held_iff hd]
    exact ⟨id, Or.inr (by rw [hs]; exact List.mem_cons_self)⟩
  cases hqueue : (d.world.queues n).queue with
  | nil => exact ⟨_, by simp only [Daemon.drop, Queue.release, hheld, hqueue, if_true]; rfl⟩
  | cons k queue =>
    obtain ⟨chain, hchain, hpc, -⟩ := ((reaches_queued hd).mem n k).mp
      (by rw [hqueue]; exact List.mem_cons_self)
    exact ⟨_, by simp only [Daemon.drop, Queue.release, hheld, hqueue, if_true, Queue.awaitResume,
      Bool.false_eq_true, if_false, hchain, hpc]; rfl⟩

/-- **Somebody waits for a message**, where nothing runs and not everything is served. -/
theorem exists_awaits (hd : (machine parse).Reaches Always (start c) d)
    (hac : Acyclic (Config.uplinkOf d.running)) (hs : d.stack = []) (hchains : d.chains ≠ []) :
    ∃ id chain, d.chains.find id = some chain ∧ awaitsMessage chain.frame.pc = true := by
  by_contra hnone
  have hwaits : ∀ id chain, d.chains.find id = some chain → chain.frame.pc = .waiting := by
    intro id chain hchain
    rcases (reaches_driven hd).waits hchain (by rw [hs]; simp) with hpc | hpc
    · exact hpc
    · exact absurd ⟨id, chain, hchain, hpc⟩ hnone
  -- the queues that somebody waits for
  refine no_deadlock hd hac {n | ∃ id, Waits d.chains id n} ?_ ?_
  · obtain ⟨⟨id, chain⟩, l, hl⟩ := List.exists_cons_of_ne_nil hchains
    have hchain : d.chains.find id = some chain := by rw [hl, OrdMap.find_cons, if_pos rfl]
    exact ⟨_, id, chain, hchain, hwaits id chain hchain, rfl⟩
  · rintro n ⟨k, hk⟩
    have hmem := ((reaches_queued hd).mem n k).mpr hk
    have hheld : (d.world.queues n).held = true := by
      by_contra hfree
      rw [(reaches_free hd (Bool.not_eq_true _ ▸ hfree))] at hmem
      cases hmem
    obtain ⟨id, hholds⟩ := (held_iff hd).mp hheld
    obtain ⟨chain, hchain, -⟩ := hholds.resolve_right (by rw [hs]; exact List.not_mem_nil)
    have hwait : Waits d.chains id chain.frame.entity.name :=
      ⟨chain, hchain, hwaits id chain hchain, rfl⟩
    exact ⟨id, hholds, _, ⟨id, hwait⟩, hwait⟩

/-- **As long as not everything is served**, something can go on. -/
theorem exists_step (hload : Config.load (.object file) = .ok c)
    (hfile : Config.EntriesOrdered file) (hd : (machine parse).Reaches Always (start c) d)
    (hac : Acyclic (Config.uplinkOf d.running)) (hidle : ¬ d.Idle) :
    ∃ i d', (i.isInternal = true ∧ i.outcome.fails = false ∧ i.price = 1) ∧
      (machine parse).step d i = some d' := by
  obtain ⟨fresh, hfresh⟩ := d.world.exists_fresh
  have hturn : ∀ id chain, d.chains.find id = some chain → chain.frame.pc ≠ .waiting →
      ∃ r, resumeFrame d.world id chain.frame (chain.frame.pc.success fresh) = some r := by
    intro id chain hchain hpc
    have hable := reaches_able hload hfile hd hac hchain (e := chain.frame.entity) List.mem_cons_self
    exact exists_turn hable (reaches_rest hd hchain) hfresh hpc
  cases hs : d.stack with
  | nil =>
    have hchains : d.chains ≠ [] := fun hc => hidle ⟨hs, hc⟩
    obtain ⟨id, chain, hchain, hawaits⟩ := exists_awaits hd hac hs hchains
    have hpc : chain.frame.pc ≠ .waiting := by
      intro hpc
      rw [hpc] at hawaits
      cases hawaits
    obtain ⟨⟨w, control⟩, hframe⟩ := hturn id chain hchain hpc
    refine ⟨.wake id (chain.frame.pc.success fresh), d.settle w id chain [] control,
      ⟨rfl, Pc.success_fails _ _, Pc.success_price _ _⟩, ?_⟩
    show step parse d _ = _
    simp only [step, hs, hchain, hawaits, if_true, resume, hframe, Option.map_some]
  | cons a stack =>
    cases a with
    | run id =>
      obtain ⟨chain, hchain, hpc⟩ := (reaches_driven hd).running id stack hs
      obtain ⟨⟨w, control⟩, hframe⟩ := hturn id chain hchain hpc
      refine ⟨.tick (chain.frame.pc.success fresh), d.settle w id chain stack control,
        ⟨rfl, Pc.success_fails _ _, Pc.success_price _ _⟩, ?_⟩
      show step parse d _ = _
      simp only [step, hs, resume, hchain, hframe, Option.map_some]
    | drop id n =>
      obtain ⟨d', hdrop⟩ := exists_drop hd hs
      refine ⟨.tick .ok, d', ⟨rfl, rfl, rfl⟩, ?_⟩
      show step parse d _ = _
      simp only [step, hs, hdrop]

/-- Where nothing is under way, nobody holds a queue and nobody waits. -/
theorem Idle.queues (h : d.Idle) (hd : (machine parse).Reaches Always (start c) d) (n : String) :
    d.world.queues n = .empty := by
  have hfree : (d.world.queues n).held = false := by
    rw [← Bool.not_eq_true, held_iff hd]
    rintro ⟨id, ⟨chain, hchain, -⟩ | hdrop⟩
    · rw [h.chains] at hchain
      cases hchain
    · rw [h.stack] at hdrop
      cases hdrop
  have hqueue := reaches_free hd hfree
  cases hq : d.world.queues n with
  | mk held queue =>
    rw [hq] at hfree hqueue
    obtain rfl : held = false := hfree
    obtain rfl : queue = [] := hqueue
    rfl

/-! ### Whole runs -/

/-- No call comes in. -/
theorem step_nextId (hi : i.isInternal = true) (hstep : (machine parse).step d i = some d') :
    d'.nextId = d.nextId := by
  cases step_cases hstep with
  | request _ => cases hi
  | call _ _ => cases hi
  | turn _ _ _ => exact settle_nextId
  | drop _ hdrop =>
    cases drop_cases hdrop with
    | freed _ _ => rfl
    | handed _ _ _ _ => rfl

theorem countP_le_sum_price (is : List Input) :
    is.countP (fun i => i.price = 1) ≤ (is.map Input.price).sum := by
  induction is with
  | nil => exact Nat.le_refl 0
  | cons i is ih =>
    rw [List.countP_cons, List.map_cons, List.sum_cons]
    split
    · rename_i hprice
      have hone : i.price = 1 := of_decide_eq_true hprice
      omega
    · omega

/-- **What is under way is served within its work.**  However its calls go, a run that lets
nothing new in has no more than `work` turns and destructions, beside those that find
their bus being opened; and where none that succeeds is left, everything is over. -/
theorem served_within (hload : Config.load (.object file) = .ok c)
    (hfile : Config.EntriesOrdered file) (hd : (machine parse).Reaches Always (start c) d)
    (hac : Acyclic (Config.uplinkOf d.running)) (his : ∀ i ∈ is, i.isInternal = true)
    (hrun : (machine parse).run d is = some d') :
    d'.work + is.countP (fun i => i.price = 1) ≤ d.work ∧
      ((∀ i, i.isInternal = true ∧ i.outcome.fails = false ∧ i.price = 1 →
          (machine parse).step d' i = none) →
        d'.Idle ∧ ∀ n, d'.world.queues n = .empty) := by
  have hle := (pays parse c).run_le ⟨hd, hac⟩ his hrun
  have hcount := countP_le_sum_price is
  obtain ⟨hd', hac'⟩ := (pays parse c).run_keeps ⟨hd, hac⟩ his hrun
  refine ⟨by omega, fun hstuck => ?_⟩
  have hidle : d'.Idle := by
    by_contra hno
    obtain ⟨i, d₁, hi, hstep⟩ := exists_step hload hfile hd' hac' hno
    rw [hstuck i hi] at hstep
    cases hstep
  exact ⟨hidle, hidle.queues hd'⟩

theorem served_within_launch :
    ∃ d d', loadAndRun (fun _ => none) switchFile [.request .start (.ok "a")] = some d ∧
      (machine fun _ => none).run d (launch 1) = some d' ∧
      d'.work + (launch 1).countP (fun i => i.price = 1) ≤ d.work := by
  have hrun : (loadAndRun (fun _ => none) switchFile [.request .start (.ok "a")]).any (fun d =>
      ((machine fun _ => none).run d (launch 1)).isSome ∧ ∀ k ∈ d.running.keys,
        ascend (Config.uplinkOf d.running) 2 k = none) = true := by decide +kernel
  obtain ⟨d, hd, hlast⟩ := (Option.any_eq_true ..).mp hrun
  obtain ⟨hsome, hkeys⟩ := of_decide_eq_true hlast
  obtain ⟨d', hd'⟩ := Option.isSome_iff_exists.mp hsome
  obtain ⟨c, hload, hinputs⟩ := loadAndRun_eq_some_iff.mp hd
  obtain ⟨file, hfile, hordered⟩ := entriesOrdered_switchFile
  rw [hfile] at hload
  exact ⟨d, d', hd, hd', (served_within hload hordered (reaches_of_run hinputs)
    (Config.acyclic_of_keys 2 hkeys) (by decide) hd').1⟩

/-- **Every call can be answered.**  From wherever a run has come to without missing an
answer, calls that succeed bring what is under way to an end, within its work; then
every call that had come in has been answered once. -/
theorem exists_served (hload : Config.load (.object file) = .ok c)
    (hfile : Config.EntriesOrdered file)
    (hd : (machine parse).Reaches (fun d i => ¬ Misses parse d i) (start c) d)
    (hac : Acyclic (Config.uplinkOf d.running)) :
    ∃ is d', (∀ i ∈ is, i.isInternal = true ∧ i.outcome.fails = false) ∧ is.length ≤ d.work ∧
      (machine parse).run d is = some d' ∧ d'.Idle ∧
      ∀ id < d.nextId, d'.repliesTo id = 1 := by
  have halways : (machine parse).Reaches Always (start c) d := hd.mono fun _ _ _ => trivial
  let admitted (i : Input) : Prop :=
    i.isInternal = true ∧ i.outcome.fails = false ∧ i.price = 1
  let kept (d' : Daemon) : Prop := ((machine parse).Reaches Always (start c) d' ∧
    Acyclic (Config.uplinkOf d'.running)) ∧ d'.nextId = d.nextId
  have hpays : (machine parse).Pays admitted kept work Input.price :=
    ⟨fun s i s' hs hi hstep => ⟨(pays parse c).keeps s i s' hs.1 hi.1 hstep,
        (step_nextId hi.1 hstep).trans hs.2⟩,
      fun s i s' hs hi hstep => (pays parse c).pays s i s' hs.1 hi.1 hstep⟩
  have hkept : kept d := ⟨⟨halways, hac⟩, rfl⟩
  have hprogress : ∀ s, kept s → ¬ s.Idle →
      ∃ i s', admitted i ∧ 0 < i.price ∧ (machine parse).step s i = some s' := by
    intro s hs hno
    obtain ⟨i, s', hi, hstep⟩ := exists_step hload hfile hs.1.1 hs.1.2 hno
    exact ⟨i, s', hi, hi.2.2.symm ▸ Nat.one_pos, hstep⟩
  obtain ⟨is, d', his, hrun, hidle⟩ := hpays.exists_rest hprogress hkept
  have hnext : d'.nextId = d.nextId := (hpays.run_keeps hkept his hrun).2
  have hlength : is.length ≤ d.work := by
    have hle := hpays.run_le hkept his hrun
    have hsum : (is.map Input.price).sum = is.length := by
      rw [List.map_congr_left fun i hi => (his i hi).2.2, List.map_const', List.sum_replicate_nat,
        Nat.mul_one]
    omega
  have hmisses : ∀ i ∈ is, ∀ d, ¬ Misses parse d i := by
    intro i hi d
    rintro (⟨id, stack, chain, code, hturns, -, -⟩ | ⟨call, rfl, -⟩)
    · have hfails := (his i hi).2.1
      rw [hturns.outcome] at hfails
      cases hfails
    · cases (his _ hi).1
  have hd' := hd.trans (reaches_of_run_of_forall hrun hmisses)
  refine ⟨is, d', fun i hi => ⟨(his i hi).1, (his i hi).2.1⟩, hlength, hrun, hidle, fun id hid => ?_⟩
  rw [reaches_answered hd' id, if_pos ⟨hnext ▸ hid, by rw [hidle.chains]; rfl⟩]

theorem exists_served_startTwice :
    ∃ d is d', loadAndRun (fun _ => none) switchFile startTwice = some d ∧
      (machine fun _ => none).run d is = some d' ∧ d'.repliesTo 0 = 1 ∧ d'.repliesTo 1 = 1 := by
  have hrun : (loadAndRun (fun _ => none) switchFile startTwice).any (fun d =>
      d.nextId = 2 ∧ ∀ k ∈ d.running.keys, ascend (Config.uplinkOf d.running) 2 k = none) = true := by
    decide +kernel
  obtain ⟨d, hd, hlast⟩ := (Option.any_eq_true ..).mp hrun
  obtain ⟨hnext, hkeys⟩ := of_decide_eq_true hlast
  obtain ⟨c, hload, hinputs⟩ := loadAndRun_eq_some_iff.mp hd
  obtain ⟨file, hfile, hordered⟩ := entriesOrdered_switchFile
  rw [hfile] at hload
  have hmisses : ∀ i ∈ startTwice, ∀ d, ¬ Misses (fun _ => none) d i := by
    intro i hi d
    have hok : i.outcome.fails = false ∧ ∀ call, i ≠ .call call := by
      revert i
      simp [startTwice, launch, Input.outcome, Outcome.fails]
    rintro (⟨id, stack, chain, code, hturns, -, -⟩ | ⟨call, rfl, -⟩)
    · rw [hturns.outcome] at hok
      cases hok.1
    · exact hok.2 call rfl
  obtain ⟨is, d', -, -, hrun', -, hone⟩ := exists_served hload hordered
    (reaches_of_run_of_forall hinputs hmisses) (Config.acyclic_of_keys 2 hkeys)
  exact ⟨d, is, d', hd, hrun', hone 0 (by omega), hone 1 (by omega)⟩

end Daemon

end Nonsense
