import Nonsense.Daemon.AllOrNothing

/-!
# The uplink comes first

`entity::start` starts the uplink before anything else, but the token of the uplink
is given up once that start has returned, and the network component is sent only
after the process and two units have been started.  A stop of the uplink that is
served in between is not kept from shutting it down (`StopsUplink`).

`uplink_first`: without such a stop, and with all external calls succeeding, the
uplink is up whenever a network component is sent.  A run may have commits in it; a start
that is under way then reads its components as it found them (the convention of
`Entity.start`).
-/

namespace Nonsense

namespace World

/-- The process `pid` of `n` has been asked to shut down, or has not. -/
def Marked (w : World) (n : String) (pid : Nat) (b : Bool) : Prop :=
  ∃ p, w.processes.find pid = some p ∧ p.name = n ∧ p.shutdown = b

/-- `n` is live, all its components are acknowledged, and it is not shutting down. -/
def Up (w : World) (n : String) : Prop :=
  ∃ pid, w.live.find n = some pid ∧ w.Acked n pid ∧ w.Marked n pid false

/-- If `n` is live, it is not shutting down. -/
def Unmarked (w : World) (n : String) : Prop :=
  ∀ pid, w.live.find n = some pid → w.Marked n pid false

/-- If the process recorded for `n` is still there, it is shutting down. -/
def Leaving (w : World) (n : String) : Prop :=
  ∀ pid p, w.live.find n = some pid → w.processes.find pid = some p → p.name = n →
    p.shutdown = true

variable {w w' : World} {n : String} {pid : Nat} {b : Bool} {f : Process → Process}

theorem Marked.same (hs : w.Same n w') (h : w.Marked n pid b) : w'.Marked n pid b := by
  obtain ⟨p, hp, hn, hb⟩ := h
  exact ⟨p, (hs.processes pid p hn).mpr hp, hn, hb⟩

theorem Up.same (hs : w.Same n w') (hg : w.Grows w') (h : w.Up n) : w'.Up n := by
  obtain ⟨pid, hpid, hacked, hmarked⟩ := h
  exact ⟨pid, hs.live.trans hpid, hacked.same hs hg, hmarked.same hs⟩

theorem Unmarked.same (hs : w.Same n w') (h : w.Unmarked n) : w'.Unmarked n :=
  fun pid hpid => (h pid (hs.live ▸ hpid)).same hs

theorem Leaving.same (hs : w.Same n w') (h : w.Leaving n) : w'.Leaving n :=
  fun pid p hpid hp hn => h pid p (hs.live ▸ hpid) ((hs.processes pid p hn).mp hp) hn

theorem Unmarked.of_none (h : w.live.find n = none) : w.Unmarked n := by
  intro pid hpid
  rw [h] at hpid
  cases hpid

theorem Marked.unmarked (h : w.Marked n pid false) (hlive : w.live.find n = some pid) :
    w.Unmarked n := by
  intro k hk
  rw [hlive] at hk
  cases hk
  exact h

theorem Up.live_ne_none (h : w.Up n) : w.live.find n ≠ none := by
  obtain ⟨pid, hpid, -⟩ := h
  rw [hpid]
  simp

theorem Up.not_marked (h : w.Up n) (hlive : w.live.find n = some pid) : ¬ w.Marked n pid true := by
  obtain ⟨k, hk, -, p, hp, -, hb⟩ := h
  rw [hlive] at hk
  cases hk
  rintro ⟨p', hp', -, hb'⟩
  rw [hp] at hp'
  cases hp'
  rw [hb] at hb'
  cases hb'

theorem Up.not_leaving (h : w.Up n) : ¬ w.Leaving n := by
  obtain ⟨pid, hpid, -, p, hp, hn, hb⟩ := h
  intro hl
  rw [hl pid p hpid hp hn] at hb
  cases hb

/-- What a process that is sent or acknowledges a component stays. -/
theorem Marked.update {k : Nat} (h : w.Marked n k b) (hname : ∀ p, (f p).name = p.name)
    (hf : ∀ p, (f p).shutdown = p.shutdown) : (w.update pid f).Marked n k b := by
  obtain ⟨p, hp, hn, hb⟩ := h
  by_cases hk : k = pid
  · subst hk
    exact ⟨f p, find_update_self hp, (hname p).trans hn, (hf p).trans hb⟩
  · exact ⟨p, by rw [find_update, if_neg hk, hp], hn, hb⟩

theorem Acked.update {k : Nat} (h : w.Acked n k) (hname : ∀ p, (f p).name = p.name)
    (hf : ∀ p, ∀ type ∈ p.acknowledged, type ∈ (f p).acknowledged) :
    (w.update pid f).Acked n k := by
  obtain ⟨hin, p, hp, hn, htypes⟩ := h
  refine ⟨by rwa [update_manager], ?_⟩
  rw [update_manager]
  by_cases hk : k = pid
  · subst hk
    exact ⟨f p, find_update_self hp, (hname p).trans hn,
      fun j hent hj type htype => hf p type (htypes j hent hj type htype)⟩
  · exact ⟨p, by rw [find_update, if_neg hk, hp], hn, htypes⟩

theorem Up.update (h : w.Up n) (hname : ∀ p, (f p).name = p.name)
    (hshutdown : ∀ p, (f p).shutdown = p.shutdown)
    (hacked : ∀ p, ∀ type ∈ p.acknowledged, type ∈ (f p).acknowledged) :
    (w.update pid f).Up n := by
  obtain ⟨k, hk, hackedk, hmarked⟩ := h
  exact ⟨k, by rwa [update_live], hackedk.update hname hacked, hmarked.update hname hshutdown⟩

end World

/-! ### The guard -/

/-- What is known at a point past the queue of whether the process shuts down. -/
def Pc.Marked (w : World) (n : String) : Pc → Prop
  | start .check | stop .find => w.Unmarked n
  | start (.busNew pid) | start (.setup pid _) | start (.startUnit pid _)
  | start (.unitReply pid _) | start (.unitJob pid _) | start (.components pid _)
  | start (.added pid _ _) => w.Marked n pid false
  | stop (.shutdown pid) | stop (.waitpid pid) => w.Marked n pid true
  | stop .erase => w.Leaving n
  | _ => True

def Guard.marked : Guard where
  frame w e pc := pc.Marked w e.name
  caller w n := w.live.find n = none
  free := World.Unmarked

variable {w w' : World} {e : Entity} {o : Outcome} {control : Control} {pid : Nat} {n : String}

theorem Pc.Marked.same {pc : Pc} (hs : w.Same n w') (h : pc.Marked w n) : pc.Marked w' n := by
  cases pc with
  | start pc =>
    cases pc with
    | check => exact World.Unmarked.same hs h
    | socketpair | fork => trivial
    | _ => exact World.Marked.same hs h
  | stop pc =>
    cases pc with
    | find => exact World.Unmarked.same hs h
    | shutdown pid | waitpid pid => exact World.Marked.same hs h
    | erase => exact World.Leaving.same hs h
    | _ => trivial
  | _ => trivial

theorem marked_lawful : Guard.marked.Lawful where
  frame hs _ h := Pc.Marked.same hs h
  caller hs _ h := hs.live.trans h
  free hs _ h := World.Unmarked.same hs h
  entry method h := by cases method <;> exact h
  back _ := trivial
  drop h := .of_none h

theorem marked_settingUp {pc : StartPc} (h : Entity.SettingUp pid pc) :
    (Pc.start pc).Marked w n ↔ w.Marked n pid false := by
  refine Entity.settingUp_cases
    (P := fun pc => (Pc.start pc).Marked w n ↔ w.Marked n pid false) h ?_ ?_ ?_ ?_
  all_goals exact fun _ => Iff.rfl

theorem start_marked {pc : StartPc} (h : Entity.StartStep w e pc o w' control)
    (hpc : pc.Live w e.name) (hmarked : (Pc.start pc).Marked w e.name) :
    Guard.marked.after w' e control := by
  cases h with
  | live _ => exact hmarked
  | noUplink hnone _ => trivial
  | uplink hnone _ _ => exact hnone
  | socketpair => trivial
  | noSocketpair => exact .of_none hpc
  | fork _ => exact ⟨_, by rw [World.find_fork, if_pos rfl], rfl, rfl⟩
  | noFork => exact .of_none hpc
  | emplace =>
    obtain ⟨p, hp, hn, hb⟩ := hmarked
    exact ⟨p, by rwa [World.emplace_processes], hn, hb⟩
  | noBus => exact .of_none hpc.1
  | goto hpc₁ hpc₂ _ | suspend hpc₁ hpc₂ =>
    exact (marked_settingUp hpc₂).mpr ((marked_settingUp hpc₁).mp hmarked)
  | notSetUp hpc₁ _ _ =>
    exact ((marked_settingUp hpc₁).mp hmarked).unmarked ((live_settingUp hpc₁).mp hpc).1
  | components => exact hmarked
  | send _ => exact World.Marked.update hmarked (fun _ => rfl) fun _ => rfl
  | acknowledged => exact World.Marked.update hmarked (fun _ => rfl) fun _ => rfl
  | notAdded => exact World.Marked.unmarked hmarked hpc.1
  | finish => exact World.Marked.unmarked hmarked hpc.1

theorem stop_marked {pc : StopPc} (h : Entity.StopStep w e pc o w' control)
    (hpc : pc.Live w e.name) (hmarked : (Pc.stop pc).Marked w e.name) (ho : o.fails = false) :
    Guard.marked.after w' e control := by
  cases h with
  | notStarted hnone => exact .of_none hnone
  | shutdown hlive =>
    obtain ⟨p, hp, hn, -⟩ := hmarked _ hlive
    exact ⟨_, World.find_update_self hp, hn, rfl⟩
  | notShutdown => cases ho
  | acknowledged => exact hmarked
  | reap =>
    -- what is recorded has been reaped
    intro k p hk hp hn
    rw [World.find_reap] at hp
    split_ifs at hp with hkp
    exact absurd (Option.some.inj (hk.symm.trans hpc.1)) hkp
  | notReaped => cases ho
  | erase => trivial
  | stopUnit => trivial
  | stopReply => trivial
  | notStopped _ hfails _ =>
    rw [ho] at hfails
    cases hfails
  | finish => exact .of_none hpc

theorem turn_marked {id : Nat} {frame : Frame} (h : Daemon.Turn w id frame o w' control)
    (htok : frame.pc.hasToken = true) (hpc : frame.pc.Live w frame.entity.name)
    (hmarked : frame.pc.Marked w frame.entity.name) (ho : o.fails = false) :
    Guard.marked.after w' frame.entity control := by
  rcases h.of_hasToken htok with ⟨pc, he, hs⟩ | ⟨pc, he, hs⟩
  · rw [he] at hpc hmarked
    exact start_marked hs hpc hmarked
  · rw [he] at hpc hmarked
    exact stop_marked hs hpc hmarked ho

/-! ### An entity that is up -/

/-- A start does nothing to an entity that is up. -/
theorem start_up {pc : StartPc} (h : Entity.StartStep w e pc o w' control)
    (hpc : pc.Live w e.name) (hup : w.Up e.name) : w'.Up e.name := by
  cases h with
  | fork _ => exact absurd hpc hup.live_ne_none
  | emplace => exact absurd hpc.1 hup.live_ne_none
  | send _ => exact hup.update (fun _ => rfl) (fun _ => rfl) fun _ _ htype => htype
  | acknowledged =>
    exact hup.update (fun _ => rfl) (fun _ => rfl) fun _ _ htype => List.mem_append_left _ htype
  | _ => exact hup

/-- A stop that is past its lookup is not of an entity that is up. -/
theorem stop_up {pc : StopPc} (h : Entity.StopStep w e pc o w' control)
    (hpc : pc.Live w e.name) (hmarked : (Pc.stop pc).Marked w e.name) (hne : pc ≠ .find)
    (hup : w.Up e.name) : w'.Up e.name := by
  cases h with
  | shutdown _ => exact absurd rfl hne
  | reap => exact absurd hmarked (hup.not_marked hpc.1)
  | erase => exact absurd hmarked hup.not_leaving
  | _ => exact hup

theorem turn_up {id : Nat} {frame : Frame} (h : Daemon.Turn w id frame o w' control)
    (htok : frame.pc.hasToken = true) (hpc : frame.pc.Live w frame.entity.name)
    (hmarked : frame.pc.Marked w frame.entity.name)
    (hne : frame.entity.name = n → frame.pc ≠ .stop .find) (hup : w.Up n) : w'.Up n := by
  by_cases hn : n = frame.entity.name
  · subst hn
    cases h with
    | taken he _ => rw [he] at htok; cases htok
    | queued he _ => rw [he] at htok; cases htok
    | start he hs =>
      rw [he] at hpc
      exact start_up hs hpc hup
    | stop he hs =>
      rw [he] at hpc hmarked hne
      exact stop_up hs hpc hmarked (fun hfind => hne rfl (by rw [hfind])) hup
  · exact hup.same ((turn_live h htok hpc).1 n hn) (World.grows_of_manager (Daemon.turn_manager h))

/-! ### Starts that still need their uplink -/

/-- The network component is still to be sent, and the uplink has been started. -/
def Pc.NetworkAhead : Pc → Prop
  | start .check => False
  | start (.components _ rest) | start (.added _ _ rest) => "network" ∈ rest.map Prod.fst
  | start _ => True
  | _ => False

/-- The frame is about to send the network component of an entity with the uplink `u`. -/
def Frame.Needs (frame : Frame) (u : String) : Prop :=
  frame.pc.NetworkAhead ∧ frame.entity.uplink = some (.string u)

theorem networkAhead_settingUp {pc : StartPc} (h : Entity.SettingUp pid pc) :
    (Pc.start pc).NetworkAhead := by
  cases pc <;> trivial

/-- A start comes to need its uplink only by having started it. -/
theorem start_needs {pc : StartPc} {pc' : Pc} (h : Entity.StartStep w e pc o w' control)
    (hc : control = .goto pc' ∨ control = .suspend pc') (hpc' : pc'.NetworkAhead) :
    (Pc.start pc).NetworkAhead ∨ e.uplink = none := by
  rcases hc with rfl | rfl
  · cases h with
    | noUplink _ hup => exact Or.inr hup
    | goto hpc₁ _ _ => exact Or.inl (networkAhead_settingUp hpc₁)
    | acknowledged => exact Or.inl hpc'
    | _ => exact Or.inl trivial
  · cases h with
    | suspend hpc₁ _ => exact Or.inl (networkAhead_settingUp hpc₁)
    | send _ => exact Or.inl (List.mem_cons_of_mem _ hpc')

theorem turn_needs {id : Nat} {frame : Frame} {pc' : Pc} {u : String}
    (h : Daemon.Turn w id frame o w' control) (hc : control = .goto pc' ∨ control = .suspend pc')
    (hneeds : Frame.Needs { frame with pc := pc' } u) : frame.Needs u := by
  obtain ⟨hpc', hu⟩ := hneeds
  cases h with
  | taken _ _ =>
    rcases hc with hc | hc
    · cases hc
      cases hm : frame.method <;> · rw [hm] at hpc'; exact hpc'.elim
    · cases hc
  | queued _ _ =>
    rcases hc with hc | hc
    · cases hc
    · cases hc
      exact hpc'.elim
  | start he hs =>
    rcases start_needs hs hc hpc' with hold | hnone
    · exact ⟨he ▸ hold, hu⟩
    · exact nomatch hnone.symm.trans hu
  | stop he hs =>
    have hof := Daemon.stop_of hs
    cases pc' with
    | start pc => rcases hc with rfl | rfl <;> cases hof
    | _ => exact hpc'.elim

namespace Daemon

open Machine

variable {parse : String → Option Json} {d d' : Daemon} {i : Input} {id : Nat} {u : String}
  {chain chain' : Chain} {stack : List Activity} {c : Config}

/-- A stop of `u` finds `u` live and has it shut down, while a start needs its
uplink `u`. -/
def StopsUplink (d : Daemon) (i : Input) : Prop :=
  ∃ id o stack chain, Turns d i id o stack ∧ d.chains.find id = some chain ∧
    chain.frame.pc = .stop .find ∧ ∃ id' chain', d.chains.find id' = some chain' ∧
      chain'.frame.Needs chain.frame.entity.name

/-- Every external call succeeds. -/
def Succeeds (d : Daemon) (i : Input) : Prop := ¬ d.TurnAt i fun _ o => o.fails = true

/-- The step sends a component of the type `type` to the process of `e`. -/
def Sends (d : Daemon) (i : Input) (e : Entity) (type : String) : Prop :=
  ∃ id o stack chain pid component rest, Turns d i id o stack ∧ d.chains.find id = some chain ∧
    chain.frame.entity = e ∧ chain.frame.pc = .start (.components pid ((type, component) :: rest))

/-- A start that needs its uplink has it. -/
def UplinksUp (d : Daemon) : Prop :=
  ∀ id chain u, d.chains.find id = some chain → chain.frame.Needs u → d.world.Up u

theorem Succeeds.not_fails (hi : Succeeds d i) {o : Outcome} (hturns : Turns d i id o stack)
    (hchain : d.chains.find id = some chain) : o.fails = false := by
  cases ho : o.fails with
  | false => rfl
  | true => exact absurd ⟨id, o, stack, chain, hturns, hchain, ho⟩ hi

theorem reaches_marked (h : (machine parse).Reaches Succeeds (start c) d) :
    Guard.marked.Kept d := by
  refine reaches_kept marked_lawful (fun n => World.Unmarked.of_none rfl) ?_ h
  intro d i id o stack chain w control hd hkept hi hturns hchain htok ht
  have hlive := (reaches_live (hd.mono fun _ _ _ => trivial)).frame id chain hchain htok
  exact ⟨(turn_live ht htok hlive).1,
    turn_marked ht htok hlive (hkept.frame id chain hchain htok) (hi.not_fails hturns hchain)⟩

theorem succeeds_acked (h : (machine parse).Reaches Succeeds (start c) d) :
    Guard.acked.Kept d := by
  apply reaches_acked ?_ h
  intro d i hi hhalf
  obtain ⟨id, o, stack, chain, hturns, hchain, hfails, -⟩ := hhalf
  exact hi ⟨id, o, stack, chain, hturns, hchain, hfails⟩

/-- **A start that returns leaves its entity up.** -/
theorem up_of_done (hd : (machine parse).Reaches Succeeds (start c) d) {o : Outcome} {w : World}
    (hchain : d.chains.find id = some chain) (hturns : Turns d i id o stack) (hi : Succeeds d i)
    (ht : Turn d.world id chain.frame o w .done) (hmethod : chain.frame.method = .start) :
    w.Up chain.frame.entity.name := by
  have hd' : (machine parse).Reaches Always (start c) d := hd.mono fun _ _ _ => trivial
  have hshape := reaches_shaped hd' hchain
  have hk := hshape.knows _ (List.mem_cons_self ..)
  have hof := hshape.pc
  rw [hmethod] at hof
  have ho := hi.not_fails hturns hchain
  have ht' := ht
  cases ht with
  | stop he hs =>
    rw [he] at hof
    cases hof
  | start he hs =>
    have htok : chain.frame.pc.hasToken = true := by rw [he]; rfl
    have hlive := (reaches_live hd').frame id chain hchain htok
    have hacked := (succeeds_acked hd).frame id chain hchain htok
    have hmarked := (reaches_marked hd).frame id chain hchain htok
    have hpc := hlive
    rw [he] at hpc
    obtain ⟨pid, hpid⟩ := start_done hs hpc
    have hafter := turn_acked ht' htok hlive hacked hk fun hhalf =>
      absurd hhalf.1 (by rw [ho]; decide)
    exact ⟨pid, hpid, hafter pid hpid, turn_marked ht' htok hlive hmarked ho pid hpid⟩

/-- A turn leaves up what is up, unless it has it shut down. -/
theorem up_of_turn (hd : (machine parse).Reaches Succeeds (start c) d) {o : Outcome} {w : World}
    {control : Control} (hchain : d.chains.find id = some chain)
    (ht : Turn d.world id chain.frame o w control)
    (hne : chain.frame.entity.name = u → chain.frame.pc ≠ .stop .find) (hup : d.world.Up u) :
    w.Up u := by
  have hd' : (machine parse).Reaches Always (start c) d := hd.mono fun _ _ _ => trivial
  have hqueue : ∀ n q, (d.world.setQueue n q).Up u :=
    fun n q => hup.same World.same_setQueue (World.grows_of_manager rfl)
  by_cases htok : chain.frame.pc.hasToken = true
  · exact turn_up ht htok ((reaches_live hd').frame id chain hchain htok)
      ((reaches_marked hd).frame id chain hchain htok) hne hup
  · cases ht with
    | taken _ _ => exact hqueue _ _
    | queued _ _ => exact hqueue _ _
    | start he _ => exact absurd (by rw [he]; rfl) htok
    | stop he _ => exact absurd (by rw [he]; rfl) htok

theorem Frame.Needs.start_pc {frame : Frame} (h : frame.Needs u) : ∃ pc, frame.pc = .start pc := by
  obtain ⟨hpc, -⟩ := h
  cases he : frame.pc with
  | start pc => exact ⟨pc, rfl⟩
  | _ => rw [he] at hpc; exact hpc.elim

theorem not_needs_entry {e : Entity} {method m : Method} :
    ¬ Frame.Needs ⟨e, m, method.entry⟩ u := by
  rintro ⟨hpc, -⟩
  cases method <;> exact hpc

/-- What a turn leaves of its own chain. -/
theorem uplinkUp_settled (h : d.UplinksUp) (hd : (machine parse).Reaches Succeeds (start c) d)
    {o : Outcome} {w : World} {control : Control} (hi : Succeeds d i)
    (hturns : Turns d i id o stack) (hchain : d.chains.find id = some chain)
    (ht : Turn d.world id chain.frame o w control) (hs : chain.settled control = some chain')
    (hneeds : chain'.frame.Needs u) : w.Up u := by
  have hd' : (machine parse).Reaches Always (start c) d := hd.mono fun _ _ _ => trivial
  have hstays : ∀ pc, control = .goto pc ∨ control = .suspend pc →
      (chain.goTo pc).frame.Needs u → w.Up u := by
    intro pc hc hnew
    have hold : chain.frame.Needs u := turn_needs ht hc hnew
    obtain ⟨pc₀, hpc₀⟩ := Frame.Needs.start_pc hold
    exact up_of_turn hd hchain ht (fun _ hfind => by rw [hpc₀] at hfind; cases hfind)
      (h id chain u hchain hold)
  have hshape := reaches_shaped hd' hchain
  unfold Chain.settled at hs
  split at hs
  · cases hs
    exact hstays _ (Or.inl rfl) hneeds
  · cases hs
    exact hstays _ (Or.inr rfl) hneeds
  · cases hs
    exact hneeds.1.elim
  · split at hs
    · cases hs
    · rename_i parent awaiting ha
      cases hs
      -- the uplink of the parent is the entity whose start has returned
      have hlinked := hshape.linked
      have hmethod := hshape.method
      rw [Chain.entities, ha] at hlinked
      rw [if_neg (by rw [ha]; simp)] at hmethod
      have hlink := (List.isChain_cons_cons.mp hlinked).1
      have hparent : parent ∈ chain.entities := by
        rw [Chain.entities, ha]
        exact List.mem_cons_of_mem _ (List.mem_cons_self ..)
      have hparentUp : Config.entityUplink parent.self = some u :=
        Entity.uplink_eq_some.mp hneeds.2
      rw [(hshape.knows parent hparent).uplink, hparentUp] at hlink
      have hup := up_of_done hd hchain hturns hi ht hmethod.1
      rwa [← Option.some.inj hlink] at hup
  · cases hs

theorem uplinksUp_step (h : d.UplinksUp) (hd : (machine parse).Reaches Succeeds (start c) d)
    (hi : Succeeds d i) (hno : ¬ StopsUplink d i) (hstep : (machine parse).step d i = some d') :
    d'.UplinksUp := by
  intro k chain' u hk hneeds
  cases step_cases hstep with
  | @request method parsed _ =>
    rw [request_world]
    cases request_became _ _ hk with
    | opened _ _ _ => exact hneeds.1.elim
    | kept hold => exact h k chain' u hold hneeds
    | turned hturns _ _ _ => cases hturns
    | resumed _ _ => exact absurd hneeds not_needs_entry
  | @call call manager _ _ hserve =>
    have hup : d.world.Up u := h k chain' u hk hneeds
    have hsame : d.world.Same u { d.world with manager } := ⟨rfl, fun _ _ _ => Iff.rfl⟩
    exact hup.same hsame (Transactions.serve_grows hserve)
  | @turn _ id o stack chain w control hturns hchain hframe =>
    have ht := turn_cases hframe
    rw [settle_world]
    rw [find_settle] at hk
    split_ifs at hk with hki
    · exact uplinkUp_settled h hd hi hturns hchain ht hk hneeds
    · refine up_of_turn hd hchain ht (fun hname hfind => ?_) (h k chain' u hk hneeds)
      exact hno ⟨id, o, stack, chain, hturns, hchain, hfind, k, chain', hk, hname ▸ hneeds⟩
  | drop _ hdrop =>
    cases drop_cases hdrop with
    | freed _ _ =>
      exact (h k chain' u hk hneeds).same World.same_setQueue (World.grows_of_manager rfl)
    | @handed id chain queue _ _ hchain hpc =>
      change (d.chains.insert _ _).find k = some chain' at hk
      rw [OrdMap.find_insert] at hk
      split_ifs at hk with hki
      · cases hk
        exact absurd hneeds not_needs_entry
      · exact (h k chain' u hk hneeds).same World.same_setQueue (World.grows_of_manager rfl)

theorem reaches_uplinksUp
    (h : (machine parse).Reaches (fun d i => Succeeds d i ∧ ¬ StopsUplink d i) (start c) d) :
    d.UplinksUp := by
  refine h.invariant_of_reaches (I := UplinksUp) (fun _ _ _ hk => nomatch hk) ?_
  intro d i d' hd ih hi hstep
  exact uplinksUp_step ih (hd.mono fun _ _ hi => hi.1) hi.1 hi.2 hstep

/-- The first stop of an uplink that is needed takes it down. -/
theorem down_of_stopsUplink (h : d.UplinksUp) (hi : StopsUplink d i) (hs : Succeeds d i)
    (hstep : (machine parse).step d i = some d') :
    ∃ id chain u, d'.chains.find id = some chain ∧ chain.frame.Needs u ∧ ¬ d'.world.Up u := by
  obtain ⟨id, o, stack, chain, hturns, hchain, hfind, id', chain', hchain', hneeds⟩ := hi
  have hne : id' ≠ id := by
    rintro rfl
    rw [hchain] at hchain'
    cases hchain'
    obtain ⟨pc, hpc⟩ := Frame.Needs.start_pc hneeds
    rw [hfind] at hpc
    cases hpc
  obtain ⟨w, control, hframe, rfl⟩ := step_of_turns hturns hchain hstep
  refine ⟨id', chain', chain.frame.entity.name, by rw [find_settle, if_neg hne, hchain'], hneeds, ?_⟩
  rw [settle_world]
  obtain ⟨pid, hpid, -, p, hp, hn, -⟩ := h id' chain' _ hchain' hneeds
  have ho := hs.not_fails hturns hchain
  cases turn_cases hframe with
  | taken he _ => rw [hfind] at he; cases he
  | queued he _ => rw [hfind] at he; cases he
  | start he _ => rw [hfind] at he; cases he
  | stop he hstop =>
    rw [hfind] at he
    cases he
    cases hstop with
    | notStarted hnone =>
      rw [hpid] at hnone
      cases hnone
    | shutdown hlive =>
      rw [hpid] at hlive
      cases hlive
      intro hup
      exact hup.not_marked (by rwa [World.update_live]) ⟨_, World.find_update_self hp, hn, rfl⟩
    | notStopped hat _ _ => rcases hat with hat | hat <;> cases hat

/-- **The uplink comes first.**  In a run in which every external call succeeds and
no stop has the uplink of a start that needs it shut down, the uplink is up when a
network component is sent.  The first such stop leaves a start that still needs its uplink
with the uplink down, which says nothing of whether that start goes on to send. -/
theorem uplink_first
    (h : (machine parse).Reaches (fun d i => Succeeds d i ∧ ¬ StopsUplink d i) (start c) d) :
    (∀ i e u, Sends d i e "network" →
      Config.uplinkOf d.world.manager.running.configuration e.name = some u → d.world.Up u) ∧
    ∀ i d', (machine parse).step d i = some d' → Succeeds d i → StopsUplink d i →
      ∃ id chain u, d'.chains.find id = some chain ∧ chain.frame.Needs u ∧ ¬ d'.world.Up u := by
  refine ⟨?_, fun i d' hstep hs hi => down_of_stopsUplink (reaches_uplinksUp h) hi hs hstep⟩
  rintro i e u ⟨id, o, stack, chain, pid, component, rest, -, hchain, rfl, hpc⟩ hu
  have hk := (reaches_shaped (h.mono fun _ _ _ => trivial) hchain).knows _ (List.mem_cons_self ..)
  rw [hk.uplink] at hu
  refine reaches_uplinksUp h id chain u hchain ⟨?_, Entity.uplink_eq_some.mpr hu⟩
  rw [hpc]
  exact List.mem_cons_self ..

/-- Without a request to stop something nothing is stopped. -/
theorem reaches_of_starts
    (h : (machine parse).Reaches (fun d i => Succeeds d i ∧ ∀ parsed, i ≠ .request .stop parsed)
      (start c) d) :
    (machine parse).Reaches (fun d i => Succeeds d i ∧ ¬ StopsUplink d i) (start c) d := by
  have hboth : (machine parse).Reaches (fun d i => Succeeds d i ∧ ¬ StopsUplink d i) (start c) d ∧
      ∀ id chain, d.chains.find id = some chain → chain.frame.method = .start := by
    refine h.invariant_of_reaches (I := fun d =>
      (machine parse).Reaches (fun d i => Succeeds d i ∧ ¬ StopsUplink d i) (start c) d ∧
        ∀ id chain, d.chains.find id = some chain → chain.frame.method = .start)
      ⟨Reaches.refl _, fun _ _ hk => nomatch hk⟩ ?_
    rintro d i d' hd ⟨ih, hstarts⟩ ⟨hi, hrequest⟩ hstep
    refine ⟨ih.tail ⟨hi, ?_⟩ hstep, ?_⟩
    · rintro ⟨id, o, stack, chain, -, hchain, hfind, -⟩
      have hof := (reaches_shaped (hd.mono fun _ _ _ => trivial) hchain).pc
      rw [hfind, hstarts id chain hchain] at hof
      cases hof
    · intro k chain' hk
      cases step_became hstep hk with
      | @opened method name entity he _ _ =>
        cases method with
        | start => rfl
        | stop => exact absurd he (hrequest _)
      | kept hold => exact hstarts k chain' hold
      | @turned _ _ chain _ _ _ _ hold _ hs =>
        unfold Chain.settled at hs
        split at hs
        · cases hs; exact hstarts k chain hold
        · cases hs; exact hstarts k chain hold
        · cases hs; rfl
        · split at hs
          · cases hs
          · cases hs; rfl
        · cases hs
      | @resumed chain hold _ => exact hstarts k chain hold
  exact hboth.1

/-- A file with a switch `a` that has the switch `b` as its uplink. -/
def uplinkFile : Json :=
  .object [("!metadata", .object [("version", .integer 1)]),
    ("a", .object [("network", .object [("role", .string "switch"), ("uplink", .string "b")])]),
    ("b", .object [("network", .object [("role", .string "switch")])])]

/-- `a` is started: `b` is, then the process of `a`, and then the token of `b` is
given up. -/
def startUplink : List Input :=
  .request .start (.ok "a") :: [.tick .ok, .tick .ok] ++ launch 1 ++ units 0 ++
    [.tick .ok, .wake 0 (.value true), .tick .ok, .tick .ok, .tick (.forked 2), .tick .ok,
      .tick .ok, .tick .ok, .tick .ok, .tick .ok, .tick .ok, .tick .ok, .tick .ok]

/-- The next step of `d` sends the network component of `a`, which has the uplink `b`. -/
def sendsToA (d : Daemon) : Bool :=
  d.stack = [.run 0] ∧ (d.chains.find 0).any fun chain => chain.frame.entity.name = "a" ∧
    chain.frame.pc matches .start (.components _ (("network", _) :: _)) ∧
    Config.uplinkOf d.world.manager.running.configuration "a" = some "b"

theorem sends_of_sendsToA {d : Daemon} (h : sendsToA d = true) :
    ∃ e, Sends d (.tick .ok) e "network" ∧
      Config.uplinkOf d.world.manager.running.configuration e.name = some "b" := by
  obtain ⟨hstack, hchain⟩ := of_decide_eq_true h
  obtain ⟨chain, hchain, hat⟩ := (Option.any_eq_true ..).mp hchain
  obtain ⟨hname, hpc, hup⟩ := of_decide_eq_true hat
  split at hpc
  · rename_i pid component rest hpc'
    exact ⟨_, ⟨0, .ok, [], chain, pid, component, rest, .tick hstack, hchain, rfl, hpc'⟩, hname ▸ hup⟩
  · cases hpc

theorem uplink_first_startUplink :
    ∃ d, loadAndRun (fun _ => none) uplinkFile (startUplink ++ units 0) = some d ∧
      d.world.Up "b" := by
  have hrun : (loadAndRun (fun _ => none) uplinkFile (startUplink ++ units 0)).any sendsToA =
      true := by decide +kernel
  obtain ⟨d, hd, hat⟩ := (Option.any_eq_true ..).mp hrun
  obtain ⟨e, hsends, hu⟩ := sends_of_sendsToA hat
  obtain ⟨c, -, hinputs⟩ := loadAndRun_eq_some_iff.mp hd
  have hok : ∀ i ∈ startUplink ++ units 0, i.outcome.fails = false := by decide
  have hreaches := reaches_of_run_of_forall (C := fun d i => Succeeds d i ∧
    ∀ parsed, i ≠ .request .stop parsed) hinputs fun i hi s => by
      refine ⟨?_, ?_⟩
      · rintro ⟨id, o, stack, chain, hturns, -, hfails⟩
        rw [← hturns.outcome, hok i hi] at hfails
        cases hfails
      · rintro parsed rfl
        simp [startUplink, launch, units] at hi
  exact ⟨d, hd, (uplink_first (reaches_of_starts hreaches)).1 _ e "b" hsends hu⟩

/-- **A stop between the start of the uplink and the component that needs it**: the
network component is sent with the uplink shutting down. -/
theorem uplink_stopped :
    ¬ ∀ (parse : String → Option Json) (j : Json) (inputs : List Input) (d : Daemon) (i : Input)
      (e : Entity) (u : String), loadAndRun parse j inputs = some d →
        (∀ i ∈ inputs, i.outcome.fails = false) →
        Acyclic (Config.uplinkOf d.world.manager.running.configuration) →
        Sends d i e "network" →
        Config.uplinkOf d.world.manager.running.configuration e.name = some u → d.world.Up u := by
  intro h
  have hrun : (loadAndRun (fun _ => none) uplinkFile (startUplink ++
      [.request .stop (.ok "b"), .tick .ok, .tick .ok] ++ units 0)).any (fun d =>
        sendsToA d ∧ (∀ k ∈ d.world.manager.running.configuration.keys,
          ascend (Config.uplinkOf d.world.manager.running.configuration) 2 k = none) ∧
        d.world.live.find "b" = some 1 ∧ (d.world.processes.find 1).any Process.shutdown) =
      true := by decide +kernel
  obtain ⟨d, hd, hlast⟩ := (Option.any_eq_true ..).mp hrun
  obtain ⟨hat, hkeys, hlive, hshutdown⟩ := of_decide_eq_true hlast
  obtain ⟨e, hsends, hu⟩ := sends_of_sendsToA hat
  obtain ⟨pid, hpid, -, p, hp, -, hb⟩ :=
    h _ _ _ d _ e "b" hd (by decide) (Config.acyclic_of_keys 2 hkeys) hsends hu
  rw [hlive] at hpid
  cases hpid
  obtain ⟨p', hp', hb'⟩ := (Option.any_eq_true ..).mp hshutdown
  rw [hp] at hp'
  cases hp'
  rw [hb] at hb'
  cases hb'

end Daemon

end Nonsense
