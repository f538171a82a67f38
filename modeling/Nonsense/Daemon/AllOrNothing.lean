import Nonsense.Daemon.Live
import Nonsense.Daemon.References
import Nonsense.Daemon.Replies

/-!
# Starting and stopping as a whole

A start puts the entity into `_live_entities` in its middle, and a stop takes it out
in its middle.  Where something fails after that, the coroutine is destroyed and
the map stays as it is (`Pc.LeavesHalf`): a start that has failed leaves the entity
live, so that the next start succeeds at once with nothing set up, and a stop that
has failed has nothing left to stop.

`acked` is the guard for the runs without such a failure: a live entity that nobody
is at work on has acknowledged all its components.  From it, `all_or_nothing` says
what is so when a reply is sent, where no commit takes the components away from under
a start that has them still to send (`Replaces`).
-/

namespace Nonsense

namespace World

/-- The process `pid` of `n` has acknowledged every component of the entity. -/
def Acked (w : World) (n : String) (pid : Nat) : Prop :=
  (w.manager.running.configuration.find n).isSome ∧
    ∃ p, w.processes.find pid = some p ∧ p.name = n ∧
      ∀ j, Config.IsEntity w.manager.running.configuration n →
        w.manager.running.configuration.find n = some j →
        ∀ type ∈ j.itemKeys, type ∈ p.acknowledged

/-- If `n` is live, it is set up. -/
def Completed (w : World) (n : String) : Prop := ∀ pid, w.live.find n = some pid → w.Acked n pid

/-- Of the components of `e` only those of a type in `rest` are not acknowledged. -/
def Sending (w : World) (e : Entity) (pid : Nat) (rest : List String) : Prop :=
  ∃ p, w.processes.find pid = some p ∧ p.name = e.name ∧
    ∀ type ∈ e.self.itemKeys, type ∈ p.acknowledged ∨ type ∈ rest

variable {w w' : World} {n : String} {e : Entity} {pid : Nat} {rest : List String}
  {f : Process → Process}

theorem Acked.same (hs : w.Same n w') (hg : w.Grows w') (h : w.Acked n pid) : w'.Acked n pid := by
  obtain ⟨hin, p, hp, hn, hacked⟩ := h
  refine ⟨hg.find _ hin, p, (hs.processes pid p hn).mpr hp, hn, ?_⟩
  intro j hent hj type htype
  obtain ⟨hent', j', hj', htypes⟩ := hg.types n j hent hj hin
  exact hacked j' hent' hj' type ((htypes type).mp htype)

theorem Completed.same (hs : w.Same n w') (hg : w.Grows w') (h : w.Completed n) :
    w'.Completed n := fun pid hpid => (h pid (hs.live ▸ hpid)).same hs hg

theorem Sending.same (hs : w.Same e.name w') (h : w.Sending e pid rest) :
    w'.Sending e pid rest := by
  obtain ⟨p, hp, hn, hacked⟩ := h
  exact ⟨p, (hs.processes pid p hn).mpr hp, hn, hacked⟩

theorem Completed.of_none (h : w.live.find n = none) : w.Completed n := by
  intro pid hpid
  rw [h] at hpid
  cases hpid

theorem Acked.completed (h : w.Acked n pid) (hlive : w.live.find n = some pid) :
    w.Completed n := by
  intro k hk
  rw [hlive] at hk
  cases hk
  exact h

theorem Sending.acked (h : w.Sending e pid []) (hk : e.Knows w.manager.running.configuration) :
    w.Acked e.name pid := by
  obtain ⟨p, hp, hn, hacked⟩ := h
  refine ⟨hk.find, p, hp, hn, ?_⟩
  intro j hent hj type htype
  rcases hacked type (hk.types j hent hj type htype) with h | h
  · exact h
  · cases h

theorem find_update_self {p : Process} (hp : w.processes.find pid = some p) :
    (w.update pid f).processes.find pid = some (f p) := by
  rw [find_update, if_pos rfl, hp]
  rfl

@[simp] theorem update_manager : (w.update pid f).manager = w.manager := by
  unfold update
  split <;> rfl

end World

/-! ### The guard -/

/-- What is known at a point past the queue of how far the components are. -/
def Pc.Acked (w : World) (e : Entity) : Pc → Prop
  | start .check | stop .find => w.Completed e.name
  | start (.components pid rest) => w.Sending e pid (rest.map Prod.fst)
  | start (.added pid type rest) => w.Sending e pid (type :: rest.map Prod.fst)
  | stop (.shutdown pid) | stop (.waitpid pid) => w.Acked e.name pid
  | _ => True

/-- After `emplace` in a start, or after `erase` in a stop. -/
def Pc.Committed : Pc → Prop
  | start (.setup ..) | start (.startUnit ..) | start (.unitReply ..) | start (.unitJob ..)
  | start (.components ..) | start (.added ..) => True
  | stop .stopUnit | stop .stopReply | stop .stopJob => True
  | _ => False

/-- An external call fails where the coroutine has changed `_live_entities`. -/
def Pc.LeavesHalf (pc : Pc) (o : Outcome) : Prop := o.fails = true ∧ pc.Committed

def Guard.acked : Guard where
  frame w e pc := pc.Acked w e
  caller w n := w.live.find n = none
  free := World.Completed

variable {w w' : World} {e : Entity} {o : Outcome} {control : Control} {pid : Nat}

theorem Pc.Acked.same {pc : Pc} (hs : w.Same e.name w') (hg : w.Grows w') (h : pc.Acked w e) :
    pc.Acked w' e := by
  unfold Pc.Acked at h ⊢
  split at h
  · exact World.Completed.same hs hg h
  · exact World.Completed.same hs hg h
  · exact World.Sending.same hs h
  · exact World.Sending.same hs h
  · exact World.Acked.same hs hg h
  · exact World.Acked.same hs hg h
  · trivial

theorem acked_lawful : Guard.acked.Lawful where
  frame hs hg h := Pc.Acked.same hs hg h
  caller hs _ h := hs.live.trans h
  free hs hg h := World.Completed.same hs hg h
  entry method h := by cases method <;> exact h
  back _ := trivial
  drop h := .of_none h

theorem acked_settingUp {pc : StartPc} (h : Entity.SettingUp pid pc) : (Pc.start pc).Acked w e := by
  cases pc <;> trivial

theorem committed_settingUp {pc : StartPc} (h : Entity.SettingUp pid pc) :
    (Pc.start pc).Committed := by
  cases pc <;> trivial

/-- A turn of `start` that does not fail halfway. -/
theorem start_acked {pc : StartPc} (h : Entity.StartStep w e pc o w' control)
    (hpc : pc.Live w e.name) (hacked : (Pc.start pc).Acked w e)
    (hk : e.Knows w.manager.running.configuration) (hno : ¬ (Pc.start pc).LeavesHalf o) :
    Guard.acked.after w' e control := by
  cases h with
  | live _ => exact hacked
  | noUplink hnone _ => trivial
  | uplink hnone _ _ => exact hnone
  | socketpair => trivial
  | noSocketpair => exact .of_none hpc
  | fork _ => trivial
  | noFork => exact .of_none hpc
  | emplace => trivial
  | noBus => exact .of_none hpc.1
  | goto _ hpc₂ _ => exact acked_settingUp hpc₂
  | suspend _ hpc₂ => exact acked_settingUp hpc₂
  | notSetUp hpc₁ hfails _ => exact absurd ⟨hfails, committed_settingUp hpc₁⟩ hno
  | components =>
    obtain ⟨p, hp, hn⟩ := hpc.2
    refine ⟨p, hp, hn, fun type htype => Or.inr ?_⟩
    rwa [Json.map_fst_items]
  | send _ =>
    obtain ⟨p, hp, hn, hrest⟩ := hacked
    exact ⟨_, World.find_update_self hp, hn, hrest⟩
  | acknowledged =>
    obtain ⟨p, hp, hn, hrest⟩ := hacked
    refine ⟨_, World.find_update_self hp, hn, ?_⟩
    intro type htype
    rcases hrest type htype with hold | hnew
    · exact Or.inl (List.mem_append_left _ hold)
    · rcases List.mem_cons.mp hnew with rfl | hnew
      · exact Or.inl (List.mem_append_right _ (List.mem_singleton_self _))
      · exact Or.inr hnew
  | notAdded => exact absurd ⟨rfl, trivial⟩ hno
  | finish => exact (World.Sending.acked hacked hk).completed hpc.1

/-- A turn of `stop`. -/
theorem stop_acked {pc : StopPc} (h : Entity.StopStep w e pc o w' control)
    (hpc : pc.Live w e.name) (hacked : (Pc.stop pc).Acked w e) :
    Guard.acked.after w' e control := by
  cases h with
  | notStarted hnone => exact .of_none hnone
  | shutdown hlive =>
    obtain ⟨hin, p, hp, hn, htypes⟩ := hacked _ hlive
    refine ⟨by rwa [World.update_manager], _, World.find_update_self hp, hn, ?_⟩
    rw [World.update_manager]
    exact htypes
  | notShutdown => exact World.Acked.completed hacked hpc.1
  | acknowledged => exact hacked
  | reap => trivial
  | notReaped => trivial
  | erase => trivial
  | stopUnit => trivial
  | stopReply => trivial
  | notStopped hat _ _ =>
    rcases hat with rfl | rfl
    · exact .of_none hpc
    · exact .of_none hpc
  | finish => exact .of_none hpc

theorem turn_acked {id : Nat} {frame : Frame} (h : Daemon.Turn w id frame o w' control)
    (htok : frame.pc.hasToken = true) (hpc : frame.pc.Live w frame.entity.name)
    (hacked : frame.pc.Acked w frame.entity)
    (hk : frame.entity.Knows w.manager.running.configuration)
    (hno : ¬ frame.pc.LeavesHalf o) : Guard.acked.after w' frame.entity control := by
  rcases h.of_hasToken htok with ⟨pc, he, hs⟩ | ⟨pc, he, hs⟩
  · rw [he] at hpc hacked hno
    exact start_acked hs hpc hacked hk hno
  · rw [he] at hpc hacked
    exact stop_acked hs hpc hacked

namespace Daemon

open Machine

variable {parse : String → Option Json} {C : Daemon → Input → Prop} {d d' : Daemon} {i : Input}
  {id : Nat} {n : String} {chain : Chain} {stack : List Activity} {c : Config}

theorem reaches_acked (hC : ∀ d i, C d i → ¬ d.TurnAt i Pc.LeavesHalf)
    (h : (machine parse).Reaches C (start c) d) : Guard.acked.Kept d := by
  refine reaches_kept acked_lawful (fun n => World.Completed.of_none rfl) ?_ h
  intro d i id o stack chain w control hd hkept hi hturns hchain htok ht
  have hd' : (machine parse).Reaches Always (start c) d := hd.mono fun _ _ _ => trivial
  have hlive := (reaches_live hd').frame id chain hchain htok
  have hk := (reaches_shaped hd' hchain).knows _ (List.mem_cons_self ..)
  refine ⟨(turn_live ht htok hlive).1, ?_⟩
  apply turn_acked ht htok hlive (hkept.frame id chain hchain htok) hk
  intro hbad
  exact hC d i hi ⟨id, o, stack, chain, hturns, hchain, hbad⟩

/-- What is live is in the running configuration. -/
theorem find_of_live (h : (machine parse).Reaches Always (start c) d) (hacked : Guard.acked.Kept d)
    {pid : Nat} (hlive : d.world.live.find n = some pid) :
    (d.world.manager.running.configuration.find n).isSome = true := by
  have hknows : ∀ id chain, d.chains.find id = some chain → ∀ e ∈ chain.entities,
      (d.world.manager.running.configuration.find e.name).isSome = true :=
    fun id chain hchain e he => ((reaches_shaped h hchain).knows e he).find
  rcases token_cases d n with ⟨id, chain, hchain, -, rfl⟩ | ⟨id, chain, e, hchain, he, rfl⟩ | hno
  · exact hknows id chain hchain _ (List.mem_cons_self ..)
  · exact hknows id chain hchain e (List.mem_cons_of_mem _ he)
  · exact (hacked.free n hno pid hlive).1

theorem start_done {w w' : World} {e : Entity} {pc : StartPc} {o : Outcome}
    (h : Entity.StartStep w e pc o w' .done) (hpc : pc.Live w e.name) :
    ∃ pid, w'.live.find e.name = some pid := by
  cases h with
  | live hlive => exact Option.isSome_iff_exists.mp hlive
  | finish => exact ⟨_, hpc.1⟩

theorem start_fail {w w' : World} {e : Entity} {pc : StartPc} {o : Outcome} {replies : List Reply}
    (h : Entity.StartStep w e pc o w' (.fail replies)) (hpc : pc.Live w e.name)
    (hno : ¬ (Pc.start pc).LeavesHalf o) : w'.live.find e.name = none := by
  cases h with
  | noSocketpair => exact hpc
  | noFork => exact hpc
  | noBus => exact hpc.1
  | notSetUp hpc₁ hfails _ => exact absurd ⟨hfails, committed_settingUp hpc₁⟩ hno
  | notAdded => exact absurd ⟨rfl, trivial⟩ hno

theorem stop_fail {w w' : World} {e : Entity} {pc : StopPc} {o : Outcome} {replies : List Reply}
    (h : Entity.StopStep w e pc o w' (.fail replies)) (hpc : pc.Live w e.name)
    (hno : ¬ (Pc.stop pc).LeavesHalf o) :
    replies = [.methodError (Entity.entityNotStarted e.name)] ∨
      ∃ pid, w'.live.find e.name = some pid := by
  cases h with
  | notStarted _ => exact Or.inl rfl
  | notShutdown => exact Or.inr ⟨_, hpc.1⟩
  | notStopped hat hfails _ =>
    refine absurd ⟨hfails, ?_⟩ hno
    rcases hat with rfl | rfl <;> trivial

/-- All the replies of an error are errors. -/
theorem isError_of_fail {w w' : World} {frame : Frame} {o : Outcome} {replies : List Reply}
    (h : Turn w id frame o w' (.fail replies)) : ∀ r ∈ replies, r.isError = true := by
  intro r hr
  cases h with
  | start _ hs =>
    cases hs with
    | noSocketpair => cases hr
    | noFork => cases hr
    | notSetUp _ _ herr => exact List.mem_singleton.mp hr ▸ herr
    | _ => exact List.mem_singleton.mp hr ▸ rfl
  | stop _ hs =>
    cases hs with
    | notStopped _ _ herr => exact List.mem_singleton.mp hr ▸ herr
    | _ => exact List.mem_singleton.mp hr ▸ rfl

end Daemon

/-! ### What is so when a reply is sent -/

/-- A reply to a start or a stop tells the truth.  `before` is the world in which
the request came in. -/
structure Sent.AllOrNothing (s : Sent) (before : World) : Prop where
  started : ∀ name, s.request = some (.start, name) → s.reply.isError = false →
    ∃ pid, s.world.live.find name = some pid ∧ s.world.Acked name pid
  notStarted : ∀ name, s.request = some (.start, name) → s.reply.isError = true →
    s.world.live.find name = none ∨
      ∃ pid, before.live.find name = some pid ∧ before.Acked name pid
  notStopped : ∀ name, s.request = some (.stop, name) → s.reply.isError = true →
    s.reply ≠ .methodError (Entity.entityNotStarted name) →
    ∃ pid, s.world.live.find name = some pid

theorem Sent.allOrNothing_of_none {s : Sent} {before : World} (h : s.request = none) :
    s.AllOrNothing before := by
  refine ⟨fun name hreq => ?_, fun name hreq => ?_, fun name hreq => ?_⟩ <;>
    · rw [h] at hreq
      cases hreq

namespace Daemon

open Machine

variable {parse : String → Option Json} {d d' : Daemon} {i : Input} {id : Nat} {chain : Chain}
  {stack : List Activity} {c : Config} {o : Outcome} {w before : World} {control : Control}

/-- Something fails halfway, or an entity is to be stopped that does not exist, or a
commit succeeds while a start is under way. -/
def Breaks (parse : String → Option Json) (d : Daemon) (i : Input) : Prop :=
  d.TurnAt i Pc.LeavesHalf ∨
    (∃ name, i = .request .stop (.ok name) ∧ d.world.tryGet name = none) ∨ Replaces parse d i

/-- The root of a chain without callers is its frame. -/
theorem root_of_nil {tree : Object} (h : chain.Shaped tree) (ha : chain.awaiting = []) :
    chain.name = chain.frame.entity.name ∧ chain.method = chain.frame.method := by
  have hroot := h.root
  have hmethod := h.method
  rw [Chain.entities, ha] at hroot
  rw [if_pos ha] at hmethod
  exact ⟨(Option.some.inj hroot).symm, hmethod.symm⟩

/-- The root of a chain with callers is one of them, and has been asked to start. -/
theorem root_of_ne_nil {tree : Object} (h : chain.Shaped tree) (ha : chain.awaiting ≠ []) :
    (∃ e ∈ chain.awaiting, e.name = chain.name) ∧ chain.method = .start := by
  have hroot := h.root
  have hmethod := h.method
  rw [if_neg ha] at hmethod
  obtain ⟨e, he, hname⟩ := Option.map_eq_some_iff.mp hroot
  obtain ⟨parent, awaiting, hcons⟩ := List.exists_cons_of_ne_nil ha
  rw [Chain.entities, hcons, List.getLast?_cons_cons] at he
  exact ⟨⟨e, hcons ▸ List.mem_of_getLast? he, hname⟩, hmethod.2⟩

/-- The reply of a start that has ended well, or of a stop. -/
theorem allOrNothing_done {tree : Object} (hshape : chain.Shaped tree) (ha : chain.awaiting = [])
    (ht : Turn d.world id chain.frame o w .done)
    (hpc : chain.frame.pc.Live d.world chain.frame.entity.name)
    (hafter : w.Completed chain.frame.entity.name) :
    Sent.AllOrNothing ⟨id, some (chain.method, chain.name), .methodReturn [], w⟩ before := by
  obtain ⟨hname, hmethod⟩ := root_of_nil hshape ha
  refine ⟨?_, fun _ _ herr => (nomatch herr), fun _ _ herr => (nomatch herr)⟩
  intro name hreq _
  obtain ⟨hstart, rfl⟩ := Prod.mk.inj (Option.some.inj hreq)
  have hof := hshape.pc
  rw [← hmethod, hstart] at hof
  cases ht with
  | start he hs =>
    rw [he] at hpc
    obtain ⟨pid, hpid⟩ := start_done hs hpc
    rw [hname]
    exact ⟨pid, hpid, hafter pid hpid⟩
  | stop he _ =>
    rw [he] at hof
    cases hof

/-- The reply of a start or a stop that has failed itself. -/
theorem allOrNothing_root {tree : Object} {replies : List Reply} {r : Reply}
    (hshape : chain.Shaped tree) (ha : chain.awaiting = [])
    (ht : Turn d.world id chain.frame o w (.fail replies)) (hr : r ∈ replies)
    (hpc : chain.frame.pc.Live d.world chain.frame.entity.name)
    (hno : ¬ chain.frame.pc.LeavesHalf o) :
    Sent.AllOrNothing ⟨id, some (chain.method, chain.name), r, w⟩ before := by
  obtain ⟨hname, hmethod⟩ := root_of_nil hshape ha
  have herr := isError_of_fail ht r hr
  have hof := hshape.pc
  rw [← hmethod] at hof
  refine ⟨?_, ?_, ?_⟩
  · intro _ _ hok
    rw [herr] at hok
    cases hok
  · intro name hreq _
    obtain ⟨hstart, rfl⟩ := Prod.mk.inj (Option.some.inj hreq)
    rw [hstart] at hof
    cases ht with
    | start he hs =>
      rw [he] at hpc hno
      rw [hname]
      exact Or.inl (start_fail hs hpc hno)
    | stop he _ =>
      rw [he] at hof
      cases hof
  · intro name hreq _ hother
    obtain ⟨hstop, rfl⟩ := Prod.mk.inj (Option.some.inj hreq)
    rw [hstop] at hof
    cases ht with
    | start he _ =>
      rw [he] at hof
      cases hof
    | stop he hs =>
      rw [he] at hpc hno
      rw [hname] at hother ⊢
      rcases stop_fail hs hpc hno with rfl | hstill
      · exact absurd (List.mem_singleton.mp hr) hother
      · exact hstill

/-- The reply of a start whose uplink has failed: it has not come to its own. -/
theorem allOrNothing_caller {tree : Object} {r : Reply} (hshape : chain.Shaped tree)
    (ha : chain.awaiting ≠ []) (herr : r.isError = true)
    (hnone : ∀ e ∈ chain.awaiting, w.live.find e.name = none) :
    Sent.AllOrNothing ⟨id, some (chain.method, chain.name), r, w⟩ before := by
  obtain ⟨⟨e, he, hname⟩, hmethod⟩ := root_of_ne_nil hshape ha
  refine ⟨?_, ?_, ?_⟩
  · intro _ _ hok
    rw [herr] at hok
    cases hok
  · intro name hreq _
    obtain ⟨-, rfl⟩ := Prod.mk.inj (Option.some.inj hreq)
    exact Or.inl (hname ▸ hnone e he)
  · intro name hreq _ _
    obtain ⟨hstop, -⟩ := Prod.mk.inj (Option.some.inj hreq)
    rw [hmethod] at hstop
    cases hstop

/-- **The replies of a turn** tell the truth, unless it has failed halfway. -/
theorem allOrNothing_turn (hd : (machine parse).Reaches Always (start c) d)
    (hacked : Guard.acked.Kept d) (hchain : d.chains.find id = some chain)
    (ht : Turn d.world id chain.frame o w control) (hno : ¬ chain.frame.pc.LeavesHalf o)
    {r : Reply} (hr : r ∈ chain.answers control) :
    Sent.AllOrNothing ⟨id, some (chain.method, chain.name), r, w⟩ before := by
  have hshape := reaches_shaped hd hchain
  have hlive := reaches_live hd
  have hk := hshape.knows _ (List.mem_cons_self ..)
  -- only a frame past its queue replies
  have htok : chain.frame.pc.hasToken = true := by
    cases ht with
    | taken _ _ => cases hr
    | queued _ _ => cases hr
    | start hpc _ => rw [hpc]; rfl
    | stop hpc _ => rw [hpc]; rfl
  have hpc := hlive.frame id chain hchain htok
  have hafter := turn_acked ht htok hpc (hacked.frame id chain hchain htok) hk hno
  have hsame := (turn_live ht htok hpc).1
  cases control with
  | goto pc => cases hr
  | suspend pc => cases hr
  | call child => cases hr
  | done =>
    unfold Chain.answers at hr
    cases ha : chain.awaiting with
    | cons parent awaiting =>
      rw [ha] at hr
      cases hr
    | nil =>
      rw [ha] at hr
      cases List.mem_singleton.mp hr
      exact allOrNothing_done hshape ha ht hpc hafter
  | fail replies =>
    by_cases ha : chain.awaiting = []
    · exact allOrNothing_root hshape ha ht hr hpc hno
    · refine allOrNothing_caller hshape ha (isError_of_fail ht r hr) fun e he => ?_
      have hnone := hlive.caller id chain hchain e he
      exact (hsame e.name (name_ne_of_awaiting hd hchain htok he)).live.trans hnone

theorem allOrNothing_request (hd : (machine parse).Reaches Always (start c) d)
    (hacked : Guard.acked.Kept d) {method : Method} {parsed : Except Failure String}
    (hi : ¬ Breaks parse d (.request method parsed)) (hold : ∀ s ∈ d.sent, s.AllOrNothing before) :
    ∀ s ∈ (d.request method parsed).sent, s.AllOrNothing before := by
  intro s hs
  unfold request at hs
  split at hs
  · rcases List.mem_append.mp hs with hs | hs
    · obtain ⟨r, -, rfl⟩ := List.mem_map.mp hs
      exact Sent.allOrNothing_of_none rfl
    · exact hold s hs
  · rename_i name
    split at hs
    · rename_i hget
      rcases List.mem_append.mp hs with hs | hs
      · have hnone : d.world.live.find name = none := by
          cases hlive : d.world.live.find name with
          | none => rfl
          | some pid =>
            have hin := find_of_live hd hacked hlive
            have hout : d.world.manager.running.configuration.find name = none :=
              Option.map_eq_none_iff.mp hget
            rw [hout] at hin
            cases hin
        rw [replyStatus_of_neg (by decide)] at hs
        obtain ⟨r, hr, rfl⟩ := List.mem_map.mp hs
        cases List.mem_singleton.mp hr
        refine ⟨fun _ _ hok => (nomatch hok), ?_, ?_⟩
        · intro name' hreq _
          obtain ⟨-, rfl⟩ := Prod.mk.inj (Option.some.inj hreq)
          exact Or.inl hnone
        · intro name' hreq _ _
          obtain ⟨rfl, rfl⟩ := Prod.mk.inj (Option.some.inj hreq)
          exact absurd (Or.inr (Or.inl ⟨_, rfl, hget⟩)) hi
      · exact hold s hs
    · exact hold s hs

theorem reaches_allOrNothing
    (h : (machine parse).Reaches (fun d i => ¬ Breaks parse d i) (start c) d) :
    ∀ s ∈ d.sent, s.AllOrNothing before := by
  refine h.invariant_of_reaches (I := fun d => ∀ s ∈ d.sent, s.AllOrNothing before)
    (fun s hs => absurd hs List.not_mem_nil) fun d i d' hC ih hi hstep => ?_
  have hd : (machine parse).Reaches Always (start c) d := hC.mono fun _ _ _ => trivial
  have hacked : Guard.acked.Kept d :=
    reaches_acked (fun d i hi hhalf => hi (Or.inl hhalf)) hC
  cases step_cases hstep with
  | request _ => exact allOrNothing_request hd hacked hi ih
  | call _ _ =>
    intro s hs
    rcases List.mem_append.mp hs with hs | hs
    · obtain ⟨r, -, rfl⟩ := List.mem_map.mp hs
      exact Sent.allOrNothing_of_none rfl
    · exact ih s hs
  | turn hturns hchain hframe =>
    intro s hs
    rw [sent_settle] at hs
    rcases List.mem_append.mp hs with hs | hs
    · obtain ⟨r, hr, rfl⟩ := List.mem_map.mp hs
      refine allOrNothing_turn hd hacked hchain (turn_cases hframe) (fun hhalf => ?_) hr
      exact hi (Or.inl ⟨_, _, _, _, hturns, hchain, hhalf⟩)
    · exact ih s hs
  | drop _ hdrop =>
    cases drop_cases hdrop with
    | freed _ _ => exact ih
    | handed _ _ _ _ => exact ih

/-- **Starting and stopping are all or nothing**, in a run in which nothing fails
halfway and no commit succeeds while a start is under way: what is answered to a request
that came in in the state `d₀`. -/
theorem all_or_nothing {d₀ : Daemon}
    (h₀ : (machine parse).Reaches (fun d i => ¬ Breaks parse d i) (start c) d₀)
    (h : (machine parse).Reaches (fun d i => ¬ Breaks parse d i) d₀ d) :
    ∀ s ∈ d.sent, s.id = d₀.nextId → s.AllOrNothing d₀.world :=
  fun s hs _ => reaches_allOrNothing (h₀.trans h) s hs

/-- No call fails in this step, and it is no commit where a start is under way. -/
def smooth (d : Daemon) (i : Input) : Bool :=
  !i.outcome.fails && d.calm i && !(i matches .request .stop _)

theorem not_breaks_of_smooth (h : d.smooth i = true) : ¬ Breaks parse d i := by
  obtain ⟨h, hstop⟩ := Bool.and_eq_true_iff.mp h
  obtain ⟨hok, hcalm⟩ := Bool.and_eq_true_iff.mp h
  rintro (⟨id, o, stack, chain, hturns, -, hfails, -⟩ | ⟨name, rfl, -⟩ | hreplaces)
  · rw [hturns.outcome, hfails] at hok
    cases hok
  · cases hstop
  · exact not_replaces_of_calm parse hcalm hreplaces

/-- A start of `b` in which everything succeeds. -/
def startB : List Input :=
  .request .start (.ok "b") :: launch 1 ++ units 3 ++
    [.tick .ok, .wake 3 (.value true), .tick .ok, .tick .ok]

theorem all_or_nothing_startB :
    ∃ d₀ d, loadAndCheck (fun _ => none) smooth switchFile addB = some d₀ ∧
      (machine fun _ => none).runChecked smooth d₀ startB = some d ∧
      d₀.world.manager.generation = 1 ∧ d.repliesTo 3 = 1 ∧
      ∀ s ∈ d.sent, s.id = 3 → s.AllOrNothing d₀.world := by
  have hrun : (loadAndCheck (fun _ => none) smooth switchFile addB).any (fun d₀ =>
      d₀.nextId = 3 ∧ d₀.world.manager.generation = 1 ∧
        ((machine fun _ => none).runChecked smooth d₀ startB).any fun d => d.repliesTo 3 = 1) =
      true := by decide +kernel
  obtain ⟨d₀, hd₀, hlast⟩ := (Option.any_eq_true ..).mp hrun
  obtain ⟨hid, hgen, hlast⟩ := of_decide_eq_true hlast
  obtain ⟨d, hd, hreplies⟩ := (Option.any_eq_true ..).mp hlast
  obtain ⟨c, -, hinputs⟩ := loadAndCheck_eq_some_iff.mp hd₀
  have hsmooth : ∀ d i, smooth d i = true → ¬ Breaks (fun _ => none) d i :=
    fun _ _ => not_breaks_of_smooth
  have hbefore := (reaches_of_runChecked hinputs).mono hsmooth
  have hafter := (reaches_of_runChecked hd).mono hsmooth
  exact ⟨d₀, d, hd₀, hd, hgen, of_decide_eq_true hreplies, hid ▸ all_or_nothing hbefore hafter⟩

/-- **A start that fails after `emplace` leaves the entity live.** -/
theorem half_started :
    ¬ ∀ (parse : String → Option Json) (j : Json) (before after : List Input) (d₀ d : Daemon),
      loadAndRun parse j before = some d₀ → (machine parse).run d₀ after = some d →
        ∀ s ∈ d.sent, s.id = d₀.nextId → s.AllOrNothing d₀.world := by
  intro h
  have hrun : (loadAndRun (fun _ => none) switchFile (.request .start (.ok "a") :: launch 1 ++
      [.wake 0 .ok, .wake 0 (.result "failed")])).any (fun d =>
        d.sent.head?.any fun s => s.id = 0 ∧ s.request = some (.start, "a") ∧ s.reply.isError ∧
          (s.world.live.find "a").isSome) = true := by decide +kernel
  obtain ⟨d, hd, hlast⟩ := (Option.any_eq_true ..).mp hrun
  obtain ⟨s, hs, hat⟩ := (Option.any_eq_true ..).mp hlast
  obtain ⟨hid, hreq, herr, hlive⟩ := of_decide_eq_true hat
  obtain ⟨c, hload, hinputs⟩ := loadAndRun_eq_some_iff.mp hd
  have hnil : loadAndRun (fun _ => none) switchFile [] = some (start c) :=
    loadAndRun_eq_some_iff.mpr ⟨c, hload, rfl⟩
  rcases (h _ _ _ _ _ _ hnil hinputs s (List.mem_of_mem_head? hs) hid).notStarted "a" hreq herr with
    hnone | ⟨pid, hpid, -⟩
  · rw [hnone] at hlive
    cases hlive
  · cases hpid

end Daemon

end Nonsense
