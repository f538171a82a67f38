import Nonsense.Daemon.UplinkOrder
import Nonsense.Entityd.Shutdown
import Nonsense.System.Basic

/-!
# What the daemon knows of its processes

A process does what it has been sent, one message after the other, whenever it gets to it:
its server is always where the messages that it has taken lead to (`Process.Served`).  So
what the daemon is told holds of the process.  A process of an entity never sees a second
component (`reaches_stage`); an uplink has set up its network before anything that needs it
is told of its own (`uplink_ready`); and a stop that is told that the process has shut down
has nothing left of it (`stop_undone`).

`reaches_stage` and `stop_undone` are about any run, and with a commit in the middle of a
start they rest on the convention of `Entity.start`, that what `_self` refers to is read as it
was.  `uplink_ready` is about the runs without one.
-/

namespace Nonsense

open Entityd (State Given addNetwork finalState)

/-! ### One server -/

namespace Server

variable {s : Server} {request : Request} {l l' : List Request}

theorem serveAll_append : s.serveAll (l ++ l') = (s.serveAll l).serveAll l' := List.foldl_append

theorem serveAll_singleton (h : s.running = true) : s.serveAll [request] = s.serve request :=
  if_pos h

/-- What is not running takes nothing. -/
theorem serveAll_stopped (h : s.running = false) : s.serveAll l = s := by
  induction l with
  | nil => rfl
  | cons request l ih =>
    change (if s.running then s.serve request else s).serveAll l = s
    rw [if_neg (by rw [h]; exact Bool.false_ne_true), ih]

/-- A message is taken, by the same process. -/
theorem serve_spec (s : Server) (request : Request) :
    (s.serve request).ok = s.ok ∧ (s.serve request).name = s.name ∧
    (s.serve request).handled = s.handled + 1 ∧ s.replies.length ≤ (s.serve request).replies.length := by
  cases request with
  | shutdown => exact ⟨rfl, rfl, rfl, Nat.le_refl _⟩
  | addComponent type config =>
    unfold serve
    split
    · rename_i hrequest
      cases hrequest
      split
      · exact ⟨rfl, rfl, rfl, by simp⟩
      · exact ⟨rfl, rfl, rfl, Nat.le_refl _⟩
      · exact ⟨rfl, rfl, rfl, Nat.le_refl _⟩
    · rename_i hrequest
      cases hrequest

/-- What has become of a process that is sent no more than its network and to shut down. -/
inductive Stage (s : Server) (tree : Object) : Prop
  /-- It has taken nothing. -/
  | fresh : s.state = .initial → s.replies = [] → s.running = true → s.left = false → Stage s tree
  /-- It has set up all of its network. -/
  | up {m : Object} {ms : List Object} {r : NetworkRole} {component : Json} :
      Given tree s.name m ms r component →
      addNetwork s.ok s.name component .initial = .ok () s.state →
      s.replies = [none] → s.running = true → s.left = false → Stage s tree
  /-- It has ended on the way. -/
  | failed {m : Object} {ms : List Object} {r : NetworkRole} {component : Json} {what : String} :
      Given tree s.name m ms r component →
      addNetwork s.ok s.name component .initial = .error (.assertion what) s.state →
      s.replies = [] → s.running = false → s.left = false → Stage s tree
  /-- It has been told to shut down before anything else. -/
  | gone : s.state = .initial → s.replies = [] → s.running = false → s.left = true → Stage s tree
  /-- It has set up all of its network, and shut down. -/
  | down {m : Object} {ms : List Object} {r : NetworkRole} {component : Json} {t : State} :
      Given tree s.name m ms r component →
      addNetwork s.ok s.name component .initial = .ok () t →
      s.state = finalState (Entityd.shutdown s.ok t) →
      s.replies = [none] → s.running = false → s.left = true → Stage s tree

variable {ok : ℕ → Bool} {name : String} {tree : Object} {component : Json}

/-- Only `Shutdown` makes it leave. -/
theorem serveAll_left (h : ∀ request ∈ l, request ≠ .shutdown) : (s.serveAll l).left = s.left := by
  induction l generalizing s with
  | nil => rfl
  | cons request l ih =>
    obtain ⟨hrequest, hl⟩ := List.forall_mem_cons.mp h
    change (Server.serveAll (if s.running then s.serve request else s) l).left = s.left
    rw [ih hl]
    split
    · cases request with
      | shutdown => exact absurd rfl hrequest
      | addComponent type config =>
        unfold serve
        split
        · split <;> rfl
        · rename_i hr
          cases hr
    · rfl

/-- The first component that it takes. -/
theorem serve_network : (fork ok name).serve (.addComponent "network" component) =
    match addNetwork ok name component .initial with
    | .ok _ state =>
      { ok, name, state, handled := 1, replies := [none], left := false, running := true }
    | .error _ state =>
      { ok, name, state, handled := 1, replies := [], left := false, running := false } := by
  have hadd : Entityd.addComponent ok name "network" component .initial =
      match addNetwork ok name component .initial with
      | .ok _ s => .ok none s
      | .error f s => .error f s := by
    show (addNetwork ok name component >>= fun _ => pure none) State.initial = _
    rw [Entityd.bind_apply]
    cases addNetwork ok name component .initial <;> rfl
  simp only [serve, fork, hadd]
  cases hnet : addNetwork ok name component .initial with
  | ok _ s => rfl
  | error f s =>
    obtain ⟨what, rfl⟩ := Entityd.addNetwork_error hnet
    rfl

/-- Told to shut down before anything else, it has nothing to undo. -/
theorem serve_shutdown : (fork ok name).serve .shutdown =
    { ok, name, state := .initial, handled := 1, replies := [], left := true, running := false } := by
  show { fork ok name with
    state := finalState (Entityd.shutdown ok .initial), handled := 1, left := true,
    running := false } = _
  rw [Entityd.shutdown_eq]
  rfl

/-- **Where its messages lead**: to shut down, or its network before. -/
theorem stage_serveAll (hl : l <+: [.shutdown] ∨ ∃ m ms r component,
      Given tree name m ms r component ∧ l <+: [.addComponent "network" component, .shutdown]) :
    ((fork ok name).serveAll l).Stage tree := by
  have hfresh : (fork ok name).Stage tree := .fresh rfl rfl rfl rfl
  have hgone : ((fork ok name).serve .shutdown).Stage tree := by
    rw [serve_shutdown]
    exact .gone rfl rfl rfl rfl
  -- the component, and whether anything is taken behind it
  have hnetwork : ∀ m ms r component, Given tree name m ms r component →
      ∀ l', l' = [] ∨ l' = [.shutdown] →
      (((fork ok name).serve (.addComponent "network" component)).serveAll l').Stage tree := by
    intro m ms r component hgiven l' hl'
    rw [serve_network]
    cases hnet : addNetwork ok name component .initial with
    | ok _ s =>
      rcases hl' with rfl | rfl
      · exact .up hgiven hnet rfl rfl rfl
      · exact .down hgiven hnet rfl rfl rfl rfl
    | error f s =>
      obtain ⟨what, rfl⟩ := Entityd.addNetwork_error hnet
      rw [serveAll_stopped rfl]
      exact .failed hgiven hnet rfl rfl rfl
  rcases hl with hl | ⟨m, ms, r, component, hgiven, hl⟩
  · rcases List.prefix_cons_iff.mp hl with rfl | ⟨l', rfl, hl'⟩
    · exact hfresh
    · rw [List.prefix_nil.mp hl']
      exact hgone
  · rcases List.prefix_cons_iff.mp hl with rfl | ⟨l', rfl, hl'⟩
    · exact hfresh
    · apply hnetwork m ms r component hgiven
      rcases List.prefix_cons_iff.mp hl' with rfl | ⟨l'', rfl, hl''⟩
      · exact Or.inl rfl
      · rw [List.prefix_nil.mp hl'']
        exact Or.inr rfl

end Server

/-! ### The process and its server -/

/-- The server of `p` is where the messages that it has taken lead to, and has replied to
all that `p` has acknowledged. -/
structure Process.Served (p : Process) (server : Server) : Prop where
  handled : server.handled ≤ p.requests.length
  run : server = (Server.fork server.ok p.name).serveAll (p.requests.take server.handled)
  acknowledged : p.acknowledged.length ≤ server.replies.length

namespace Process.Served

variable {p p' : Process} {server : Server} {request : Request}

theorem name (h : p.Served server) : server.name = p.name := by
  have hserveAll : ∀ (l : List Request) (s : Server), (s.serveAll l).name = s.name := by
    intro l
    induction l with
    | nil => exact fun s => rfl
    | cons request l ih =>
      intro s
      change (Server.serveAll (if s.running then s.serve request else s) l).name = s.name
      rw [ih]
      split
      · exact (Server.serve_spec _ _).2.1
      · rfl
  rw [h.run, hserveAll]
  rfl

theorem fork (ok : ℕ → Bool) (name : String) :
    Process.Served ⟨name, [], [], false⟩ (.fork ok name) := ⟨Nat.le_refl 0, rfl, Nat.le_refl 0⟩

/-- It takes the next message. -/
theorem serve (h : p.Served server) (hrun : server.running = true)
    (hrequest : p.requests[server.handled]? = some request) : p.Served (server.serve request) := by
  obtain ⟨hok, -, hhandled, hreplies⟩ := Server.serve_spec server request
  have hlt : server.handled < p.requests.length := (List.getElem?_eq_some_iff.mp hrequest).1
  refine ⟨hhandled ▸ hlt, ?_, h.acknowledged.trans hreplies⟩
  have htake : p.requests.take (server.handled + 1) =
      p.requests.take server.handled ++ [request] := by
    rw [List.take_add_one, hrequest, Option.toList_some]
  rw [hok, hhandled, htake, Server.serveAll_append, ← h.run, Server.serveAll_singleton hrun]

/-- More is sent to it. -/
theorem extend (h : p.Served server) (hname : p'.name = p.name) (hsent : p.requests <+: p'.requests)
    (hack : p'.acknowledged.length ≤ server.replies.length) : p'.Served server := by
  refine ⟨h.handled.trans hsent.length_le, ?_, hack⟩
  obtain ⟨l, hl⟩ := hsent
  rw [← hl, List.take_append_of_le_length h.handled, hname]
  exact h.run

end Process.Served

/-! ### One step -/

namespace System

open Machine

variable {parse : String → Option Json} {s s' : System} {i : Input} {c : Config} {file : Object}
  {pid id : Nat} {p p' : Process} {server : Server} {chain : Chain}

theorem find_follow {servers : OrdMap Nat Server} {processes : OrdMap Nat Process}
    {ok : ℕ → Bool} : (follow servers processes ok).find pid =
      (processes.find pid).map fun p => (servers.find pid).getD (.fork ok p.name) := by
  induction processes with
  | nil => rfl
  | cons e processes ih =>
    rw [follow, List.map_cons, OrdMap.find_cons, OrdMap.find_cons]
    split
    · rename_i hpid
      rw [hpid]
      rfl
    · exact ih

inductive Step (parse : String → Option Json) (s : System) : Input → System → Prop
  | daemon {j : Daemon.Input} {ok : ℕ → Bool} {d : Daemon} : s.admits j = true →
      (Daemon.machine parse).step s.daemon j = some d →
      Step parse s (.daemon j ok) { daemon := d, servers := follow s.servers d.world.processes ok }
  | serve {pid : Nat} {p : Process} {server : Server} {request : Request} :
      s.daemon.world.processes.find pid = some p → s.servers.find pid = some server →
      server.running = true → p.requests[server.handled]? = some request →
      Step parse s (.serve pid) { s with servers := s.servers.insert pid (server.serve request) }

/-- **What a step is.** -/
theorem step_cases (h : (machine parse).step s i = some s') : Step parse s i s' := by
  change step parse s i = some s' at h
  unfold step at h
  split at h
  · split at h
    · rename_i hadmits
      obtain ⟨d, hd, rfl⟩ := Option.map_eq_some_iff.mp h
      exact .daemon hadmits hd
    · cases h
  · split at h
    · rename_i p server hp hserver
      split at h
      · rename_i hrunning
        obtain ⟨request, hrequest, rfl⟩ := Option.map_eq_some_iff.mp h
        exact .serve hp hserver hrunning hrequest
      · cases h
    · cases h

/-- The steps of the daemon meet `C`. -/
def OnDaemon (C : Daemon → Daemon.Input → Prop) (s : System) (i : Input) : Prop :=
  ∀ j ok, i = .daemon j ok → C s.daemon j

/-- **The daemon of a system runs as a daemon.** -/
theorem reaches_daemon {C : Daemon → Daemon.Input → Prop}
    (h : (machine parse).Reaches (OnDaemon C) (start c) s) :
    (Daemon.machine parse).Reaches C (Daemon.start c) s.daemon := by
  refine h.invariant (I := fun s => (Daemon.machine parse).Reaches C (Daemon.start c) s.daemon)
    (Reaches.refl _) ?_
  intro s i s' ih hC hstep
  cases step_cases hstep with
  | daemon _ hd => exact ih.tail (hC _ _ rfl) hd
  | serve _ _ _ _ => exact ih

theorem reaches_always (h : (machine parse).Reaches Always (start c) s) :
    (Daemon.machine parse).Reaches Always (Daemon.start c) s.daemon :=
  reaches_daemon (h.mono fun _ _ _ _ _ _ => trivial)

theorem turning_eq {j : Daemon.Input} {o : Outcome} {stack : List Activity}
    (hturns : Daemon.Turns s.daemon j id o stack) (hchain : s.daemon.chains.find id = some chain) :
    turning s.daemon j = some chain.frame.pc := by
  cases hturns with
  | wake _ _ _ => rw [turning, hchain, Option.map_some]
  | tick hs =>
    simp only [turning, hs]
    rw [hchain, Option.map_some]

/-- What is admitted of the reply to a component. -/
theorem answered_of_admits {j : Daemon.Input} {stack : List Activity} {type : String}
    {rest : List (String × Json)} (hadmits : s.admits j = true)
    (hturns : Daemon.Turns s.daemon j id (.value true) stack)
    (hchain : s.daemon.chains.find id = some chain)
    (hpc : chain.frame.pc = .start (.added pid type rest)) : s.answered pid = true := by
  rw [admits, turning_eq hturns hchain, hpc, hturns.outcome] at hadmits
  exact hadmits

theorem served_of_admits {j : Daemon.Input} {stack : List Activity} (hadmits : s.admits j = true)
    (hturns : Daemon.Turns s.daemon j id .ok stack)
    (hchain : s.daemon.chains.find id = some chain)
    (hpc : chain.frame.pc = .stop (.shutdown pid)) : s.served pid Server.left = true := by
  rw [admits, turning_eq hturns hchain, hpc, hturns.outcome] at hadmits
  exact hadmits

theorem replies_of_answered (h : s.answered pid = true)
    (hp : s.daemon.world.processes.find pid = some p) (hserver : s.servers.find pid = some server) :
    server.replies.length = p.received.length := by
  rw [answered, hp, hserver] at h
  exact of_decide_eq_true (Bool.and_eq_true_iff.mp h).1

/-! ### Every run -/

/-- The processes are the servers, and each is where it should be. -/
structure Agrees (s : System) : Prop where
  served : ∀ pid p, s.daemon.world.processes.find pid = some p →
    ∃ server, s.servers.find pid = some server ∧ p.Served server
  none : ∀ pid, s.daemon.world.processes.find pid = none → s.servers.find pid = none

/-- What a turn of the daemon does to a process, its server agrees with. -/
theorem served_handled (hload : Config.load (.object file) = .ok c)
    (hfile : Config.EntriesOrdered file) (hs : (machine parse).Reaches Always (start c) s)
    {j : Daemon.Input} {d : Daemon} (hadmits : s.admits j = true)
    (hstep : (Daemon.machine parse).step s.daemon j = some d)
    (hp : s.daemon.world.processes.find pid = some p) (hp' : d.world.processes.find pid = some p')
    (hserver : s.servers.find pid = some server) (hserved : p.Served server) :
    p'.Served server := by
  have hd := reaches_always hs
  rcases Daemon.step_handled hstep hp hp' with
    rfl | ⟨id, o, stack, chain, hturns, hchain, htok, hhandled⟩
  · exact hserved
  · cases hhandled with
    | kept => exact hserved
    | @sent type component json rest hpc hsent =>
      obtain ⟨-, hshutdown, -⟩ := Daemon.ready_of_components hload hfile hd hchain hpc hp
      refine hserved.extend rfl ?_ hserved.acknowledged
      exact ⟨[.addComponent type json], by simp [Process.requests, hshutdown]⟩
    | @acknowledged type rest hpc ho =>
      subst ho
      have hreplies := replies_of_answered (answered_of_admits hadmits hturns hchain hpc) hp hserver
      have horderly := Daemon.process_orderly hload hfile (hd.tail trivial hstep) hp'
      refine hserved.extend rfl (List.prefix_refl _) ?_
      -- what is acknowledged was sent
      have hle : (p.acknowledged ++ [type]).length ≤ p.types.length := by
        rcases horderly.acknowledged with htypes | ⟨other, htypes⟩
        · exact (congrArg List.length htypes).ge
        · rw [show p.types = (p.acknowledged ++ [type]) ++ [other] from htypes]
          exact (List.prefix_append _ [other]).length_le
      rw [Process.types, List.length_map] at hle
      exact hreplies ▸ hle
    | shutdown _ =>
      refine hserved.extend rfl ?_ hserved.acknowledged
      simp only [Process.requests]
      cases hshutdown : p.shutdown with
      | true => exact List.prefix_refl _
      | false => exact ⟨[.shutdown], by simp⟩

theorem reaches_agrees (hload : Config.load (.object file) = .ok c)
    (hfile : Config.EntriesOrdered file) (hs : (machine parse).Reaches Always (start c) s) :
    s.Agrees := by
  refine hs.invariant_of_reaches (I := Agrees) ⟨fun _ _ hp => (nomatch hp), fun _ _ => rfl⟩ ?_
  intro s i s' hs ih _ hstep
  cases step_cases hstep with
  | @daemon j ok d hadmits hd =>
    refine ⟨fun pid p' hp' => ?_, fun pid hnone => by rw [find_follow, hnone]; rfl⟩
    change d.world.processes.find pid = some p' at hp'
    rw [find_follow, hp', Option.map_some]
    refine ⟨_, rfl, ?_⟩
    cases hp : s.daemon.world.processes.find pid with
    | none =>
      rw [ih.none pid hp, Daemon.step_forks hd hp hp']
      exact .fork ok _
    | some p =>
      obtain ⟨server, hserver, hserved⟩ := ih.served pid p hp
      rw [hserver]
      exact served_handled hload hfile hs hadmits hd hp hp' hserver hserved
  | @serve pid p server request hp hserver hrunning hrequest =>
    refine ⟨fun k q hq => ?_, fun k hnone => ?_⟩
    · rw [OrdMap.find_insert]
      split_ifs with hk
      · subst hk
        obtain ⟨server', hserver', hserved⟩ := ih.served k q hq
        rw [hserver] at hserver'
        cases hserver'
        rw [show s.daemon.world.processes.find k = some q from hq] at hp
        cases hp
        exact ⟨_, rfl, hserved.serve hrunning hrequest⟩
      · exact ih.served k q hq
    · rw [OrdMap.find_insert]
      split_ifs with hk
      · subst hk
        rw [show s.daemon.world.processes.find k = Option.none from hnone] at hp
        cases hp
      · exact ih.none k hnone

/-- The chain of an entity's networks can be given to a process. -/
theorem exists_given {tree m : Object} {ms : List Object} {name : String}
    (hwf : Config.WellFormed tree) (h : Config.Ascent tree name (m :: ms)) :
    ∃ r, Given tree name m ms r (.object (Entity.nest (m :: ms))) := by
  have hok := hwf.networkOk h.network
  obtain ⟨role, r, hrole, hr, -⟩ := hok.role
  exact ⟨r, h, ⟨role, hrole, hr⟩, Entityd.NetworkOk.external_name hok, rfl⟩

/-- **What has become of the process of an entity**, after any run.  It has had no error to
reply: it has taken nothing, or ended while it set up its network, or set up all of it, and
it has shut down only if it was asked to.  What the daemon has been told is acknowledged, is
set up.  (A `_self` whose tree a commit has replaced is read as it was.) -/
theorem reaches_stage (hload : Config.load (.object file) = .ok c)
    (hfile : Config.EntriesOrdered file) (hs : (machine parse).Reaches Always (start c) s)
    (hp : s.daemon.world.processes.find pid = some p)
    (hent : Config.IsEntity s.daemon.running p.name) :
    ∃ server, s.servers.find pid = some server ∧ server.name = p.name ∧
      server.Stage s.daemon.running ∧ (p.acknowledged ≠ [] → server.replies = [none]) ∧
      (server.left = true → p.shutdown = true) := by
  have hd := reaches_always hs
  obtain ⟨server, hserver, hserved⟩ := (reaches_agrees hload hfile hs).served pid p hp
  have hstage : server.Stage s.daemon.running := by
    rw [hserved.run]
    apply Server.stage_serveAll
    have htake : p.requests.take server.handled <+: p.requests := List.take_prefix _ _
    have hshutdown : (if p.shutdown then [Request.shutdown] else []) <+: [Request.shutdown] := by
      split
      · exact List.prefix_refl _
      · exact List.nil_prefix
    rcases Daemon.received_network hload hfile hd hp hent with hnil | ⟨m, ms, hchain, hreceived⟩
    · left
      refine htake.trans ?_
      rw [Process.requests, hnil]
      exact hshutdown
    · right
      obtain ⟨r, hgiven⟩ := exists_given (Daemon.reaches_wellFormed hload hd) hchain
      refine ⟨m, ms, r, _, hgiven, htake.trans ?_⟩
      rw [Process.requests, hreceived]
      exact (List.prefix_append_right_inj _).mpr hshutdown
  refine ⟨server, hserver, hserved.name, hstage, fun hne => ?_, fun hleft => ?_⟩
  · have hpos : 0 < server.replies.length :=
      (List.length_pos_iff.mpr hne).trans_le hserved.acknowledged
    cases hstage with
    | fresh _ hreplies _ _ | failed _ _ hreplies _ _ | gone _ hreplies _ _ =>
      rw [hreplies] at hpos
      exact absurd hpos (Nat.lt_irrefl 0)
    | up _ _ hreplies _ _ | down _ _ _ hreplies _ _ => exact hreplies
  · by_contra hno
    have hrequests : p.requests = p.received.map fun x => .addComponent x.1 x.2 := by
      rw [Process.requests, if_neg hno, List.append_nil]
    rw [hserved.run, Server.serveAll_left] at hleft
    · cases hleft
    · intro request hrequest
      have hmem := List.mem_of_mem_take hrequest
      rw [hrequests] at hmem
      obtain ⟨x, -, rfl⟩ := List.mem_map.mp hmem
      exact Request.noConfusion

theorem reaches_stage_startBoth :
    ∃ s server, loadAndRun (fun _ => none) (.object rootFile) startBoth = some s ∧
      s.servers.find 1 = some server ∧ server.Stage s.daemon.running ∧ server.replies = [none] := by
  have hrun : (loadAndRun (fun _ => none) (.object rootFile) startBoth).any (fun s =>
      (s.daemon.world.processes.find 1).any fun p => p.name = "b" ∧ p.acknowledged ≠ [] ∧
        (s.daemon.running.find "b").isSome) = true := by decide +kernel
  obtain ⟨s, hs, hlast⟩ := (Option.any_eq_true ..).mp hrun
  obtain ⟨p, hp, hlast⟩ := (Option.any_eq_true ..).mp hlast
  obtain ⟨hname, hacked, hfind⟩ := of_decide_eq_true hlast
  obtain ⟨c, hload, hinputs⟩ := loadAndRun_eq_some_iff.mp hs
  obtain ⟨server, hserver, -, hstage, hreplies, -⟩ := reaches_stage hload entriesOrdered_rootFile
    (reaches_of_run hinputs) hp (hname ▸ ⟨hfind, by decide, fun h => absurd h.1 (by decide)⟩)
  exact ⟨s, server, hs, hserver, hstage, hreplies hacked⟩

/-- **An uplink is ready**, wherever the network of an entity below it is sent, if the calls
succeed, no stop has it shut down from under the start, and no commit succeeds while a start
is under way: its process has set up all of its network, and runs. -/
theorem uplink_ready {e : Entity} {u : String} {j : Daemon.Input}
    (hload : Config.load (.object file) = .ok c) (hfile : Config.EntriesOrdered file)
    (hs : (machine parse).Reaches
      (OnDaemon fun d i => Daemon.Succeeds d i ∧ ¬ Daemon.StopsUplink d i ∧
        ¬ Daemon.Replaces parse d i) (start c) s)
    (hsends : Daemon.Sends s.daemon j e "network")
    (hu : Config.uplinkOf s.daemon.running e.name = some u) :
    ∃ pid server m ms r component, s.daemon.world.live.find u = some pid ∧
      s.servers.find pid = some server ∧ server.running = true ∧
      Given s.daemon.running u m ms r component ∧ (Entityd.connecting u m ms r).2 = true ∧
      server.state.actions = Entityd.preparing u m r ++ (Entityd.connecting u m ms r).1 := by
  have hs' : (machine parse).Reaches Always (start c) s := hs.mono fun _ _ _ => trivial
  have hd := reaches_always hs'
  have hwf : Config.WellFormed s.daemon.running := Daemon.reaches_wellFormed hload hd
  have hup : s.daemon.world.Up u := by
    obtain ⟨id, o, stack, chain, pid, component, rest, -, hchain, rfl, hpc⟩ := hsends
    have hk := (Daemon.reaches_shaped hd hchain).knows _ (List.mem_cons_self ..)
    have hdaemon := (reaches_daemon hs).mono fun _ _ hi => And.intro hi.1 hi.2.1
    refine Daemon.reaches_uplinksUp hdaemon id chain u hchain ⟨?_, ?_⟩
    · rw [hpc]
      exact List.mem_cons_self ..
    · rw [Entity.uplink_eq_some, ← hk.uplink]
      exact hu
  obtain ⟨pid, hlive, ⟨-, p, hp, hname, hacked⟩, q, hq, -, hmarked⟩ := hup
  rw [hp] at hq
  cases hq
  -- it has a network, which is acknowledged
  obtain ⟨um, hum⟩ : ∃ um, Config.network s.daemon.running u = some um := by
    obtain ⟨m, hm, hmu⟩ := Config.uplinkOf_eq_some_iff.mp hu
    obtain ⟨_, um, hsame, hum, -⟩ := (hwf.networkOk hm).uplink _ hmu
    cases hsame
    exact ⟨um, hum⟩
  have hent := hwf.isEntity_of_network hum
  obtain ⟨em, hem, hnetwork⟩ := Config.network_eq_some_iff.mp hum
  have htype : "network" ∈ p.acknowledged :=
    hacked _ hent hem "network" (Json.mem_itemKeys_object.mpr ⟨_, hnetwork⟩)
  obtain ⟨server, hserver, hsname, hstage, hreplied, hleft⟩ :=
    reaches_stage hload hfile hs' hp (hname ▸ hent)
  have hreplies := hreplied (List.ne_nil_of_mem htype)
  rw [hname] at hsname
  cases hstage with
  | fresh _ hnil _ _ | failed _ _ hnil _ _ | gone _ hnil _ _ =>
    rw [hnil] at hreplies
    cases hreplies
  | down _ _ _ _ _ hgone =>
    rw [hleft hgone] at hmarked
    cases hmarked
  | up hgiven hnet _ hrunning _ =>
    rw [hsname] at hgiven hnet
    obtain ⟨hend, hactions, -⟩ := hgiven.of_ok hnet
    exact ⟨pid, server, _, _, _, _, hlive, hserver, hrunning, hgiven, hend, hactions⟩

/-- No call fails in this step, nothing is being looked up to be stopped, and there is no
commit where something is under way. -/
def succeeding (s : System) : Input → Bool
  | .daemon j _ => !j.outcome.fails && s.daemon.calm j &&
      s.daemon.chains.all fun e => !(e.2.frame.pc matches .stop .find)
  | .serve _ => true

theorem onDaemon_of_succeeding (parse : String → Option Json) (h : s.succeeding i = true) :
    OnDaemon (fun d i => Daemon.Succeeds d i ∧ ¬ Daemon.StopsUplink d i ∧
      ¬ Daemon.Replaces parse d i) s i := by
  rintro j ok rfl
  obtain ⟨h, hall⟩ := Bool.and_eq_true_iff.mp h
  obtain ⟨hfails, hcalm⟩ := Bool.and_eq_true_iff.mp h
  refine ⟨?_, ?_, Daemon.not_replaces_of_calm parse hcalm⟩
  · rintro ⟨id, o, stack, chain, hturns, -, ho⟩
    rw [hturns.outcome, ho] at hfails
    cases hfails
  · rintro ⟨id, o, stack, chain, -, hchain, hpc, -⟩
    have hmem := List.all_eq_true.mp hall _ (OrdMap.mem_of_find hchain)
    simp only [hpc] at hmem
    cases hmem

theorem uplink_ready_startBoth :
    ∃ c s pid server m ms r component, Config.load (.object rootFile) = .ok c ∧
      (machine fun _ => none).runChecked succeeding (start c) startBoth = some s ∧
      s.servers.find pid = some server ∧ Given s.daemon.running "b" m ms r component ∧
      server.state.actions = Entityd.preparing "b" m r ++ (Entityd.connecting "b" m ms r).1 := by
  have hrun : ((Config.load (.object rootFile)).toOption.bind fun c =>
      (machine fun _ => none).runChecked succeeding (start c) startBoth).any (fun s =>
        Daemon.sendsToA s.daemon) = true := by decide +kernel
  obtain ⟨s, hs, hsends⟩ := (Option.any_eq_true ..).mp hrun
  obtain ⟨c, hload, hinputs⟩ := EState.toOption_bind_eq_some_iff.mp hs
  obtain ⟨e, hsends, hu⟩ := Daemon.sends_of_sendsToA hsends
  have hreaches := (reaches_of_runChecked hinputs).mono fun _ _ =>
    onDaemon_of_succeeding fun _ => none
  obtain ⟨pid, server, m, ms, r, component, -, hserver, -, hgiven, -, hactions⟩ :=
    uplink_ready hload entriesOrdered_rootFile hreaches hsends hu
  exact ⟨c, s, pid, server, m, ms, r, component, hload, hinputs, hserver, hgiven, hactions⟩

/-- **A stop that is told that the process has shut down** has nothing of it left.  The
process has ended, and it has undone whatever it did, in reverse order.  The last part takes
`ip(8)` to do what `Net.ip` says: in a network in which the process's actions went as they
should, nothing is then changed outside of its own namespace.  (A `_self` whose tree a commit
has replaced is read as it was.) -/
theorem stop_undone {j : Daemon.Input} {stack : List Activity} {ok : ℕ → Bool}
    (hload : Config.load (.object file) = .ok c) (hfile : Config.EntriesOrdered file)
    (hs : (machine parse).Reaches Always (start c) s)
    (hstep : (machine parse).step s (.daemon j ok) = some s')
    (hturns : Daemon.Turns s.daemon j id .ok stack) (hchain : s.daemon.chains.find id = some chain)
    (hpc : chain.frame.pc = .stop (.shutdown pid))
    (hent : Config.IsEntity s.daemon.running chain.frame.entity.name) :
    ∃ server done, s.servers.find pid = some server ∧ server.name = chain.frame.entity.name ∧
      server.running = false ∧
      server.state.actions = done ++ (done.filterMap (Entityd.Action.undo server.name)).reverse ∧
      ∀ (ν : Type) (_ : DecidableEq ν) (own : ν) (net net' : Entityd.Net ν),
        (Entityd.tidying own server.name).run done net = some net' →
        Entityd.SameOutside own net ((Entityd.tidying own server.name).attemptAll
          (done.filterMap (Entityd.Action.undo server.name)).reverse net') := by
  have hd := reaches_always hs
  obtain ⟨-, p, hp, hname⟩ : s.daemon.world.Runs chain.frame.entity.name pid := by
    have hlive := (Daemon.reaches_live hd).frame id chain hchain (by rw [hpc]; rfl)
    rw [hpc] at hlive
    exact hlive
  have hleft : s.served pid Server.left = true := by
    cases step_cases hstep with
    | daemon hadmits _ => exact served_of_admits hadmits hturns hchain hpc
  obtain ⟨server, hserver, hsname, hstage, -⟩ := reaches_stage hload hfile hs hp (hname ▸ hent)
  rw [served, hserver, Option.any_some] at hleft
  refine ⟨server, ?_⟩
  cases hstage with
  | fresh _ _ _ hno | up _ _ _ _ hno | failed _ _ _ _ hno =>
    rw [hno] at hleft
    cases hleft
  | gone hstate _ hstopped _ =>
    refine ⟨[], hserver, hsname.trans hname, hstopped, by rw [hstate]; rfl, ?_⟩
    intro ν _ own net net' hrun
    cases hrun
    exact fun ns _ => ⟨rfl, rfl⟩
  | @down m ms r component t hgiven hnet hstate _ hstopped _ =>
    obtain ⟨hend, hactions, hcleanups, hconnection⟩ := hgiven.of_ok hnet
    refine ⟨t.actions, hserver, hsname.trans hname, hstopped, ?_, ?_⟩
    · have hregistered : t.cleanups ++ t.connectionCleanups =
          t.actions.filterMap (Entityd.Action.undo server.name) := by
        rw [hcleanups, hconnection, hactions, List.filterMap_append]
      rw [hstate, Entityd.shutdown_eq, ← hregistered, List.reverse_append]
      rfl
    · intro ν _ own net net' hrun
      rw [hactions] at hrun ⊢
      exact Entityd.undoes_all hend hrun

/-- Both are up, and `b` is stopped: its process has taken `Shutdown`. -/
def stopB : List Input :=
  startBoth ++ daemons [.tick .ok, .request .stop (.ok "b"), .tick .ok, .tick .ok] ++ [.serve 1]

theorem stop_undone_stopB :
    ∃ s server done, loadAndRun (fun _ => none) (.object rootFile) stopB = some s ∧
      s.servers.find 1 = some server ∧ server.running = false ∧ done ≠ [] ∧
      server.state.actions = done ++ (done.filterMap (Entityd.Action.undo "b")).reverse := by
  have hrun : (loadAndRun (fun _ => none) (.object rootFile) stopB).any (fun s =>
      s.daemon.stack = [] ∧ (s.daemon.running.find "b").isSome ∧
      ((machine fun _ => none).step s (.daemon (.wake 1 .ok) fun _ => true)).isSome ∧
      ((s.daemon.chains.find 1).any fun chain => chain.frame.entity.name = "b" ∧
        chain.frame.pc matches .stop (.shutdown 1)) ∧
      (s.servers.find 1).any fun server => server.state.actions ≠ []) = true := by decide +kernel
  obtain ⟨s, hs, hlast⟩ := (Option.any_eq_true ..).mp hrun
  obtain ⟨hstack, hfind, hstep, hat, hacted⟩ := of_decide_eq_true hlast
  obtain ⟨chain, hchain, hat⟩ := (Option.any_eq_true ..).mp hat
  obtain ⟨hname, hpc⟩ := of_decide_eq_true hat
  obtain ⟨s', hstep⟩ := Option.isSome_iff_exists.mp hstep
  obtain ⟨c, hload, hinputs⟩ := loadAndRun_eq_some_iff.mp hs
  have hpc : chain.frame.pc = .stop (.shutdown 1) := by
    split at hpc
    · assumption
    · cases hpc
  have hturns : Daemon.Turns s.daemon (.wake 1 .ok) 1 .ok [] :=
    .wake hstack hchain (by rw [hpc]; rfl)
  obtain ⟨server, done, hserver, hsname, hstopped, hactions, -⟩ :=
    stop_undone hload entriesOrdered_rootFile (reaches_of_run hinputs) hstep hturns hchain hpc
      (hname ▸ ⟨hfind, by decide, fun h => absurd h.1 (by decide)⟩)
  rw [hsname, hname] at hactions
  refine ⟨s, server, done, hs, hserver, hstopped, ?_, hactions⟩
  rintro rfl
  obtain ⟨server', hserver', hne⟩ := (Option.any_eq_true ..).mp hacted
  rw [hserver] at hserver'
  cases hserver'
  exact of_decide_eq_true hne hactions

end System

end Nonsense
