import Nonsense.Daemon.Conversation
import Nonsense.Entityd.Accepted

/-!
# The daemon and its processes

Each process that the daemon forks is an `entityd`, which takes the messages on its socket
one after the other.  A `Server` is such a process: what has come of the requests that it
has handled.  `ok` says which of its calls of the system succeed, over its whole life.

A `System` is the daemon with the server of each of its processes.  They share nothing but
the sockets: the daemon sends a request, goes on, and is woken by the reply.  So a step is
one of the daemon or of one server, in any order, except that the daemon is not told what
no server has replied (`admits`).
-/

namespace Nonsense

/-- What the daemon can send to a process. -/
inductive Request
  | addComponent (type : String) (config : Json)
  | shutdown

structure Server where
  ok : ℕ → Bool
  name : String
  state : Entityd.State
  /-- How many requests it has taken. -/
  handled : ℕ
  /-- What it has replied to `AddComponent`: an error, or `true`. -/
  replies : List (Option BusError)
  /-- It has replied to `Shutdown`. -/
  left : Bool
  running : Bool

namespace Server

/-- The process that `entity::start` forks. -/
def fork (ok : ℕ → Bool) (name : String) : Server :=
  { ok, name, state := .initial, handled := 0, replies := [], left := false, running := true }

/-- `main`, from where a message is there to where it waits for the next. -/
def serve (s : Server) : Request → Server
  | .addComponent type config =>
    match Entityd.addComponent s.ok s.name type config s.state with
    | .ok reply state =>
      { s with state, handled := s.handled + 1, replies := s.replies ++ [reply] }
    -- the handler of `main`
    | .error (.exception _) state =>
      { s with
        state := Entityd.finalState (Entityd.shutdown s.ok state)
        handled := s.handled + 1
        running := false }
    | .error (.assertion _) state =>
      { s with state, handled := s.handled + 1, running := false }
  | .shutdown =>
    { s with
      state := Entityd.finalState (Entityd.shutdown s.ok s.state)
      handled := s.handled + 1
      left := true
      running := false }

/-- It takes requests for as long as it runs. -/
def serveAll (s : Server) (requests : List Request) : Server :=
  requests.foldl (fun s request => if s.running then s.serve request else s) s

end Server

/-- What a process has been sent. -/
def Process.requests (p : Process) : List Request :=
  p.received.map (fun x => .addComponent x.1 x.2) ++ if p.shutdown then [.shutdown] else []

structure System where
  daemon : Daemon
  servers : OrdMap Nat Server

namespace System

inductive Input
  /-- The daemon goes on; `ok` is for the process that it forks, if it does. -/
  | daemon (i : Daemon.Input) (ok : ℕ → Bool)
  /-- The process `pid` takes the next message. -/
  | serve (pid : Nat)

/-- The point of the frame whose turn it is. -/
def turning (d : Daemon) : Daemon.Input → Option Pc
  | .wake id _ => (d.chains.find id).map fun chain => chain.frame.pc
  | .tick _ =>
    match d.stack with
    | .run id :: _ => (d.chains.find id).map fun chain => chain.frame.pc
    | _ => none
  | _ => none

/-- The process `pid` has answered `true` to the last `AddComponent` that it was sent. -/
def answered (s : System) (pid : Nat) : Bool :=
  match s.daemon.world.processes.find pid, s.servers.find pid with
  | some p, some server =>
    server.replies.length = p.received.length && server.replies.getLast? = some none
  | _, _ => false

/-- What is so of the server of `pid`, which is there. -/
def served (s : System) (pid : Nat) (P : Server → Bool) : Bool := (s.servers.find pid).any P

/-- `true` and the end of `Shutdown` are replies that were sent, and `waitpid` waits for the
end.  A call may fail at any time. -/
def admits (s : System) (i : Daemon.Input) : Bool :=
  match turning s.daemon i, i.outcome with
  | some (.start (.added pid _ _)), .value b => b && s.answered pid
  | some (.stop (.shutdown pid)), .ok => s.served pid Server.left
  | some (.stop (.waitpid pid)), .ok => s.served pid fun server => !server.running
  | _, _ => true

/-- The servers of the processes that there are. -/
def follow (servers : OrdMap Nat Server) (processes : OrdMap Nat Process) (ok : ℕ → Bool) :
    OrdMap Nat Server :=
  processes.map fun e => (e.1, (servers.find e.1).getD (.fork ok e.2.name))

def step (parse : String → Option Json) (s : System) : Input → Option System
  | .daemon i ok =>
    if s.admits i then
      (Daemon.step parse s.daemon i).map fun daemon =>
        { daemon, servers := follow s.servers daemon.world.processes ok }
    else none
  | .serve pid =>
    match s.daemon.world.processes.find pid, s.servers.find pid with
    | some p, some server =>
      if server.running then
        p.requests[server.handled]?.map fun request =>
          { s with servers := s.servers.insert pid (server.serve request) }
      else none
    | _, _ => none

def machine (parse : String → Option Json) : Machine System Input := ⟨step parse⟩

def start (c : Config) : System := { daemon := Daemon.start c, servers := [] }

/-- Load a file, and take these inputs. -/
def loadAndRun (parse : String → Option Json) (j : Json) (inputs : List Input) : Option System :=
  (Config.load j).toOption.bind fun c => (machine parse).run (start c) inputs

theorem loadAndRun_eq_some_iff {parse : String → Option Json} {j : Json} {inputs : List Input}
    {s : System} : loadAndRun parse j inputs = some s ↔
      ∃ c, Config.load j = .ok c ∧ (machine parse).run (start c) inputs = some s :=
  EState.toOption_bind_eq_some_iff

/-- A file with a switch `a` below a root `b`. -/
def rootFile : Object :=
  [("!metadata", .object [("version", .integer 1)]),
    ("a", .object [("network", .object [("address", .string "10.0.0.0/24"),
      ("role", .string "switch"), ("uplink", .string "b")])]),
    ("b", .object [("network", .object [("role", .string "root")])])]

theorem entriesOrdered_rootFile : Config.EntriesOrdered rootFile := by
  intro k e h
  rw [rootFile, OrdMap.find_cons, OrdMap.find_cons, OrdMap.find_cons, OrdMap.find_nil] at h
  split_ifs at h
  all_goals
    cases h
    exact List.pairwise_singleton _ _

/-- The daemon goes on, and every call of a process that it forks succeeds. -/
def daemons (inputs : List Daemon.Input) : List Input :=
  inputs.map fun i => .daemon i fun _ => true

/-- `a` is started: `b` is, which sets up its network, and then the process of `a`. -/
def startBoth : List Input :=
  daemons (.request .start (.ok "a") :: [.tick .ok, .tick .ok] ++ Daemon.launch 1 ++
    Daemon.units 0 ++ [.tick .ok]) ++ [.serve 1] ++
  daemons ([.wake 0 (.value true), .tick .ok, .tick .ok, .tick (.forked 2), .tick .ok,
    .tick .ok, .tick .ok, .tick .ok, .tick .ok, .tick .ok, .tick .ok, .tick .ok] ++
    Daemon.units 0)

end System

end Nonsense
