import Nonsense.Entity.Basic
import Nonsense.Lib.Edit

/-!
# The daemon

One thread serves every request.  A `Chain` is what the coroutines of one
`Controller.Start` or `Controller.Stop` have come to: the frame that is innermost,
and the entities whose `start` is suspended in `co_await uplink->start()` around
it.  `settle` is the promise of `async.h`: a frame that ends resumes the one
around it, or, with an error, has the root reply and all of them destroyed.

`stack` is the call stack.  On top may be a coroutine that runs or a frame that is
being destroyed; the destructor of its token resumes a waiter on top of whatever
is left to be destroyed.  Where the stack is empty the event loop is, and only
there does anything come in from outside.
-/

namespace Nonsense

structure Frame where
  entity : Entity
  method : Method
  pc : Pc

structure Chain where
  /-- What the root of the chain has been asked to do, and to which entity. -/
  method : Method
  name : String
  frame : Frame
  /-- The callers of `frame`, innermost first. -/
  awaiting : List Entity

namespace Chain

/-- The innermost frame is at another point. -/
def goTo (chain : Chain) (pc : Pc) : Chain := { chain with frame := { chain.frame with pc } }

/-- The innermost frame awaits the start of `child`. -/
def enter (chain : Chain) (child : Entity) : Chain :=
  { chain with
    frame := ⟨child, .start, .enqueue⟩
    awaiting := chain.frame.entity :: chain.awaiting }

/-- The innermost frame has ended, and `parent` goes on. -/
def back (chain : Chain) (parent : Entity) (awaiting : List Entity) : Chain :=
  { chain with frame := ⟨parent, .start, .start .socketpair⟩, awaiting }

end Chain

/-- What is on the call stack. -/
inductive Activity
  | run (id : Nat)
  /-- A frame of the chain `id` with the token of `name`, about to be destroyed. -/
  | drop (id : Nat) (name : String)
  deriving DecidableEq

/-- A reply that was sent, and the world when it was. -/
structure Sent where
  id : Nat
  /-- The request, where it is one to the controller that could be read. -/
  request : Option (Method × String)
  reply : Reply
  world : World

structure Daemon where
  world : World
  chains : OrdMap Nat Chain
  stack : List Activity
  /-- The newest reply comes first. -/
  sent : List Sent
  /-- The number of the next message. -/
  nextId : Nat

namespace Daemon

inductive Input
  /-- `Controller.Start` or `Controller.Stop` comes in. -/
  | request (method : Method) (parsed : Except Failure String)
  /-- A call to the transaction manager or to a transaction comes in. -/
  | call (call : Call)
  /-- A reply or a signal comes in that a coroutine waits for. -/
  | wake (id : Nat) (outcome : Outcome)
  /-- What is on top of the stack goes on. -/
  | tick (outcome : Outcome)

/-- The frame waits for something from outside. -/
def awaitsMessage : Pc → Bool
  | .start (.unitReply ..) | .start (.unitJob ..) | .start (.added ..) => true
  | .stop (.shutdown _) | .stop .stopReply | .stop .stopJob => true
  | _ => false

def send (d : Daemon) (id : Nat) (request : Option (Method × String)) (replies : List Reply) :
    Daemon :=
  { d with sent := replies.map (fun reply => ⟨id, request, reply, d.world⟩) ++ d.sent }

/-- A frame goes on from where it is. -/
def resumeFrame (w : World) (id : Nat) (frame : Frame) (outcome : Outcome) :
    Option (World × Control) :=
  match frame.pc, outcome with
  | .enqueue, .ok => Entity.enqueue w id frame.entity frame.method
  | .start pc, outcome => Entity.start w frame.entity pc outcome
  | .stop pc, outcome => Entity.stop w frame.entity pc outcome
  | _, _ => none

/-- The frames of `entities` are to be destroyed, one after the other. -/
def drops (id : Nat) (entities : List Entity) : List Activity :=
  entities.map fun entity => Activity.drop id entity.name

/-- How the turn of the innermost frame of `chain` ends, with the world as it left
it; `stack` is what is below it. -/
def settle (d : Daemon) (world : World) (id : Nat) (chain : Chain) (stack : List Activity) :
    Control → Daemon
  | .goto pc =>
    { d with world, chains := d.chains.insert id (chain.goTo pc), stack := .run id :: stack }
  | .suspend pc => { d with world, chains := d.chains.insert id (chain.goTo pc), stack }
  | .call child =>
    { d with world, chains := d.chains.insert id (chain.enter child), stack := .run id :: stack }
  | .done =>
    match chain.awaiting with
    | [] =>
      { d with
        world
        chains := d.chains.erase id
        stack := .drop id chain.frame.entity.name :: stack }.send id
        (some (chain.method, chain.name)) [.methodReturn []]
    | parent :: awaiting =>
      -- the parent goes on before the frame that has ended is destroyed
      { d with
        world
        chains := d.chains.insert id (chain.back parent awaiting)
        stack := .run id :: .drop id chain.frame.entity.name :: stack }
  | .fail replies =>
    { d with
      world
      chains := d.chains.erase id
      -- the outermost frame goes first
      stack := drops id (chain.awaiting.reverse ++ [chain.frame.entity]) ++ stack }.send id
      (some (chain.method, chain.name)) replies

/-- The innermost frame of the chain `id` goes on, on top of `stack`. -/
def resume (d : Daemon) (id : Nat) (outcome : Outcome) (stack : List Activity) : Option Daemon :=
  match d.chains.find id with
  | none => none
  | some chain =>
    (resumeFrame d.world id chain.frame outcome).map fun (world, control) =>
      d.settle world id chain stack control

/-- `~queue_token`, with the resumption of the waiter it has popped. -/
def drop (d : Daemon) (name : String) (stack : List Activity) : Option Daemon :=
  match (d.world.queues name).release with
  | none => none
  | some (q, none) => some { d with world := d.world.setQueue name q, stack }
  | some (q, some id) =>
    match q.awaitResume, d.chains.find id with
    | some q, some chain =>
      match chain.frame.pc with
      | .waiting =>
        some { d with
          world := d.world.setQueue name q
          chains := d.chains.insert id (chain.goTo chain.frame.method.entry)
          stack := .run id :: stack }
      | _ => none
    | _, _ => none

def noSuchEntity (method : Method) (name : String) : BusError :=
  ⟨"info.griwes.nonsense.NoSuchEntity",
    "Attempted to " ++ (match method with | .start => "start" | .stop => "stop")
      ++ " an entity that does not exist: " ++ name ++ "."⟩

/-- `controller::method_start_impl` and `method_stop_impl`, up to the coroutine of
the entity. -/
def request (d : Daemon) (method : Method) : Except Failure String → Daemon
  | .error code => { d with nextId := d.nextId + 1 }.send d.nextId none (replyStatus code none)
  | .ok name =>
    match d.world.tryGet name with
    | none =>
      { d with nextId := d.nextId + 1 }.send d.nextId (some (method, name))
        (replyStatus (-ENOENT) (some (noSuchEntity method name)))
    | some entity =>
      { d with
        chains := d.chains.insert d.nextId ⟨method, name, ⟨entity, method, .enqueue⟩, []⟩
        stack := [.run d.nextId]
        nextId := d.nextId + 1 }

def call (parse : String → Option Json) (d : Daemon) (call : Call) : Option Daemon :=
  match d.world.manager.serve parse call with
  | some (.replied manager replies) =>
    some ({ d with world := { d.world with manager }, nextId := d.nextId + 1 }.send d.nextId none
      replies)
  | _ => none

def step (parse : String → Option Json) (d : Daemon) (i : Input) : Option Daemon :=
  match i, d.stack with
  | .request method parsed, [] => some (d.request method parsed)
  | .call call, [] => d.call parse call
  | .wake id outcome, [] =>
    match d.chains.find id with
    | some chain => if awaitsMessage chain.frame.pc then d.resume id outcome [] else none
    | none => none
  | .tick outcome, .run id :: stack => d.resume id outcome stack
  | .tick _, .drop _ name :: stack => d.drop name stack
  | _, _ => none

def machine (parse : String → Option Json) : Machine Daemon Input := ⟨step parse⟩

/-- The daemon when its event loop starts. -/
def start (c : Config) : Daemon :=
  { world :=
      { manager := { running := c, generation := 0, transactions := [] }
        live := []
        processes := []
        queues := fun _ => .empty }
    chains := []
    stack := []
    sent := []
    nextId := 0 }

/-- A file with a switch `a`. -/
def switchFile : Json :=
  .object [("!metadata", .object [("version", .integer 1)]),
    ("a", .object [("network", .object [("role", .string "switch")])])]

/-- What a start with no uplink goes through before it first waits. -/
def launch (pid : Nat) : List Input :=
  [.tick .ok, .tick .ok, .tick .ok, .tick (.forked pid), .tick .ok, .tick .ok, .tick .ok,
    .tick .ok, .tick .ok, .tick .ok, .tick .ok]

/-- The two units of a start, up to its components. -/
def units (id : Nat) : List Input :=
  [.wake id .ok, .wake id (.result "done"), .tick .ok, .wake id .ok, .wake id (.result "done")]

/-- Load a file, and take these inputs. -/
def loadAndRun (parse : String → Option Json) (j : Json) (inputs : List Input) : Option Daemon :=
  (Config.load j).toOption.bind fun c => (machine parse).run (start c) inputs

theorem loadAndRun_eq_some_iff {parse : String → Option Json} {j : Json} {inputs : List Input}
    {d : Daemon} : loadAndRun parse j inputs = some d ↔
      ∃ c, Config.load j = .ok c ∧ (machine parse).run (start c) inputs = some d :=
  EState.toOption_bind_eq_some_iff

/-- Load a file, and take these inputs for as long as the steps pass a test. -/
def loadAndCheck (parse : String → Option Json) (test : Daemon → Input → Bool) (j : Json)
    (inputs : List Input) : Option Daemon :=
  (Config.load j).toOption.bind fun c => (machine parse).runChecked test (start c) inputs

theorem loadAndCheck_eq_some_iff {parse : String → Option Json} {test : Daemon → Input → Bool}
    {j : Json} {inputs : List Input} {d : Daemon} :
    loadAndCheck parse test j inputs = some d ↔
      ∃ c, Config.load j = .ok c ∧ (machine parse).runChecked test (start c) inputs = some d :=
  EState.toOption_bind_eq_some_iff

end Daemon

end Nonsense
