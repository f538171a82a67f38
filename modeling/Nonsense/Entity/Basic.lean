import Nonsense.Entity.Queue
import Nonsense.Transactions.Basic

/-!
# Starting and stopping an entity

`entity::start` and `entity::stop`.  Both are coroutines; `StartPc` and `StopPc`
are the points between two of their external calls, and `start` and `stop` say
what a coroutine does from such a point, given the `Outcome` of the call made
there or of what it has been waiting for.  `Control` is how that ends.

An `Entity` is made afresh by every `try_get`.  Its `self` is a reference into
the tree of the running configuration, and `generation` says which tree that is;
reading through it gives what the tree held when the reference was made.  Where a commit
has replaced the tree since, that is a convention: the code then reads what has been freed.

`none` is the end of the process: a failed assertion, an exception that escapes
from a coroutine, an `abort`; and an outcome that cannot occur at that point.
-/

namespace Nonsense

structure Entity where
  name : String
  self : Json
  generation : Nat

/-- A forked `nonsense-entityd` that has not been reaped. -/
structure Process where
  name : String
  /-- The components it has been sent, with what was sent for each. -/
  received : List (String × Json)
  acknowledged : List String
  /-- It has been sent `Shutdown`. -/
  shutdown : Bool

/-- What the coroutines share. -/
structure World where
  manager : Transactions
  /-- `_live_entities`, with the pid of each. -/
  live : OrdMap String Nat
  processes : OrdMap Nat Process
  queues : String → Queue Nat

namespace World

/-- `config::try_get` on the running configuration. -/
def tryGet (w : World) (name : String) : Option Entity :=
  (w.manager.running.tryGet name).map fun self => ⟨name, self, w.manager.generation⟩

def setQueue (w : World) (name : String) (q : Queue Nat) : World :=
  { w with queues := Function.update w.queues name q }

def fork (w : World) (pid : Nat) (name : String) : World :=
  { w with processes := w.processes.insert pid ⟨name, [], [], false⟩ }

/-- `_live_entities.emplace`, which does nothing where the key is there. -/
def emplace (w : World) (name : String) (pid : Nat) : World :=
  if (w.live.find name).isSome then w else { w with live := w.live.insert name pid }

/-- Something happens to the process `pid`. -/
def update (w : World) (pid : Nat) (f : Process → Process) : World :=
  match w.processes.find pid with
  | some p => { w with processes := w.processes.insert pid (f p) }
  | none => w

def reap (w : World) (pid : Nat) : World := { w with processes := w.processes.erase pid }

/-- `_live_entities.erase` -/
def forget (w : World) (name : String) : World := { w with live := w.live.erase name }

end World

/-- What an external call returns, or what a coroutine is resumed with. -/
inductive Outcome
  | ok
  /-- A negative return value, or an error reply. -/
  | failed (code : Failure) (error : Option BusError)
  /-- A return value of `-1`, with `errno`. -/
  | errno (code : { n : Int // 0 < n })
  | forked (pid : Nat)
  /-- The bus is still being opened. -/
  | again
  /-- The result of a job. -/
  | result (text : String)
  /-- What `AddComponent` returns. -/
  | value (b : Bool)

/-- An external call fails, or answers that something has failed. -/
def Outcome.fails : Outcome → Bool
  | failed .. | errno _ | value false => true
  | result text => text ≠ "done"
  | _ => false

inductive Method
  | start
  | stop
  deriving DecidableEq

/-! ### The points of the coroutines -/

/-- The calls between `emplace` and the first unit, in order. -/
inductive Setup
  | setFd
  | setBusClient
  | registerBus
  | busStart
  | process
  deriving DecidableEq

inductive SystemdUnit
  | slice
  | scope
  deriving DecidableEq

inductive StartPc
  | check
  | socketpair
  | fork
  | busNew (pid : Nat)
  | setup (pid : Nat) (call : Setup)
  | startUnit (pid : Nat) (unit : SystemdUnit)
  | unitReply (pid : Nat) (unit : SystemdUnit)
  | unitJob (pid : Nat) (unit : SystemdUnit)
  | components (pid : Nat) (rest : List (String × Json))
  | added (pid : Nat) (type : String) (rest : List (String × Json))

inductive StopPc
  | find
  | shutdown (pid : Nat)
  | waitpid (pid : Nat)
  | erase
  | stopUnit
  | stopReply
  | stopJob

inductive Pc
  | enqueue
  | waiting
  | start (pc : StartPc)
  | stop (pc : StopPc)

/-- Where a coroutine goes on once it has the token. -/
def Method.entry : Method → Pc
  | start => .start .check
  | stop => .stop .find

/-- How a coroutine's turn ends. -/
inductive Control
  | goto (pc : Pc)
  | suspend (pc : Pc)
  /-- `co_await uplink->start()` -/
  | call (child : Entity)
  /-- `co_return unit` -/
  | done
  /-- `return_value` with an error, which sends these replies. -/
  | fail (replies : List Reply)

namespace Entity

/-! ### Names of units -/

def dashedName (name : String) : String :=
  String.ofList (name.toList.map fun c => if c = '.' then '-' else c)

def sliceName (name : String) : String := "nonsense-" ++ dashedName name ++ ".slice"

def scopeName (name : String) : String := "nonsense-" ++ name ++ "-entityd.scope"

def unitName (name : String) : SystemdUnit → String
  | .slice => sliceName name
  | .scope => scopeName name

def failedToStart (unit text : String) : BusError :=
  ⟨"info.griwes.nonsense.FailedToStart",
    "Failed to start unit " ++ unit ++ ": job returned result '" ++ text ++ "'."⟩

def failedToStop (unit text : String) : BusError :=
  ⟨"info.griwes.nonsense.FailedToStop",
    "Failed to stop unit " ++ unit ++ ": job returned result '" ++ text ++ "'."⟩

def entityNotStarted (name : String) : BusError :=
  ⟨"info.griwes.nonsense.EntityNotStarted",
    "Failed to stop entity " ++ name ++ ": entity is not running."⟩

/-! ### What is sent of a component -/

/-- `deep_uplink_info`.  The recursion has no bound of its own; where it follows
more uplinks than there are entries, it goes on until the stack overflows. -/
def deepUplinkInfo (tree : Object) : Nat → Json → Except Fault Json
  | 0, _ => .error (.assertion "stack overflow")
  | fuel + 1, component =>
    match component.find "uplink" with
    | none => .ok component
    | some name => do
      let uplinkName ← name.getRefString
      match tree.find uplinkName with
      | none => .error (.assertion "uplink_ent")
      | some entity =>
        let uplink ← entity.subscript "network"
        if uplink.isNull then .error (.assertion "!uplink.is_null()")
        else
          let uplink ← deepUplinkInfo tree fuel uplink
          let component ← component.assign ":uplink-name" name
          component.assign "uplink" uplink

/-- The component as `AddComponent` sends it. -/
def sent (tree : Object) (type : String) (component : Json) : Except Fault Json :=
  if type = "network" then deepUplinkInfo tree (tree.length + 1) component else .ok component

/-! ### The coroutines -/

/-- The value under `network.uplink`, as `start` finds it. -/
def uplink (entity : Entity) : Option Json :=
  (entity.self.find "network").bind fun component => component.find "uplink"

/-- `co_await enqueue()`, by the coroutine `id`. -/
def enqueue (w : World) (id : Nat) (entity : Entity) (method : Method) :
    Option (World × Control) :=
  let q := w.queues entity.name
  if q.awaitReady then
    q.awaitResume.map fun q => (w.setQueue entity.name q, .goto method.entry)
  else (q.awaitSuspend id).map fun q => (w.setQueue entity.name q, .suspend .waiting)

/-- The point after a call that sets up the bus. -/
def afterSetup (pid : Nat) : Setup → StartPc
  | .setFd => .setup pid .setBusClient
  | .setBusClient => .setup pid .registerBus
  | .registerBus => .setup pid .busStart
  | .busStart => .setup pid .process
  | .process => .startUnit pid .slice

/-- The point after a unit's job is done. -/
def afterUnit (entity : Entity) (pid : Nat) : SystemdUnit → StartPc
  | .slice => .startUnit pid .scope
  | .scope => .components pid entity.self.items

/-- `entity::start` -/
def start (w : World) (entity : Entity) : StartPc → Outcome → Option (World × Control)
  | .check, .ok =>
    if (w.live.find entity.name).isSome then some (w, .done)
    else
      match entity.uplink with
      | none => some (w, .goto (.start .socketpair))
      | some (.string name) => (w.tryGet name).map fun child => (w, .call child)
      -- `get<std::string>` throws
      | some _ => none
  | .socketpair, .ok => some (w, .goto (.start .fork))
  | .socketpair, .errno code => some (w, .fail (replyStatus code none))
  | .fork, .forked pid =>
    if (w.processes.find pid).isSome then none
    else some (w.fork pid entity.name, .goto (.start (.busNew pid)))
  | .fork, .errno code => some (w, .fail (replyStatus code none))
  | .busNew pid, .ok => some (w.emplace entity.name pid, .goto (.start (.setup pid .setFd)))
  | .busNew _, .failed code _ => some (w, .fail (replyStatus code none))
  | .setup pid call, .ok => some (w, .goto (.start (afterSetup pid call)))
  | .setup pid .process, .again => some (w, .goto (.start (.setup pid .process)))
  -- `register_bus` throws
  | .setup _ .registerBus, .failed .. => none
  | .setup _ _, .failed code _ => some (w, .fail (replyStatus code none))
  | .startUnit pid unit, .ok => some (w, .suspend (.start (.unitReply pid unit)))
  | .unitReply pid unit, .ok => some (w, .suspend (.start (.unitJob pid unit)))
  | .unitReply _ _, .failed code error => some (w, .fail (replyStatus code error))
  | .unitJob pid unit, .result text =>
    if text = "done" then some (w, .goto (.start (afterUnit entity pid unit)))
    else some (w, .fail (replyError (failedToStart (unitName entity.name unit) text)))
  | .unitJob _ _, .failed code _ => some (w, .fail (replyStatus code none))
  | .components _ [], .ok => some (w, .done)
  | .components pid ((type, component) :: rest), .ok =>
    match sent w.manager.running.configuration type component with
    | .error _ => none
    | .ok json =>
      some (w.update pid fun p => { p with received := p.received ++ [(type, json)] },
        .suspend (.start (.added pid type rest)))
  | .added pid type rest, .value true =>
    some (w.update pid fun p => { p with acknowledged := p.acknowledged ++ [type] },
      .goto (.start (.components pid rest)))
  | .added _ _ _, .failed code error => some (w, .fail (replyStatus code error))
  | _, _ => none

/-- `entity::stop` -/
def stop (w : World) (entity : Entity) : StopPc → Outcome → Option (World × Control)
  | .find, .ok =>
    match w.live.find entity.name with
    | none => some (w, .fail (replyError (entityNotStarted entity.name)))
    | some pid =>
      some (w.update pid fun p => { p with shutdown := true }, .suspend (.stop (.shutdown pid)))
  | .shutdown pid, .ok => some (w, .goto (.stop (.waitpid pid)))
  | .shutdown _, .failed code error => some (w, .fail (replyStatus code error))
  | .waitpid pid, .ok => some (w.reap pid, .goto (.stop .erase))
  -- the result of `waitpid` is not looked at
  | .waitpid _, .errno _ => some (w, .goto (.stop .erase))
  | .erase, .ok => some (w.forget entity.name, .goto (.stop .stopUnit))
  | .stopUnit, .ok => some (w, .suspend (.stop .stopReply))
  | .stopReply, .ok => some (w, .suspend (.stop .stopJob))
  | .stopReply, .failed code error => some (w, .fail (replyStatus code error))
  | .stopJob, .result text =>
    if text = "done" then some (w, .done)
    else some (w, .fail (replyError (failedToStop (sliceName entity.name) text)))
  | .stopJob, .failed code _ => some (w, .fail (replyStatus code none))
  | _, _ => none

end Entity

end Nonsense
