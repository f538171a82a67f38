import Nonsense.Bus
import Nonsense.Lib.Machine
import Mathlib.Logic.Function.Basic

/-!
# The coroutines of the daemon

`promise` of `async.h`, and the awaitable of an asynchronous method call.  A coroutine
serves a message of the bus, or it is a subtask that its parent awaits and reports to its
parent's promise.  It begins to run where it is called, and when it ends its locals are
destroyed behind `return_value`, and then its frame.

The call stack holds what is under way, with the top first: a body that runs, a frame
whose locals are being destroyed, a call of `return_value` on a promise, a call of
`destroy` on a handle.  A destructor may resume whoever waits for what it gives back, so
that anything may happen above a frame that is being destroyed.  Frames are numbered as
they are made.  To use one that is gone, or to resume or destroy one that is not
suspended, is `undefined`; an assertion that fails, and what else calls `std::abort`, is
`aborted`.
-/

namespace Nonsense

namespace Coroutines

/-- What a promise is given by `co_return`, or by whoever reports to it. -/
inductive Returned
  | error (error : BusError)
  | status (code : Int) (error : Option BusError)
  | unit
  deriving DecidableEq, Repr

/-- What is sent for it on a message. -/
def Returned.replies : Returned → List Reply
  | error e => replyError e
  | status code e => replyStatus code e
  | unit => []

/-- `_payload`: the coroutine serves a message, or its parent awaits it. -/
inductive Payload
  | message
  | handle (parent : Nat)
  deriving DecidableEq, Repr

/-- What a coroutine awaits that is not a subtask. -/
inductive Source
  | queue
  | call
  | signal
  deriving DecidableEq, Repr

/-- Who is going to resume a suspended coroutine; `nobody` if it is about to be destroyed. -/
inductive Resumer
  | subtask (child : Nat)
  | source (source : Source)
  | nobody
  deriving DecidableEq, Repr

inductive Status
  | running
  | suspended (resumer : Resumer)
  /-- Its locals are being destroyed, or are about to be. -/
  | leaving
  deriving DecidableEq, Repr

/-- Nobody is going to resume it any more. -/
def Status.abandoned : Status → Status
  | suspended _ => suspended .nobody
  | status => status

structure Frame where
  payload : Payload
  status : Status
  deriving DecidableEq, Repr

/-- What is on the call stack. -/
inductive Activity
  | body (coroutine : Nat)
  | returnValue (coroutine : Nat) (value : Returned)
  | destroy (coroutine : Nat)
  | unwind (coroutine : Nat)
  deriving DecidableEq, Repr

/-- What is recorded of a coroutine. -/
inductive Event
  /-- A reply is sent on the message that it serves. -/
  | replied (coroutine : Nat) (reply : Reply)
  | resumed (coroutine : Nat)
  /-- One of its locals is destroyed. -/
  | localDestroyed (coroutine : Nat)
  | destroyed (coroutine : Nat)
  deriving DecidableEq, Repr

inductive Halt
  | aborted
  | undefined
  deriving DecidableEq, Repr

/-- What may happen next. -/
inductive Input
  /-- The bus has a message for a handler. -/
  | call
  /-- The coroutine that runs awaits a subtask. -/
  | awaitSubtask
  /-- The coroutine that runs is suspended until `source` resumes it. -/
  | await (source : Source)
  /-- What a coroutine waits for has come. -/
  | wake (coroutine : Nat)
  /-- The method call that a coroutine waits for is answered with an error. -/
  | methodError (coroutine : Nat) (errno : Int) (error : Option BusError)
  | coReturn (value : Returned)
  | coYield (code : Int)
  /-- The runtime goes on; `sent` says whether the bus takes a reply. -/
  | proceed (sent : Bool)
  /-- A local of the frame that is being destroyed is destroyed. -/
  | destroyLocal
  /-- There is no local left, and the frame is freed. -/
  | free
  | abort
  deriving DecidableEq, Repr

end Coroutines

open Coroutines in
structure Coroutines where
  frames : Nat → Option Frame
  /-- How many frames were made. -/
  created : Nat
  stack : List Activity
  events : List Event
  halted : Option Halt

namespace Coroutines

def init : Coroutines :=
  { frames := fun _ => none, created := 0, stack := [], events := [], halted := none }

def halt (s : Coroutines) (why : Halt) : Coroutines := { s with halted := some why }

/-- Code runs that may call into the runtime: `main`, a body, or a destructor. -/
def runs (s : Coroutines) : Bool :=
  match s.stack with
  | .returnValue _ _ :: _ | .destroy _ :: _ => false
  | _ => true

def setFrame (s : Coroutines) (h : Nat) (f : Option Frame) (stack : List Activity) : Coroutines :=
  { s with frames := Function.update s.frames h f, stack }

/-- A new coroutine runs on top of `stack`. -/
def start (s : Coroutines) (payload : Payload) (stack : List Activity) : Coroutines :=
  { s with
    frames := Function.update s.frames s.created (some ⟨payload, .running⟩)
    created := s.created + 1
    stack := .body s.created :: stack }

/-- `handle.resume()` -/
def resume (s : Coroutines) (h : Nat) (stack : List Activity) : Coroutines :=
  match s.frames h with
  | some ⟨payload, .suspended _⟩ =>
    { s.setFrame h (some ⟨payload, .running⟩) (.body h :: stack) with
      events := s.events ++ [.resumed h] }
  | _ => s.halt .undefined

/-- `handle.destroy()` -/
def destroy (s : Coroutines) (h : Nat) (stack : List Activity) : Coroutines :=
  match s.frames h with
  | some ⟨payload, .suspended _⟩ => s.setFrame h (some ⟨payload, .leaving⟩) (.unwind h :: stack)
  | _ => s.halt .undefined

/-- `handle.promise().return_value(value); handle.destroy();` -/
def giveUp (s : Coroutines) (h : Nat) (value : Returned) (stack : List Activity) : Coroutines :=
  match s.frames h with
  | some f =>
    s.setFrame h (some { f with status := Status.abandoned f.status })
      (.returnValue h value :: .destroy h :: stack)
  | none => s.halt .undefined

/-- `return_value` on the promise of `h`. -/
def returnValue (s : Coroutines) (h : Nat) (value : Returned) (sent : Bool) (stack : List Activity) :
    Coroutines :=
  match s.frames h with
  | none => s.halt .undefined
  | some f =>
    match f.payload, value with
    | .message, .unit => s.halt .aborted
    | .message, value =>
      -- `sd_bus_reply_method_error` and `sd_bus_reply_method_errno` may fail
      if value.replies = [] ∨ sent then
        { s with stack, events := s.events ++ value.replies.map (.replied h) }
      else s.halt .aborted
    | .handle parent, .unit => s.resume parent stack
    | .handle parent, value => s.giveUp parent value stack

/-- The coroutine that runs is suspended. -/
def suspend (s : Coroutines) (h : Nat) (resumer : Resumer) (stack : List Activity) : Coroutines :=
  s.setFrame h ((s.frames h).map fun f => { f with status := .suspended resumer }) stack

def waitsFor (s : Coroutines) (h : Nat) (source : Source) : Bool :=
  match s.frames h with
  | some f => f.status = .suspended (.source source)
  | none => false

def step (s : Coroutines) (i : Input) : Option Coroutines :=
  if s.halted.isSome then none
  else
    match i, s.stack with
    | .call, stack => if s.runs then some (s.start .message stack) else none
    | .awaitSubtask, .body h :: stack =>
      some ((s.suspend h (.subtask s.created) stack).start (.handle h) stack)
    | .await source, .body h :: stack => some (s.suspend h (.source source) stack)
    | .wake h, stack =>
      if s.runs ∧ (s.waitsFor h .queue ∨ s.waitsFor h .call ∨ s.waitsFor h .signal) then
        some (s.resume h stack)
      else none
    | .methodError h errno error, stack =>
      if s.runs ∧ s.waitsFor h .call then some (s.giveUp h (.status (-errno) error) stack)
      else none
    | .coReturn value, .body h :: stack =>
      some (s.setFrame h ((s.frames h).map fun f => { f with status := .leaving })
        (.returnValue h value :: .unwind h :: stack))
    | .coYield code, .body h :: stack =>
      -- `await_suspend` of `yield_value`
      if code < 0 then some ((s.suspend h .nobody stack).giveUp h (.status code none) stack)
      else some s
    | .proceed sent, .returnValue h value :: stack => some (s.returnValue h value sent stack)
    | .proceed _, .destroy h :: stack => some (s.destroy h stack)
    | .destroyLocal, .unwind h :: _ => some { s with events := s.events ++ [.localDestroyed h] }
    | .free, .unwind h :: stack =>
      some { s.setFrame h none stack with events := s.events ++ [.destroyed h] }
    | .abort, _ => if s.runs then some (s.halt .aborted) else none
    | _, _ => none

def machine : Machine Coroutines Input where
  step := step

end Coroutines

end Nonsense
