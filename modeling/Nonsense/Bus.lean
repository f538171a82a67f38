/-!
# Replies to method calls

What `async.h` and sd-bus do when a handler ends.  `replyError` and `replyStatus`
are what `promise::return_value` sends in a coroutine that serves a message
itself: an error always, a status only when its code is negative.  `outParam` is
what sd-bus sends on its own when a handler comes back with its `sd_bus_error`
argument set.

A `Failure` is the negative number that a failing sd-bus function returns.
-/

namespace Nonsense

structure BusError where
  name : String
  message : String
  deriving DecidableEq, Repr

/-- The return value of an sd-bus function that fails. -/
abbrev Failure := { code : Int // code < 0 }

def ENOENT : Int := 2
def EACCES : Int := 13
def EEXIST : Int := 17
def EINVAL : Int := 22
def EROFS : Int := 30
def ENOSYS : Int := 38

/-- An argument of a method return. -/
inductive Argument
  | uint64 (n : UInt64)
  | objectPath (path : String)
  deriving DecidableEq, Repr

/-- A reply that is queued for a method call. -/
inductive Reply
  /-- `sd_bus_reply_method_return` -/
  | methodReturn (arguments : List Argument)
  /-- `sd_bus_reply_method_errno` -/
  | methodErrno (code : Int) (error : Option BusError)
  /-- `sd_bus_reply_method_error` -/
  | methodError (error : BusError)
  deriving DecidableEq, Repr

def Reply.isError : Reply → Bool
  | methodReturn _ => false
  | _ => true

/-- `return_value(const reply_error_t &)` -/
def replyError (error : BusError) : List Reply := [.methodError error]

/-- `return_value(const reply_status_t &)` -/
def replyStatus (code : Int) (error : Option BusError) : List Reply :=
  if code < 0 then [.methodErrno code error] else []

/-- What sd-bus sends for the error argument of a handler. -/
def outParam (error : Option BusError) : List Reply :=
  match error with
  | some error => [.methodError error]
  | none => []

theorem replyStatus_of_neg {code : Int} {error : Option BusError} (h : code < 0) :
    replyStatus code error = [.methodErrno code error] := if_pos h

theorem replyStatus_of_nonneg {code : Int} {error : Option BusError} (h : 0 ≤ code) :
    replyStatus code error = [] := if_neg (by omega)

end Nonsense
