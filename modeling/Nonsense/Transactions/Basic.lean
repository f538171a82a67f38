import Nonsense.Bus
import Nonsense.Config.Basic

/-!
# Transactions

`transaction.cpp` and `transactions.cpp`.  A transaction belongs to the user who
opened it and records operations; the manager holds the open ones and the running
configuration, and a commit applies the operations to a copy of it that is then
assigned back.

A `Call` carries what the daemon learns from outside while it serves the call:
how reading the message ends, what the random engine draws, who the sender is.
None of the handlers is suspended in the middle, so a call is served in one step.
`generation` counts the assignments to the running configuration, each of which
replaces its tree.
-/

namespace Nonsense

/-- `std::variant<add, set, delete_>` -/
inductive Operation
  | add (name : String) (initialParameters : List ParameterValue)
  | set (name : String) (modification : List ParameterValue)
  | delete_ (name : String)
  deriving DecidableEq, Repr

structure Transaction where
  id : UInt64
  owner : UInt32
  operations : List Operation
  deriving DecidableEq, Repr

namespace Transaction

/-- `std::hex << std::setw(16) << id`, filled with zeros. -/
def hex (id : UInt64) : String := String.ofList ((Nat.toDigits 16 id.toNat).leftpad 16 '0')

def objectPath (transaction : Transaction) : String :=
  "/info/griwes/nonsense/configuration/transactions/" ++ hex transaction.id

/-- `_operations.push_back(operation)` -/
def record (transaction : Transaction) (operation : Operation) : Transaction :=
  { transaction with operations := transaction.operations ++ [operation] }

end Transaction

/-- The transaction manager with the running configuration it refers to. -/
structure Transactions where
  running : Config
  generation : Nat
  transactions : OrdMap UInt64 Transaction

/-- Who sent a message. -/
inductive Creds
  | uid (owner : UInt32)
  /-- `sd_bus_creds_get_uid` fails. -/
  | noUid (code : Failure)
  /-- `sd_bus_query_sender_creds` fails. -/
  | queryFailed

/-- A method call to the manager, or to the object of a transaction. -/
inductive Call
  | list
  | new (parsed : Except Failure Unit) (draws : List UInt64) (creds : Creds) (installed : Bool)
  | commit (parsed : Except Failure UInt64) (creds : Creds)
  | discard (parsed : Except Failure UInt64) (creds : Creds)
  | serialize (id : UInt64)
  | add (id : UInt64) (creds : Creds) (parsed : Except Failure (String × List ParameterValue))
  | set (id : UInt64)
  | delete (id : UInt64)

/-- How serving a call ends. -/
inductive Served
  | replied (t : Transactions) (replies : List Reply)
  | terminated (f : Fault)

namespace Transactions

def accessDenied (verb : String) : BusError :=
  ⟨"info.griwes.nonsense.AccessDenied",
    "You do not have permissions to " ++ verb ++ " this transaction."⟩

def invalidTransactionId (verb : String) : BusError :=
  ⟨"info.griwes.nonsense.InvalidTransactionId",
    "The transaction ID requested to be " ++ verb ++ " is not valid."⟩

/-- The part a transaction's handlers share: find out who is calling, and go on
if it is the owner or root. -/
def withAccess (t : Transactions) (transaction : Transaction) (creds : Creds) (verb : String)
    (go : Served) : Served :=
  match creds with
  | .queryFailed => .terminated (.assertion "status >= 0")
  | .noUid code => .replied t (replyStatus code none)
  | .uid owner =>
    if owner ≠ transaction.owner ∧ owner ≠ 0 then
      .replied t (replyStatus (-EACCES) (some (accessDenied verb)))
    else go

/-- The part `commit` and `discard` share: read the id and find the transaction. -/
def withTransaction (t : Transactions) (parsed : Except Failure UInt64) (creds : Creds)
    (past verb : String) (go : UInt64 → Transaction → Served) : Served :=
  match parsed with
  | .error code => .replied t (replyStatus code none)
  | .ok id =>
    match t.transactions.find id with
    | none => .replied t (replyStatus (-EINVAL) (some (invalidTransactionId past)))
    | some transaction => withAccess t transaction creds verb (go id transaction)

/-! ### `new` -/

/-- Draw until the id is not taken; `none` if it is not among these draws. -/
def drawId (transactions : OrdMap UInt64 Transaction) : List UInt64 → Option UInt64
  | [] => none
  | id :: draws => if (transactions.find id).isSome then drawId transactions draws else some id

/-- `method_new_impl`, once the id is drawn. -/
def new (t : Transactions) (id : UInt64) (creds : Creds) (installed : Bool) : Served :=
  match creds with
  | .queryFailed => .terminated (.assertion "status >= 0")
  | .noUid code => .replied t (replyStatus code none)
  | .uid owner =>
    if installed then
      let transaction : Transaction := ⟨id, owner, []⟩
      .replied { t with transactions := t.transactions.insert id transaction }
        [.methodReturn [.uint64 id, .objectPath transaction.objectPath]]
    else .terminated (.assertion "!(ret < 0)")

/-! ### `commit` -/

variable (parse : String → Option Json)

/-- What the visitor makes of one operation: its status, the error it sets and
the copy it leaves. -/
inductive Visited
  | status (code : Int) (error : Option BusError) (runningCopy : Config)
  | terminated (f : Fault)

def visit (runningCopy : Config) : Operation → Visited
  | .add name initialParameters =>
    if (runningCopy.tryGet name).isSome then
      .status (-EEXIST) (some ⟨"info.griwes.nonsense.EntityAlreadyExists",
        "The transaction attempted to create an entity that already exists: " ++ name ++ "."⟩)
        runningCopy
    else
      match runningCopy.add parse name initialParameters with
      | .terminated f => .terminated f
      | .returned result runningCopy =>
        if result.errorCode < 0 then
          .status result.errorCode
            (some ⟨"info.griwes.nonsense.InvalidEntityParameters", result.errorMessage⟩) runningCopy
        else .status 0 none runningCopy
  | _ => .status (-ENOSYS) (some ⟨"info.griwes.nonsense.NotImplementedYet",
      "A transaction containing this kind of an operation is not implemented yet."⟩) runningCopy

/-- How the loop over the operations ends. -/
inductive Applied
  | done (runningCopy : Config)
  | stopped (status : Int) (error : Option BusError)
  | terminated (f : Fault)

def applyOperations : List Operation → Config → Applied
  | [], runningCopy => .done runningCopy
  | operation :: operations, runningCopy =>
    match visit parse runningCopy operation with
    | .terminated f => .terminated f
    | .status code error runningCopy =>
      if code ≠ 0 then .stopped code error else applyOperations operations runningCopy

/-- `method_commit_impl`.  The visitor writes into the error argument of the
handler, so sd-bus answers an operation that fails as well. -/
def commit (t : Transactions) (parsed : Except Failure UInt64) (creds : Creds) : Served :=
  withTransaction t parsed creds "committed" "commit" fun id transaction =>
    match applyOperations parse transaction.operations t.running.copy with
    | .terminated f => .terminated f
    | .stopped status error => .replied t (replyStatus status error ++ outParam error)
    | .done runningCopy =>
      .replied
        { running := { t.running with configuration := runningCopy.configuration }
          generation := t.generation + 1
          transactions := t.transactions.erase id }
        [.methodReturn []]

/-! ### The other methods -/

/-- `method_discard_impl` -/
def discard (t : Transactions) (parsed : Except Failure UInt64) (creds : Creds) : Served :=
  withTransaction t parsed creds "discarded" "modify" fun id _ =>
    .replied { t with transactions := t.transactions.erase id } [.methodReturn []]

/-- `transaction::method_add_impl`, on the transaction `id` -/
def add (t : Transactions) (id : UInt64) (transaction : Transaction) (creds : Creds)
    (parsed : Except Failure (String × List ParameterValue)) : Served :=
  withAccess t transaction creds "modify"
    (match parsed with
    | .error code => .replied t (replyStatus code none)
    | .ok (name, initialParameters) =>
      let recorded := transaction.record (.add name initialParameters)
      .replied { t with transactions := t.transactions.insert id recorded } [.methodReturn []])

/-- A method of the object of `id`: where there is no such object, it is sd-bus
that replies. -/
def onObject (t : Transactions) (id : UInt64) (go : Transaction → Served) : Served :=
  match t.transactions.find id with
  | none => .replied t (replyError ⟨"org.freedesktop.DBus.Error.UnknownObject", "Unknown object"⟩)
  | some transaction => go transaction

/-- Serve one call.  `none` only where the draws of a `new` are all taken. -/
def serve (t : Transactions) : Call → Option Served
  | .list => some (.replied t (replyStatus (-ENOSYS) none))
  | .new (.error code) _ _ _ => some (.replied t (replyStatus code none))
  | .new (.ok ()) draws creds installed =>
    (drawId t.transactions draws).map fun id => new t id creds installed
  | .commit parsed creds => some (commit parse t parsed creds)
  | .discard parsed creds => some (discard t parsed creds)
  | .add id creds parsed =>
    some (onObject t id fun transaction => add t id transaction creds parsed)
  | .serialize id | .set id | .delete id =>
    some (onObject t id fun _ => .replied t (replyStatus (-ENOSYS) none))

end Transactions

end Nonsense
