import Nonsense.Lib.TextStream
import Nonsense.Transactions.Basic

/-!
# Transaction tokens

`nonsensectl` prints the id of a new transaction as a token, and takes the token back: to
put it behind a path, for `add`, and to read the id from it, for `commit` and `discard`.
The daemon writes the path of a transaction with a stream of its own.

A handler is what it writes to the standard output, or what it writes to the standard
error before it exits with status 1.  The system bus is given by how it answers.
-/

namespace Nonsense

namespace Control

open TextStream (Out In)

/-! ### Method calls -/

def dbusPathPrefix : String := "/info/griwes/nonsense"

inductive Body
  | empty
  | token (token : UInt64)
  | add (name : String) (parameters : List (String × String))
  deriving DecidableEq, Repr

/-- A method call to `dbus_service`. -/
structure MethodCall where
  path : String
  interface : String
  member : String
  body : Body
  deriving DecidableEq, Repr

/-- The system bus, and the texts of the C library for what fails there. -/
structure SystemBus where
  connect : Except Failure Unit
  /-- `sd_bus_message_new_method_call` at this path. -/
  create : String → Except Failure Unit
  call : MethodCall → Except BusError (List Argument)
  strerror : Int → String

/-- `HANDLE_DBUS_ERROR` -/
def handleDbusError {α : Type} (msg : String) (result : Except BusError α) : Except String α :=
  result.mapError fun error =>
    "Error: " ++ msg ++ ": " ++ error.name ++ ": " ++ error.message ++ "\n"

/-- `HANDLE_DBUS_RESULT` -/
def SystemBus.handleDbusResult {α : Type} (bus : SystemBus) (msg : String)
    (result : Except Failure α) : Except String α :=
  result.mapError fun code => "Error: " ++ msg ++ ": " ++ bus.strerror (-code.val) ++ "\n"

/-- `dbus_connect` -/
def SystemBus.dbusConnect (bus : SystemBus) : Except String Unit :=
  bus.handleDbusResult "Failed to connect to system bus" bus.connect

/-- Arguments as the error messages list them. -/
def listed (arguments : List String) : String := String.join (arguments.map (" " ++ ·))

/-! ### `get new-transaction-token` -/

def ENXIO : Int := 6

/-- `sd_bus_message_read(message, "to", &token, &transaction_path)` -/
def readTo : List Argument → Except Failure (UInt64 × String)
  | .uint64 token :: .objectPath transactionPath :: _ => .ok (token, transactionPath)
  | _ => .error ⟨- ENXIO, by decide⟩

/-- The text of a token, by the stream of `get_transaction_token`. -/
def tokenText (token : UInt64) : String := (((Out.empty.setFill '0').setw 16).hex.uint64 token).str

def newCall : MethodCall :=
  ⟨dbusPathPrefix ++ "/configuration/transactions", "info.griwes.nonsense.TransactionManager", "New",
    .empty⟩

/-- `get_transaction_token` -/
def getTransactionToken (bus : SystemBus) (arguments : List String) : Except String String :=
  if arguments.length ≠ 1 then
    .error ("Error: unrecognized arguments to get-transaction-token:" ++ listed arguments.tail ++ "\n")
  else do
    bus.dbusConnect
    let message ← handleDbusError "Method call failed" (bus.call newCall)
    let (token, _) ← bus.handleDbusResult "Failed to parse response message" (readTo message)
    return tokenText token ++ "\n"

/-! ### `add` -/

/-- The path and the interface that `add_handler` calls. -/
def addTarget (token : Option String) : String × String :=
  match token with
  | none => (dbusPathPrefix ++ "/configuration/running", "info.griwes.nonsense.Config")
  | some token =>
    (dbusPathPrefix ++ "/configuration/transactions/" ++ token, "info.griwes.nonsense.Transaction")

/-- An argument is split at its first `=`. -/
def splitArgument (argument : String) : Except String (String × String) :=
  match argument.toList.dropWhile (· ≠ '=') with
  | [] => .error ("Invalid argument '" ++ argument ++ "', must be in form 'parameter-name=value'.\n")
  | _ :: value => .ok (String.ofList (argument.toList.takeWhile (· ≠ '=')), String.ofList value)

/-- `add_handler` -/
def addHandler (bus : SystemBus) (arguments : List String) (token : Option String) :
    Except String String :=
  match arguments with
  | name :: argument :: rest => do
    let (dbusPath, dbusInterface) := addTarget token
    bus.dbusConnect
    bus.handleDbusResult "Failed to create a dbus method call message" (bus.create dbusPath)
    let parameters ← (argument :: rest).mapM splitArgument
    let _ ← handleDbusError "Method call failed"
      (bus.call ⟨dbusPath, dbusInterface, "Add", .add name parameters⟩)
    return ""
  | _ => .error "Error: Not enough arguments for command add\n"

/-! ### `commit` and `discard` -/

inductive Finalize
  | commit
  | discard
  deriving DecidableEq, Repr

def Finalize.name : Finalize → String
  | .commit => "commit"
  | .discard => "discard"

def finalizeCall (mode : Finalize) (token : UInt64) : MethodCall where
  path := dbusPathPrefix ++ "/configuration/transactions"
  interface := "info.griwes.nonsense.TransactionManager"
  member := if mode = .commit then "Commit" else "Discard"
  body := .token token

/-- `is >> std::hex >> token` -/
def parseToken (text : String) : Option UInt64 := (In.ofString text).hex.uint64

/-- `finalize_handler` -/
def finalizeHandler (bus : SystemBus) (mode : Finalize) (arguments : List String)
    (token : Option String) : Except String String :=
  if arguments ≠ [] then
    .error ("Error: unrecognized arguments to " ++ mode.name ++ ":" ++ listed arguments ++ "\n")
  else
    match token with
    | none => .error ("Error: a transaction token must be provided for " ++ mode.name ++ ".\n")
    | some text =>
      match parseToken text with
      | none => .error ("Error: Invalid token format: " ++ text ++ "\n")
      | some token => do
        bus.dbusConnect
        let _ ← handleDbusError "Method call failed" (bus.call (finalizeCall mode token))
        return ""

end Control

/-! ### Texts and paths -/

namespace Transaction

open TextStream (Out)

/-- The path that the constructor's stream writes. -/
def constructorPath (id : UInt64) : String :=
  ((((Out.empty.setFill '0').string "/info/griwes/nonsense/configuration/transactions/").hex.setw
    16).uint64 id).str

/-- The width is used up by the id, not by the text in front of it. -/
theorem constructorPath_eq (id : UInt64) :
    constructorPath id = "/info/griwes/nonsense/configuration/transactions/" ++ hex id := by
  simp only [constructorPath, hex, Out.str, Out.uint64, Out.setw, Out.hex, Out.string, Out.item,
    Out.setFill, Out.empty, TextStream.Base.radix, List.nil_append, String.ofList_append, List.leftpad,
    Nat.zero_sub, List.replicate_zero, String.ofList_toList]

theorem constructorPath_id (transaction : Transaction) :
    constructorPath transaction.id = transaction.objectPath := constructorPath_eq transaction.id

theorem length_hex (id : UInt64) : (hex id).length = 16 := by
  rw [hex, String.length_ofList]
  exact TextStream.length_leftpad_toDigits (b := .hex) '0' (by decide) id.toNat_lt

end Transaction

namespace Control

open TextStream (Out In)
open Transaction (hex)

theorem tokenText_eq (token : UInt64) : tokenText token = hex token := rfl

theorem addTarget_tokenText (id : UInt64) :
    (addTarget (some (tokenText id))).1 = Transaction.constructorPath id :=
  (Transaction.constructorPath_eq id).symm

theorem parseToken_tokenText (id : UInt64) : parseToken (tokenText id) = some id := by
  rw [tokenText_eq, parseToken, In.ofString, In.hex, hex, String.toList_ofList]
  exact TextStream.uint64_leftpad .hex 16 id

theorem tokenText_injective : Function.Injective tokenText := by
  intro id id' h
  have hparse : some id = some id' := by
    rw [← parseToken_tokenText id, h, parseToken_tokenText]
  exact Option.some.inj hparse

theorem constructorPath_injective : Function.Injective Transaction.constructorPath := by
  intro id id' h
  rw [Transaction.constructorPath_eq, Transaction.constructorPath_eq] at h
  exact tokenText_injective (String.append_right_inj _ |>.mp h)

/-- What is printed when the manager answers. -/
theorem getTransactionToken_of_reply {bus : SystemBus} {id : UInt64} {path : String}
    {rest : List Argument} (hconnect : bus.connect = .ok ())
    (hcall : bus.call newCall = .ok (.uint64 id :: .objectPath path :: rest)) (verb : String) :
    getTransactionToken bus [verb] = .ok (tokenText id ++ "\n") := by
  rw [getTransactionToken, if_neg (by simp), SystemBus.dbusConnect, hconnect, hcall]
  rfl

/-- What `commit` and `discard` are given a token for is done to its id. -/
theorem finalizeHandler_tokenText (bus : SystemBus) (mode : Finalize) (id : UInt64) :
    finalizeHandler bus mode [] (some (tokenText id)) = (do
      bus.dbusConnect
      let _ ← handleDbusError "Method call failed" (bus.call (finalizeCall mode id))
      return "") := by
  rw [finalizeHandler, if_neg (not_not_intro rfl), parseToken_tokenText]

/-- **A token and the transaction it stands for.**  The last three parts are what the daemon
and `add`, what `commit` and `discard`, and what the daemon with another id make of it. -/
theorem token_round_trip (id : UInt64) :
    (tokenText id).length = 16 ∧
    (∀ (bus : SystemBus) (path : String) (rest : List Argument), bus.connect = .ok () →
      bus.call newCall = .ok (.uint64 id :: .objectPath path :: rest) →
      getTransactionToken bus ["new-transaction-token"] = .ok (tokenText id ++ "\n")) ∧
    ("/info/griwes/nonsense/configuration/transactions/" ++ tokenText id =
        Transaction.constructorPath id ∧
      (addTarget (some (tokenText id))).1 = Transaction.constructorPath id ∧
      ∀ transaction : Transaction, transaction.id = id →
        transaction.objectPath = Transaction.constructorPath id) ∧
    (parseToken (tokenText id) = some id ∧
      ∀ (bus : SystemBus) (mode : Finalize),
        finalizeHandler bus mode [] (some (tokenText id)) = (do
          bus.dbusConnect
          let _ ← handleDbusError "Method call failed" (bus.call (finalizeCall mode id))
          return "")) ∧
    ∀ id' : UInt64, id' ≠ id → Transaction.constructorPath id' ≠ Transaction.constructorPath id := by
  refine ⟨Transaction.length_hex id, ?_, ⟨?_, addTarget_tokenText id, ?_⟩,
    ⟨parseToken_tokenText id, fun bus mode => finalizeHandler_tokenText bus mode id⟩, ?_⟩
  · intro bus path rest hconnect hcall
    exact getTransactionToken_of_reply hconnect hcall _
  · exact (Transaction.constructorPath_eq id).symm
  · rintro transaction rfl
    exact (transaction.constructorPath_id).symm
  · intro id' hne h
    exact hne (constructorPath_injective h)

theorem token_round_trip_two_hundred_and_fifty_five :
    getTransactionToken
        ⟨.ok (), fun _ => .ok (), fun _ => .ok [.uint64 255, .objectPath (Transaction.constructorPath 255)],
          fun _ => ""⟩
        ["new-transaction-token"] = .ok "00000000000000ff\n" ∧
      parseToken "00000000000000ff" = some 255 :=
  ⟨(token_round_trip 255).2.1 _ _ [] rfl rfl, (token_round_trip 255).2.2.2.1.1⟩

end Control

end Nonsense
