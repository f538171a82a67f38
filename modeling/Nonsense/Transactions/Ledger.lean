import Nonsense.Lib.Machine
import Nonsense.Transactions.Effects

/-!
# The calls of a run and what they were answered

A `Ledger` is the manager together with every call it has answered, newest first.
What a history `records` is read off the calls and the replies alone: which
transactions are open, who owns them and which operations they hold
(`openTransactions`), and which lists of operations have been committed
(`committed`).

`table_eq` and `running_eq` say that the manager keeps to it: no operation is
lost, duplicated or partly applied.
-/

namespace Nonsense

/-- A call that was answered. -/
structure Event where
  call : Call
  replies : List Reply

structure Ledger where
  manager : Transactions
  history : List Event

/-- What an event changes, as the caller can tell. -/
inductive Change
  | opened (id : UInt64) (owner : UInt32)
  | recorded (id : UInt64) (operation : Operation)
  | committed (id : UInt64)
  | discarded (id : UInt64)
  | nothing

def Event.change (e : Event) : Change :=
  if e.replies.any Reply.isError then .nothing
  else
    match e.call, e.replies with
    | .new _ _ (.uid owner) _, .methodReturn (.uint64 id :: _) :: _ => .opened id owner
    | .add id _ (.ok (name, initialParameters)), _ => .recorded id (.add name initialParameters)
    | .commit (.ok id) _, _ => .committed id
    | .discard (.ok id) _, _ => .discarded id
    | _, _ => .nothing

namespace Ledger

/-- The owner and the operations of a transaction that is open after a history. -/
def openTransactions : List Event → UInt64 → Option (UInt32 × List Operation)
  | [], _ => none
  | e :: history, id =>
    match e.change with
    | .opened id' owner => if id = id' then some (owner, []) else openTransactions history id
    | .recorded id' operation =>
      if id = id' then
        (openTransactions history id).map fun (owner, operations) =>
          (owner, operations ++ [operation])
      else openTransactions history id
    | .committed id' | .discarded id' => if id = id' then none else openTransactions history id
    | .nothing => openTransactions history id

/-- The operations recorded for `id` when a history ends. -/
def recorded (history : List Event) (id : UInt64) : List Operation :=
  ((openTransactions history id).map Prod.snd).getD []

/-- The lists of operations that were committed, in the order of the commits. -/
def committed : List Event → List (List Operation)
  | [] => []
  | e :: history =>
    match e.change with
    | .committed id => committed history ++ [recorded history id]
    | _ => committed history

/-- The daemon before its first call, with the configuration it has loaded. -/
def start (c : Config) : Ledger :=
  { manager := { running := c, generation := 0, transactions := [] }, history := [] }

/-- Serve a call.  No step where the process ends. -/
def serve (parse : String → Option Json) (s : Ledger) (call : Call) : Option Ledger :=
  match s.manager.serve parse call with
  | some (.replied t replies) => some { manager := t, history := ⟨call, replies⟩ :: s.history }
  | _ => none

def machine (parse : String → Option Json) : Machine Ledger Call := ⟨serve parse⟩

open Machine Transactions

variable {parse : String → Option Json} {c : Config} {s s' : Ledger} {call : Call}

/-- **The step lemma**: a step serves one call. -/
theorem step_effect (h : (machine parse).step s call = some s') :
    ∃ replies, Effect parse s.manager call s'.manager replies ∧
      s'.history = ⟨call, replies⟩ :: s.history := by
  change serve parse s call = some s' at h
  unfold serve at h
  split at h
  · rename_i t replies hs
    cases h
    exact ⟨replies, serve_effect hs, rfl⟩
  · cases h

theorem change_refused {r : Reply} {replies : List Reply} (herr : r.isError = true) :
    Event.change ⟨call, r :: replies⟩ = .nothing := by
  simp [Event.change, herr]

/-! ### The table -/

/-- The table as the callers know it. -/
def table (t : Transactions) (id : UInt64) : Option (UInt32 × List Operation) :=
  (t.transactions.find id).map fun transaction => (transaction.owner, transaction.operations)

theorem table_effect {t t' : Transactions} {replies : List Reply} {history : List Event}
    (h : Effect parse t call t' replies) (ht : table t = openTransactions history) :
    table t' = openTransactions (⟨call, replies⟩ :: history) := by
  funext id
  have hid := congrFun ht id
  unfold table at hid ⊢
  cases h with
  | refused herr =>
    rw [openTransactions, change_refused herr]
    exact hid
  | notCommitted _ _ _ =>
    rw [openTransactions, change_refused rfl]
    exact hid
  | @new draws id' owner hfind =>
    simp only [openTransactions, Event.change, OrdMap.find_insert]
    by_cases hii : id = id'
    · simp [hii, Reply.isError]
    · simpa [hii, Reply.isError] using hid
  | @add id' owner transaction name params hfind hown =>
    simp only [openTransactions, Event.change, OrdMap.find_insert]
    by_cases hii : id = id'
    · subst hii
      rw [← hid, hfind]
      simp [Reply.isError, Transaction.record]
    · simpa [hii, Reply.isError] using hid
  | @commit id' _ _ _ _ _ _ | @discard id' _ _ _ _ =>
    simp only [openTransactions, Event.change, OrdMap.find_erase]
    by_cases hii : id = id'
    · simp [hii, Reply.isError]
    · simpa [hii, Reply.isError] using hid

/-- **The table holds what the replies promised**, after every run. -/
theorem table_eq (h : (machine parse).Reaches Always (start c) s) :
    table s.manager = openTransactions s.history := by
  refine h.invariant (I := fun s => table s.manager = openTransactions s.history) rfl ?_
  intro s call s' ih _ hstep
  obtain ⟨replies, heff, hhist⟩ := step_effect hstep
  rw [hhist]
  exact table_effect heff ih

theorem operations_eq (h : (machine parse).Reaches Always (start c) s) {id : UInt64}
    {transaction : Transaction} (hfind : s.manager.transactions.find id = some transaction) :
    transaction.operations = recorded s.history id := by
  rw [recorded, ← table_eq h, table, hfind]
  rfl

/-! ### The running configuration -/

/-- The commits of a longer history. -/
theorem committed_effect {t t' : Transactions} {replies : List Reply} {history : List Event}
    (h : Effect parse t call t' replies)
    (hops : ∀ id transaction, t.transactions.find id = some transaction →
      transaction.operations = recorded history id) :
    (t'.running = t.running ∧ committed (⟨call, replies⟩ :: history) = committed history) ∨
      ∃ operations c, operations.foldlM (addOperation parse) t.running.copy = some c ∧
        t'.running = { t.running with configuration := c.configuration } ∧
        committed (⟨call, replies⟩ :: history) = committed history ++ [operations] := by
  cases h with
  | refused herr =>
    rw [committed, change_refused herr]
    exact Or.inl ⟨rfl, rfl⟩
  | notCommitted _ _ _ =>
    rw [committed, change_refused rfl]
    exact Or.inl ⟨rfl, rfl⟩
  | new _ => exact Or.inl ⟨rfl, by simp [committed, Event.change, Reply.isError]⟩
  | add _ _ => exact Or.inl ⟨rfl, by simp [committed, Event.change, Reply.isError]⟩
  | discard _ _ => exact Or.inl ⟨rfl, by simp [committed, Event.change, Reply.isError]⟩
  | @commit id owner transaction c hfind _ hfold =>
    refine Or.inr ⟨_, c, hfold, rfl, ?_⟩
    rw [hops id transaction hfind]
    simp [committed, Event.change, Reply.isError]

/-- **The running configuration is the fold of the committed operations**, after
every run. -/
theorem running_eq (h : (machine parse).Reaches Always (start c) s) :
    (committed s.history).flatten.foldlM (addOperation parse) c.copy = some s.manager.running.copy := by
  refine h.invariant_of_reaches
    (I := fun s => (committed s.history).flatten.foldlM (addOperation parse) c.copy =
      some s.manager.running.copy) rfl ?_
  intro s call s' hs ih _ hstep
  obtain ⟨replies, heff, hhist⟩ := step_effect hstep
  rw [hhist]
  rcases committed_effect heff fun id transaction => operations_eq hs with
    ⟨hrun, hcom⟩ | ⟨operations, c', hfold, hrun, hcom⟩
  · rw [hcom, hrun, ih]
  · rw [hcom, List.flatten_append, List.foldlM_append, ih]
    have hmut : c'.isMutable = true := foldlM_isMutable hfold
    simpa [hrun, Config.copy, ← hmut] using hfold

end Ledger

end Nonsense
