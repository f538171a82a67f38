import Nonsense.Transactions.Ledger
import Mathlib.Data.List.Forall2

/-!
# Who may do what to a transaction

A transaction belongs to the user who opened it, and `withAccess` lets nobody but
that user and root go on.  The check stands in three handlers, at three different
places; what it comes to over a whole run is read off the history here.

`Traced` says that the operations of a transaction are those that adds of the
history appended, one add for each operation and in that order, all of them sent by
the owner or by root.  `Entitled` is the invariant, and `access_control` puts the
rest with it: what the commit may change, that an id is never given out twice, and
that a call from anybody else does nothing.
-/

namespace Nonsense

/-- The order of the table of transactions. -/
instance idOrder : LinearOrder UInt64 where
  le_refl := UInt64.le_refl
  le_trans _ _ _ := UInt64.le_trans
  le_antisymm _ _ := UInt64.le_antisymm
  le_total := UInt64.le_total
  lt_iff_le_not_ge a b := by simp only [UInt64.le_iff_toNat_le, UInt64.lt_iff_toNat_lt]; omega
  toDecidableLE := inferInstance
  toDecidableLT := inferInstance
  toDecidableEq := inferInstance

/-- The call is to the transaction `id`. -/
inductive Call.Aims (id : UInt64) (creds : Creds) : Call → Prop
  | add (parsed : Except Failure (String × List ParameterValue)) : Aims id creds (.add id creds parsed)
  | commit : Aims id creds (.commit (.ok id) creds)
  | discard : Aims id creds (.discard (.ok id) creds)

/-- The event is an accepted add of `operation` to `id`, by `owner` or by root. -/
def Event.Appends (id : UInt64) (owner : UInt32) (e : Event) (operation : Operation) : Prop :=
  ∃ sender name params, e = ⟨.add id (.uid sender) (.ok (name, params)), [.methodReturn []]⟩ ∧
    operation = .add name params ∧ (sender = owner ∨ sender = 0)

namespace Ledger

open Machine Transactions

variable {parse : String → Option Json} {c : Config} {s s' : Ledger} {call : Call}
  {calls : List Call} {id : UInt64} {transaction : Transaction} {history : List Event} {e : Event}

/-- Every operation of the transaction was appended by an event of the history. -/
def Traced (history : List Event) (id : UInt64) (transaction : Transaction) : Prop :=
  ∃ events : List Event, events.reverse.Sublist history ∧
    List.Forall₂ (Event.Appends id transaction.owner) events transaction.operations

theorem Traced.later (h : Traced history id transaction) : Traced (e :: history) id transaction := by
  obtain ⟨events, hsub, hall⟩ := h
  exact ⟨events, hsub.cons e, hall⟩

theorem Traced.record {operation : Operation} (h : Traced history id transaction)
    (he : e.Appends id transaction.owner operation) :
    Traced (e :: history) id (transaction.record operation) := by
  obtain ⟨events, hsub, hall⟩ := h
  refine ⟨events ++ [e], ?_, ?_⟩
  · rw [List.reverse_append]
    exact hsub.cons_cons e
  · exact List.rel_append hall (.cons he .nil)

/-- What is known of the table after every run. -/
structure Entitled (s : Ledger) : Prop where
  ordered : s.manager.transactions.Ordered
  id : ∀ id transaction, s.manager.transactions.find id = some transaction → transaction.id = id
  traced : ∀ id transaction, s.manager.transactions.find id = some transaction →
    Traced s.history id transaction

theorem Entitled.step (h : Entitled s) (hstep : (machine parse).step s call = some s') :
    Entitled s' := by
  obtain ⟨replies, heff, hhist⟩ := step_effect hstep
  obtain ⟨t', history'⟩ := s'
  cases hhist
  cases heff with
  | refused _ => exact ⟨h.ordered, h.id, fun id t hfind => (h.traced id t hfind).later⟩
  | notCommitted _ _ _ => exact ⟨h.ordered, h.id, fun id t hfind => (h.traced id t hfind).later⟩
  | @new draws id owner hnone =>
    refine ⟨h.ordered.insert, OrdMap.forall_find_insert rfl h.id,
      OrdMap.forall_find_insert ?_ fun id' t hfind => (h.traced id' t hfind).later⟩
    exact ⟨[], List.nil_sublist _, .nil⟩
  | @add id owner transaction name params hold hown =>
    refine ⟨h.ordered.insert, OrdMap.forall_find_insert ?_ h.id,
      OrdMap.forall_find_insert ?_ fun id' t hfind => (h.traced id' t hfind).later⟩
    · exact h.id id transaction hold
    · exact (h.traced id transaction hold).record ⟨owner, name, params, rfl, rfl, hown⟩
  | @commit id _ _ _ _ _ _ | @discard id _ _ _ _ =>
    exact ⟨h.ordered.erase, fun id' t hfind => h.id id' t (OrdMap.find_of_find_erase hfind),
      fun id' t hfind => (h.traced id' t (OrdMap.find_of_find_erase hfind)).later⟩

theorem reaches_entitled (h : (machine parse).Reaches Always (start c) s) : Entitled s := by
  refine h.invariant (I := Entitled) ⟨List.Pairwise.nil, ?_, ?_⟩ fun s call s' ih _ hstep =>
    ih.step hstep
  · intro id t hfind
    cases hfind
  · intro id t hfind
    cases hfind

/-! ### Single calls -/

/-- The call is a commit of an open transaction, by its owner or by root. -/
def AllowedCommit (s : Ledger) (call : Call) : Prop :=
  ∃ id sender transaction, call = .commit (.ok id) (.uid sender) ∧
    s.manager.transactions.find id = some transaction ∧ (sender = transaction.owner ∨ sender = 0)

theorem running_of_step (hstep : (machine parse).step s call = some s') :
    s'.manager.running = s.manager.running ∨ AllowedCommit s call := by
  obtain ⟨replies, heff, -⟩ := step_effect hstep
  generalize s'.manager = t' at heff
  cases heff with
  | commit hfind hown _ => exact Or.inr ⟨_, _, _, rfl, hfind, hown⟩
  | _ => exact Or.inl rfl

/-- What is in the table is not touched by a `New`. -/
theorem find_of_new {parsed : Except Failure Unit} {draws : List UInt64} {creds : Creds}
    {installed : Bool} (hstep : (machine parse).step s (.new parsed draws creds installed) = some s')
    (hfind : s.manager.transactions.find id = some transaction) :
    s'.manager.transactions.find id = some transaction := by
  obtain ⟨replies, heff, -⟩ := step_effect hstep
  generalize s'.manager = t' at heff
  cases heff with
  | refused _ => exact hfind
  | @new _ id' _ hnone =>
    have hne : id ≠ id' := by
      rintro rfl
      rw [hnone] at hfind
      cases hfind
    exact (OrdMap.find_insert_ne _ _ hne).trans hfind

theorem withAccess_denied {t : Transactions} {sender : UInt32} {verb : String} {go : Served}
    (hown : sender ≠ transaction.owner) (hroot : sender ≠ 0) :
    withAccess t transaction (.uid sender) verb go =
      .replied t [.methodErrno (-EACCES) (some (accessDenied verb))] := by
  have hdenied : sender ≠ transaction.owner ∧ sender ≠ 0 := ⟨hown, hroot⟩
  simp only [withAccess, if_pos hdenied]
  rw [replyStatus_of_neg (by decide)]

/-- **Somebody else's call** is answered by an error, and that is all it does. -/
theorem denied_of_aims {sender : UInt32} (haims : call.Aims id (.uid sender))
    (hfind : s.manager.transactions.find id = some transaction)
    (hown : sender ≠ transaction.owner) (hroot : sender ≠ 0) :
    ∃ s' reply, (machine parse).step s call = some s' ∧ s'.manager = s.manager ∧
      s'.history = ⟨call, [reply]⟩ :: s.history ∧ reply.isError = true := by
  have hserve : ∃ verb, s.manager.serve parse call = some (.replied s.manager
      [.methodErrno (-EACCES) (some (accessDenied verb))]) := by
    cases haims with
    | add parsed =>
      refine ⟨"modify", ?_⟩
      rw [Transactions.serve, onObject, hfind]
      exact congrArg some (withAccess_denied hown hroot)
    | commit =>
      refine ⟨"commit", ?_⟩
      simp only [Transactions.serve, commit, withTransaction, hfind, withAccess_denied hown hroot]
    | discard =>
      refine ⟨"modify", ?_⟩
      simp only [Transactions.serve, Transactions.discard, withTransaction, hfind, withAccess_denied hown hroot]
  obtain ⟨verb, hserve⟩ := hserve
  refine ⟨⟨s.manager, ⟨call, _⟩ :: s.history⟩,
    .methodErrno (-EACCES) (some (accessDenied verb)), ?_, rfl, rfl, rfl⟩
  show serve parse s call = _
  rw [serve, hserve]

/-- **Access control.**  After every run, what a transaction holds was put there by
its owner or by root, each id stands for one transaction, and from there on only
the owner or root changes anything. -/
theorem access_control (h : (machine parse).run (start c) calls = some s) :
    (∀ id transaction, s.manager.transactions.find id = some transaction →
      transaction.id = id ∧ Traced s.history id transaction) ∧
    s.manager.transactions.keys.Nodup ∧
    (∀ call s', (machine parse).step s call = some s' →
      (s'.manager.running = s.manager.running ∨ AllowedCommit s call) ∧
      ∀ parsed draws creds installed, call = .new parsed draws creds installed →
        ∀ id transaction, s.manager.transactions.find id = some transaction →
          s'.manager.transactions.find id = some transaction) ∧
    ∀ call id transaction sender, call.Aims id (.uid sender) →
      s.manager.transactions.find id = some transaction →
      sender ≠ transaction.owner → sender ≠ 0 →
      ∃ s' reply, (machine parse).step s call = some s' ∧ s'.manager = s.manager ∧
        s'.history = ⟨call, [reply]⟩ :: s.history ∧ reply.isError = true := by
  have hs : Entitled s := reaches_entitled (reaches_of_run h)
  refine ⟨?_, ?_, ?_, ?_⟩
  · intro id transaction hfind
    exact ⟨hs.id id transaction hfind, hs.traced id transaction hfind⟩
  · exact hs.ordered.imp fun hlt => hlt.ne
  · intro call s' hstep
    refine ⟨running_of_step hstep, ?_⟩
    rintro parsed draws creds installed rfl id transaction hfind
    exact find_of_new hstep hfind
  · intro call id transaction sender haims hfind hown hroot
    exact denied_of_aims haims hfind hown hroot

/-- One user opens a transaction and adds `a` to it, and root adds `b`. -/
def shared : List Call :=
  [.new (.ok ()) [1] (.uid 7) true, .add 1 (.uid 7) (.ok ("a", [])), .add 1 (.uid 0) (.ok ("b", []))]

theorem access_control_shared :
    ∃ s transaction, (machine fun _ => none).run (start ⟨false, []⟩) shared = some s ∧
      s.manager.transactions.find 1 = some transaction ∧
      transaction.operations = [.add "a" [], .add "b" []] ∧ Traced s.history 1 transaction := by
  have hrun : ((machine fun _ => none).run (start ⟨false, []⟩) shared).any (fun s =>
      (s.manager.transactions.find 1).any fun t =>
        t.operations = [.add "a" [], .add "b" []]) = true := by decide +kernel
  obtain ⟨s, hs, hany⟩ := (Option.any_eq_true ..).mp hrun
  obtain ⟨t, ht, hops⟩ := (Option.any_eq_true ..).mp hany
  exact ⟨s, t, hs, ht, of_decide_eq_true hops, ((access_control hs).1 1 t ht).2⟩

end Ledger

end Nonsense
