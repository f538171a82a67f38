import Nonsense.Transactions.Basic
import Nonsense.Config.Accepted

/-!
# What a served call does

`serve_effect` lists it: a call that is refused changes nothing and is answered
by errors only, and the four that may succeed change the table, and a commit the
running configuration, in one way each.

`applyOperations_eq_done_iff` says what the loop of a commit computes when it
gets to its end: `Config.add`, folded over the operations.
-/

namespace Nonsense

namespace Config

variable {parse : String → Option Json} {c c' : Config} {name : String}
  {params : List ParameterValue} {r : ConfigResult}

/-- The code of a result is zero or a negated errno. -/
theorem add_errorCode (h : add parse c name params = .returned r c') : r.errorCode ≤ 0 := by
  have hinval : -EINVAL ≤ 0 := by decide
  unfold add at h
  split at h
  · cases h; exact show -EROFS ≤ 0 by decide
  split at h
  · cases h; exact show -EEXIST ≤ 0 by decide
  split at h
  · cases h
  · rename_i r' entity hbuild
    cases h
    exact (buildEntity_errorCode (Or.inl ⟨entity, hbuild⟩)).trans_le hinval
  · rename_i r' hbuild
    cases h
    exact (buildEntity_errorCode (Or.inr hbuild)).trans_le hinval
  · split at h
    · cases h; exact le_refl (0 : Int)
    · cases h; exact hinval
    · cases h

end Config

namespace Transactions

variable {parse : String → Option Json}

/-! ### The loop of a commit -/

/-- `Config.add` on one operation, where it succeeds. -/
def addOperation (parse : String → Option Json) (c : Config) : Operation → Option Config
  | .add name initialParameters =>
    match c.add parse name initialParameters with
    | .returned result c' => if result.errorCode = 0 then some c' else none
    | .terminated _ => none
  | _ => none

theorem addOperation_eq_some_iff {c c' : Config} {operation : Operation} :
    addOperation parse c operation = some c' ↔
      ∃ name params r, operation = .add name params ∧
        c.add parse name params = .returned r c' ∧ r.errorCode = 0 := by
  constructor
  · intro h
    unfold addOperation at h
    split at h
    · rename_i name params
      split at h
      · rename_i r c₁ hadd
        split at h
        · rename_i hr
          cases h
          exact ⟨name, params, r, rfl, hadd, hr⟩
        · cases h
      · cases h
    · cases h
  · rintro ⟨name, params, r, rfl, hadd, hr⟩
    simp [addOperation, hadd, hr]

/-- The first operation of a loop that gets to its end is an addition that succeeds. -/
theorem foldlM_cons_eq_some_iff {c c' : Config} {operation : Operation}
    {operations : List Operation} :
    (operation :: operations).foldlM (addOperation parse) c = some c' ↔
      ∃ name params r c₁, operation = .add name params ∧
        c.add parse name params = .returned r c₁ ∧ r.errorCode = 0 ∧
        operations.foldlM (addOperation parse) c₁ = some c' := by
  rw [List.foldlM_cons, Option.bind_eq_bind, Option.bind_eq_some_iff]
  constructor
  · rintro ⟨c₁, h₁, h⟩
    obtain ⟨name, params, r, rfl, hadd, hr⟩ := addOperation_eq_some_iff.mp h₁
    exact ⟨name, params, r, c₁, rfl, hadd, hr, h⟩
  · rintro ⟨name, params, r, c₁, rfl, hadd, hr, h⟩
    exact ⟨c₁, addOperation_eq_some_iff.mpr ⟨name, params, r, rfl, hadd, hr⟩, h⟩

/-- The visitor lets the loop go on only after a `Config.add` that succeeds. -/
theorem addOperation_of_visit {c c' : Config} {operation : Operation} {error : Option BusError}
    (h : visit parse c operation = .status 0 error c') :
    addOperation parse c operation = some c' := by
  cases operation with
  | add name params =>
    rw [addOperation_eq_some_iff]
    simp only [visit] at h
    split at h
    · cases h
    split at h
    · cases h
    · rename_i r c₁ hadd
      split at h
      · rename_i hr
        simp only [Visited.status.injEq] at h
        omega
      · rename_i hr
        cases h
        have hle := Config.add_errorCode hadd
        exact ⟨name, params, r, rfl, hadd, by omega⟩
  | set name modification => cases h
  | delete_ name => cases h

theorem visit_of_addOperation {c c' : Config} {operation : Operation}
    (h : addOperation parse c operation = some c') :
    visit parse c operation = .status 0 none c' := by
  obtain ⟨name, params, r, rfl, hadd, hr⟩ := addOperation_eq_some_iff.mp h
  have hfind : c.tryGet name = none := (Config.add_eq_zero hadd hr).2.1
  simp [visit, hfind, hadd, hr]

/-- **What the loop over the operations computes.** -/
theorem applyOperations_eq_done_iff {operations : List Operation} {c c' : Config} :
    applyOperations parse operations c = .done c' ↔
      operations.foldlM (addOperation parse) c = some c' := by
  induction operations generalizing c with
  | nil => simp [applyOperations]
  | cons operation operations ih =>
    rw [applyOperations, List.foldlM_cons, Option.bind_eq_bind, Option.bind_eq_some_iff]
    constructor
    · intro h
      split at h
      · cases h
      · rename_i code error c₁ hv
        split at h
        · cases h
        · rename_i hc
          obtain rfl : code = 0 := not_not.mp hc
          exact ⟨c₁, addOperation_of_visit hv, ih.mp h⟩
    · rintro ⟨c₁, hadd, h⟩
      simpa [visit_of_addOperation hadd] using ih.mpr h

theorem visit_code {c c' : Config} {operation : Operation} {code : Int} {error : Option BusError}
    (h : visit parse c operation = .status code error c') (hc : code ≠ 0) :
    code < 0 ∧ error.isSome := by
  cases operation with
  | add name params =>
    simp only [visit] at h
    split at h
    · cases h; exact ⟨by decide, rfl⟩
    split at h
    · cases h
    · split at h
      · rename_i hr
        cases h
        exact ⟨hr, rfl⟩
      · cases h; exact absurd rfl hc
  | set name modification => cases h; exact ⟨by decide, rfl⟩
  | delete_ name => cases h; exact ⟨by decide, rfl⟩

/-- An operation that fails has a negative status and sets the error. -/
theorem applyOperations_stopped {operations : List Operation} {c : Config} {code : Int}
    {error : Option BusError} (h : applyOperations parse operations c = .stopped code error) :
    code < 0 ∧ error.isSome := by
  induction operations generalizing c with
  | nil => cases h
  | cons operation operations ih =>
    rw [applyOperations] at h
    split at h
    · cases h
    · rename_i code' error' c₁ hv
      split at h
      · rename_i hc
        cases h
        exact visit_code hv hc
      · exact ih h

theorem foldlM_of_stopped {operations : List Operation} {c : Config} {code : Int}
    {error : Option BusError} (h : applyOperations parse operations c = .stopped code error) :
    operations.foldlM (addOperation parse) c = none := by
  cases hfold : operations.foldlM (addOperation parse) c with
  | none => rfl
  | some c' =>
    rw [applyOperations_eq_done_iff.mpr hfold] at h
    cases h

/-- **What every addition keeps**, the loop keeps. -/
theorem foldlM_keeps {I : Config → Prop} {operations : List Operation} {c c' : Config}
    (hadd : ∀ {name params r c c'}, I c → Config.add parse c name params = .returned r c' →
      r.errorCode = 0 → I c')
    (hI : I c) (h : operations.foldlM (addOperation parse) c = some c') : I c' := by
  induction operations generalizing c with
  | nil => cases h; exact hI
  | cons operation operations ih =>
    obtain ⟨_, _, _, c₁, -, hc₁, hr, h⟩ := foldlM_cons_eq_some_iff.mp h
    exact ih (hadd hI hc₁ hr) h

theorem foldlM_isMutable {operations : List Operation} {c c' : Config}
    (h : operations.foldlM (addOperation parse) c = some c') : c'.isMutable = c.isMutable := by
  refine foldlM_keeps (I := fun c₁ => c₁.isMutable = c.isMutable) (fun hI hadd hr => ?_) rfl h
  obtain ⟨-, -, _, _, -, -, rfl⟩ := Config.add_eq_zero hadd hr
  exact hI

/-! ### The handlers -/

/-- What a call that is answered does: the state after it, and the replies. -/
inductive Effect (parse : String → Option Json) (t : Transactions) :
    Call → Transactions → List Reply → Prop
  | refused {call : Call} {r : Reply} : r.isError = true → Effect parse t call t [r]
  | new {draws : List UInt64} {id : UInt64} {owner : UInt32} : t.transactions.find id = none →
      Effect parse t (.new (.ok ()) draws (.uid owner) true)
        { t with transactions := t.transactions.insert id ⟨id, owner, []⟩ }
        [.methodReturn [.uint64 id, .objectPath (Transaction.objectPath ⟨id, owner, []⟩)]]
  | add {id : UInt64} {owner : UInt32} {transaction : Transaction} {name : String}
      {params : List ParameterValue} : t.transactions.find id = some transaction →
      (owner = transaction.owner ∨ owner = 0) →
      Effect parse t (.add id (.uid owner) (.ok (name, params)))
        { t with transactions := t.transactions.insert id (transaction.record (.add name params)) }
        [.methodReturn []]
  | commit {id : UInt64} {owner : UInt32} {transaction : Transaction} {c : Config} :
      t.transactions.find id = some transaction → (owner = transaction.owner ∨ owner = 0) →
      transaction.operations.foldlM (addOperation parse) t.running.copy = some c →
      Effect parse t (.commit (.ok id) (.uid owner))
        { running := { t.running with configuration := c.configuration }
          generation := t.generation + 1
          transactions := t.transactions.erase id }
        [.methodReturn []]
  | notCommitted {id : UInt64} {owner : UInt32} {transaction : Transaction} {code : Int}
      {error : BusError} : t.transactions.find id = some transaction →
      (owner = transaction.owner ∨ owner = 0) →
      transaction.operations.foldlM (addOperation parse) t.running.copy = none →
      Effect parse t (.commit (.ok id) (.uid owner)) t
        [.methodErrno code (some error), .methodError error]
  | discard {id : UInt64} {owner : UInt32} {transaction : Transaction} :
      t.transactions.find id = some transaction → (owner = transaction.owner ∨ owner = 0) →
      Effect parse t (.discard (.ok id) (.uid owner))
        { t with transactions := t.transactions.erase id } [.methodReturn []]

variable {t t' : Transactions} {call : Call} {replies : List Reply} {creds : Creds}

theorem Effect.refused_status {code : Int} {error : Option BusError} (h : code < 0) :
    Effect parse t call t (replyStatus code error) := by
  rw [replyStatus_of_neg h]
  exact .refused rfl

theorem withAccess_effect {transaction : Transaction} {verb : String} {go : Served}
    (h : withAccess t transaction creds verb go = .replied t' replies)
    (hgo : ∀ owner, creds = .uid owner → (owner = transaction.owner ∨ owner = 0) →
      go = .replied t' replies → Effect parse t call t' replies) :
    Effect parse t call t' replies := by
  unfold withAccess at h
  split at h
  · cases h
  · rename_i code
    cases h
    exact .refused_status code.2
  · rename_i owner
    split at h
    · cases h
      exact .refused_status (by decide)
    · rename_i hown
      exact hgo owner rfl (by tauto) h

theorem withTransaction_effect {parsed : Except Failure UInt64} {past verb : String}
    {go : UInt64 → Transaction → Served}
    (h : withTransaction t parsed creds past verb go = .replied t' replies)
    (hgo : ∀ id transaction owner, parsed = .ok id → creds = .uid owner →
      t.transactions.find id = some transaction → (owner = transaction.owner ∨ owner = 0) →
      go id transaction = .replied t' replies → Effect parse t call t' replies) :
    Effect parse t call t' replies := by
  unfold withTransaction at h
  split at h
  · rename_i code
    cases h
    exact .refused_status code.2
  · rename_i id
    split at h
    · cases h
      exact .refused_status (by decide)
    · rename_i transaction hfind
      exact withAccess_effect h fun owner hc hown hg =>
        hgo id transaction owner rfl hc hfind hown hg

theorem new_effect {id : UInt64} {installed : Bool} {draws : List UInt64}
    (hid : t.transactions.find id = none) (h : new t id creds installed = .replied t' replies) :
    Effect parse t (.new (.ok ()) draws creds installed) t' replies := by
  unfold new at h
  split at h
  · cases h
  · rename_i code
    cases h
    exact .refused_status code.2
  · split at h
    · rename_i hi
      cases h
      subst hi
      exact .new hid
    · cases h

theorem commit_effect {parsed : Except Failure UInt64}
    (h : commit parse t parsed creds = .replied t' replies) :
    Effect parse t (.commit parsed creds) t' replies := by
  apply withTransaction_effect h
  rintro id transaction owner rfl rfl hfind hown hgo
  dsimp only at hgo
  split at hgo
  · cases hgo
  · rename_i code error hstop
    cases hgo
    obtain ⟨hcode, herr⟩ := applyOperations_stopped hstop
    obtain ⟨e, rfl⟩ := Option.isSome_iff_exists.mp herr
    rw [replyStatus_of_neg hcode]
    exact .notCommitted hfind hown (foldlM_of_stopped hstop)
  · rename_i c hdone
    cases hgo
    exact .commit hfind hown (applyOperations_eq_done_iff.mp hdone)

theorem discard_effect {parsed : Except Failure UInt64}
    (h : discard t parsed creds = .replied t' replies) :
    Effect parse t (.discard parsed creds) t' replies := by
  apply withTransaction_effect h
  rintro id transaction owner rfl rfl hfind hown hgo
  cases hgo
  exact .discard hfind hown

theorem add_effect {id : UInt64} {transaction : Transaction}
    {parsed : Except Failure (String × List ParameterValue)}
    (hfind : t.transactions.find id = some transaction)
    (h : add t id transaction creds parsed = .replied t' replies) :
    Effect parse t (.add id creds parsed) t' replies := by
  apply withAccess_effect h
  rintro owner rfl hown hgo
  split at hgo
  · rename_i code
    cases hgo
    exact .refused_status code.2
  · cases hgo
    exact .add hfind hown

theorem onObject_effect {id : UInt64} {go : Transaction → Served}
    (h : onObject t id go = .replied t' replies)
    (hgo : ∀ transaction, t.transactions.find id = some transaction →
      go transaction = .replied t' replies → Effect parse t call t' replies) :
    Effect parse t call t' replies := by
  unfold onObject at h
  split at h
  · cases h
    exact .refused rfl
  · rename_i transaction hfind
    exact hgo transaction hfind h

theorem drawId_spec {transactions : OrdMap UInt64 Transaction} {draws : List UInt64} {id : UInt64}
    (h : drawId transactions draws = some id) : transactions.find id = none := by
  induction draws with
  | nil => cases h
  | cons d draws ih =>
    rw [drawId] at h
    split at h
    · exact ih h
    · rename_i hd
      cases h
      simpa using hd

/-- **What a call that is answered does.** -/
theorem serve_effect (h : serve parse t call = some (.replied t' replies)) :
    Effect parse t call t' replies := by
  cases call with
  | list => cases h; exact .refused_status (by decide)
  | new parsed draws creds installed =>
    cases parsed with
    | error code => cases h; exact .refused_status code.2
    | ok _ =>
      rw [serve, Option.map_eq_some_iff] at h
      obtain ⟨id, hid, h⟩ := h
      exact new_effect (drawId_spec hid) h
  | commit parsed creds => exact commit_effect (Option.some.inj h)
  | discard parsed creds => exact discard_effect (Option.some.inj h)
  | add id creds parsed =>
    exact onObject_effect (Option.some.inj h) fun transaction hfind hgo => add_effect hfind hgo
  | serialize id | set id | delete id =>
    apply onObject_effect (Option.some.inj h)
    intro transaction _ hgo
    cases hgo
    exact .refused_status (by decide)

/-! ### When the running configuration is replaced -/

/-- The call commits a transaction whose operations all succeed. -/
def CommitSucceeds (parse : String → Option Json) (t : Transactions) (call : Call) : Prop :=
  ∃ id owner transaction c, call = .commit (.ok id) (.uid owner) ∧
    t.transactions.find id = some transaction ∧ (owner = transaction.owner ∨ owner = 0) ∧
    transaction.operations.foldlM (addOperation parse) t.running.copy = some c

theorem serve_generation (h : serve parse t call = some (.replied t' replies)) :
    (¬ CommitSucceeds parse t call → t'.generation = t.generation) ∧
      (CommitSucceeds parse t call → t'.generation = t.generation + 1) := by
  constructor
  · intro hno
    cases serve_effect h with
    | commit hfind hown hfold => exact absurd ⟨_, _, _, _, rfl, hfind, hown, hfold⟩ hno
    | _ => rfl
  · rintro ⟨id, owner, transaction, c, rfl, hfind, hown, hfold⟩
    have hallowed : ¬ (owner ≠ transaction.owner ∧ owner ≠ 0) := by tauto
    have hcommit := Option.some.inj h
    simp only [commit, withTransaction, hfind, withAccess, if_neg hallowed,
      applyOperations_eq_done_iff.mpr hfold] at hcommit
    cases hcommit
    rfl

/-! ### How often a call is answered -/

/-- The call commits a transaction one of whose operations fails. -/
def CommitFails (parse : String → Option Json) (t : Transactions) (call : Call) : Prop :=
  ∃ id owner transaction, call = .commit (.ok id) (.uid owner) ∧
    t.transactions.find id = some transaction ∧ (owner = transaction.owner ∨ owner = 0) ∧
    transaction.operations.foldlM (addOperation parse) t.running.copy = none

/-- **A call is answered once**, and twice if it is a commit that fails. -/
theorem serve_replies_length (h : serve parse t call = some (.replied t' replies)) :
    (¬ CommitFails parse t call → replies.length = 1) ∧
      (CommitFails parse t call → replies.length = 2) := by
  constructor
  · intro hok
    cases serve_effect h with
    | notCommitted hfind hown hfold => exact absurd ⟨_, _, _, rfl, hfind, hown, hfold⟩ hok
    | _ => rfl
  · rintro ⟨id, owner, transaction, rfl, hfind, hown, hfold⟩
    have hallowed : ¬ (owner ≠ transaction.owner ∧ owner ≠ 0) := by tauto
    have hcommit := Option.some.inj h
    simp only [commit, withTransaction, hfind, withAccess, if_neg hallowed] at hcommit
    split at hcommit
    · cases hcommit
    · rename_i code error hstop
      cases hcommit
      obtain ⟨hcode, herr⟩ := applyOperations_stopped hstop
      obtain ⟨e, rfl⟩ := Option.isSome_iff_exists.mp herr
      rw [replyStatus_of_neg hcode]
      rfl
    · rename_i c hdone
      rw [applyOperations_eq_done_iff.mp hdone] at hfold
      cases hfold

end Transactions

end Nonsense
