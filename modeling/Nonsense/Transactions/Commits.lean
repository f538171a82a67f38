import Nonsense.Config.Uplinks
import Nonsense.Transactions.Ledger

/-!
# What commits do to the running configuration

Three facts about every run of calls, from the configuration the daemon has
loaded: a commit is all or nothing (`commit_all_or_nothing`), the running
configuration stays well formed (`running_wellFormed`), and its uplink relation
has no cycle exactly as long as the file has none and no committed entity names
itself (`running_acyclic`).
-/

namespace Nonsense

namespace Ledger

open Machine Transactions

variable {parse : String → Option Json} {c : Config} {s s' : Ledger} {calls : List Call}

/-! ### All or nothing -/

/-- A commit that succeeds: the running configuration is the fold of the recorded
operations over what it was, and the transaction is gone. -/
def Committed (parse : String → Option Json) (s s' : Ledger) (parsed : Except Failure UInt64)
    (replies : List Reply) : Prop :=
  ∃ id transaction c', parsed = .ok id ∧ replies = [.methodReturn []] ∧
    s.manager.transactions.find id = some transaction ∧
    transaction.operations = recorded s.history id ∧
    transaction.operations.foldlM (addOperation parse) s.manager.running.copy = some c' ∧
    s'.manager.running = { s.manager.running with configuration := c'.configuration } ∧
    s'.manager.transactions = s.manager.transactions.erase id

/-- A commit that is refused. -/
def Refused (s s' : Ledger) (replies : List Reply) : Prop :=
  replies ≠ [] ∧ (∀ r ∈ replies, r.isError = true) ∧
    s'.manager.running = s.manager.running ∧ s'.manager.transactions = s.manager.transactions

/-- **A commit is all or nothing**, and so the running configuration is always the
fold of what was committed, and the table what was recorded. -/
theorem commit_all_or_nothing (h : (machine parse).run (start c) calls = some s) :
    (∀ parsed creds s', (machine parse).step s (.commit parsed creds) = some s' →
      ∃ replies, s'.history = ⟨.commit parsed creds, replies⟩ :: s.history ∧
        (Committed parse s s' parsed replies ∨ Refused s s' replies)) ∧
    (committed s.history).flatten.foldlM (addOperation parse) c.copy = some s.manager.running.copy ∧
    table s.manager = openTransactions s.history := by
  have hs := reaches_of_run h
  refine ⟨?_, running_eq hs, table_eq hs⟩
  intro parsed creds s' hstep
  obtain ⟨replies, heff, hhist⟩ := step_effect hstep
  refine ⟨replies, hhist, ?_⟩
  obtain ⟨t', history⟩ := s'
  cases heff with
  | refused herr => exact Or.inr ⟨List.cons_ne_nil _ _, by simpa using herr, rfl, rfl⟩
  | notCommitted _ _ _ => exact Or.inr ⟨List.cons_ne_nil _ _, by simp [Reply.isError], rfl, rfl⟩
  | commit hfind _ hfold =>
    exact Or.inl ⟨_, _, _, rfl, rfl, hfind, operations_eq hs hfind, hfold, rfl, rfl⟩

/-- A file with nothing but its version. -/
def bareFile : Object := [("!metadata", .object [("version", .integer 1)])]

/-- Open a transaction, add a switch with the uplink `uplink` to it, and commit. -/
def addSwitch (name uplink : String) : List Call :=
  [.new (.ok ()) [1] (.uid 0) true,
    .add 1 (.uid 0) (.ok (name, [⟨"network.role", "switch"⟩, ⟨"network.uplink", uplink⟩])),
    .commit (.ok 1) (.uid 0)]

theorem commit_all_or_nothing_addSwitch :
    ∃ s, (machine fun _ => none).run (start ⟨false, bareFile⟩) (addSwitch "a" "b") = some s ∧
      table s.manager = openTransactions s.history := by
  have hrun : ((machine fun _ => none).run (start ⟨false, bareFile⟩)
      (addSwitch "a" "b")).isSome = true := by decide +kernel
  obtain ⟨s, hs⟩ := Option.isSome_iff_exists.mp hrun
  exact ⟨s, hs, (commit_all_or_nothing hs).2.2⟩

/-! ### Well-formedness -/

/-- **What the loaded file has and every addition keeps**, the running configuration has
after every run. -/
theorem running_keeps {I : Object → Prop}
    (hadd : ∀ {name params r} {c c' : Config}, I c.configuration →
      c.add parse name params = .returned r c' → r.errorCode = 0 → I c'.configuration)
    (hI : I c.configuration) (h : (machine parse).run (start c) calls = some s) :
    I s.manager.running.configuration := by
  have hcopy : I s.manager.running.copy.configuration :=
    foldlM_keeps (I := fun c => I c.configuration) hadd
      (show I c.copy.configuration from hI) (running_eq (reaches_of_run h))
  exact hcopy

/-- **The running configuration is well formed**, after every run, and what an
uplink names is an entity. -/
theorem running_wellFormed {j : Json} (hload : Config.load j = .ok c)
    (h : (machine parse).run (start c) calls = some s) :
    Config.WellFormed s.manager.running.configuration ∧
      ∀ name u, Config.uplinkOf s.manager.running.configuration name = some u →
        Config.IsEntity s.manager.running.configuration u := by
  have hwf : Config.WellFormed s.manager.running.configuration :=
    running_keeps Config.add_wellFormed (Config.load_wellFormed hload) h
  refine ⟨hwf, ?_⟩
  intro name u hu
  obtain ⟨m, hm, hmu⟩ := Config.uplinkOf_eq_some_iff.mp hu
  obtain ⟨_, _, hs, hum, -⟩ := (hwf.networkOk hm).uplink _ hmu
  cases hs
  exact hwf.isEntity_of_network hum

/-- Load a file and serve calls. -/
def loadAndRun (parse : String → Option Json) (j : Json) (calls : List Call) : Option Ledger :=
  (Config.load j).toOption.bind fun c => (machine parse).run (start c) calls

theorem loadAndRun_eq_some_iff {j : Json} :
    loadAndRun parse j calls = some s ↔
      ∃ c, Config.load j = .ok c ∧ (machine parse).run (start c) calls = some s :=
  EState.toOption_bind_eq_some_iff

theorem running_wellFormed_addSwitch :
    ∃ s, loadAndRun (fun _ => none) (.object bareFile) (addSwitch "a" "a") = some s ∧
      Config.WellFormed s.manager.running.configuration := by
  have hrun : (loadAndRun (fun _ => none) (.object bareFile) (addSwitch "a" "a")).isSome = true := by
    decide +kernel
  obtain ⟨s, hs⟩ := Option.isSome_iff_exists.mp hrun
  obtain ⟨c, hload, hrun⟩ := loadAndRun_eq_some_iff.mp hs
  exact ⟨s, hs, (running_wellFormed hload hrun).1⟩

/-! ### Cycles -/

/-- The operation adds an entity that names itself as its uplink. -/
def OwnUplink (parse : String → Option Json) : Operation → Prop
  | .add name initialParameters => Config.NamesItself parse name initialParameters
  | _ => False

instance (parse : String → Option Json) : DecidablePred (OwnUplink parse)
  | .add name initialParameters =>
    inferInstanceAs (Decidable (Config.NamesItself parse name initialParameters))
  | .set .. | .delete_ .. => inferInstanceAs (Decidable False)

theorem foldlM_acyclic_iff {operations : List Operation} {c c' : Config}
    (hwf : Config.WellFormed c.configuration)
    (h : operations.foldlM (addOperation parse) c = some c') :
    Acyclic (Config.uplinkOf c'.configuration) ↔
      Acyclic (Config.uplinkOf c.configuration) ∧ ∀ o ∈ operations, ¬ OwnUplink parse o := by
  induction operations generalizing c with
  | nil => cases h; simp
  | cons operation operations ih =>
    obtain ⟨_, _, _, c₁, rfl, hadd, hr, h⟩ := foldlM_cons_eq_some_iff.mp h
    rw [ih (Config.add_wellFormed hwf hadd hr) h, Config.add_acyclic_iff hwf hadd hr,
      List.forall_mem_cons, and_assoc]
    rfl

/-- The call commits a transaction in which an entity names itself. -/
def CommitsOwnUplink (parse : String → Option Json) (s : Ledger) (call : Call) : Prop :=
  ∃ id creds transaction, call = .commit (.ok id) creds ∧
    s.manager.transactions.find id = some transaction ∧
    ∃ o ∈ transaction.operations, OwnUplink parse o

theorem committed_ownUplink
    (h : (machine parse).Reaches (fun s call => ¬ CommitsOwnUplink parse s call) (start c) s) :
    ∀ o ∈ (committed s.history).flatten, ¬ OwnUplink parse o := by
  refine h.invariant_of_reaches
    (I := fun s => ∀ o ∈ (committed s.history).flatten, ¬ OwnUplink parse o)
    (by simp [start, committed]) ?_
  intro s call s' hs ih hcall hstep
  obtain ⟨replies, heff, hhist⟩ := step_effect hstep
  have hops : ∀ id transaction, s.manager.transactions.find id = some transaction →
      transaction.operations = recorded s.history id :=
    fun id transaction => operations_eq (hs.mono fun _ _ _ => trivial)
  rw [hhist]
  generalize s'.manager = t' at heff
  cases heff with
  | refused herr => rwa [committed, change_refused herr]
  | notCommitted _ _ _ => rwa [committed, change_refused rfl]
  | new _ | add _ _ | discard _ _ => simpa [committed, Event.change, Reply.isError] using ih
  | @commit id owner transaction c' hfind _ _ =>
    have hnew : ∀ o ∈ recorded s.history id, ¬ OwnUplink parse o := by
      intro o ho hown
      exact hcall ⟨id, _, transaction, rfl, hfind, o, hops id transaction hfind ▸ ho, hown⟩
    intro o ho
    have ho' : o ∈ (committed s.history).flatten ∨ o ∈ recorded s.history id := by
      simpa [committed, Event.change, Reply.isError] using ho
    exact ho'.elim (ih o) (hnew o)

/-- **When the uplink relation has no cycle.**  Runs that commit no entity naming
itself keep what the file has; and a run without a cycle at its end is such a run
from such a file. -/
theorem running_acyclic {file : Object} (hload : Config.load (.object file) = .ok c) :
    (∀ s, (machine parse).Reaches (fun s call => ¬ CommitsOwnUplink parse s call) (start c) s →
      (Acyclic (Config.uplinkOf s.manager.running.configuration) ↔
        Acyclic (Config.uplinkOf file))) ∧
    ∀ s, (machine parse).Reaches Always (start c) s →
      (Acyclic (Config.uplinkOf s.manager.running.configuration) ↔
        Acyclic (Config.uplinkOf file) ∧
          ∀ o ∈ (committed s.history).flatten, ¬ OwnUplink parse o) := by
  have hiff : ∀ s, (machine parse).Reaches Always (start c) s →
      (Acyclic (Config.uplinkOf s.manager.running.configuration) ↔
        Acyclic (Config.uplinkOf file) ∧
          ∀ o ∈ (committed s.history).flatten, ¬ OwnUplink parse o) := by
    intro s hs
    have hcopy : Config.WellFormed c.copy.configuration :=
      show Config.WellFormed c.configuration from Config.load_wellFormed hload
    have hfold := foldlM_acyclic_iff hcopy (running_eq hs)
    rw [← Config.load_uplinkOf hload]
    exact hfold
  refine ⟨?_, hiff⟩
  intro s hs
  rw [hiff s (hs.mono fun _ _ _ => trivial)]
  exact and_iff_left (committed_ownUplink hs)

/-- A file with a switch `a` below a root `b`. -/
def uplinkFile : Object :=
  [("!metadata", .object [("version", .integer 1)]),
    ("a", .object [("network", .object [("role", .string "switch"), ("uplink", .string "b")])]),
    ("b", .object [("network", .object [("role", .string "root")])])]

/-- No open transaction has an entity that names itself. -/
def namesOthers (parse : String → Option Json) (s : Ledger) (_ : Call) : Bool :=
  s.manager.transactions.all fun e => e.2.operations.all fun o => !decide (OwnUplink parse o)

theorem not_commitsOwnUplink_of_namesOthers (parse : String → Option Json) {call : Call}
    (h : namesOthers parse s call = true) : ¬ CommitsOwnUplink parse s call := by
  rintro ⟨id, creds, transaction, -, hfind, o, ho, hown⟩
  have hall := List.all_eq_true.mp (List.all_eq_true.mp h _ (OrdMap.mem_of_find hfind)) o ho
  rw [decide_eq_true hown] at hall
  cases hall

theorem running_acyclic_uplinkFile :
    ∃ c s, Config.load (.object uplinkFile) = .ok c ∧
      (machine fun _ => none).runChecked (namesOthers fun _ => none) (start c)
        (addSwitch "c" "a") = some s ∧
      Config.uplinkOf s.manager.running.configuration "c" = some "a" ∧
      Acyclic (Config.uplinkOf s.manager.running.configuration) := by
  have hrun : ((Config.load (.object uplinkFile)).toOption.bind fun c =>
      (machine fun _ => none).runChecked (namesOthers fun _ => none) (start c)
        (addSwitch "c" "a")).any (fun s =>
          Config.uplinkOf s.manager.running.configuration "c" = some "a") = true := by
    decide +kernel
  obtain ⟨s, hs, huplink⟩ := (Option.any_eq_true ..).mp hrun
  obtain ⟨c, hload, hinputs⟩ := EState.toOption_bind_eq_some_iff.mp hs
  have hreaches := (reaches_of_runChecked hinputs).mono fun _ _ =>
    not_commitsOwnUplink_of_namesOthers fun _ => none
  refine ⟨c, s, hload, hinputs, of_decide_eq_true huplink, ?_⟩
  exact ((running_acyclic hload).1 s hreaches).mpr (Config.acyclic_of_keys 2 (by decide +kernel))

/-- **An entity that names itself is accepted**, and then following the uplinks
from it has no end. -/
theorem uplinks_cyclic :
    ¬ ∀ (parse : String → Option Json) (j : Json) (calls : List Call) (s : Ledger),
      loadAndRun parse j calls = some s →
        Acyclic (Config.uplinkOf s.manager.running.configuration) := by
  intro h
  have hself : ((loadAndRun (fun _ => none) (.object bareFile) (addSwitch "a" "a")).bind fun s =>
      Config.uplinkOf s.manager.running.configuration "a") = some "a" := by decide +kernel
  obtain ⟨s, hs, hself⟩ := Option.bind_eq_some_iff.mp hself
  exact not_ends_of_self hself (h _ _ _ s hs "a")

end Ledger

end Nonsense
