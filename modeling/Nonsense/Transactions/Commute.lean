import Nonsense.Transactions.Independent

/-!
# The order of independent commits

What a commit answers depends on the transaction, on who asks, and on what the loop over the
operations does to the running configuration (`answer`).  Beside what an independent
transaction has written the loop does the same (`answer_beside`), and so two commits that
are independent may be served in either order (`commits_commute`).
-/

namespace Nonsense

namespace Transactions

variable {parse : String → Option Json} {t : Transactions} {id : UInt64}
  {transaction transaction' : Transaction} {creds : Creds} {c : Config}

/-- What a commit of the transaction is answered, and the configuration that is committed;
nothing where the process ends. -/
def answer (parse : String → Option Json) (transaction : Transaction) (creds : Creds) (c : Config) :
    Option (List Reply × Option Config) :=
  match creds with
  | .queryFailed => none
  | .noUid code => some (replyStatus code none, none)
  | .uid owner =>
    if owner ≠ transaction.owner ∧ owner ≠ 0 then
      some (replyStatus (-EACCES) (some (accessDenied "commit")), none)
    else
      match applyOperations parse transaction.operations c with
      | .terminated _ => none
      | .stopped status error => some (replyStatus status error ++ outParam error, none)
      | .done c' => some ([.methodReturn []], some c')

/-- The manager after a commit. -/
def after (t : Transactions) (id : UInt64) : Option Config → Transactions
  | none => t
  | some c =>
    { running := { t.running with configuration := c.configuration }
      generation := t.generation + 1
      transactions := t.transactions.erase id }

theorem serve_commit (h : t.transactions.find id = some transaction) :
    match answer parse transaction creds t.running.copy with
    | none => ∃ f, serve parse t (.commit (.ok id) creds) = some (.terminated f)
    | some (replies, committed) =>
      serve parse t (.commit (.ok id) creds) = some (.replied (t.after id committed) replies) := by
  simp only [serve, commit, withTransaction, h, withAccess, answer]
  cases creds with
  | queryFailed => exact ⟨_, rfl⟩
  | noUid code => rfl
  | uid owner =>
    dsimp only
    split_ifs
    · rfl
    · cases applyOperations parse transaction.operations t.running.copy with
      | terminated f => exact ⟨f, rfl⟩
      | stopped status error => rfl
      | done c' => rfl

theorem after_running (committed : Option Config) : (t.after id committed).running =
    { t.running with configuration := (committed.getD t.running.copy).configuration } := by
  cases committed <;> rfl

section After

variable {committed committed' : Option Config} {entries entries' : Object} {id' : UInt64}

theorem after_copy (h : committed.getD t.running.copy = t.running.copy.extend entries) :
    (t.after id committed).running.copy = t.running.copy.extend entries := by
  rw [after_running, h]
  rfl

/-- What two commits leave, the second one beside the entries of the first. -/
theorem after_after_running (h : committed.getD t.running.copy = t.running.copy.extend entries)
    (h' : committed'.getD t.running.copy = t.running.copy.extend entries') :
    ((t.after id committed).after id' (committed'.map fun c => c.extend entries)).running =
      { t.running with
        configuration := (t.running.configuration.insertAll entries').insertAll entries } := by
  rw [after_running, after_copy h, Option.getD_map (fun c : Config => c.extend entries), h',
    after_running]
  rfl

end After

theorem find_after {id' : UInt64} (h : id' ≠ id) (committed : Option Config) :
    (t.after id committed).transactions.find id' = t.transactions.find id' := by
  cases committed with
  | none => rfl
  | some c => exact OrdMap.find_erase_ne _ h

/-! ### Answers beside other entries -/

/-- The replies to the commit are the same; or, where that is excused, both are those to an
operation that is refused, with texts of their own. -/
def SameAnswer (excused : Prop) (replies replies' : List Reply) : Prop :=
  replies = replies' ∨ excused ∧ ∃ text text',
    replies = replyStatus (-EINVAL) (refusal text) ++ outParam (refusal text) ∧
      replies' = replyStatus (-EINVAL) (refusal text') ++ outParam (refusal text')

theorem foldlM_of_answer {replies : List Reply} {c' : Config}
    (h : answer parse transaction creds c = some (replies, some c')) :
    transaction.operations.foldlM (addOperation parse) c = some c' := by
  unfold answer at h
  split at h
  · cases h
  · cases h
  · split_ifs at h
    · cases h
    · split at h
      · cases h
      · cases h
      · rename_i hdone
        cases h
        exact applyOperations_eq_done_iff.mp hdone

/-- **A commit is answered as if an independent one had not been there.** -/
theorem answer_beside {replies : List Reply} {committed : Option Config}
    (h : Independent parse transaction.operations transaction'.operations)
    (hwf : Config.WellFormed c.configuration) (hmut : c.isMutable = true)
    (hanswer : answer parse transaction' creds c = some (replies, committed)) :
    ∃ entries : Object, committed.getD c = c.extend entries ∧
      (∀ e ∈ entries, Written parse transaction'.operations e) ∧
      ∀ creds replies committed, answer parse transaction creds c = some (replies, committed) →
        ∃ replies', SameAnswer
            (NamesRecord parse transaction.operations transaction'.operations) replies replies' ∧
          answer parse transaction creds (c.extend entries) =
            some (replies', committed.map fun c => c.extend entries) := by
  cases committed with
  | none =>
    refine ⟨[], rfl, fun e he => absurd he List.not_mem_nil, fun creds replies committed h' => ?_⟩
    refine ⟨replies, Or.inl rfl, h'.trans ?_⟩
    cases committed <;> rfl
  | some c' =>
    have hfold := foldlM_of_answer hanswer
    obtain ⟨entries, rfl, hentries⟩ := foldlM_eq_extend hwf h.record.2 hfold
    refine ⟨entries, rfl, hentries, fun creds replies committed h' => ?_⟩
    unfold answer at h' ⊢
    cases creds with
    | queryFailed => cases h'
    | noUid code =>
      cases h'
      exact ⟨_, Or.inl rfl, rfl⟩
    | uid owner =>
      dsimp only at h' ⊢
      split_ifs at h' ⊢
      · cases h'
        exact ⟨_, Or.inl rfl, rfl⟩
      · rcases applyOperations_beside h hwf hmut hentries hfold with hsame | ⟨hnames, halike⟩
        · rw [hsame]
          cases hops : applyOperations parse transaction.operations c with
          | terminated f => rw [hops] at h'; cases h'
          | stopped status error => rw [hops] at h'; cases h'; exact ⟨_, Or.inl rfl, rfl⟩
          | done c' => rw [hops] at h'; cases h'; exact ⟨_, Or.inl rfl, rfl⟩
        · obtain ⟨text, text', hops, hops'⟩ := halike
          rw [hops] at h'
          rw [hops']
          cases h'
          exact ⟨_, Or.inr ⟨hnames, text, text', rfl, rfl⟩, rfl⟩

end Transactions

namespace Ledger

open Machine Transactions

variable {parse : String → Option Json} {c : Config} {s s' s₁ s₂ : Ledger} {calls : List Call}
  {id id₁ id₂ : UInt64} {transaction T₁ T₂ : Transaction} {creds creds₁ creds₂ : Creds}

theorem step_commit_iff (h : s.manager.transactions.find id = some transaction) :
    (machine parse).step s (.commit (.ok id) creds) = some s' ↔
      ∃ replies committed,
        answer parse transaction creds s.manager.running.copy = some (replies, committed) ∧
        s' = ⟨s.manager.after id committed, ⟨.commit (.ok id) creds, replies⟩ :: s.history⟩ := by
  have hserve := @serve_commit parse s.manager id transaction creds h
  show Ledger.serve parse s _ = _ ↔ _
  unfold Ledger.serve
  cases hanswer : answer parse transaction creds s.manager.running.copy with
  | none =>
    rw [hanswer] at hserve
    obtain ⟨f, hf⟩ := hserve
    rw [hf]
    simp
  | some a =>
    obtain ⟨replies, committed⟩ := a
    rw [hanswer] at hserve
    rw [show Transactions.serve parse s.manager _ = _ from hserve]
    constructor
    · intro h'
      cases h'
      exact ⟨replies, committed, rfl, rfl⟩
    · rintro ⟨_, _, hsome, rfl⟩
      cases hsome
      rfl

/-- What independent transactions have written is in different places. -/
theorem disjoint_of_written {operations operations' : List Operation} {entries entries' : Object}
    (h : Independent parse operations operations')
    (hentries : ∀ e ∈ entries, Written parse operations e)
    (hentries' : ∀ e ∈ entries', Written parse operations' e) :
    ∀ k ∈ entries.keys, k ∉ entries'.keys := by
  intro k hk hk'
  obtain ⟨e, he, rfl⟩ := List.mem_map.mp hk
  obtain ⟨e', he', hkey⟩ := List.mem_map.mp hk'
  rcases hentries e he with hname | ⟨hd, -, hsets⟩
  · rcases hentries' e' he' with hname' | ⟨hd', -, -⟩
    · exact h.names _ hname (hkey ▸ hname')
    · exact h.record.1 ((hkey.symm.trans hd') ▸ hname)
  · rcases hentries' e' he' with hname' | ⟨-, -, hsets'⟩
    · exact h.record.2 ((hkey.trans hd) ▸ hname')
    · exact h.default ⟨hsets, hsets'⟩

/-- **Independent commits commute.**  Neither ends the process in the other one's wake, the
running configuration is the same in the end, and each is answered the same, but for the
text of an error about the record. -/
theorem commits_commute {j : Json} (hload : Config.load j = .ok c)
    (hrun : (machine parse).run (start c) calls = some s)
    (hfind₁ : s.manager.transactions.find id₁ = some T₁)
    (hfind₂ : s.manager.transactions.find id₂ = some T₂) (hne : id₁ ≠ id₂)
    (hind : Independent parse T₁.operations T₂.operations)
    (h₁ : (machine parse).step s (.commit (.ok id₁) creds₁) = some s₁)
    (h₂ : (machine parse).step s (.commit (.ok id₂) creds₂) = some s₂) :
    ∃ s₁₂ s₂₁ replies₁ replies₁' replies₂ replies₂',
      (machine parse).step s₁ (.commit (.ok id₂) creds₂) = some s₁₂ ∧
      (machine parse).step s₂ (.commit (.ok id₁) creds₁) = some s₂₁ ∧
      s₁₂.history = ⟨.commit (.ok id₂) creds₂, replies₂'⟩ ::
        ⟨.commit (.ok id₁) creds₁, replies₁⟩ :: s.history ∧
      s₂₁.history = ⟨.commit (.ok id₁) creds₁, replies₁'⟩ ::
        ⟨.commit (.ok id₂) creds₂, replies₂⟩ :: s.history ∧
      SameAnswer (NamesRecord parse T₁.operations T₂.operations) replies₁ replies₁' ∧
      SameAnswer (NamesRecord parse T₂.operations T₁.operations) replies₂ replies₂' ∧
      s₁₂.manager.running = s₂₁.manager.running := by
  have hwf : Config.WellFormed s.manager.running.copy.configuration :=
    (running_wellFormed hload hrun).1
  obtain ⟨replies₁, committed₁, hanswer₁, rfl⟩ := (step_commit_iff hfind₁).mp h₁
  obtain ⟨replies₂, committed₂, hanswer₂, rfl⟩ := (step_commit_iff hfind₂).mp h₂
  -- what each of them writes, and what the other one is answered then
  obtain ⟨entries₁, hgetD₁, hentries₁, hbeside₂⟩ := answer_beside hind.symm hwf rfl hanswer₁
  obtain ⟨entries₂, hgetD₂, hentries₂, hbeside₁⟩ := answer_beside hind hwf rfl hanswer₂
  obtain ⟨replies₂', hsame₂, hanswer₂'⟩ := hbeside₂ _ _ _ hanswer₂
  obtain ⟨replies₁', hsame₁, hanswer₁'⟩ := hbeside₁ _ _ _ hanswer₁
  refine ⟨_, _, replies₁, replies₁', replies₂, replies₂',
    (step_commit_iff ((find_after hne.symm _).trans hfind₂)).mpr
      ⟨replies₂', _, by rw [after_copy hgetD₁]; exact hanswer₂', rfl⟩,
    (step_commit_iff ((find_after hne _).trans hfind₁)).mpr
      ⟨replies₁', _, by rw [after_copy hgetD₂]; exact hanswer₁', rfl⟩, rfl, rfl, hsame₁, hsame₂, ?_⟩
  show ((s.manager.after id₁ committed₁).after id₂ _).running = _
  rw [after_after_running hgetD₁ hgetD₂,
    OrdMap.insertAll_comm (disjoint_of_written hind.symm hentries₂ hentries₁)]
  exact (after_after_running hgetD₂ hgetD₁).symm

/-- Two transactions: one adds the root `a` as the default, the other one a `b`. -/
def openTwo (ps : List ParameterValue) : List Call :=
  [.new (.ok ()) [1] (.uid 0) true,
    .add 1 (.uid 0) (.ok ("a", [⟨"network.role", "root"⟩, ⟨"network.default", "yes"⟩])),
    .new (.ok ()) [2] (.uid 0) true, .add 2 (.uid 0) (.ok ("b", ps))]

theorem openTwo_run (ps : List ParameterValue) : ∃ s,
    (machine fun _ => none).run (start ⟨false, bareFile⟩) (openTwo ps) = some s ∧
      s.manager.transactions.find 1 = some ⟨1, 0,
        [.add "a" [⟨"network.role", "root"⟩, ⟨"network.default", "yes"⟩]]⟩ ∧
      s.manager.transactions.find 2 = some ⟨2, 0, [.add "b" ps]⟩ :=
  ⟨_, rfl, rfl, rfl⟩

/-- The commit of one of them. -/
def commitOf (id : UInt64) : Call := .commit (.ok id) (.uid 0)

theorem step_commitOf {ps : List ParameterValue} {s : Ledger} (id : UInt64)
    (h : (machine fun _ => none).run (start ⟨false, bareFile⟩) (openTwo ps) = some s)
    (hcommits : ((machine fun _ => none).run (start ⟨false, bareFile⟩)
      (openTwo ps ++ [commitOf id])).isSome = true) :
    ∃ s', (machine fun _ => none).step s (commitOf id) = some s' := by
  obtain ⟨s', hs'⟩ := Option.isSome_iff_exists.mp hcommits
  rw [run_append, h, Option.bind_some, run_cons_eq_some] at hs'
  obtain ⟨t, ht, -⟩ := hs'
  exact ⟨t, ht⟩

theorem independent_openTwo {ps : List ParameterValue} {m : Object}
    (hb : Config.buildEntity (fun _ => none) "b" ps (.object []) =
      .done (.object [("network", .object m)]))
    (huplink : Config.entityUplink (.object [("network", .object m)]) ≠ some "a")
    (hdefault : "default" ∉ m.keys) :
    Independent (fun _ => none)
      [.add "a" [⟨"network.role", "root"⟩, ⟨"network.default", "yes"⟩]] [.add "b" ps] := by
  refine ⟨by simp [addedNames, Operation.addedName], ?_, ?_, fun ⟨_, hsets⟩ => ?_, ?_⟩
  · rintro u ⟨o, ho, e, hmakes, hu⟩
    cases List.mem_singleton.mp ho
    cases hmakes
    cases hu
  · rintro u ⟨o, ho, e, hmakes, hu⟩ hmem
    cases List.mem_singleton.mp ho
    cases hb.symm.trans hmakes
    cases List.mem_singleton.mp hmem
    exact huplink hu
  · obtain ⟨o, ho, e, hmakes, m', hm', hd⟩ := hsets
    cases List.mem_singleton.mp ho
    cases hb.symm.trans hmakes
    cases hm'
    exact hdefault hd
  · simp [addedNames, Operation.addedName]

theorem commits_commute_openTwo : ∃ s₁₂ s₂₁ : Ledger,
    (machine fun _ => none).run (start ⟨false, bareFile⟩)
        (openTwo [⟨"network.role", "switch"⟩] ++ [commitOf 1, commitOf 2]) = some s₁₂ ∧
      (machine fun _ => none).run (start ⟨false, bareFile⟩)
        (openTwo [⟨"network.role", "switch"⟩] ++ [commitOf 2, commitOf 1]) = some s₂₁ ∧
      s₁₂.manager.running = s₂₁.manager.running := by
  obtain ⟨s, hrun, hfind₁, hfind₂⟩ := openTwo_run [⟨"network.role", "switch"⟩]
  have hload : Config.load (.object bareFile) = .ok ⟨false, bareFile⟩ := rfl
  have hind := @independent_openTwo [⟨"network.role", "switch"⟩] [("role", .string "switch")] rfl
    (by decide +kernel) (by decide)
  obtain ⟨s₁, h₁⟩ := step_commitOf 1 hrun (by decide +kernel)
  obtain ⟨s₂, h₂⟩ := step_commitOf 2 hrun (by decide +kernel)
  obtain ⟨s₁₂, s₂₁, _, _, _, _, h₁₂, h₂₁, -, -, -, -, hsame⟩ :=
    commits_commute hload hrun hfind₁ hfind₂ (by decide) hind h₁ h₂
  exact ⟨s₁₂, s₂₁, run_append_pair hrun h₁ h₁₂, run_append_pair hrun h₂ h₂₁, hsame⟩

/-- A switch with an uplink that is never found. -/
def offNetns : List ParameterValue :=
  [⟨"network.role", "switch"⟩, ⟨"network.uplink", ":default-netns"⟩]

/-- What the second of the two transactions is answered when the calls are made. -/
def repliesToTwo (ps : List ParameterValue) (calls : List Call) : Option (List Reply) :=
  ((machine fun _ => none).run (start ⟨false, bareFile⟩) (openTwo ps ++ calls)).bind fun s =>
    s.history.findSome? fun event =>
      match event.call with
      | .commit (.ok 2) _ => some event.replies
      | _ => none

/-- **The text of the error may depend on the order**: beside the record of a default, the
uplink `:default-netns` is refused for another reason. -/
theorem commits_order_shows :
    ¬ ∀ (c : Config) (j : Json) (calls : List Call) (id₁ id₂ : UInt64) (T₁ T₂ : Transaction)
      (creds₁ creds₂ : Creds) (s s₁ s₂ : Ledger), Config.load j = .ok c →
      (machine fun _ => none).run (start c) calls = some s →
      s.manager.transactions.find id₁ = some T₁ → s.manager.transactions.find id₂ = some T₂ →
      id₁ ≠ id₂ → Independent (fun _ => none) T₁.operations T₂.operations →
      (machine fun _ => none).step s (.commit (.ok id₁) creds₁) = some s₁ →
      (machine fun _ => none).step s (.commit (.ok id₂) creds₂) = some s₂ →
      ∃ s₁₂ s₂₁ replies₁ replies₂,
        (machine fun _ => none).step s₁ (.commit (.ok id₂) creds₂) = some s₁₂ ∧
        (machine fun _ => none).step s₂ (.commit (.ok id₁) creds₁) = some s₂₁ ∧
        s₁₂.history = ⟨.commit (.ok id₂) creds₂, replies₂⟩ ::
          ⟨.commit (.ok id₁) creds₁, replies₁⟩ :: s.history ∧
        s₂₁.history = ⟨.commit (.ok id₁) creds₁, replies₁⟩ ::
          ⟨.commit (.ok id₂) creds₂, replies₂⟩ :: s.history ∧
        s₁₂.manager.running = s₂₁.manager.running := by
  intro h
  obtain ⟨s, hrun, hfind₁, hfind₂⟩ := openTwo_run offNetns
  have hload : Config.load (.object bareFile) = .ok ⟨false, bareFile⟩ := rfl
  have hind := @independent_openTwo offNetns
    [("role", .string "switch"), ("uplink", .string ":default-netns")] rfl
    (by decide +kernel) (by decide)
  obtain ⟨s₁, h₁⟩ := step_commitOf 1 hrun (by decide +kernel)
  obtain ⟨s₂, h₂⟩ := step_commitOf 2 hrun (by decide +kernel)
  obtain ⟨s₁₂, s₂₁, replies₁, replies₂, h₁₂, h₂₁, hhistory, hhistory', -⟩ :=
    h _ _ _ _ _ _ _ _ _ _ _ _ hload hrun hfind₁ hfind₂ (by decide) hind h₁ h₂
  have hfirst : repliesToTwo offNetns [commitOf 1, commitOf 2] = some replies₂ := by
    have hrun₁₂ := run_append_pair hrun h₁ h₁₂
    rw [repliesToTwo, show (machine _).run _ (_ ++ [commitOf 1, commitOf 2]) = _ from hrun₁₂,
      Option.bind_some, hhistory]
    rfl
  have hsecond : repliesToTwo offNetns [commitOf 2, commitOf 1] = some replies₂ := by
    have hrun₂₁ := run_append_pair hrun h₂ h₂₁
    rw [repliesToTwo, show (machine _).run _ (_ ++ [commitOf 2, commitOf 1]) = _ from hrun₂₁,
      Option.bind_some, hhistory']
    rfl
  have hdiffer : repliesToTwo offNetns [commitOf 1, commitOf 2] ≠
      repliesToTwo offNetns [commitOf 2, commitOf 1] := by decide +kernel
  exact hdiffer (hfirst.trans hsecond.symm)

end Ledger

end Nonsense
