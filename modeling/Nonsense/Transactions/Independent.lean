import Nonsense.Config.Elsewhere
import Nonsense.Transactions.Extends

/-!
# Independent commits

Two transactions are `Independent` if no operation of one adds or names what an operation
of the other adds, and not both set the default.  What one writes is then elsewhere for the
other, so that each of them goes as it would without the other one
(`applyOperations_beside`), and the order in which they are committed does not matter
(`commits_commute`).

Except for a text: an uplink called `:default-netns` is never found, but why not depends on
whether a default is recorded there.
-/

namespace Nonsense

namespace Operation

/-- The operation makes the entity. -/
def Makes (parse : String → Option Json) : Operation → Json → Prop
  | .add name ps, entity => Config.buildEntity parse name ps (.object []) = .done entity
  | _, _ => False

/-- The entry `k` is elsewhere for what the operation adds. -/
structure Spares (parse : String → Option Json) (o : Operation) (k : String) : Prop where
  name : o.addedName ≠ some k
  uplink : ∀ e, o.Makes parse e → Config.entityUplink e ≠ some k
  default : k = ":default-netns" → ∀ e, o.Makes parse e → ¬ Config.SetsDefault e

end Operation

namespace Transactions

variable {parse : String → Option Json} {operations operations' : List Operation} {c c' : Config}
  {k : String} {v : Json} {entries : Object}

/-- The names that are added. -/
def addedNames (operations : List Operation) : List String :=
  operations.filterMap Operation.addedName

/-- An entity with the parameter `default` is made. -/
def SetsDefault (parse : String → Option Json) (operations : List Operation) : Prop :=
  ∃ o ∈ operations, ∃ e, o.Makes parse e ∧ Config.SetsDefault e

/-- An entity with the uplink `u` is made. -/
def HasUplink (parse : String → Option Json) (operations : List Operation) (u : String) : Prop :=
  ∃ o ∈ operations, ∃ e, o.Makes parse e ∧ Config.entityUplink e = some u

/-- The operations have nothing to do with each other. -/
structure Independent (parse : String → Option Json) (operations operations' : List Operation) :
    Prop where
  names : ∀ name ∈ addedNames operations, name ∉ addedNames operations'
  uplink : ∀ u, HasUplink parse operations u → u ∉ addedNames operations'
  uplink' : ∀ u, HasUplink parse operations' u → u ∉ addedNames operations
  default : ¬ (SetsDefault parse operations ∧ SetsDefault parse operations')
  record : ":default-netns" ∉ addedNames operations ∧ ":default-netns" ∉ addedNames operations'

theorem Independent.symm (h : Independent parse operations operations') :
    Independent parse operations' operations :=
  ⟨fun name hmem hmem' => h.names name hmem' hmem, h.uplink', h.uplink,
    fun hboth => h.default hboth.symm, h.record.symm⟩

theorem mem_addedNames {o : Operation} {name : String} (ho : o ∈ operations)
    (hname : o.addedName = some name) : name ∈ addedNames operations :=
  List.mem_filterMap.mpr ⟨o, ho, hname⟩

/-! ### The loop beside other entries -/

/-- How the loop ends, with the configuration it ends with changed. -/
def Applied.map (f : Config → Config) : Applied → Applied
  | .done c => .done (f c)
  | .stopped status error => .stopped status error
  | .terminated f => .terminated f

theorem applyOperations_append : applyOperations parse (operations ++ operations') c =
    match applyOperations parse operations c with
    | .done c' => applyOperations parse operations' c'
    | applied => applied := by
  induction operations generalizing c with
  | nil => rfl
  | cons o operations ih =>
    rw [List.cons_append, applyOperations, applyOperations]
    cases visit parse c o with
    | terminated f => rfl
    | status code error c' =>
      dsimp only
      split_ifs
      · rfl
      · exact ih

theorem applyOperations_extend_singleton
    (hrecord : ∀ o ∈ operations, o.addedName ≠ some ":default-netns")
    (h : ∀ o ∈ operations, o.Spares parse k) :
    applyOperations parse operations (c.extend [(k, v)]) =
      (applyOperations parse operations c).map fun c => c.extend [(k, v)] := by
  induction operations generalizing c with
  | nil => rfl
  | cons o operations ih =>
    rw [List.forall_mem_cons] at hrecord h
    obtain ⟨hspare, hrest⟩ := h
    cases o with
    | add name ps =>
      have hname : name ≠ k := fun hk => hspare.name (congrArg some hk)
      have hget : (c.extend [(k, v)]).tryGet name = c.tryGet name :=
        OrdMap.find_insert_ne _ _ hname
      have hmatch : (Config.add parse c name ps).Matches (fun c => c.extend [(k, v)])
          (Config.add parse (c.extend [(k, v)]) name ps) :=
        Config.add_extend_singleton hname (fun hd => hrecord.1 (congrArg some hd))
          fun e he => ⟨hspare.uplink e he, fun hk => hspare.default hk e he⟩
      rw [applyOperations, applyOperations, visit, visit, hget]
      split_ifs
      · rfl
      generalize hadd : Config.add parse c name ps = added at hmatch ⊢
      generalize Config.add parse (c.extend [(k, v)]) name ps = added' at hmatch ⊢
      cases hmatch with
      | terminated f => rfl
      | @refused r c₁ c₂ hr =>
        have hneg : r.errorCode < 0 := lt_of_le_of_ne (Config.add_errorCode hadd) hr
        simp [hneg, hr, Applied.map]
      | accepted r c₁ =>
        dsimp only
        by_cases hneg : r.errorCode < 0
        · simp [hneg, hneg.ne, Applied.map]
        · simpa [hneg] using ih hrecord.2 hrest
    | set name modification => rfl
    | delete_ name => rfl

/-- **Entries elsewhere change nothing of the loop.** -/
theorem applyOperations_extend (hrecord : ":default-netns" ∉ addedNames operations)
    (h : ∀ o ∈ operations, ∀ k ∈ entries.keys, o.Spares parse k) :
    applyOperations parse operations (c.extend entries) =
      (applyOperations parse operations c).map fun c => c.extend entries := by
  have hne : ∀ o ∈ operations, o.addedName ≠ some ":default-netns" :=
    fun o ho hname => hrecord (mem_addedNames ho hname)
  induction entries generalizing c with
  | nil =>
    show applyOperations parse operations c = _
    cases applyOperations parse operations c <;> rfl
  | cons e entries ih =>
    have hcons : ∀ c : Config, c.extend (e :: entries) = (c.extend [e]).extend entries :=
      fun c => rfl
    have hhead : ∀ o ∈ operations, o.Spares parse e.1 :=
      fun o ho => h o ho e.1 (by rw [OrdMap.keys_cons]; exact List.mem_cons_self)
    have htail : ∀ o ∈ operations, ∀ k ∈ OrdMap.keys entries, o.Spares parse k :=
      fun o ho k hk => h o ho k (by rw [OrdMap.keys_cons]; exact List.mem_cons_of_mem _ hk)
    rw [hcons, ih htail, applyOperations_extend_singleton hne hhead]
    cases applyOperations parse operations c <;> rfl

/-! ### What the loop writes -/

theorem foldlM_wellFormed (hwf : Config.WellFormed c.configuration)
    (h : operations.foldlM (addOperation parse) c = some c') :
    Config.WellFormed c'.configuration :=
  foldlM_keeps (I := fun c => Config.WellFormed c.configuration) Config.add_wellFormed hwf h

/-- The entry is of an entity that the operations add, or the record that they make. -/
def Written (parse : String → Option Json) (operations : List Operation) (e : String × Json) :
    Prop :=
  e.1 ∈ addedNames operations ∨
    e.1 = ":default-netns" ∧ (∃ s, e.2 = .string s) ∧ SetsDefault parse operations

theorem Written.mono {e : String × Json} (hsub : ∀ o ∈ operations, o ∈ operations')
    (h : Written parse operations e) : Written parse operations' e := by
  rcases h with h | ⟨hk, hv, o, ho, hdefault⟩
  · obtain ⟨o, ho, hname⟩ := List.mem_filterMap.mp h
    exact Or.inl (mem_addedNames (hsub o ho) hname)
  · exact Or.inr ⟨hk, hv, o, hsub o ho, hdefault⟩

/-- **What a loop that gets to its end writes.** -/
theorem foldlM_eq_extend (hwf : Config.WellFormed c.configuration)
    (hrecord : ":default-netns" ∉ addedNames operations)
    (h : operations.foldlM (addOperation parse) c = some c') :
    ∃ entries : Object, c' = c.extend entries ∧ ∀ e ∈ entries, Written parse operations e := by
  induction operations generalizing c with
  | nil => cases h; exact ⟨[], rfl, fun e he => absurd he List.not_mem_nil⟩
  | cons o operations ih =>
    obtain ⟨name, ps, r, c₁, rfl, hadd, hr, h⟩ := foldlM_cons_eq_some_iff.mp h
    have hname : name ∈ addedNames (.add name ps :: operations) :=
      mem_addedNames List.mem_cons_self rfl
    obtain ⟨entries₁, rfl, hfirst, hdefault⟩ := Config.add_eq_extend hwf
      (fun hd => hrecord (hd ▸ hname)) hadd hr
    have hrest : ":default-netns" ∉ addedNames operations := by
      intro hmem
      obtain ⟨o, ho, hon⟩ := List.mem_filterMap.mp hmem
      exact hrecord (mem_addedNames (List.mem_cons_of_mem _ ho) hon)
    obtain ⟨entries₂, rfl, hentries⟩ := ih (Config.add_wellFormed hwf hadd hr) hrest h
    refine ⟨entries₁ ++ entries₂, ?_, fun e he => ?_⟩
    · simp only [Config.extend, OrdMap.insertAll_append]
    · rcases List.mem_append.mp he with he | he
      · rcases hfirst e he with hk | ⟨hk, hv⟩
        · exact Or.inl (hk ▸ hname)
        · obtain ⟨entity, hmakes, hsets⟩ := hdefault (hk ▸ List.mem_map_of_mem he)
          exact Or.inr ⟨hk, ⟨name, hv⟩, _, List.mem_cons_self, entity, hmakes, hsets⟩
      · exact (hentries e he).mono fun o ho => List.mem_cons_of_mem _ ho

/-! ### Two loops -/

/-- The error of an entity that is refused. -/
def refusal (text : String) : Option BusError :=
  some ⟨"info.griwes.nonsense.InvalidEntityParameters", text⟩

/-- An entity of `operations` has its uplink where `operations'` record a default. -/
def NamesRecord (parse : String → Option Json) (operations operations' : List Operation) : Prop :=
  HasUplink parse operations ":default-netns" ∧ SetsDefault parse operations'

/-- A loop is stopped with the same error, but for the text. -/
def StoppedAlike (applied applied' : Applied) : Prop :=
  ∃ text text', applied = .stopped (-EINVAL) (refusal text) ∧
    applied' = .stopped (-EINVAL) (refusal text')

/-- The operation has its uplink in another place than the record. -/
def OffRecord (parse : String → Option Json) (o : Operation) : Prop :=
  ∀ e, o.Makes parse e → Config.entityUplink e ≠ some ":default-netns"

theorem not_offRecord_iff {o : Operation} : ¬ OffRecord parse o ↔
    ∃ e, o.Makes parse e ∧ Config.entityUplink e = some ":default-netns" := by
  unfold OffRecord
  push Not
  exact Iff.rfl

theorem Independent.spares (h : Independent parse operations operations')
    (hentries : ∀ e ∈ entries, Written parse operations' e) {o : Operation} (ho : o ∈ operations)
    (hoff : ":default-netns" ∈ entries.keys → OffRecord parse o) :
    ∀ k ∈ entries.keys, o.Spares parse k := by
  intro k hk
  obtain ⟨e, he, rfl⟩ := List.mem_map.mp hk
  rcases hentries e he with hname | ⟨hd, -, hsets⟩
  · refine ⟨fun hn => h.names _ (mem_addedNames ho hn) hname, ?_, fun hd => ?_⟩
    · exact fun entity hmakes hu => h.uplink _ ⟨o, ho, entity, hmakes, hu⟩ hname
    · exact absurd (hd ▸ hname) h.record.2
  · rw [hd] at hk ⊢
    refine ⟨fun hn => h.record.1 (mem_addedNames ho hn), hoff hk, fun _ entity hmakes hdefault => ?_⟩
    exact h.default ⟨⟨o, ho, entity, hmakes, hdefault⟩, hsets⟩

/-- What is written under the record's key is a string. -/
theorem find_record_extend (hrecord : ":default-netns" ∉ addedNames operations)
    (hentries : ∀ e ∈ entries, Written parse operations e) (hk : ":default-netns" ∈ entries.keys)
    (c : Config) :
    SetsDefault parse operations ∧
      ∃ s, (c.extend entries).configuration.find ":default-netns" = some (.string s) := by
  obtain ⟨v, hv, hf⟩ := OrdMap.find_insertAll_of_mem (m := c.configuration) hk
  rcases hentries _ hv with hname | ⟨-, ⟨s, rfl⟩, hsets⟩
  · exact absurd hname hrecord
  · exact ⟨hsets, s, hf⟩

/-- An operation finds under the name that it adds what it finds there without the other ones. -/
theorem Independent.find_extend (h : Independent parse operations operations')
    (hentries : ∀ e ∈ entries, Written parse operations' e) {o : Operation} (ho : o ∈ operations)
    (c : Config) : ∀ name, o.addedName = some name →
      (c.extend entries).configuration.find name = c.configuration.find name := by
  intro name hname
  refine OrdMap.find_insertAll_of_not_mem fun hk => ?_
  obtain ⟨e, he, rfl⟩ := List.mem_map.mp hk
  rcases hentries e he with hadded | ⟨hd, -, -⟩
  · exact h.names _ (mem_addedNames ho hname) hadded
  · exact h.record.1 (mem_addedNames ho (hd ▸ hname))

theorem Independent.of_append {before after : List Operation}
    (h : Independent parse (before ++ after) operations') : Independent parse before operations' := by
  have hmem : ∀ o ∈ before, o ∈ before ++ after := fun _ => List.mem_append_left _
  have hnames : ∀ name ∈ addedNames before, name ∈ addedNames (before ++ after) := by
    intro name hname
    obtain ⟨o, ho, hadded⟩ := List.mem_filterMap.mp hname
    exact mem_addedNames (hmem o ho) hadded
  exact ⟨fun name hname => h.names name (hnames name hname),
    fun u ⟨o, ho, he⟩ => h.uplink u ⟨o, hmem o ho, he⟩,
    fun u hu hadded => h.uplink' u hu (hnames u hadded),
    fun ⟨⟨o, ho, he⟩, hsets⟩ => h.default ⟨⟨o, hmem o ho, he⟩, hsets⟩,
    fun hadded => h.record.1 (hnames _ hadded), h.record.2⟩

/-- Where the others record a default, no entity of that name is there, before and behind. -/
theorem Independent.record_not_object (h : Independent parse operations operations')
    (hwf : Config.WellFormed c.configuration) (hentries : ∀ e ∈ entries, Written parse operations' e)
    (hk : ":default-netns" ∈ entries.keys)
    (hfold : operations'.foldlM (addOperation parse) c = some (c.extend entries))
    (hrun : operations.foldlM (addOperation parse) c = some c') :
    (∀ m, c'.configuration.find ":default-netns" ≠ some (.object m)) ∧
      ∀ m, (c'.extend entries).configuration.find ":default-netns" ≠ some (.object m) := by
  obtain ⟨hsets, s, hs⟩ := find_record_extend h.record.2 hentries hk c
  constructor
  · intro m hm
    obtain ⟨entries₁, rfl, hentries₁⟩ := foldlM_eq_extend hwf h.record.1 hrun
    have hk₁ : ":default-netns" ∉ entries₁.keys :=
      fun hk₁ => h.default ⟨(find_record_extend h.record.1 hentries₁ hk₁ c).1, hsets⟩
    -- an entity of that name was there before, and would have been kept
    have hkept := (Ledger.foldlM_extends hwf hfold).kept _ _
      ((OrdMap.find_insertAll_of_not_mem hk₁).symm.trans hm) fun _ => rfl
    rw [hs] at hkept
    cases hkept
  · intro m hm
    obtain ⟨-, s', hs'⟩ := find_record_extend h.record.2 hentries hk c'
    rw [hs'] at hm
    cases hm

/-- Two loops come to an operation whose uplink is called like the record. -/
theorem applyOperations_cons_stopped {o : Operation} (hwf : Config.WellFormed c.configuration)
    (hwf' : Config.WellFormed c'.configuration) (hmut : c.isMutable = true)
    (hmut' : c'.isMutable = true) (hrecord : o.addedName ≠ some ":default-netns")
    (hsame : ∀ name, o.addedName = some name →
      c'.configuration.find name = c.configuration.find name)
    (hno : ∀ m, c.configuration.find ":default-netns" ≠ some (.object m))
    (hno' : ∀ m, c'.configuration.find ":default-netns" ≠ some (.object m))
    (hon : ¬ OffRecord parse o) :
    (∃ status error, applyOperations parse (o :: operations) c = .stopped status error ∧
        applyOperations parse (o :: operations) c' = .stopped status error) ∨
      StoppedAlike (applyOperations parse (o :: operations) c)
        (applyOperations parse (o :: operations) c') := by
  cases o with
  | add name ps =>
    obtain ⟨e, hmakes, huplink⟩ := not_offRecord_iff.mp hon
    have hget : c'.tryGet name = c.tryGet name := hsame name rfl
    have hname : name ≠ ":default-netns" := fun hd => hrecord (congrArg some hd)
    simp only [applyOperations, visit, hget]
    cases hnew : c.tryGet name with
    | some j => exact Or.inl ⟨_, _, rfl, rfl⟩
    | none =>
      obtain ⟨text, c₁, hadd⟩ := Config.add_refused_of_uplink hwf hmut hname hnew hno hmakes huplink
      obtain ⟨text', c₁', hadd'⟩ := Config.add_refused_of_uplink hwf' hmut' hname
        (hget.trans hnew) hno' hmakes huplink
      rw [hadd, hadd']
      exact Or.inr ⟨text, text', rfl, rfl⟩
  | _ => exact absurd (fun e he => False.elim he) hon

/-- **A loop goes beside what another one has written as it goes without it**, but for the
text of an error about the record. -/
theorem applyOperations_beside (h : Independent parse operations operations')
    (hwf : Config.WellFormed c.configuration) (hmut : c.isMutable = true)
    (hentries : ∀ e ∈ entries, Written parse operations' e)
    (hfold : operations'.foldlM (addOperation parse) c = some (c.extend entries)) :
    applyOperations parse operations (c.extend entries) =
        ((applyOperations parse operations c).map fun c => c.extend entries) ∨
      NamesRecord parse operations operations' ∧ StoppedAlike (applyOperations parse operations c)
        (applyOperations parse operations (c.extend entries)) := by
  by_cases hoff : ∀ o ∈ operations, ":default-netns" ∈ entries.keys → OffRecord parse o
  · left
    exact applyOperations_extend h.record.1 fun o ho => h.spares hentries ho (hoff o ho)
  -- the loops are at the first operation that names the record
  obtain ⟨before, o, after, rfl, hbefore, ho⟩ := exists_first hoff
  obtain ⟨hk, hon⟩ := Classical.not_imp.mp ho
  have hind : Independent parse before operations' := h.of_append
  have homem : o ∈ before ++ o :: after := List.mem_append_right _ List.mem_cons_self
  have hsets : SetsDefault parse operations' := (find_record_extend h.record.2 hentries hk c).1
  have hrun := applyOperations_extend (c := c) hind.record.1 fun o' ho' =>
    hind.spares hentries ho' (hbefore o' ho')
  rw [applyOperations_append, applyOperations_append, hrun]
  cases hb : applyOperations parse before c with
  | terminated f => exact Or.inl rfl
  | stopped status error => exact Or.inl rfl
  | done c₁ =>
    rw [hb] at hrun
    have hfold₁ := applyOperations_eq_done_iff.mp hb
    have hfold₁' := applyOperations_eq_done_iff.mp hrun
    have hwf₁' : Config.WellFormed (c₁.extend entries).configuration :=
      foldlM_wellFormed (foldlM_wellFormed hwf hfold) hfold₁'
    have hmut₁ : c₁.isMutable = true := (foldlM_isMutable hfold₁).trans hmut
    obtain ⟨hno, hno'⟩ := hind.record_not_object hwf hentries hk hfold hfold₁
    have hstops : (∃ status error,
        applyOperations parse (o :: after) c₁ = .stopped status error ∧
          applyOperations parse (o :: after) (c₁.extend entries) = .stopped status error) ∨
        StoppedAlike (applyOperations parse (o :: after) c₁)
          (applyOperations parse (o :: after) (c₁.extend entries)) :=
      applyOperations_cons_stopped (foldlM_wellFormed hwf hfold₁) hwf₁' hmut₁ hmut₁
        (fun hd => h.record.1 (mem_addedNames homem hd)) (h.find_extend hentries homem c₁) hno hno'
        hon
    rcases hstops with ⟨status, error, hs, hs'⟩ | halike
    · left
      dsimp only [Applied.map]
      rw [hs, hs']
    · exact Or.inr ⟨⟨⟨o, homem, not_offRecord_iff.mp hon⟩, hsets⟩, halike⟩

end Transactions

end Nonsense
