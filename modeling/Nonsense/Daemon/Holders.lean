import Nonsense.Daemon.Chains

/-!
# Who holds a queue, and who waits

A request holds the queue of an entity while one of its frames has the token, and
until the destructor of that frame has run.  `held_iff` says that these are the
queues that are held, and `has_unique` that only one chain of frames has a token.

`no_deadlock`: along a chain the names that are held lead to the name that is
waited for, by the uplink relation.  So where that has no cycle, no set of queues
is held only by requests that wait for one of the same set.
-/

namespace Nonsense

/-- A frame of the chain has the token of `n`. -/
def Chain.Has (chain : Chain) (n : String) : Prop :=
  (chain.frame.pc.hasToken = true ∧ chain.frame.entity.name = n) ∨
    ∃ e ∈ chain.awaiting, e.name = n

/-- A coroutine of `start` that is past its uplink. -/
def Pc.Launched : Pc → Prop
  | start .check => False
  | start _ => True
  | _ => False

theorem Chain.has_iff {chain : Chain} {n : String} : chain.Has n ↔ 0 < chain.tokens n := by
  have hcount : 0 < chain.awaiting.countP (fun entity => entity.name = n) ↔
      ∃ e ∈ chain.awaiting, e.name = n := by
    simp [List.countP_pos_iff]
  rw [Chain.Has, ← hcount, Chain.tokens, Frame.tokens]
  split
  · rename_i h
    exact iff_of_true (Or.inl h) (by omega)
  · rename_i h
    rw [or_iff_right h, Nat.zero_add]

namespace Daemon

open Machine

variable {parse : String → Option Json} {d d' : Daemon} {i : Input} {id id' : Nat} {n : String}
  {chain chain' : Chain} {c : Config} {o : Outcome} {w : World} {control : Control}
  {stack : List Activity} {a : Activity}

/-- The request `id` holds the queue of `n`. -/
def Holds (d : Daemon) (id : Nat) (n : String) : Prop :=
  (∃ chain, d.chains.find id = some chain ∧ chain.Has n) ∨ .drop id n ∈ d.stack

/-- Where the token of `n` can be: with a frame that goes on, with one that awaits
its uplink, or with none. -/
theorem token_cases (d : Daemon) (n : String) :
    (∃ id chain, d.chains.find id = some chain ∧ chain.frame.pc.hasToken = true ∧
      chain.frame.entity.name = n) ∨
    (∃ id chain e, d.chains.find id = some chain ∧ e ∈ chain.awaiting ∧ e.name = n) ∨
    ∀ id chain, d.chains.find id = some chain → ¬ chain.Has n := by
  by_cases hhas : ∃ id chain, d.chains.find id = some chain ∧ chain.Has n
  · obtain ⟨id, chain, hchain, ⟨htok, hn⟩ | ⟨e, he, hn⟩⟩ := hhas
    · exact Or.inl ⟨id, chain, hchain, htok, hn⟩
    · exact Or.inr (Or.inl ⟨id, chain, e, hchain, he, hn⟩)
  · exact Or.inr (Or.inr fun id chain hchain hn => hhas ⟨id, chain, hchain, hn⟩)

/-! ### One holder -/

theorem stackTokens_pos : 0 < stackTokens n stack ↔ ∃ id, Activity.drop id n ∈ stack := by
  induction stack with
  | nil => simp [stackTokens]
  | cons a stack ih =>
    rw [stackTokens_cons, Nat.add_pos_iff_pos_or_pos, ih]
    cases a with
    | run id => simp [Activity.tokens]
    | drop id m =>
      by_cases hm : m = n
      · subst hm
        simp [Activity.tokens]
      · simp [Activity.tokens, hm, Ne.symm hm]

theorem tokens_pos (hd : d.Indexed) : 0 < d.tokens n ↔ ∃ id, d.Holds id n := by
  rw [tokens, Nat.add_pos_iff_pos_or_pos, stackTokens_pos]
  constructor
  · rintro (hpos | ⟨id, hid⟩)
    · obtain ⟨id, chain, hchain, hhas⟩ := OrdMap.exists_of_sum_pos hd.ordered hpos
      exact ⟨id, Or.inl ⟨chain, hchain, Chain.has_iff.mpr hhas⟩⟩
    · exact ⟨id, Or.inr hid⟩
  · rintro ⟨id, ⟨chain, hchain, hhas⟩ | hid⟩
    · exact Or.inl ((Chain.has_iff.mp hhas).trans_le (OrdMap.le_sum hchain))
    · exact Or.inr ⟨id, hid⟩

/-- **A queue is held when a request holds it.** -/
theorem held_iff (h : (machine parse).Reaches Always (start c) d) :
    (d.world.queues n).held = true ↔ ∃ id, d.Holds id n := by
  rw [← tokens_pos (reaches_indexed h), tokens_eq h n]
  split
  · rename_i hheld
    exact iff_of_true hheld Nat.one_pos
  · rename_i hheld
    exact iff_of_false hheld (lt_irrefl 0)

/-- **Only one chain has the token of a name.** -/
theorem has_unique (h : (machine parse).Reaches Always (start c) d)
    (hchain : d.chains.find id = some chain) (hhas : chain.Has n)
    (hchain' : d.chains.find id' = some chain') (hhas' : chain'.Has n) : id = id' := by
  by_contra hne
  have hsum := OrdMap.add_le_sum (g := Chain.tokens n) hne hchain hchain'
  have hone := tokens_le_one h n
  have hpos := Chain.has_iff.mp hhas
  have hpos' := Chain.has_iff.mp hhas'
  rw [tokens] at hone
  omega

/-- A token that a frame has is not one that is about to be given up. -/
theorem not_has_of_drop (h : (machine parse).Reaches Always (start c) d)
    (hdrop : .drop id' n ∈ d.stack) (hchain : d.chains.find id = some chain) : ¬ chain.Has n := by
  intro hhas
  have hsum := OrdMap.le_sum (g := Chain.tokens n) hchain
  have hpos := Chain.has_iff.mp hhas
  have hstack := stackTokens_pos.mpr ⟨id', hdrop⟩
  have hone := tokens_le_one h n
  rw [tokens] at hone
  omega

/-- The innermost frame has a token that none of its callers has. -/
theorem name_ne_of_awaiting (h : (machine parse).Reaches Always (start c) d)
    (hchain : d.chains.find id = some chain) (htok : chain.frame.pc.hasToken = true) {e : Entity}
    (he : e ∈ chain.awaiting) : e.name ≠ chain.frame.entity.name := by
  intro hname
  have hsum := OrdMap.le_sum (g := Chain.tokens chain.frame.entity.name) hchain
  have hcount : 0 < chain.awaiting.countP fun e' => e'.name = chain.frame.entity.name :=
    List.countP_pos_iff.mpr ⟨e, he, by simpa using hname⟩
  have hone := tokens_le_one h chain.frame.entity.name
  rw [chain.tokens_of_hasToken htok, if_pos rfl] at hsum
  rw [tokens] at hone
  omega

/-! ### What is about to be destroyed -/

/-- A frame that is about to be destroyed belongs to a call that is over, or to a
start that goes on past its uplink. -/
structure Finishing (d : Daemon) : Prop where
  bound : ∀ id n, .drop id n ∈ d.stack → id < d.nextId
  launched : ∀ id n chain, .drop id n ∈ d.stack → d.chains.find id = some chain →
    chain.frame.pc.Launched

theorem settingUp_ne_check {pid : Nat} {pc : StartPc} (h : Entity.SettingUp pid pc) :
    pc ≠ .check := by
  rintro rfl
  exact h

theorem launched_of_ne {pc : StartPc} (h : pc ≠ .check) : (Pc.start pc).Launched := by
  cases pc with
  | check => exact absurd rfl h
  | _ => trivial

/-- No turn of a start goes back to its check. -/
theorem start_launched {e : Entity} {pc : StartPc} {pc' : Pc} {w' : World}
    (h : Entity.StartStep w e pc o w' control) (hc : control = .goto pc' ∨ control = .suspend pc') :
    pc'.Launched := by
  rcases hc with rfl | rfl
  · cases h with
    | goto _ hpc' _ => exact launched_of_ne (settingUp_ne_check hpc')
    | _ => trivial
  · cases h with
    | suspend _ hpc' => exact launched_of_ne (settingUp_ne_check hpc')
    | send _ => trivial

/-- A start that is past its uplink stays so. -/
theorem launched_settled {w' : World} (ht : Turn w id chain.frame o w' control)
    (h : chain.frame.pc.Launched) (hs : chain.settled control = some chain') :
    chain'.frame.pc.Launched := by
  cases ht with
  | taken hpc _ => rw [hpc] at h; exact h.elim
  | queued hpc _ => rw [hpc] at h; exact h.elim
  | stop hpc _ => rw [hpc] at h; exact h.elim
  | @start pc _ _ hpc hstep =>
    rw [hpc] at h
    unfold Chain.settled at hs
    split at hs
    · cases hs
      exact start_launched hstep (Or.inl rfl)
    · cases hs
      exact start_launched hstep (Or.inr rfl)
    · cases hstep
      exact h.elim
    · split at hs
      · cases hs
      · cases hs
        trivial
    · cases hs

/-- What a turn puts on the stack. -/
theorem mem_settle_stack (h : a ∈ (d.settle w id chain stack control).stack) :
    a ∈ stack ∨ a = .run id ∨
      ((∃ n, a = .drop id n) ∧ ∀ chain', chain.settled control = some chain' →
        chain'.frame.pc.Launched) := by
  cases control with
  | goto pc =>
    rcases List.mem_cons.mp h with h | h
    · exact Or.inr (Or.inl h)
    · exact Or.inl h
  | suspend pc => exact Or.inl h
  | call child =>
    rcases List.mem_cons.mp h with h | h
    · exact Or.inr (Or.inl h)
    · exact Or.inl h
  | done =>
    simp only [settle] at h
    unfold Chain.settled
    cases ha : chain.awaiting with
    | nil =>
      simp only [ha] at h
      rcases List.mem_cons.mp h with h | h
      · exact Or.inr (Or.inr ⟨⟨_, h⟩, fun chain' hs => by cases hs⟩)
      · exact Or.inl h
    | cons parent awaiting =>
      simp only [ha] at h
      rcases List.mem_cons.mp h with h | h
      · exact Or.inr (Or.inl h)
      rcases List.mem_cons.mp h with h | h
      · refine Or.inr (Or.inr ⟨⟨_, h⟩, fun chain' hs => ?_⟩)
        cases hs
        trivial
      · exact Or.inl h
  | fail replies =>
    rcases List.mem_append.mp h with h | h
    · obtain ⟨e, -, rfl⟩ := List.mem_map.mp h
      exact Or.inr (Or.inr ⟨⟨_, rfl⟩, fun chain' hs => by cases hs⟩)
    · exact Or.inl h

theorem Turns.mem_stack (h : Turns d i id o stack) (ha : a ∈ stack) : a ∈ d.stack := by
  cases h with
  | wake hs => cases ha
  | tick hs => exact hs ▸ List.mem_cons_of_mem _ ha

theorem Finishing.turn (h : d.Finishing) (hd : d.Indexed) (hturns : Turns d i id o stack)
    (hchain : d.chains.find id = some chain) (ht : Turn d.world id chain.frame o w control) :
    (d.settle w id chain stack control).Finishing := by
  constructor
  · intro k n hk
    rw [settle_nextId]
    rcases mem_settle_stack hk with hold | hrun | ⟨⟨m, hm⟩, -⟩
    · exact h.bound k n (hturns.mem_stack hold)
    · cases hrun
    · cases hm
      exact hd.bound _ chain hchain
  · intro k n chain' hk hchain'
    rw [find_settle] at hchain'
    rcases mem_settle_stack hk with hold | hrun | ⟨⟨m, hm⟩, hlaunched⟩
    · have hold' := hturns.mem_stack hold
      split_ifs at hchain' with hki
      · subst hki
        exact launched_settled ht (h.launched k n chain hold' hchain) hchain'
      · exact h.launched k n chain' hold' hchain'
    · cases hrun
    · cases hm
      rw [if_pos rfl] at hchain'
      exact hlaunched chain' hchain'

theorem Finishing.drop (h : d.Finishing) (hstack : d.stack = .drop id n :: stack)
    (hdrop : Dropped d n stack d') : d'.Finishing := by
  have hmem : ∀ a ∈ stack, a ∈ d.stack := fun a ha => hstack ▸ List.mem_cons_of_mem _ ha
  cases hdrop with
  | freed _ _ =>
    exact ⟨fun k m hk => h.bound k m (hmem _ hk),
      fun k m chain hk hchain => h.launched k m chain (hmem _ hk) hchain⟩
  | @handed k chain queue _ _ hchain hpc =>
    refine ⟨?_, ?_⟩
    · intro k' m hk
      rcases List.mem_cons.mp hk with hk | hk
      · cases hk
      · exact h.bound k' m (hmem _ hk)
    · intro k' m chain' hk hchain'
      change (d.chains.insert _ _).find k' = some chain' at hchain'
      rcases List.mem_cons.mp hk with hrun | hold
      · cases hrun
      rw [OrdMap.find_insert] at hchain'
      split_ifs at hchain' with hkk
      · have hlaunched := h.launched k m chain (hmem _ (hkk ▸ hold)) hchain
        rw [hpc] at hlaunched
        exact hlaunched.elim
      · exact h.launched k' m chain' (hmem _ hold) hchain'

theorem finishing_of_stack (h : d.stack = [] ∨ ∃ id, d.stack = [.run id]) : d.Finishing := by
  have hnot : ∀ id n, .drop id n ∉ d.stack := by
    rcases h with h | ⟨id, h⟩ <;> · intro k n; simp [h]
  exact ⟨fun id n hid => absurd hid (hnot id n), fun id n _ hid => absurd hid (hnot id n)⟩

theorem reaches_finishing (h : (machine parse).Reaches Always (start c) d) : d.Finishing := by
  refine h.invariant_of_reaches (I := Finishing) (finishing_of_stack (Or.inl rfl)) ?_
  intro d i d' hd ih _ hstep
  cases step_cases hstep with
  | request hs =>
    apply finishing_of_stack
    unfold Daemon.request
    split
    · exact Or.inl hs
    · split
      · exact Or.inl hs
      · exact Or.inr ⟨_, rfl⟩
  | call hs _ => exact finishing_of_stack (Or.inl hs)
  | turn hturns hchain hframe => exact ih.turn (reaches_indexed hd) hturns hchain (turn_cases hframe)
  | drop hs hdrop => exact ih.drop hs (drop_cases hdrop)

/-! ### No deadlock -/

/-- **A request that waits holds only what leads there.** -/
theorem leads_of_waits (h : (machine parse).Reaches Always (start c) d) {m : String}
    (hholds : d.Holds id n) (hwaits : Waits d.chains id m) :
    Leads (Config.uplinkOf d.world.manager.running.configuration) n m := by
  obtain ⟨chain, hchain, hpc, rfl⟩ := hwaits
  rcases hholds with ⟨chain', hchain', hhas⟩ | hdrop
  · rw [hchain] at hchain'
    cases hchain'
    rcases hhas with ⟨htok, -⟩ | ⟨e, he, rfl⟩
    · rw [hpc] at htok
      cases htok
    · exact leads_of_linked (reaches_shaped h hchain).linked he
  · have hlaunched := (reaches_finishing h).launched id n chain hdrop hchain
    rw [hpc] at hlaunched
    exact hlaunched.elim

/-- **No deadlock.** -/
theorem no_deadlock (h : (machine parse).Reaches Always (start c) d)
    (hac : Acyclic (Config.uplinkOf d.world.manager.running.configuration)) (S : Set String)
    (hS : S.Nonempty) :
    ¬ ∀ n ∈ S, ∃ id, d.Holds id n ∧ ∃ m ∈ S, Waits d.chains id m := by
  intro hcl
  apply hac.no_closed S hS
  intro n hn
  obtain ⟨id, hholds, m, hm, hwaits⟩ := hcl n hn
  exact ⟨m, hm, leads_of_waits h hholds hwaits⟩

/-- `a` is started twice, and the second start waits for the first. -/
def startTwice : List Input :=
  .request .start (.ok "a") :: launch 1 ++ [.request .start (.ok "a"), .tick .ok]

theorem no_deadlock_startTwice :
    ∃ d, loadAndRun (fun _ => none) switchFile startTwice = some d ∧
      (d.world.queues "a").queue = [1] ∧
      ¬ ∀ n ∈ ({"a"} : Set String), ∃ id, d.Holds id n ∧
        ∃ m ∈ ({"a"} : Set String), Waits d.chains id m := by
  have hrun : (loadAndRun (fun _ => none) switchFile startTwice).any (fun d =>
      (d.world.queues "a").queue = [1] ∧ ∀ k ∈ d.world.manager.running.configuration.keys,
        ascend (Config.uplinkOf d.world.manager.running.configuration) 2 k = none) = true := by
    decide +kernel
  obtain ⟨d, hd, hlast⟩ := (Option.any_eq_true ..).mp hrun
  obtain ⟨hqueue, hkeys⟩ := of_decide_eq_true hlast
  obtain ⟨c, -, hinputs⟩ := loadAndRun_eq_some_iff.mp hd
  exact ⟨d, hd, hqueue, no_deadlock (reaches_of_run hinputs) (Config.acyclic_of_keys 2 hkeys) {"a"}
    ⟨"a", rfl⟩⟩

end Daemon

end Nonsense
