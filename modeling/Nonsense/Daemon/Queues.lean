import Nonsense.Daemon.Tokens

/-!
# The daemon and the machine of the queues

`queues_simulation`: a step of the daemon is matched by at most a few steps of
`Queues.machine`, whose tokens are those that `Daemon.tokens` counts.  A coroutine
that runs is matched by one that is called just for what it does to a queue, so
the stacks need not correspond.

`held_iff` and `tokens_le_one` bring the result back: a name is held exactly when
some frame has its token, and then only one has it.
-/

namespace Nonsense

namespace Daemon

open Machine

variable {parse : String → Option Json} {d d' : Daemon} {i : Input} {n : String} {id k : Nat}
  {chain : Chain} {stack : List Activity} {w : World} {control : Control}

/-! ### Bookkeeping -/

theorem tokens_congr (hc : d'.chains = d.chains) (hs : d'.stack = d.stack) :
    d'.tokens = d.tokens := by
  funext n
  rw [tokens, tokens, hc, hs]

theorem Indexed.settle (h : d.Indexed) (hchain : d.chains.find id = some chain) :
    (d.settle w id chain stack control).Indexed := by
  have hid := h.bound id chain hchain
  cases control with
  | goto pc => exact h.insert hid
  | suspend pc => exact h.insert hid
  | call child => exact h.insert hid
  | done =>
    unfold Daemon.settle
    cases chain.awaiting with
    | nil => exact h.erase
    | cons parent awaiting => exact h.insert hid
  | fail replies => exact h.erase

theorem sum_goTo (h : d.Indexed) (hchain : d.chains.find id = some chain)
    (hpc : chain.frame.pc.hasToken = false) (pc : Pc) :
    (d.chains.insert id (chain.goTo pc)).sum (Chain.tokens n) =
      d.chains.sum (Chain.tokens n) +
        if pc.hasToken ∧ chain.frame.entity.name = n then 1 else 0 := by
  have hsum : (d.chains.insert id (chain.goTo pc)).sum (Chain.tokens n) + chain.tokens n =
      d.chains.sum (Chain.tokens n) + (chain.goTo pc).tokens n :=
    OrdMap.sum_insert_of_some h.ordered hchain
  have hold := chain.tokens_of_not_hasToken (n := n) hpc
  have hnew : (chain.goTo pc).tokens n =
      (if pc.hasToken ∧ chain.frame.entity.name = n then 1 else 0) + chain.tokens n := by
    rw [hold]
    rfl
  omega

/-! ### The simulation -/

/-- The machine of the queues is where the daemon's queues are. -/
structure Matches (d : Daemon) (s : Queues String Nat) : Prop where
  indexed : d.Indexed
  queued : Queued d.world.queues d.chains
  queue : s.queue = d.world.queues
  tokens : s.tokens = d.tokens
  stack : Queues.Plain s.stack
  failed : s.failed = false

variable {s : Queues String Nat}

theorem Matches.of_same (h : Matches d s) (hi : d'.Indexed) (hq : Queued d'.world.queues d'.chains)
    (hw : d'.world.queues = d.world.queues) (ht : d'.tokens = d.tokens) :
    ∃ s', (Queues.machine String Nat).Reaches Always s s' ∧ Matches d' s' :=
  ⟨s, Reaches.refl s, hi, hq, h.queue.trans hw.symm, h.tokens.trans ht.symm, h.stack, h.failed⟩

theorem Matches.request (h : Matches d s) (hstack : d.stack = []) (method : Method)
    (parsed : Except Failure String) : ∃ s', (Queues.machine String Nat).Reaches Always s s' ∧
      Matches (d.request method parsed) s' := by
  have hnext : ∀ sent : List Sent, Indexed { d with sent, nextId := d.nextId + 1 } := fun _ =>
    ⟨h.indexed.ordered, fun id chain hc => (h.indexed.bound id chain hc).trans (Nat.lt_succ_self _)⟩
  unfold Daemon.request
  split
  · exact h.of_same (hnext _) h.queued rfl (tokens_congr rfl rfl)
  · split
    · exact h.of_same (hnext _) h.queued rfl (tokens_congr rfl rfl)
    · rename_i name _ entity _
      have hnone := h.indexed.find_nextId
      refine h.of_same ⟨h.indexed.ordered.insert, OrdMap.forall_find_insert (Nat.lt_succ_self _)
        (hnext []).bound⟩ ?_ rfl ?_
      · refine h.queued.congr fun k m => ?_
        by_cases hk : k = d.nextId
        · subst hk
          refine iff_of_false (not_waits (OrdMap.find_insert_self ..) (by simp)) ?_
          rintro ⟨chain, hc, -⟩
          rw [hnone] at hc
          cases hc
        · exact waits_congr (OrdMap.find_insert_ne _ _ hk)
      · funext m
        have hzero : Chain.tokens m ⟨method, name, ⟨entity, method, .enqueue⟩, []⟩ = 0 := by
          rw [Chain.tokens_of_not_hasToken _ rfl]
          rfl
        simp only [Daemon.tokens]
        rw [OrdMap.sum_insert_of_none hnone, hzero, hstack]
        rfl

/-- A frame past its queue keeps the tokens of its chain. -/
theorem Matches.settle (h : Matches d s) {o : Outcome} (hi : Turns d i id o stack)
    (hchain : d.chains.find id = some chain) (htok : chain.frame.pc.hasToken = true)
    (hw : w.queues = d.world.queues) (hkeeps : control.Keeps) :
    ∃ s', (Queues.machine String Nat).Reaches Always s s' ∧
      Matches (d.settle w id chain stack control) s' := by
  have hne : chain.frame.pc ≠ .waiting := by
    intro hwait
    rw [hwait] at htok
    cases htok
  refine h.of_same (h.indexed.settle hchain) ?_ (by rw [settle_world, hw]) ?_
  · rw [settle_world, hw]
    exact h.queued.congr fun k m => waits_settle hchain hne hkeeps
  · funext m
    rw [tokens_settle h.indexed hchain htok hkeeps, Daemon.tokens, hi.stackTokens]

/-- A frame that finds its queue free takes it. -/
theorem Matches.take (h : Matches d s) {o : Outcome} (hi : Turns d i id o stack)
    (hchain : d.chains.find id = some chain) (hpc : chain.frame.pc = .enqueue)
    (hheld : (d.world.queues chain.frame.entity.name).held = false) :
    ∃ s', (Queues.machine String Nat).Reaches Always s s' ∧
      Matches (d.settle (d.world.setQueue chain.frame.entity.name
        { held := true, queue := (d.world.queues chain.frame.entity.name).queue }) id chain stack
        (.goto chain.frame.method.entry)) s' := by
  have hnone : chain.frame.pc.hasToken = false := by rw [hpc]; rfl
  have hheld' : (s.queue chain.frame.entity.name).held = false := by rw [h.queue]; exact hheld
  obtain ⟨s', hs', hqueue, htokens, hplain, hfailed⟩ :=
    Queues.reaches_taken h.failed h.stack id hheld'
  refine ⟨s', hs', h.indexed.settle hchain, ?_, ?_, ?_, hplain, hfailed⟩
  · rw [settle_world]
    refine h.queued.setQueue (fun k m => ?_) rfl
    exact waits_settle hchain (by rw [hpc]; simp) (Method.hasToken_entry chain.frame.method)
  · rw [settle_world, hqueue, h.queue]
    rfl
  · rw [htokens]
    funext m
    have hsum := sum_goTo (n := m) h.indexed hchain hnone chain.frame.method.entry
    simp only [Method.hasToken_entry, true_and] at hsum
    have hold : s.tokens m = d.chains.sum (Chain.tokens m) + stackTokens m stack := by
      rw [h.tokens, Daemon.tokens, hi.stackTokens]
    simp only [Daemon.settle, Daemon.tokens, stackTokens_cons, Activity.tokens]
    rw [hsum]
    by_cases hm : m = chain.frame.entity.name
    · subst hm
      rw [Function.update_self, hold, if_pos rfl]
      omega
    · rw [Function.update_of_ne hm, hold, if_neg fun he => hm he.symm]
      omega

/-- A frame that finds it held is put behind the others. -/
theorem Matches.push (h : Matches d s) {o : Outcome} (hi : Turns d i id o stack)
    (hchain : d.chains.find id = some chain) (hpc : chain.frame.pc = .enqueue)
    (hheld : (d.world.queues chain.frame.entity.name).held = true) :
    ∃ s', (Queues.machine String Nat).Reaches Always s s' ∧
      Matches (d.settle (d.world.setQueue chain.frame.entity.name
        { held := true, queue := (d.world.queues chain.frame.entity.name).queue ++ [id] }) id chain
        stack (.suspend .waiting)) s' := by
  have hnone : chain.frame.pc.hasToken = false := by rw [hpc]; rfl
  have hheld' : (s.queue chain.frame.entity.name).held = true := by rw [h.queue]; exact hheld
  obtain ⟨s', hs', hqueue, htokens, hplain, hfailed⟩ :=
    Queues.reaches_queued h.failed h.stack id hheld'
  refine ⟨s', hs', h.indexed.settle hchain, ?_, ?_, ?_, hplain, hfailed⟩
  · rw [settle_world]
    exact h.queued.push hchain (by rw [hpc]; simp)
  · rw [settle_world, hqueue, h.queue]
    rfl
  · rw [htokens, h.tokens]
    funext m
    have hsum := sum_goTo (n := m) h.indexed hchain hnone .waiting
    simp only [Pc.hasToken, Bool.false_eq_true, false_and, if_false, Nat.add_zero] at hsum
    simp only [Daemon.settle, Daemon.tokens]
    rw [hsum, hi.stackTokens]

theorem Matches.turn (h : Matches d s) {o : Outcome} (hi : Turns d i id o stack)
    (hchain : d.chains.find id = some chain) (ht : Turn d.world id chain.frame o w control) :
    ∃ s', (Queues.machine String Nat).Reaches Always s s' ∧
      Matches (d.settle w id chain stack control) s' := by
  cases ht with
  | taken hpc hheld => exact h.take hi hchain hpc hheld
  | queued hpc hheld => exact h.push hi hchain hpc hheld
  | start hpc hs =>
    have htok : chain.frame.pc.hasToken = true := by rw [hpc]; rfl
    exact h.settle hi hchain htok (start_queues hs) (start_keeps hs)
  | stop hpc hs =>
    have htok : chain.frame.pc.hasToken = true := by rw [hpc]; rfl
    exact h.settle hi hchain htok (stop_queues hs) (stop_keeps hs)

theorem Matches.drop (h : Matches d s) (hstack : d.stack = .drop id n :: stack)
    (hd : Dropped d n stack d') : ∃ s', (Queues.machine String Nat).Reaches Always s s' ∧
      Matches d' s' := by
  have htokens : ∀ m, s.tokens m =
      d.chains.sum (Chain.tokens m) + ((if n = m then 1 else 0) + stackTokens m stack) := by
    intro m
    rw [h.tokens, Daemon.tokens, hstack, stackTokens_cons, Activity.tokens]
  have hpos : 0 < s.tokens n := by
    have hn := htokens n
    rw [if_pos rfl] at hn
    omega
  cases hd with
  | freed hheld hqueue =>
    obtain ⟨s', hs', hq, ht, hplain, hfailed⟩ := Queues.reaches_freed h.failed h.stack hpos
      (by rw [h.queue]; exact hheld) (by rw [h.queue]; exact hqueue)
    refine ⟨s', hs', ⟨h.indexed.ordered, h.indexed.bound⟩, ?_, ?_, ?_, hplain, hfailed⟩
    · exact h.queued.setQueue (fun k m => Iff.rfl) hqueue.symm
    · rw [hq, h.queue]
      rfl
    · rw [ht]
      funext m
      have hm' := htokens m
      by_cases hm : m = n
      · subst hm
        rw [if_pos rfl] at hm'
        rw [Function.update_self, hm', Daemon.tokens]
        dsimp only
        omega
      · rw [if_neg fun he => hm he.symm] at hm'
        rw [Function.update_of_ne hm, hm', Daemon.tokens]
        dsimp only
        omega
  | @handed k chain queue hheld hqueue hchain hpc =>
    obtain ⟨s', hs', hq, ht, hplain, hfailed⟩ := Queues.reaches_handed h.failed h.stack hpos
      (by rw [h.queue]; exact hheld) (by rw [h.queue]; exact hqueue)
    have hentry : chain.frame.method.entry ≠ .waiting := by
      cases chain.frame.method <;> simp [Method.entry]
    obtain ⟨hname, hqueued⟩ := h.queued.pop hqueue hchain hentry
    refine ⟨s', hs', h.indexed.insert (h.indexed.bound _ _ hchain), hqueued, ?_, ?_, hplain,
      hfailed⟩
    · rw [hq, h.queue]
      rfl
    · rw [ht]
      funext m
      have hm' := htokens m
      have hsum := sum_goTo (n := m) h.indexed hchain (by rw [hpc]; rfl) chain.frame.method.entry
      simp only [Method.hasToken_entry, true_and, hname] at hsum
      rw [hm', Daemon.tokens, stackTokens_cons, Activity.tokens, hsum]
      omega

/-- **The daemon is a run of the queues.** -/
theorem queues_simulation (parse : String → Option Json) :
    Simulation (machine parse) (Queues.machine String Nat) Always Matches := by
  refine ⟨?_⟩
  intro d i d' s hm _ hstep
  cases step_cases hstep with
  | request hs => exact hm.request hs _ _
  | call hs hserve =>
    exact hm.of_same ⟨hm.indexed.ordered, fun id chain hc =>
      (hm.indexed.bound id chain hc).trans (Nat.lt_succ_self _)⟩ hm.queued rfl (tokens_congr rfl rfl)
  | turn hi hchain hframe => exact hm.turn hi hchain (turn_cases hframe)
  | drop hs hdrop => exact hm.drop hs (drop_cases hdrop)

theorem start_matches (c : Config) : Matches (start c) Queues.init := by
  refine ⟨⟨List.Pairwise.nil, fun id chain h => nomatch h⟩, ⟨fun n => List.nodup_nil, ?_⟩,
    rfl, rfl, fun a ha => absurd ha List.not_mem_nil, rfl⟩
  intro n id
  refine iff_of_false List.not_mem_nil ?_
  rintro ⟨chain, h, -⟩
  cases h

/-! ### What follows for the daemon -/

variable {c : Config}

theorem reaches_matches (h : (machine parse).Reaches Always (start c) d) :
    ∃ s, Matches d s ∧ s.Ok := by
  obtain ⟨s, hs, hm⟩ := (queues_simulation parse).reaches h (start_matches c)
  exact ⟨s, hm, Queues.reaches_ok hs⟩

theorem reaches_indexed (h : (machine parse).Reaches Always (start c) d) : d.Indexed := by
  obtain ⟨s, hm, -⟩ := reaches_matches h
  exact hm.indexed

theorem reaches_queued (h : (machine parse).Reaches Always (start c) d) :
    Queued d.world.queues d.chains := by
  obtain ⟨s, hm, -⟩ := reaches_matches h
  exact hm.queued

/-- **A name is held exactly when one frame has its token.** -/
theorem tokens_eq (h : (machine parse).Reaches Always (start c) d) (n : String) :
    d.tokens n = if (d.world.queues n).held then 1 else 0 := by
  obtain ⟨s, hm, hok⟩ := reaches_matches h
  rw [← hm.tokens, ← hm.queue]
  exact (hok.name n).tokens

/-- Nobody waits for a name that is free. -/
theorem reaches_free (h : (machine parse).Reaches Always (start c) d)
    (hfree : (d.world.queues n).held = false) : (d.world.queues n).queue = [] := by
  obtain ⟨s, hm, hok⟩ := reaches_matches h
  rw [← hm.queue] at hfree ⊢
  exact (hok.name n).free (Queues.popped_plain hm.stack) hfree

theorem tokens_le_one (h : (machine parse).Reaches Always (start c) d) (n : String) :
    d.tokens n ≤ 1 := by
  rw [tokens_eq h n]
  split <;> simp

end Daemon

end Nonsense
