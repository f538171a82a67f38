import Nonsense.Daemon.Chains

/-!
# References into the running configuration

A commit that succeeds replaces the tree of the running configuration, and a
`_self` that was taken before it refers to a tree that is gone.  `entity::start`
reads through `_self` when it looks for the uplink and when it goes through the
components, with up to five suspensions since the reference was made, and in each
of them a commit can come in.

What such a read gives, C++ leaves open.  `Entity.start` takes the tree that was there
when the reference was made, which is no more than a convention.  A result about what a
start reads is a result about the code only where no commit succeeds while a start is
under way (`Replaces`).

`reads_current`: there, every read is of the current tree; and the first commit that does
succeed leaves a start that refers to the tree that is gone.
-/

namespace Nonsense

/-- The turn reads through the `_self` of the frame's entity. -/
def Frame.readsSelf (w : World) (frame : Frame) (o : Outcome) : Bool :=
  match frame.pc, o with
  | .start .check, .ok => (w.live.find frame.entity.name).isNone
  | .start (.unitJob _ .scope), .result text => text = "done"
  | .start (.components _ _), .ok => true
  | _, _ => false

namespace Daemon

open Machine

variable {parse : String → Option Json} {d d' : Daemon} {i : Input} {id : Nat} {chain : Chain}
  {c : Config} {e : Entity}

/-- `entity::start` reads through the `_self` of `e`. -/
def Reads (d : Daemon) (i : Input) (e : Entity) : Prop :=
  ∃ id o stack chain, Turns d i id o stack ∧ d.chains.find id = some chain ∧
    chain.frame.readsSelf d.world o = true ∧ chain.frame.entity = e

/-- `e` is the entity of an `entity::start` that is under way. -/
def Starting (d : Daemon) (e : Entity) : Prop :=
  ∃ id chain, d.chains.find id = some chain ∧ chain.frame.method = .start ∧ e ∈ chain.entities

/-- A commit succeeds while a start is under way. -/
def Replaces (parse : String → Option Json) (d : Daemon) (i : Input) : Prop :=
  (∃ call, i = .call call ∧ d.world.manager.CommitSucceeds parse call) ∧ ∃ e, d.Starting e

/-- A call to a transaction comes in only where nothing is under way. -/
def calm (d : Daemon) : Input → Bool
  | .call _ => d.chains.isEmpty
  | _ => true

theorem not_replaces_of_calm (parse : String → Option Json) (h : d.calm i = true) :
    ¬ Replaces parse d i := by
  rintro ⟨⟨call, rfl, -⟩, e, id, chain, hchain, -⟩
  rw [calm, List.isEmpty_iff] at h
  rw [h] at hchain
  cases hchain

/-- No start has a reference to a tree that is gone. -/
def Current (d : Daemon) : Prop := ∀ e, d.Starting e → e.generation = d.world.manager.generation

theorem Frame.readsSelf_pc {frame : Frame} {w : World} {o : Outcome}
    (h : frame.readsSelf w o = true) : ∃ pc, frame.pc = .start pc := by
  unfold Frame.readsSelf at h
  split at h
  · rename_i hpc; exact ⟨_, hpc⟩
  · rename_i hpc; exact ⟨_, hpc⟩
  · rename_i hpc; exact ⟨_, hpc⟩
  · cases h

theorem call_chains {call : Call} (hstep : (machine parse).step d (.call call) = some d') :
    d'.chains = d.chains ∧ ∃ replies,
      d.world.manager.serve parse call = some (.replied d'.world.manager replies) := by
  cases step_cases hstep with
  | call _ hserve => exact ⟨rfl, _, hserve⟩
  | turn hturns _ _ => cases hturns

/-- The generation goes on with a commit that succeeds, and only with one. -/
theorem step_generation (hstep : (machine parse).step d i = some d') :
    d'.world.manager.generation = d.world.manager.generation ∨
      (d'.chains = d.chains ∧ ∃ call, i = .call call ∧
        d.world.manager.CommitSucceeds parse call) := by
  rcases step_manager hstep with h | ⟨call, replies, rfl, hserve⟩
  · exact Or.inl (by rw [h])
  · by_cases hcommit : d.world.manager.CommitSucceeds parse call
    · exact Or.inr ⟨(call_chains hstep).1, call, rfl, hcommit⟩
    · exact Or.inl ((Transactions.serve_generation hserve).1 hcommit)

/-- A chain whose turn is over starts what it has started, and an entity that was
just looked up. -/
theorem starting_settled {o : Outcome} {w : World} {control : Control} {chain' : Chain}
    (hshape : chain.Shaped d.world.manager.running.configuration)
    (ht : Turn d.world id chain.frame o w control) (hs : chain.settled control = some chain')
    (hmethod : chain'.frame.method = .start) (he : e ∈ chain'.entities) :
    (chain.frame.method = .start ∧ e ∈ chain.entities) ∨
      e.generation = d.world.manager.generation := by
  have hof := turn_of ht hshape.pc
  unfold Chain.settled at hs
  split at hs
  · cases hs
    exact Or.inl ⟨hmethod, he⟩
  · cases hs
    exact Or.inl ⟨hmethod, he⟩
  · cases hs
    obtain ⟨u, -, -, -, hget⟩ := turn_call ht
    rcases List.mem_cons.mp he with rfl | he
    · exact Or.inr (tryGet_eq_some hget).2.2
    · exact Or.inl ⟨hof, he⟩
  · split at hs
    · cases hs
    · rename_i parent awaiting hawaiting
      cases hs
      have hm := hshape.method
      rw [hawaiting, if_neg (List.cons_ne_nil _ _)] at hm
      refine Or.inl ⟨hm.1, ?_⟩
      rw [Chain.entities, hawaiting]
      exact List.mem_cons_of_mem _ he
  · cases hs

theorem current_step (h : d.Current) (hd : (machine parse).Reaches Always (start c) d)
    (hi : ¬ Replaces parse d i) (hstep : (machine parse).step d i = some d') : d'.Current := by
  rintro e ⟨id, chain, hchain, hmethod, he⟩
  rcases step_generation hstep with hgen | ⟨hsame, hcommit⟩
  · rw [hgen]
    cases step_became hstep hchain with
    | opened _ _ hget =>
      rcases List.mem_singleton.mp he with rfl
      exact (tryGet_eq_some hget).2.2
    | kept hold => exact h e ⟨id, chain, hold, hmethod, he⟩
    | turned _ hold ht hs =>
      rcases starting_settled (reaches_shaped hd hold) ht hs hmethod he with hstarting | hnew
      · exact h e ⟨id, _, hold, hstarting⟩
      · exact hnew
    | resumed hold _ => exact h e ⟨id, _, hold, hmethod, he⟩
  · -- nothing is under way when a commit succeeds
    rw [hsame] at hchain
    exact absurd ⟨hcommit, e, id, chain, hchain, hmethod, he⟩ hi

theorem reaches_current
    (h : (machine parse).Reaches (fun d i => ¬ Replaces parse d i) (start c) d) : d.Current := by
  refine h.invariant_of_reaches (I := Current) ?_ fun d i d' hd ih hi hstep => ?_
  · rintro e ⟨id, chain, hchain, -⟩
    cases hchain
  · exact current_step ih (hd.mono fun _ _ _ => trivial) hi hstep

theorem Reads.starting (h : Reads d i e) (hd : (machine parse).Reaches Always (start c) d) :
    d.Starting e := by
  obtain ⟨id, o, stack, chain, -, hchain, hreads, rfl⟩ := h
  obtain ⟨pc, hpc⟩ := Frame.readsSelf_pc hreads
  have hof := (reaches_shaped hd hchain).pc
  rw [hpc] at hof
  exact ⟨id, chain, hchain, hof, List.mem_cons_self ..⟩

/-- **Reads through `_self`** are of the current tree, in a run in which no commit
succeeds while a start is under way; and the first such commit leaves a start with
a reference to the tree it has replaced. -/
theorem reads_current
    (h : (machine parse).Reaches (fun d i => ¬ Replaces parse d i) (start c) d) :
    (∀ i e, Reads d i e → e.generation = d.world.manager.generation) ∧
      ∀ i d', (machine parse).step d i = some d' → Replaces parse d i →
        ∃ e, d'.Starting e ∧ e.generation ≠ d'.world.manager.generation := by
  have hd : (machine parse).Reaches Always (start c) d := h.mono fun _ _ _ => trivial
  refine ⟨fun i e he => reaches_current h e (he.starting hd), ?_⟩
  rintro i d' hstep ⟨⟨call, rfl, hcommit⟩, e, he⟩
  obtain ⟨hsame, replies, hserve⟩ := call_chains hstep
  have hgen := (Transactions.serve_generation hserve).2 hcommit
  refine ⟨e, ?_, ?_⟩
  · obtain ⟨id, chain, hchain, hstarting⟩ := he
    exact ⟨id, chain, hsame ▸ hchain, hstarting⟩
  · have hold := reaches_current h e he
    omega

/-- A switch `b` is added in a transaction, and committed. -/
def addB : List Input :=
  [.call (.new (.ok ()) [1] (.uid 0) true),
    .call (.add 1 (.uid 0) (.ok ("b", [⟨"network.role", "switch"⟩]))),
    .call (.commit (.ok 1) (.uid 0))]

/-- `b` is added, and started up to its check. -/
def checkB : List Input := addB ++ [.request .start (.ok "b"), .tick .ok]

theorem reads_current_checkB :
    ∃ d, loadAndCheck (fun _ => none) calm switchFile checkB = some d ∧
      d.world.manager.generation = 1 ∧
      ∃ e, Reads d (.tick .ok) e ∧ e.name = "b" ∧ e.generation = 1 := by
  have hrun : (loadAndCheck (fun _ => none) calm switchFile checkB).any (fun d =>
        d.stack = [.run 3] ∧ d.world.manager.generation = 1 ∧ (d.chains.find 3).any fun chain =>
          chain.frame.entity.name = "b" ∧ chain.frame.readsSelf d.world .ok) = true := by
    decide +kernel
  obtain ⟨d, hd, hlast⟩ := (Option.any_eq_true ..).mp hrun
  obtain ⟨hstack, hgen, hchain⟩ := of_decide_eq_true hlast
  obtain ⟨chain, hchain, hat⟩ := (Option.any_eq_true ..).mp hchain
  obtain ⟨hname, hat⟩ := of_decide_eq_true hat
  obtain ⟨c, -, hinputs⟩ := loadAndCheck_eq_some_iff.mp hd
  have hreads : Reads d (.tick .ok) chain.frame.entity :=
    ⟨3, .ok, [], chain, .tick hstack, hchain, hat, rfl⟩
  have hreaches := (reaches_of_runChecked hinputs).mono fun _ _ => not_replaces_of_calm fun _ => none
  exact ⟨d, hd, hgen, _, hreads, hname, hgen ▸ (reads_current hreaches).1 _ _ hreads⟩

/-- `a` is started; another client adds `b` while the first unit of `a` is being
started; then the units of `a` are started. -/
def commitWhileStarting : List Input :=
  .request .start (.ok "a") :: launch 1 ++ addB ++ units 0

/-- **A commit between the units of a start**: the components are then read through
a reference into the tree that the commit has freed. -/
theorem reads_stale :
    ¬ ∀ (parse : String → Option Json) (j : Json) (inputs : List Input) (d : Daemon) (i : Input)
      (e : Entity), loadAndRun parse j inputs = some d → Reads d i e →
        e.generation = d.world.manager.generation := by
  intro h
  have hrun : (loadAndRun (fun _ => none) switchFile commitWhileStarting).any (fun d =>
      d.stack = [.run 0] ∧ d.world.manager.generation = 1 ∧ (d.chains.find 0).any fun chain =>
        chain.frame.entity.generation = 0 ∧ chain.frame.readsSelf d.world .ok) = true := by
    decide +kernel
  obtain ⟨d, hd, hlast⟩ := (Option.any_eq_true ..).mp hrun
  obtain ⟨hstack, hgen, hchain⟩ := of_decide_eq_true hlast
  obtain ⟨chain, hchain, hat⟩ := (Option.any_eq_true ..).mp hchain
  obtain ⟨hold, hat⟩ := of_decide_eq_true hat
  have hsame := h _ _ _ d _ _ hd ⟨0, .ok, [], chain, .tick hstack, hchain, hat, rfl⟩
  omega

end Daemon

end Nonsense
