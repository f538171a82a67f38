import Nonsense.Daemon.Steps

/-!
# The daemon uses the queues as they are meant to be used

A frame has the token of its entity from the moment the queue lets it through
until its destructor has run.  `tokens` counts the tokens of a name that the
frames of a daemon have; `queues_simulation` says that with this count every step
of the daemon is a few steps of the queues.  So what holds of the queues in every
run holds here: `tokens_eq` is the form the other modules use.
-/

namespace Nonsense

/-- The frame is past its queue. -/
def Pc.hasToken : Pc → Bool
  | enqueue | waiting => false
  | _ => true

def Frame.tokens (n : String) (frame : Frame) : ℕ :=
  if frame.pc.hasToken ∧ frame.entity.name = n then 1 else 0

def Chain.tokens (n : String) (chain : Chain) : ℕ :=
  chain.frame.tokens n + chain.awaiting.countP fun entity => entity.name = n

def Activity.tokens (n : String) : Activity → ℕ
  | run _ => 0
  | drop _ name => if name = n then 1 else 0

/-- The turn ends at a point past the queue, if it ends at a point. -/
def Control.Keeps : Control → Prop
  | goto pc | suspend pc => pc.hasToken = true
  | _ => True

variable {n : String}

theorem Chain.tokens_of_hasToken (chain : Chain) (h : chain.frame.pc.hasToken = true) :
    chain.tokens n = (if chain.frame.entity.name = n then 1 else 0) +
      chain.awaiting.countP fun entity => entity.name = n := by
  simp [tokens, Frame.tokens, h]

theorem Chain.tokens_of_not_hasToken (chain : Chain) (h : chain.frame.pc.hasToken = false) :
    chain.tokens n = chain.awaiting.countP fun entity => entity.name = n := by
  simp [tokens, Frame.tokens, h]

theorem Chain.tokens_goTo (chain : Chain) {pc : Pc} (h : chain.frame.pc.hasToken = true)
    (hpc : pc.hasToken = true) : (chain.goTo pc).tokens n = chain.tokens n := by
  rw [tokens_of_hasToken chain h]
  exact tokens_of_hasToken (chain.goTo pc) hpc

theorem Method.hasToken_entry (method : Method) : method.entry.hasToken = true := by
  cases method <;> rfl

namespace Daemon

def stackTokens (n : String) (stack : List Activity) : ℕ :=
  stack.foldr (fun a k => a.tokens n + k) 0

/-- The tokens of `n`. -/
def tokens (d : Daemon) (n : String) : ℕ := d.chains.sum (Chain.tokens n) + stackTokens n d.stack

/-- The table of the chains is in order, and no chain has a number to come. -/
structure Indexed (d : Daemon) : Prop where
  ordered : d.chains.Ordered
  bound : ∀ id chain, d.chains.find id = some chain → id < d.nextId

variable {parse : String → Option Json} {d d' : Daemon} {i : Input}

theorem Indexed.find_nextId (h : d.Indexed) : d.chains.find d.nextId = none := by
  cases hc : d.chains.find d.nextId with
  | none => rfl
  | some chain => exact absurd (h.bound _ _ hc) (lt_irrefl _)

theorem Indexed.insert (h : d.Indexed) {id : Nat} {chain : Chain} {world : World}
    {stack : List Activity} {sent : List Sent} (hid : id < d.nextId) :
    Indexed { world, chains := d.chains.insert id chain, stack, sent, nextId := d.nextId } :=
  ⟨h.ordered.insert, OrdMap.forall_find_insert hid h.bound⟩

theorem Indexed.erase (h : d.Indexed) {id : Nat} {world : World} {stack : List Activity}
    {sent : List Sent} :
    Indexed { world, chains := d.chains.erase id, stack, sent, nextId := d.nextId } :=
  ⟨h.ordered.erase, fun k c hk => h.bound k c (OrdMap.find_of_find_erase hk)⟩

/-! ### Counting -/

theorem stackTokens_cons (a : Activity) (stack : List Activity) :
    stackTokens n (a :: stack) = a.tokens n + stackTokens n stack := rfl

theorem stackTokens_append (stack stack' : List Activity) :
    stackTokens n (stack ++ stack') = stackTokens n stack + stackTokens n stack' := by
  induction stack with
  | nil => exact (Nat.zero_add _).symm
  | cons a stack ih => rw [List.cons_append, stackTokens_cons, stackTokens_cons, ih, Nat.add_assoc]

theorem stackTokens_drops (id : Nat) (entities : List Entity) :
    stackTokens n (drops id entities) = entities.countP fun entity => entity.name = n := by
  induction entities with
  | nil => rfl
  | cons e entities ih =>
    rw [drops, List.map_cons, stackTokens_cons, List.countP_cons]
    show _ + stackTokens n (drops id entities) = _
    rw [ih, Activity.tokens]
    by_cases he : e.name = n <;> simp [he, Nat.add_comm]

/-! ### Turns keep the tokens -/

/-- **However a turn ends, the tokens of the chain stay**: what a frame that ends
had, its destruction has. -/
theorem tokens_settle (hd : d.Indexed) {w : World} {id : Nat} {chain : Chain}
    {stack : List Activity} {control : Control} (hchain : d.chains.find id = some chain)
    (htok : chain.frame.pc.hasToken = true) (hkeeps : control.Keeps) :
    (d.settle w id chain stack control).tokens n =
      d.chains.sum (Chain.tokens n) + stackTokens n stack := by
  have hold := Chain.tokens_of_hasToken (n := n) chain htok
  -- the chain is replaced by one with the same tokens, or by its last ones on the stack
  have hreplace : ∀ chain' : Chain, (d.chains.insert id chain').sum (Chain.tokens n) +
      chain.tokens n = d.chains.sum (Chain.tokens n) + chain'.tokens n :=
    fun chain' => OrdMap.sum_insert_of_some hd.ordered hchain
  have herase : (d.chains.erase id).sum (Chain.tokens n) + chain.tokens n =
      d.chains.sum (Chain.tokens n) := OrdMap.sum_erase hd.ordered hchain
  cases control with
  | goto pc =>
    have hsum := hreplace (chain.goTo pc)
    have hnew := chain.tokens_goTo (n := n) htok hkeeps
    simp only [settle, tokens, stackTokens_cons, Activity.tokens]
    omega
  | suspend pc =>
    have hsum := hreplace (chain.goTo pc)
    have hnew := chain.tokens_goTo (n := n) htok hkeeps
    simp only [settle, tokens]
    omega
  | call child =>
    have hsum := hreplace (chain.enter child)
    have hnew : (chain.enter child).tokens n = chain.tokens n := by
      rw [hold, Chain.tokens_of_not_hasToken _ rfl, Chain.enter, List.countP_cons, Nat.add_comm]
      simp only [decide_eq_true_eq]
    simp only [settle, tokens, stackTokens_cons, Activity.tokens]
    omega
  | done =>
    simp only [settle]
    cases ha : chain.awaiting with
    | nil =>
      rw [ha, List.countP_nil] at hold
      simp only [tokens, send_chains, send_stack, stackTokens_cons, Activity.tokens]
      omega
    | cons parent awaiting =>
      have hsum := hreplace (chain.back parent awaiting)
      have hnew : (chain.back parent awaiting).tokens n = (if parent.name = n then 1 else 0) +
          awaiting.countP fun entity => entity.name = n := Chain.tokens_of_hasToken _ rfl
      rw [ha, List.countP_cons] at hold
      simp only [decide_eq_true_eq] at hold
      simp only [tokens, stackTokens_cons, Activity.tokens]
      omega
  | fail replies =>
    have hdrops := stackTokens_drops (n := n) id (chain.awaiting.reverse ++ [chain.frame.entity])
    rw [List.countP_append, List.countP_reverse, List.countP_singleton] at hdrops
    simp only [decide_eq_true_eq] at hdrops
    simp only [settle, tokens, send_chains, send_stack, stackTokens_append]
    omega

theorem Turns.stackTokens {id : Nat} {o : Outcome} {stack : List Activity}
    (h : Turns d i id o stack) : stackTokens n d.stack = stackTokens n stack := by
  cases h with
  | wake hs => rw [hs]
  | tick hs => rw [hs, stackTokens_cons, Activity.tokens, Nat.zero_add]

theorem start_keeps {w w' : World} {e : Entity} {pc : StartPc} {o : Outcome} {control : Control}
    (h : Entity.StartStep w e pc o w' control) : control.Keeps := by
  cases h <;> first | rfl | trivial

theorem stop_keeps {w w' : World} {e : Entity} {pc : StopPc} {o : Outcome} {control : Control}
    (h : Entity.StopStep w e pc o w' control) : control.Keeps := by
  cases h <;> first | rfl | trivial

/-- A frame that is past its queue is in one of the two coroutines. -/
theorem Turn.of_hasToken {w w' : World} {id : Nat} {frame : Frame} {o : Outcome}
    {control : Control} (h : Turn w id frame o w' control) (htok : frame.pc.hasToken = true) :
    (∃ pc, frame.pc = .start pc ∧ Entity.StartStep w frame.entity pc o w' control) ∨
      ∃ pc, frame.pc = .stop pc ∧ Entity.StopStep w frame.entity pc o w' control := by
  cases h with
  | taken hpc _ => rw [hpc] at htok; cases htok
  | queued hpc _ => rw [hpc] at htok; cases htok
  | start hpc hs => exact Or.inl ⟨_, hpc, hs⟩
  | stop hpc hs => exact Or.inr ⟨_, hpc, hs⟩

theorem settled_pc {chain chain' : Chain} {control : Control} (hkeeps : control.Keeps)
    (h : chain.settled control = some chain') :
    chain'.frame.pc.hasToken = true ∨ chain'.frame.pc = .enqueue := by
  unfold Chain.settled at h
  split at h
  · cases h; exact Or.inl hkeeps
  · cases h; exact Or.inl hkeeps
  · cases h; exact Or.inr rfl
  · split at h
    · cases h
    · cases h; exact Or.inl rfl
  · cases h

theorem start_queues {w w' : World} {e : Entity} {pc : StartPc} {o : Outcome} {control : Control}
    (h : Entity.StartStep w e pc o w' control) : w'.queues = w.queues := by
  cases h with
  | emplace => unfold World.emplace; split <;> rfl
  | send _ => unfold World.update; split <;> rfl
  | acknowledged => unfold World.update; split <;> rfl
  | _ => rfl

theorem stop_queues {w w' : World} {e : Entity} {pc : StopPc} {o : Outcome} {control : Control}
    (h : Entity.StopStep w e pc o w' control) : w'.queues = w.queues := by
  cases h with
  | shutdown _ => unfold World.update; split <;> rfl
  | _ => rfl

/-! ### Who waits -/

/-- The chain `id` waits for the token of `n`. -/
def Waits (chains : OrdMap Nat Chain) (id : Nat) (n : String) : Prop :=
  ∃ chain, chains.find id = some chain ∧ chain.frame.pc = .waiting ∧ chain.frame.entity.name = n

/-- The queues hold those who wait, once each. -/
structure Queued (queues : String → Queue Nat) (chains : OrdMap Nat Chain) : Prop where
  nodup : ∀ n, (queues n).queue.Nodup
  mem : ∀ n id, id ∈ (queues n).queue ↔ Waits chains id n

variable {chains chains' : OrdMap Nat Chain} {id k : Nat} {chain : Chain}

theorem waits_congr (h : chains'.find k = chains.find k) : Waits chains' k n ↔ Waits chains k n := by
  unfold Waits
  rw [h]

theorem not_waits (h : chains.find k = some chain) (hpc : chain.frame.pc ≠ .waiting) :
    ¬ Waits chains k n := by
  rintro ⟨chain', h', hpc', -⟩
  rw [h] at h'
  cases h'
  exact hpc hpc'

/-- A turn of a frame that has the token makes nobody wait. -/
theorem waits_settle {w : World} {stack : List Activity} {control : Control}
    (hchain : d.chains.find id = some chain) (hpc : chain.frame.pc ≠ .waiting)
    (hkeeps : control.Keeps) :
    Waits (d.settle w id chain stack control).chains k n ↔ Waits d.chains k n := by
  by_cases hk : k = id
  · subst hk
    refine iff_of_false ?_ (not_waits hchain hpc)
    rintro ⟨chain', h', hpc', -⟩
    rw [find_settle, if_pos rfl] at h'
    rcases settled_pc hkeeps h' with hp | hp
    · rw [hpc'] at hp; cases hp
    · rw [hpc'] at hp; cases hp
  · exact waits_congr (by rw [find_settle, if_neg hk])

/-- A queue whose waiters stay may be taken or given up. -/
theorem Queued.setQueue {w : World} {q : Queue Nat} (hq : Queued w.queues chains)
    (hw : ∀ k n, Waits chains' k n ↔ Waits chains k n) (h : q.queue = (w.queues n).queue) :
    Queued (w.setQueue n q).queues chains' := by
  have hqueue : ∀ m, ((w.setQueue n q).queues m).queue = (w.queues m).queue := by
    intro m
    by_cases hm : m = n
    · subst hm
      simpa using h
    · simp [World.setQueue_ne hm]
  refine ⟨fun m => hqueue m ▸ hq.nodup m, ?_⟩
  intro m k
  rw [hqueue m, hw k m]
  exact hq.mem m k

theorem Queued.congr {queues : String → Queue Nat} (hq : Queued queues chains)
    (hw : ∀ k n, Waits chains' k n ↔ Waits chains k n) : Queued queues chains' :=
  ⟨hq.nodup, fun n k => (hq.mem n k).trans (hw k n).symm⟩

/-- Somebody comes to wait. -/
theorem Queued.push {w : World} (hq : Queued w.queues chains) (hchain : chains.find id = some chain)
    (hpc : chain.frame.pc ≠ .waiting) :
    Queued (w.setQueue chain.frame.entity.name
      { held := true, queue := (w.queues chain.frame.entity.name).queue ++ [id] }).queues
      (chains.insert id (chain.goTo .waiting)) := by
  have hnot : ∀ n, id ∉ (w.queues n).queue := by
    intro n hid
    exact not_waits hchain hpc ((hq.mem n id).mp hid)
  refine ⟨?_, ?_⟩
  · intro n
    by_cases hn : n = chain.frame.entity.name
    · subst hn
      simpa [List.nodup_append, hq.nodup] using fun a ha he => hnot _ (he ▸ ha)
    · simpa [World.setQueue_ne hn] using hq.nodup n
  · intro n k
    have hmem := hq.mem n k
    by_cases hk : k = id
    · subst hk
      have hself : Waits (chains.insert k (chain.goTo .waiting)) k n ↔
          chain.frame.entity.name = n := by
        unfold Waits
        rw [OrdMap.find_insert_self]
        simp [Chain.goTo]
      rw [hself]
      by_cases hn : n = chain.frame.entity.name
      · subst hn
        simp
      · simpa [World.setQueue_ne hn, hnot] using fun h => hn h.symm
    · rw [waits_congr (OrdMap.find_insert_ne _ _ hk)]
      by_cases hn : n = chain.frame.entity.name
      · subst hn
        simpa [hk] using hmem
      · simpa [World.setQueue_ne hn] using hmem

/-- The one in front is let through. -/
theorem Queued.pop {w : World} {queue : List Nat} (hq : Queued w.queues chains)
    (hqueue : (w.queues n).queue = id :: queue) (hchain : chains.find id = some chain)
    {pc : Pc} (hpc : pc ≠ .waiting) :
    chain.frame.entity.name = n ∧ Queued (w.setQueue n { held := true, queue }).queues
      (chains.insert id (chain.goTo pc)) := by
  have hnodup := hq.nodup n
  rw [hqueue] at hnodup
  obtain ⟨hid, hnodup⟩ := List.nodup_cons.mp hnodup
  obtain ⟨chain', hchain', -, hname⟩ := (hq.mem n id).mp (by rw [hqueue]; exact List.mem_cons_self ..)
  rw [hchain] at hchain'
  cases hchain'
  have hgone : ∀ m, ¬ Waits (chains.insert id (chain.goTo pc)) id m :=
    fun m => not_waits (OrdMap.find_insert_self ..) hpc
  refine ⟨hname, ?_, ?_⟩
  · intro m
    by_cases hm : m = n
    · subst hm
      simpa using hnodup
    · simpa [World.setQueue_ne hm] using hq.nodup m
  · intro m k
    have hmem := hq.mem m k
    by_cases hk : k = id
    · subst hk
      refine iff_of_false ?_ (hgone m)
      by_cases hm : m = n
      · subst hm
        simpa using hid
      · rw [World.setQueue_ne hm, hmem]
        rintro ⟨chain', hchain', -, hm'⟩
        rw [hchain] at hchain'
        cases hchain'
        exact hm (hm'.symm.trans hname)
    · rw [waits_congr (OrdMap.find_insert_ne _ _ hk)]
      by_cases hm : m = n
      · subst hm
        simpa [hqueue, hk] using hmem
      · simpa [World.setQueue_ne hm] using hmem

end Daemon

end Nonsense
