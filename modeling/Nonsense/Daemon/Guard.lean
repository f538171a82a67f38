import Nonsense.Daemon.Holders

/-!
# What a token protects

What concerns a name, its entry in `_live_entities` and its processes, is touched
only by the coroutine that has the token of the name.  A `Guard` says what is known
of it: `frame` while a frame is at a point past the queue, `caller` while a frame
awaits the start of its uplink, and `free` while no frame has the token.

`Guard.reaches` is the rule: to know that much in every state, it is enough to look
at one turn of a frame that has the token.
-/

namespace Nonsense

/-- The worlds agree on what concerns `n`. -/
structure World.Same (n : String) (w w' : World) : Prop where
  live : w'.live.find n = w.live.find n
  processes : ∀ pid p, p.name = n → (w'.processes.find pid = some p ↔ w.processes.find pid = some p)

/-- No entity is lost or changed. -/
def World.Grows (w w' : World) : Prop :=
  Config.Grows w.manager.running.configuration w'.manager.running.configuration

structure Guard where
  frame : World → Entity → Pc → Prop
  caller : World → String → Prop
  free : World → String → Prop

namespace Guard

/-- What is known once a turn of a frame of `e` is over. -/
def after (G : Guard) (w : World) (e : Entity) : Control → Prop
  | .goto pc | .suspend pc => G.frame w e pc
  | .call _ => G.caller w e.name
  | .done | .fail _ => G.free w e.name

/-- What is known does not depend on other names, and is handed on with the token. -/
structure Lawful (G : Guard) : Prop where
  frame : ∀ {w w' : World} {e : Entity} {pc : Pc}, w.Same e.name w' → w.Grows w' →
    G.frame w e pc → G.frame w' e pc
  caller : ∀ {w w' : World} {n : String}, w.Same n w' → w.Grows w' → G.caller w n → G.caller w' n
  free : ∀ {w w' : World} {n : String}, w.Same n w' → w.Grows w' → G.free w n → G.free w' n
  entry : ∀ {w : World} {e : Entity} (method : Method), G.free w e.name → G.frame w e method.entry
  back : ∀ {w : World} {e : Entity}, G.caller w e.name → G.frame w e (.start .socketpair)
  drop : ∀ {w : World} {n : String}, G.caller w n → G.free w n

/-- What the guard says holds in `d`. -/
structure Kept (G : Guard) (d : Daemon) : Prop where
  frame : ∀ id chain, d.chains.find id = some chain → chain.frame.pc.hasToken = true →
    G.frame d.world chain.frame.entity chain.frame.pc
  caller : ∀ id chain, d.chains.find id = some chain → ∀ e ∈ chain.awaiting,
    G.caller d.world e.name
  free : ∀ n, (∀ id chain, d.chains.find id = some chain → ¬ chain.Has n) → G.free d.world n

end Guard

namespace World

variable {w w' w'' : World} {n m : String}

theorem Same.refl (n : String) (w : World) : w.Same n w := ⟨rfl, fun _ _ _ => Iff.rfl⟩

theorem Grows.refl (w : World) : w.Grows w := Config.Grows.refl _

theorem same_setQueue {q : Queue Nat} : w.Same n (w.setQueue m q) := ⟨rfl, fun _ _ _ => Iff.rfl⟩

theorem grows_of_manager (h : w'.manager = w.manager) : w.Grows w' := by
  unfold World.Grows
  rw [h]
  exact Config.Grows.refl _

end World

namespace Daemon

open Machine

variable {parse : String → Option Json} {C : Daemon → Input → Prop} {d d' : Daemon} {i : Input}
  {id k : Nat} {n : String} {chain : Chain} {stack : List Activity} {w : World}
  {control : Control} {o : Outcome} {c : Config} {G : Guard}

/-! ### Steps of frames without a token -/

/-- No frame has got a token, and none has given one up. -/
structure Quiet (d d' : Daemon) : Prop where
  same : ∀ n, d.world.Same n d'.world
  grows : d.world.Grows d'.world
  frame : ∀ id chain', d'.chains.find id = some chain' → chain'.frame.pc.hasToken = true →
    ∃ chain, d.chains.find id = some chain ∧ chain.frame = chain'.frame
  awaiting : ∀ id chain', d'.chains.find id = some chain' → ∀ e ∈ chain'.awaiting,
    ∃ chain, d.chains.find id = some chain ∧ e ∈ chain.awaiting
  has : ∀ id chain, d.chains.find id = some chain →
    ∃ chain', d'.chains.find id = some chain' ∧ ∀ n, chain.Has n → chain'.Has n

theorem Quiet.of_chains (hsame : ∀ n, d.world.Same n d'.world) (hgrows : d.world.Grows d'.world)
    (hchains : d'.chains = d.chains) : Quiet d d' :=
  ⟨hsame, hgrows, fun _ chain' h _ => ⟨chain', hchains ▸ h, rfl⟩,
    fun _ chain' h _ he => ⟨chain', hchains ▸ h, he⟩,
    fun _ chain h => ⟨chain, hchains ▸ h, fun _ hn => hn⟩⟩

theorem kept_quiet (h : G.Kept d) (hG : G.Lawful) (hq : Quiet d d') :
    G.Kept d' := by
  refine ⟨?_, ?_, ?_⟩
  · intro id chain' hchain' htok
    obtain ⟨chain, hchain, hframe⟩ := hq.frame id chain' hchain' htok
    rw [← hframe] at htok ⊢
    exact hG.frame (hq.same _) hq.grows (h.frame id chain hchain htok)
  · intro id chain' hchain' e he
    obtain ⟨chain, hchain, he'⟩ := hq.awaiting id chain' hchain' e he
    exact hG.caller (hq.same _) hq.grows (h.caller id chain hchain e he')
  · intro n hno
    refine hG.free (hq.same n) hq.grows (h.free n fun id chain hchain hhas => ?_)
    obtain ⟨chain', hchain', hmono⟩ := hq.has id chain hchain
    exact hno id chain' hchain' (hmono n hhas)

theorem request_quiet (hd : d.Indexed) (method : Method) (parsed : Except Failure String) :
    Quiet d (d.request method parsed) := by
  unfold request
  split
  · exact .of_chains (fun n => .refl n _) (.refl _) rfl
  · split
    · exact .of_chains (fun n => .refl n _) (.refl _) rfl
    · have hfind : ∀ (k : Nat) (new : Chain), (d.chains.insert d.nextId new).find k =
          if k = d.nextId then some new else d.chains.find k := fun k new => OrdMap.find_insert ..
      refine ⟨fun n => .refl n _, .refl _, ?_, ?_, fun k chain h => ⟨chain, ?_, fun _ hn => hn⟩⟩
      · intro k chain' h htok
        rw [hfind] at h
        split_ifs at h
        · cases h
          cases htok
        · exact ⟨chain', h, rfl⟩
      · intro k chain' h e he
        rw [hfind] at h
        split_ifs at h
        · cases h
          cases he
        · exact ⟨chain', h, he⟩
      · have hlt := hd.bound k chain h
        rw [hfind, if_neg hlt.ne, h]

/-- Somebody comes to wait. -/
theorem queued_quiet (hchain : d.chains.find id = some chain) (hpc : chain.frame.pc = .enqueue)
    {q : Queue Nat} : Quiet d (d.settle (d.world.setQueue n q) id chain stack (.suspend .waiting)) := by
  have hno : chain.frame.pc.hasToken = false := by rw [hpc]; rfl
  refine ⟨fun m => World.same_setQueue, World.grows_of_manager rfl, ?_, ?_, ?_⟩
  · intro k chain' h htok
    rw [find_settle] at h
    split_ifs at h with hk
    · cases h
      cases htok
    · exact ⟨chain', h, rfl⟩
  · intro k chain' h e he
    rw [find_settle] at h
    split_ifs at h with hk
    · cases h
      exact ⟨chain, hk ▸ hchain, he⟩
    · exact ⟨chain', h, he⟩
  · intro k chain' h
    rw [find_settle]
    split_ifs with hk
    · rw [hk, hchain] at h
      cases h
      refine ⟨_, rfl, ?_⟩
      intro m hm
      rcases hm with ⟨htok, -⟩ | hm
      · rw [hno] at htok
        cases htok
      · exact Or.inr hm
    · exact ⟨chain', h, fun _ hm => hm⟩

/-! ### A frame gets its token -/

theorem kept_enter (h : G.Kept d) (hG : G.Lawful) (hchain : d.chains.find id = some chain)
    (hpc : chain.frame.pc.hasToken = false)
    (hfree : ∀ k chain', d.chains.find k = some chain' → ¬ chain'.Has chain.frame.entity.name)
    (hsame : ∀ n, d.world.Same n d'.world) (hgrows : d.world.Grows d'.world)
    (hfind : ∀ k, d'.chains.find k =
      if k = id then some (chain.goTo chain.frame.method.entry) else d.chains.find k) :
    G.Kept d' := by
  refine ⟨?_, ?_, ?_⟩
  · intro k chain' hk htok
    rw [hfind] at hk
    split_ifs at hk with hki
    · cases hk
      exact hG.entry _ (hG.free (hsame _) hgrows (h.free _ hfree))
    · exact hG.frame (hsame _) hgrows (h.frame k chain' hk htok)
  · intro k chain' hk e he
    rw [hfind] at hk
    split_ifs at hk with hki
    · cases hk
      exact hG.caller (hsame _) hgrows (h.caller id chain hchain e he)
    · exact hG.caller (hsame _) hgrows (h.caller k chain' hk e he)
  · intro n hno
    refine hG.free (hsame n) hgrows (h.free n fun k chain' hk hhas => ?_)
    by_cases hki : k = id
    · subst hki
      rw [hchain] at hk
      cases hk
      rcases hhas with ⟨htok, -⟩ | hhas
      · rw [hpc] at htok
        cases htok
      · have hnew : d'.chains.find k = some (chain.goTo chain.frame.method.entry) := by
          rw [hfind, if_pos rfl]
        exact hno k _ hnew (Or.inr hhas)
    · exact hno k chain' (by rw [hfind, if_neg hki, hk]) hhas

/-! ### A frame with a token has its turn -/

/-- The other frames have other tokens. -/
theorem name_ne (hd : (machine parse).Reaches Always (start c) d)
    (hchain : d.chains.find id = some chain) (htok : chain.frame.pc.hasToken = true)
    {chain' : Chain} (hk : d.chains.find k = some chain') (hki : k ≠ id) (hhas : chain'.Has n) :
    n ≠ chain.frame.entity.name := by
  rintro rfl
  exact hki (has_unique hd hk hhas hchain (Or.inl ⟨htok, rfl⟩))

/-- The chain after its turn. -/
theorem after_settled {chain' : Chain} (hG : G.Lawful)
    (hawaiting : ∀ e ∈ chain.awaiting, G.caller w e.name)
    (hafter : G.after w chain.frame.entity control) (hs : chain.settled control = some chain') :
    (chain'.frame.pc.hasToken = true → G.frame w chain'.frame.entity chain'.frame.pc) ∧
      ∀ e ∈ chain'.awaiting, G.caller w e.name := by
  unfold Chain.settled at hs
  split at hs
  · cases hs
    exact ⟨fun _ => hafter, hawaiting⟩
  · cases hs
    exact ⟨fun _ => hafter, hawaiting⟩
  · cases hs
    refine ⟨fun htok => (nomatch htok), ?_⟩
    intro e he
    rcases List.mem_cons.mp he with rfl | he
    · exact hafter
    · exact hawaiting e he
  · split at hs
    · cases hs
    · rename_i parent awaiting ha
      cases hs
      rw [ha] at hawaiting
      exact ⟨fun _ => hG.back (hawaiting parent (List.mem_cons_self ..)),
        fun e he => hawaiting e (List.mem_cons_of_mem _ he)⟩
  · cases hs

/-- A frame that is gone on still has its token, so that it was its last turn. -/
theorem free_of_after (hkeeps : control.Keeps) (hafter : G.after w chain.frame.entity control)
    (hno : ∀ chain', chain.settled control = some chain' →
      ¬ chain'.Has chain.frame.entity.name) : G.free w chain.frame.entity.name := by
  cases control with
  | goto pc => exact absurd (Or.inl ⟨hkeeps, rfl⟩) (hno _ rfl)
  | suspend pc => exact absurd (Or.inl ⟨hkeeps, rfl⟩) (hno _ rfl)
  | call child => exact absurd (Or.inr ⟨_, List.mem_cons_self .., rfl⟩) (hno _ rfl)
  | done => exact hafter
  | fail replies => exact hafter

theorem kept_turn (h : G.Kept d) (hG : G.Lawful) (hd : (machine parse).Reaches Always (start c) d)
    (hchain : d.chains.find id = some chain) (htok : chain.frame.pc.hasToken = true)
    (hkeeps : control.Keeps) (hmanager : w.manager = d.world.manager)
    (hsame : ∀ n, n ≠ chain.frame.entity.name → d.world.Same n w)
    (hafter : G.after w chain.frame.entity control) :
    G.Kept (d.settle w id chain stack control) := by
  have hgrows : d.world.Grows w := World.grows_of_manager hmanager
  have hawaiting : ∀ e ∈ chain.awaiting, G.caller w e.name := by
    intro e he
    have hne := name_ne_of_awaiting hd hchain htok he
    exact hG.caller (hsame _ hne) hgrows (h.caller id chain hchain e he)
  have hother : ∀ k chain', d.chains.find k = some chain' → k ≠ id → ∀ n, chain'.Has n →
      d.world.Same n w := by
    intro k chain' hk hki n hhas
    exact hsame n (name_ne hd hchain htok hk hki hhas)
  refine ⟨?_, ?_, ?_⟩
  · intro k chain' hk htok'
    rw [settle_world]
    rw [find_settle] at hk
    split_ifs at hk with hki
    · exact (after_settled hG hawaiting hafter hk).1 htok'
    · have hsame' := hother k chain' hk hki _ (Or.inl ⟨htok', rfl⟩)
      exact hG.frame hsame' hgrows (h.frame k chain' hk htok')
  · intro k chain' hk e he
    rw [settle_world]
    rw [find_settle] at hk
    split_ifs at hk with hki
    · exact (after_settled hG hawaiting hafter hk).2 e he
    · have hsame' := hother k chain' hk hki _ (Or.inr ⟨e, he, rfl⟩)
      exact hG.caller hsame' hgrows (h.caller k chain' hk e he)
  · intro n hno
    rw [settle_world]
    by_cases hn : n = chain.frame.entity.name
    · subst hn
      refine free_of_after hkeeps hafter fun chain' hs => hno id chain' ?_
      rw [find_settle, if_pos rfl, hs]
    · refine hG.free (hsame n hn) hgrows ?_
      by_cases hhas : chain.Has n
      · rcases hhas with ⟨-, hname⟩ | ⟨e, he, rfl⟩
        · exact absurd hname.symm hn
        · exact hG.drop (h.caller id chain hchain e he)
      · refine h.free n fun k chain' hk hhas' => ?_
        by_cases hki : k = id
        · subst hki
          rw [hchain] at hk
          cases hk
          exact hhas hhas'
        · exact hno k chain' (by rw [find_settle, if_neg hki, hk]) hhas'

/-! ### The rule -/

/-- **What a turn of the frame with the token keeps, every run keeps.** -/
theorem reaches_kept (hG : G.Lawful) (hstart : ∀ n, G.free (start c).world n)
    (hturn : ∀ {d : Daemon} {i : Input} {id : Nat} {o : Outcome} {stack : List Activity}
      {chain : Chain} {w : World} {control : Control},
      (machine parse).Reaches C (start c) d → G.Kept d → C d i → Turns d i id o stack →
      d.chains.find id = some chain → chain.frame.pc.hasToken = true →
      Turn d.world id chain.frame o w control →
      (∀ n, n ≠ chain.frame.entity.name → d.world.Same n w) ∧
        G.after w chain.frame.entity control)
    (h : (machine parse).Reaches C (start c) d) : G.Kept d := by
  have hnil : G.Kept (start c) :=
    ⟨fun _ _ hk => (nomatch hk), fun _ _ hk => (nomatch hk), fun n _ => hstart n⟩
  refine h.invariant_of_reaches (I := G.Kept) hnil fun d i d' hC ih hi hstep => ?_
  have hd : (machine parse).Reaches Always (start c) d := hC.mono fun _ _ _ => trivial
  cases step_cases hstep with
  | request _ => exact kept_quiet ih hG (request_quiet (reaches_indexed hd) _ _)
  | call _ hserve =>
    refine kept_quiet ih hG (.of_chains (fun n => ?_) ?_ rfl)
    · exact ⟨rfl, fun _ _ _ => Iff.rfl⟩
    · exact Transactions.serve_grows hserve
  | @turn _ id _ stack chain w control hturns hchain hframe =>
    have ht := turn_cases hframe
    have htoken : ∀ pc, chain.frame.pc = pc → pc.hasToken = true → control.Keeps →
        G.Kept (d.settle w id chain stack control) := by
      intro pc hpc htok hkeeps
      rw [← hpc] at htok
      obtain ⟨hsame, hafter⟩ := hturn hC ih hi hturns hchain htok ht
      exact kept_turn ih hG hd hchain htok hkeeps (turn_manager ht) hsame hafter
    cases ht with
    | taken hpc hheld =>
      refine kept_enter ih hG hchain (by rw [hpc]; rfl) (fun k chain' hk hhas => ?_)
        (fun n => ?_) ?_ (fun k => find_settle)
      · have hholds := (held_iff hd).mpr ⟨k, Or.inl ⟨chain', hk, hhas⟩⟩
        rw [hheld] at hholds
        cases hholds
      · rw [settle_world]
        exact World.same_setQueue
      · exact World.grows_of_manager (by rw [settle_world]; rfl)
    | queued hpc _ => exact kept_quiet ih hG (queued_quiet hchain hpc)
    | start hpc hs => exact htoken _ hpc rfl (start_keeps hs)
    | stop hpc hs => exact htoken _ hpc rfl (stop_keeps hs)
  | @drop o id name stack d' hstack hdrop =>
    have hmem : .drop id name ∈ d.stack := by
      rw [hstack]
      exact List.mem_cons_self ..
    cases drop_cases hdrop with
    | freed _ _ => exact kept_quiet ih hG (.of_chains (fun n => World.same_setQueue)
        (World.grows_of_manager rfl) rfl)
    | @handed k chain queue _ hqueue hchain hpc =>
      have hne : Pc.enqueue ≠ .waiting := by simp
      obtain ⟨hname, -⟩ := (reaches_queued hd).pop hqueue hchain hne
      refine kept_enter ih hG hchain (by rw [hpc]; rfl) (fun k' chain' hk' => ?_)
        (fun n => World.same_setQueue) (World.grows_of_manager rfl) (fun k' => OrdMap.find_insert ..)
      rw [hname]
      exact not_has_of_drop hd hmem hk'

end Daemon

end Nonsense
