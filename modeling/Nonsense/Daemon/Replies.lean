import Nonsense.Daemon.Queues

/-!
# Every call is answered once

A chain has not been answered while it is there, and is answered in the step that
ends it (`Answered`).  Two steps break this (`Misses`).  `socketpair` and `fork`
leave a positive number in `errno`, and the promise takes only a negative status
for an error, so that a start that fails there ends with no reply at all.  And a
commit that fails sets the error argument of its handler besides the status it
returns, so that sd-bus answers it a second time.

`one_reply`: without such a step, a call whose frames are all gone has been
answered exactly once.
-/

namespace Nonsense

/-- What a turn sends to the caller of the chain. -/
def Chain.answers (chain : Chain) : Control → List Reply
  | .done =>
    match chain.awaiting with
    | [] => [.methodReturn []]
    | _ :: _ => []
  | .fail replies => replies
  | _ => []

namespace Daemon

open Machine

variable {parse : String → Option Json} {d d' : Daemon} {i : Input} {id k : Nat} {chain : Chain}
  {stack : List Activity} {w : World} {control : Control} {o : Outcome} {c : Config}

theorem sent_settle : (d.settle w id chain stack control).sent =
    (chain.answers control).map (fun reply => ⟨id, some (chain.method, chain.name), reply, w⟩) ++
      d.sent := by
  cases control with
  | done =>
    unfold settle Chain.answers
    cases chain.awaiting with
    | nil => rfl
    | cons parent awaiting => rfl
  | _ => rfl

/-- How many replies the call `id` has been sent. -/
def repliesTo (d : Daemon) (id : Nat) : ℕ := d.sent.countP fun sent => sent.id = id

/-- The last frame that served the call `id` is gone. -/
def Finished (d : Daemon) (id : Nat) : Prop :=
  d.chains.find id = none ∧ ∀ name, .drop id name ∉ d.stack

/-- `socketpair` or `fork` returns `-1`. -/
def NoProcess (d : Daemon) (i : Input) : Prop :=
  ∃ id stack chain code, Turns d i id (.errno code) stack ∧ d.chains.find id = some chain ∧
    (chain.frame.pc = .start .socketpair ∨ chain.frame.pc = .start .fork)

/-- The step leaves a call without a reply, or with two. -/
def Misses (parse : String → Option Json) (d : Daemon) (i : Input) : Prop :=
  d.NoProcess i ∨ ∃ call, i = .call call ∧ d.world.manager.CommitFails parse call

/-! ### Counting -/

theorem countP_replies (request : Option (Method × String)) (replies : List Reply) (w : World) :
    (replies.map fun reply => (⟨id, request, reply, w⟩ : Sent)).countP (fun sent => sent.id = k) =
      if id = k then replies.length else 0 := by
  rw [List.countP_map]
  by_cases hk : id = k
  · rw [if_pos hk, List.countP_eq_length]
    intro reply _
    simpa using hk
  · rw [if_neg hk, List.countP_eq_zero]
    intro reply _
    simpa using hk

theorem repliesTo_send (request : Option (Method × String)) (replies : List Reply) :
    (d.send id request replies).repliesTo k =
      (if id = k then replies.length else 0) + d.repliesTo k := by
  rw [repliesTo, send, List.countP_append, countP_replies]
  rfl

theorem repliesTo_settle : (d.settle w id chain stack control).repliesTo k =
    (if id = k then (chain.answers control).length else 0) + d.repliesTo k := by
  rw [repliesTo, sent_settle, List.countP_append, countP_replies]
  rfl

/-- **A turn that ends with an error sends one reply**, or none where there was no
process to be had. -/
theorem turn_fail {frame : Frame} {replies : List Reply} {w' : World}
    (h : Turn w id frame o w' (.fail replies)) :
    replies.length = 1 ∨ (replies = [] ∧ (∃ code, o = .errno code) ∧
      (frame.pc = .start .socketpair ∨ frame.pc = .start .fork)) := by
  cases h with
  | start hpc hs =>
    cases hs with
    | noSocketpair => exact Or.inr ⟨rfl, ⟨_, rfl⟩, Or.inl hpc⟩
    | noFork => exact Or.inr ⟨rfl, ⟨_, rfl⟩, Or.inr hpc⟩
    | noBus => exact Or.inl rfl
    | notSetUp _ _ _ => exact Or.inl rfl
    | notAdded => exact Or.inl rfl
  | stop hpc hs =>
    cases hs with
    | notStarted _ => exact Or.inl rfl
    | notShutdown => exact Or.inl rfl
    | notStopped _ _ _ => exact Or.inl rfl

/-- A chain is answered when it ends, and not before. -/
theorem answers_length (ht : Turn d.world id chain.frame o w control) (hi : Turns d i id o stack)
    (hchain : d.chains.find id = some chain) (hno : ¬ d.NoProcess i) :
    (chain.answers control).length = if chain.settled control = none then 1 else 0 := by
  cases control with
  | goto pc => rfl
  | suspend pc => rfl
  | call child => rfl
  | done =>
    unfold Chain.answers Chain.settled
    cases chain.awaiting with
    | nil => rfl
    | cons parent awaiting => rfl
  | fail replies =>
    rcases turn_fail ht with hone | ⟨-, ⟨code, rfl⟩, hpc⟩
    · exact hone
    · exact absurd ⟨id, stack, chain, code, hi, hchain, hpc⟩ hno

/-! ### Once -/

/-- A call that has come in is answered once it has no chain, and only then. -/
def Answered (d : Daemon) : Prop :=
  ∀ id, d.repliesTo id = if id < d.nextId ∧ d.chains.find id = none then 1 else 0

/-- A call that is answered as it comes in. -/
theorem Answered.send (h : d.Answered) (hd : d.Indexed) {world : World}
    {request : Option (Method × String)} {replies : List Reply} (hone : replies.length = 1) :
    Answered ({ d with world, nextId := d.nextId + 1 }.send d.nextId request replies) := by
  intro k
  have hk := h k
  rw [repliesTo_send, hone, send_chains, send_nextId]
  show _ + d.repliesTo k = _
  dsimp only
  by_cases hkn : d.nextId = k
  · subst hkn
    rw [if_neg (fun hlt => absurd hlt.1 (lt_irrefl _))] at hk
    rw [if_pos rfl, if_pos ⟨Nat.lt_succ_self _, hd.find_nextId⟩, hk]
  · have hiff : k < d.nextId + 1 ↔ k < d.nextId := by omega
    simp only [if_neg hkn, hk, hiff, Nat.zero_add]

theorem Answered.request (h : d.Answered) (hd : d.Indexed) (method : Method)
    (parsed : Except Failure String) : (d.request method parsed).Answered := by
  unfold Daemon.request
  split
  · rename_i code
    exact h.send hd (by rw [Entity.replyStatus_failure]; rfl)
  · split
    · exact h.send hd (by rw [replyStatus_of_neg (by decide)]; rfl)
    · intro k
      have hk := h k
      show d.repliesTo k = if k < d.nextId + 1 ∧ (d.chains.insert _ _).find k = none then 1 else 0
      rw [OrdMap.find_insert, hk]
      by_cases hkn : k = d.nextId
      · subst hkn
        simp
      · have hiff : k < d.nextId + 1 ↔ k < d.nextId := by omega
        simp only [if_neg hkn, hiff]

theorem Answered.turn (h : d.Answered) (hd : d.Indexed) (hchain : d.chains.find id = some chain)
    (hlen : (chain.answers control).length = if chain.settled control = none then 1 else 0) :
    (d.settle w id chain stack control).Answered := by
  intro k
  have hk := h k
  rw [repliesTo_settle, find_settle, settle_nextId]
  by_cases hkid : k = id
  · subst hkid
    have hlt : k < d.nextId := hd.bound _ _ hchain
    rw [hchain] at hk
    rw [hk, if_pos rfl, if_pos rfl, hlen]
    simp [hlt]
  · rw [if_neg fun he => hkid he.symm, if_neg hkid, hk, Nat.zero_add]

theorem Answered.drop {name : String} (h : d.Answered) (hd : Dropped d name stack d') :
    d'.Answered := by
  intro k
  have hk := h k
  cases hd with
  | freed _ _ => exact hk
  | @handed id chain queue _ _ hchain _ =>
    show d.repliesTo k = if k < d.nextId ∧ (d.chains.insert _ _).find k = none then 1 else 0
    rw [OrdMap.find_insert, hk]
    by_cases hkid : k = id
    · subst hkid
      simp [hchain]
    · rw [if_neg hkid]

/-- **The step lemma.** -/
theorem answered_step (h : d.Answered) (hd : d.Indexed) (hi : ¬ Misses parse d i)
    (hstep : (machine parse).step d i = some d') : d'.Answered := by
  cases step_cases hstep with
  | request _ => exact h.request hd _ _
  | call _ hserve =>
    refine h.send hd ((Transactions.serve_replies_length hserve).1 fun hfails => hi (Or.inr ⟨_, rfl, hfails⟩))
  | turn hturns hchain hframe =>
    have hlen := answers_length (turn_cases hframe) hturns hchain fun hno => hi (Or.inl hno)
    exact h.turn hd hchain hlen
  | drop _ hdrop => exact h.drop (drop_cases hdrop)

theorem reaches_answered
    (h : (machine parse).Reaches (fun d i => ¬ Misses parse d i) (start c) d) : d.Answered := by
  refine h.invariant_of_reaches (I := Answered) (fun id => ?_) fun d i d' hd ih hi hstep => ?_
  · rw [if_neg fun hlt => Nat.not_lt_zero _ hlt.1]
    rfl
  · exact answered_step ih (reaches_indexed (hd.mono fun _ _ _ => trivial)) hi hstep

/-! ### Where it goes wrong -/

/-- A start that gets no process ends without a reply. -/
theorem turn_noProcess {frame : Frame} {code : { n : Int // 0 < n }} {w' : World}
    (h : Turn w id frame (.errno code) w' control)
    (hpc : frame.pc = .start .socketpair ∨ frame.pc = .start .fork) : control = .fail [] := by
  cases h with
  | start hpc' hs =>
    rcases hpc with hpc | hpc
    · rw [hpc] at hpc'
      cases hpc'
      cases hs with
      | noSocketpair => rfl
      | goto hset _ _ => exact hset.elim
      | notSetUp hset _ _ => exact hset.elim
    · rw [hpc] at hpc'
      cases hpc'
      cases hs with
      | noFork => rfl
      | goto hset _ _ => exact hset.elim
      | notSetUp hset _ _ => exact hset.elim
  | taken hpc' _ | queued hpc' _ | stop hpc' _ =>
    rw [hpc'] at hpc
    rcases hpc with hpc | hpc <;> cases hpc

/-- The step leaves a call that is over with no reply, or with two. -/
theorem missed_step (h : d.Answered) (hd : d.Indexed) (hi : Misses parse d i)
    (hstep : (machine parse).step d i = some d') :
    ∃ id < d'.nextId, d'.chains.find id = none ∧ d'.repliesTo id ≠ 1 := by
  rcases hi with ⟨id, stack, chain, code, hturns, hchain, hpc⟩ | ⟨call, rfl, hfails⟩
  · have hlt : id < d.nextId := hd.bound _ _ hchain
    have hnone : d.repliesTo id = 0 := by
      rw [h id, hchain]
      simp
    obtain ⟨w, control, hframe, rfl⟩ := step_of_turns hturns hchain hstep
    have hfail : control = .fail [] := turn_noProcess (turn_cases hframe) hpc
    subst hfail
    refine ⟨id, by rwa [settle_nextId], by rw [find_settle, if_pos rfl]; rfl, ?_⟩
    rw [repliesTo_settle, hnone]
    simp [Chain.answers]
  · have hnone : d.repliesTo d.nextId = 0 := by
      rw [h d.nextId, if_neg fun hlt => lt_irrefl _ hlt.1]
    cases step_cases hstep with
    | call _ hserve =>
      have htwo := (Transactions.serve_replies_length hserve).2 hfails
      refine ⟨d.nextId, Nat.lt_succ_self _, hd.find_nextId, ?_⟩
      rw [repliesTo_send, if_pos rfl, htwo]
      omega
    | turn hturns _ _ => cases hturns

/-- **Every call is answered once**, in a run without a start that gets no process
and without a commit that fails; and the first such step leaves a call that is not. -/
theorem one_reply (h : (machine parse).Reaches (fun d i => ¬ Misses parse d i) (start c) d) :
    (∀ id < d.nextId, d.Finished id → d.repliesTo id = 1) ∧
      ∀ i d', (machine parse).step d i = some d' → Misses parse d i →
        ∃ id < d'.nextId, d'.chains.find id = none ∧ d'.repliesTo id ≠ 1 := by
  have hd : d.Indexed := reaches_indexed (h.mono fun _ _ _ => trivial)
  refine ⟨?_, ?_⟩
  · intro id hid hdone
    have hone := reaches_answered h id
    rwa [if_pos ⟨hid, hdone.1⟩] at hone
  · intro i d' hstep hi
    exact missed_step (reaches_answered h) hd hi hstep

/-- `a` is not running, and is to be stopped. -/
def stopSwitch : List Input := [.request .stop (.ok "a"), .tick .ok, .tick .ok, .tick .ok]

theorem one_reply_stopSwitch :
    ∃ d, loadAndRun (fun _ => none) switchFile stopSwitch = some d ∧ d.repliesTo 0 = 1 := by
  have hrun : (loadAndRun (fun _ => none) switchFile stopSwitch).any (fun d =>
      d.nextId = 1 ∧ (d.chains.find 0).isNone ∧ d.stack = []) = true := by decide +kernel
  obtain ⟨d, hd, hlast⟩ := (Option.any_eq_true ..).mp hrun
  obtain ⟨hnext, hchain, hstack⟩ := of_decide_eq_true hlast
  obtain ⟨c, -, hinputs⟩ := loadAndRun_eq_some_iff.mp hd
  refine ⟨d, hd, (one_reply (reaches_of_run_of_forall hinputs ?_)).1 0 ?_ ⟨?_, ?_⟩⟩
  · intro i hi s
    rintro (⟨id, stack, chain, code, hturns, -⟩ | ⟨call, rfl, -⟩)
    · cases hturns <;> simp [stopSwitch] at hi
    · simp [stopSwitch] at hi
  · rw [hnext]; decide
  · simpa using hchain
  · simp [hstack]

/-- **A start that gets no process is never answered.** -/
theorem unanswered :
    ¬ ∀ (parse : String → Option Json) (j : Json) (inputs : List Input) (d : Daemon) (id : Nat),
      loadAndRun parse j inputs = some d → id < d.nextId → d.Finished id →
        d.repliesTo id = 1 := by
  intro h
  have hrun : (loadAndRun (fun _ => none) switchFile [.request .start (.ok "a"), .tick .ok,
      .tick .ok, .tick (.errno ⟨24, by decide⟩), .tick .ok]).any (fun d =>
        d.nextId = 1 ∧ (d.chains.find 0).isNone ∧ d.stack = [] ∧ d.repliesTo 0 = 0) = true := by
    decide +kernel
  obtain ⟨d, hd, hlast⟩ := (Option.any_eq_true ..).mp hrun
  obtain ⟨hnext, hchain, hstack, hnone⟩ := of_decide_eq_true hlast
  have hone := h _ _ _ d 0 hd (by rw [hnext]; decide) ⟨by simpa using hchain, by simp [hstack]⟩
  omega

end Daemon

end Nonsense
