import Nonsense.Json
import Nonsense.Lib.Machine
import Nonsense.Lib.OneShot
import Mathlib.Data.List.ReduceOption

/-!
# Signal subscriptions

`signal_subscription` of `async.h`: a vector of callbacks, one for each coroutine that
awaits a match, and the loop that offers a signal to them in turn.  An entry is taken out
of the vector before its callback is called, and put back if the callback has not
matched.  If it has, it has resumed a coroutine, which may register again or end and take
the subscription with it, and the loop returns without another look at the vector.

The vector is memory: `push_back` makes the iterators that exist invalid, and to use one
of them, or any after the subscription is gone, is `undefined`.  `history` keeps who was
registered and who was resumed.  A callback that cannot read the arguments of the signal
ends the process; a signal is `none` then.
-/

namespace Nonsense

/-- An iterator into a vector. -/
structure Iterator where
  position : Nat
  version : Nat
  deriving DecidableEq, Repr

def Iterator.next (it : Iterator) : Iterator := { it with position := it.position + 1 }

/-- `std::vector`; `version` counts how often its iterators were made invalid. -/
structure Vec (β : Type*) where
  elements : List β
  version : Nat
  deriving DecidableEq, Repr

namespace Vec

variable {β : Type*}

def pushBack (v : Vec β) (b : β) : Vec β := ⟨v.elements ++ [b], v.version + 1⟩

def begin_ (v : Vec β) : Iterator := ⟨0, v.version⟩

/-- What the iterator points to, if it may be used. -/
def read (v : Vec β) (it : Iterator) : Option β :=
  if it.version = v.version then v.elements[it.position]? else none

def write (v : Vec β) (it : Iterator) (b : β) : Vec β :=
  { v with elements := v.elements.set it.position b }

end Vec

/-- How the process ends in a delivery. -/
inductive Stop
  | fault (f : Fault)
  | undefined
  deriving DecidableEq, Repr

section

variable {ι : Type} (α : ι → Type)

/-- The arguments of a signal. -/
abbrev Arguments := ∀ i, α i

/-- The key of a match, if it has one, with its index among the arguments. -/
abbrev MatchKey := Option (Σ i, α i)

/-- A callback of the vector, with its coroutine's number; `none` is the entry without a
function. -/
abbrev Callback := Option (MatchKey α × Nat)

/-- What the coroutine does that a match resumes, until it is suspended or ends: the
matches that are awaited meanwhile, and whether the subscription is destroyed. -/
structure Resumption where
  registers : List (MatchKey α)
  destroys : Bool

structure SignalSubscription where
  /-- `none` once it is destroyed. -/
  callbacks : Option (Vec (Callback α))
  history : OneShot (MatchKey α)
  stopped : Option Stop

end

namespace SignalSubscription

variable {ι : Type} {α : ι → Type}

def init : SignalSubscription α := ⟨some ⟨[], 0⟩, .empty, none⟩

def stop (s : SignalSubscription α) (why : Stop) : SignalSubscription α := { s with stopped := some why }

/-- `*it` -/
def read (s : SignalSubscription α) (it : Iterator) : Option (Callback α) :=
  s.callbacks.bind fun v => v.read it

/-- `*it = callback` -/
def write (s : SignalSubscription α) (it : Iterator) (callback : Callback α) : SignalSubscription α :=
  { s with callbacks := s.callbacks.map fun v => v.write it callback }

/-- `await_suspend` of a match. -/
def awaitMatch (s : SignalSubscription α) (key : MatchKey α) : SignalSubscription α :=
  { s with
    callbacks := s.callbacks.map fun v => v.pushBack (some (key, s.history.registered.length))
    history := s.history.register [key] }

/-- `self.handle()` -/
def resume (s : SignalSubscription α) (n : Nat) (r : Resumption α) : SignalSubscription α :=
  let s := { s with history := s.history.resume n }
  let s := r.registers.foldl awaitMatch s
  if r.destroys then { s with callbacks := none } else s

section

variable [∀ i, DecidableEq (α i)]

def isMatch (arguments : Arguments α) : MatchKey α → Bool
  | none => true
  | some key => key.2 = arguments key.1

/-- What a callback returns and leaves; `none` if its assertion fails. -/
def call (s : SignalSubscription α) (signal : Option (Arguments α)) (r : Resumption α)
    (callback : MatchKey α × Nat) : Option (Int × SignalSubscription α) :=
  signal.map fun arguments =>
    if isMatch arguments callback.1 then (1, s.resume callback.2 r) else (0, s)

/-- The loop, with its iterator and how far that is from the end. -/
def loop (signal : Option (Arguments α)) (r : Resumption α) :
    Nat → Iterator → SignalSubscription α → SignalSubscription α
  | 0, _, s => s
  | n + 1, it, s =>
    match s.read it with
    | none => s.stop .undefined
    | some none => loop signal r n it.next s
    | some (some elem) =>
      match (s.write it none).call signal r elem with
      | none =>
        (s.write it none).stop <| .fault <| .assertion
          "sd_bus_message_read(message, self.subscription._signal.argument_string, &args...) >= 0"
      | some (result, s) =>
        if result > 0 then s
        else
          match s.read it with
          | none => s.stop .undefined
          | some _ => loop signal r n it.next (s.write it (some elem))

inductive Input (α : ι → Type)
  | awaitMatch (key : MatchKey α)
  | signal (arguments : Option (Arguments α)) (r : Resumption α)

/-- Nothing comes to a subscription that is destroyed, or after the process has ended. -/
def step (s : SignalSubscription α) (i : Input α) : Option (SignalSubscription α) :=
  match s.stopped, s.callbacks with
  | none, some v =>
    match i with
    | .awaitMatch key => some (s.awaitMatch key)
    | .signal arguments r => some (loop arguments r v.elements.length v.begin_ s)
  | _, _ => none

def machine (α : ι → Type) [∀ i, DecidableEq (α i)] : Machine (SignalSubscription α) (Input α) where
  step := step

end

/-- The matches that are registered, in the order of the vector. -/
def registered (s : SignalSubscription α) : Option (List (MatchKey α × Nat)) :=
  s.callbacks.map fun v => v.elements.reduceOption

/-! ### What a coroutine leaves -/

theorem registered_awaitMatch (s : SignalSubscription α) (key : MatchKey α) :
    (s.awaitMatch key).registered =
      s.registered.map (· ++ [(key, s.history.registered.length)]) := by
  rw [registered, registered, awaitMatch, Option.map_map, Option.map_map]
  refine congrFun (congrArg Option.map (funext fun v => ?_)) _
  exact List.reduceOption_append v.elements [some (key, s.history.registered.length)]

theorem foldl_awaitMatch (s : SignalSubscription α) (keys : List (MatchKey α)) :
    (keys.foldl awaitMatch s).history = s.history.register keys ∧
    (keys.foldl awaitMatch s).stopped = s.stopped ∧
    (keys.foldl awaitMatch s).registered =
      s.registered.map (· ++ keys.zipIdx s.history.registered.length) := by
  induction keys generalizing s with
  | nil => simp [OneShot.register]
  | cons key keys ih =>
    obtain ⟨hhistory, hstopped, hregistered⟩ := ih (s.awaitMatch key)
    rw [List.foldl_cons, hhistory, hstopped, hregistered, registered_awaitMatch, Option.map_map]
    refine ⟨by simp [awaitMatch, OneShot.register], rfl, ?_⟩
    refine congrFun (congrArg Option.map (funext fun ws => ?_)) _
    simp [awaitMatch, OneShot.register]

theorem history_resume (s : SignalSubscription α) (n : Nat) (r : Resumption α) :
    (s.resume n r).history = (s.history.resume n).register r.registers := by
  rw [resume]
  split_ifs <;> exact (foldl_awaitMatch _ _).1

theorem stopped_resume (s : SignalSubscription α) (n : Nat) (r : Resumption α) :
    (s.resume n r).stopped = s.stopped := by
  rw [resume]
  split_ifs <;> exact (foldl_awaitMatch _ _).2.1

theorem registered_resume (s : SignalSubscription α) (n : Nat) (r : Resumption α) :
    (s.resume n r).registered =
      if r.destroys then none
      else s.registered.map (· ++ r.registers.zipIdx s.history.registered.length) := by
  rw [resume]
  split_ifs
  · rfl
  · exact (foldl_awaitMatch _ _).2.2

/-! ### What the vector holds -/

/-- What the vector holds is what the history says, unless the process has ended. -/
structure Consistent (s : SignalSubscription α) : Prop where
  valid : s.history.Valid
  defined : s.stopped ≠ some .undefined
  registered : s.stopped = none → ∀ ws, s.registered = some ws → ws = s.history.waiting

theorem consistent_init : (init : SignalSubscription α).Consistent where
  valid := OneShot.valid_empty
  defined := nofun
  registered _ _ hws := (Option.some.inj hws).symm

theorem Consistent.awaitMatch {s : SignalSubscription α} (hs : s.Consistent) (key : MatchKey α) :
    (s.awaitMatch key).Consistent where
  valid := hs.valid.register [key]
  defined := hs.defined
  registered hstopped ws hws := by
    rw [registered_awaitMatch] at hws
    obtain ⟨ws', hws', rfl⟩ := Option.map_eq_some_iff.mp hws
    rw [hs.registered hstopped ws' hws']
    exact (OneShot.waiting_register hs.valid [key]).symm

/-! ### The vector under an iterator -/

/-- The subscription with this vector. -/
def holding (s : SignalSubscription α) (elements : List (Callback α)) (k : Nat) :
    SignalSubscription α :=
  { s with callbacks := some ⟨elements, k⟩ }

theorem holding_self {s : SignalSubscription α} {v : Vec (Callback α)} (h : s.callbacks = some v) :
    s.holding v.elements v.version = s := by
  rw [holding, ← h]

variable {s : SignalSubscription α} {before after : List (Callback α)} {e e' : Callback α} {k : Nat}

@[simp] theorem read_holding :
    (s.holding (before ++ e :: after) k).read ⟨before.length, k⟩ = some e := by
  simp [holding, read, Vec.read]

@[simp] theorem write_holding :
    (s.holding (before ++ e :: after) k).write ⟨before.length, k⟩ e' =
      s.holding (before ++ e' :: after) k := by
  simp [holding, write, Vec.write]

theorem forall_reduceOption_concat {before : List (Callback α)} {e : Callback α}
    {P : MatchKey α × Nat → Prop} (h : ∀ w ∈ before.reduceOption, P w) (he : ∀ w, e = some w → P w) :
    ∀ w ∈ (before ++ [e]).reduceOption, P w := by
  intro w hw
  rw [List.reduceOption_mem_iff, List.mem_append, List.mem_singleton] at hw
  rcases hw with hw | hw
  · exact h w (List.reduceOption_mem_iff.mpr hw)
  · exact he w hw.symm

/-! ### The waiter that is resumed -/

variable {w : MatchKey α × Nat} {r : Resumption α}

/-- The vector after `w` was taken out of it and resumed. -/
theorem registered_resumed
    (hwaiting : s.history.waiting = before.reduceOption ++ w :: after.reduceOption) :
    ((s.holding (before ++ none :: after) k).resume w.2 r).registered =
      if r.destroys then none
      else some ((s.history.resume w.2).waiting ++
        r.registers.zipIdx s.history.registered.length) := by
  have hrest : (s.holding (before ++ none :: after) k).registered =
      some (s.history.resume w.2).waiting := by
    rw [OneShot.waiting_resume_of_append hwaiting]
    have hreduce : (before ++ none :: after).reduceOption =
        before.reduceOption ++ after.reduceOption := by
      rw [List.reduceOption_append, List.reduceOption_cons_of_none]
    exact congrArg some hreduce
  rw [registered_resume, hrest]
  rfl

theorem Consistent.resumed (hs : s.Consistent)
    (hwaiting : s.history.waiting = before.reduceOption ++ w :: after.reduceOption) :
    ((s.holding (before ++ none :: after) k).resume w.2 r).Consistent := by
  have hmem : w ∈ s.history.waiting := hwaiting ▸ List.mem_append_right _ List.mem_cons_self
  have hvalid : (s.history.resume w.2).Valid := hs.valid.resume hmem
  refine ⟨?_, ?_, ?_⟩
  · rw [history_resume]
    exact hvalid.register r.registers
  · rw [stopped_resume]
    exact hs.defined
  · rintro - ws hws
    rw [registered_resumed hwaiting] at hws
    split_ifs at hws
    obtain rfl := Option.some.inj hws
    rw [history_resume]
    exact (OneShot.waiting_register hvalid r.registers).symm

/-- What the history and the vector are after a delivery, by the waiter it is for.  A signal
for nobody changes nothing, unless it cannot be read and there is somebody to read it for. -/
def DeliveredTo (signal : Option (Arguments α)) (r : Resumption α) (s s' : SignalSubscription α) :
    Option (MatchKey α × Nat) → Prop
  | none =>
    s'.history = s.history ∧ (s'.stopped = none → s' = s) ∧
    (signal.isSome ∨ s.history.waiting = [] → s'.stopped = none ∧ s' = s)
  | some w =>
    s'.history.resumed = s.history.resumed ++ [w.2] ∧
    s'.history.registered = s.history.registered ++ r.registers ∧
    s'.stopped = none ∧
    s'.registered =
      if r.destroys then none
      else some ((s.history.waiting.filter fun v => v.2 ≠ w.2) ++
        r.registers.zipIdx s.history.registered.length)

theorem deliveredTo_resumed {signal : Option (Arguments α)} (hstopped : s.stopped = none)
    (hwaiting : s.history.waiting = before.reduceOption ++ w :: after.reduceOption) :
    DeliveredTo signal r s ((s.holding (before ++ none :: after) k).resume w.2 r) (some w) := by
  refine ⟨?_, ?_, ?_, ?_⟩
  · rw [history_resume]
    rfl
  · rw [history_resume]
    rfl
  · rw [stopped_resume]
    exact hstopped
  · rw [registered_resumed hwaiting, OneShot.waiting_resume]

/-! ### What a delivery comes to -/

variable [∀ i, DecidableEq (α i)]

def accepts (signal : Option (Arguments α)) (key : MatchKey α) : Bool :=
  signal.any fun arguments => isMatch arguments key

/-- What a delivery comes to, in a subscription whose vector is `elements`. -/
inductive Delivered (signal : Option (Arguments α)) (r : Resumption α) (s : SignalSubscription α)
    (elements : List (Callback α)) (k : Nat) : SignalSubscription α → Prop
  | ignored : (∀ w ∈ elements.reduceOption, ¬ accepts signal w.1) →
      Delivered signal r s elements k (s.holding elements k)
  | resumed {before after : List (Callback α)} {w : MatchKey α × Nat} :
      elements = before ++ some w :: after → (∀ v ∈ before.reduceOption, ¬ accepts signal v.1) →
      accepts signal w.1 →
      Delivered signal r s elements k ((s.holding (before ++ none :: after) k).resume w.2 r)
  | failed {elements' : List (Callback α)} {f : Fault} :
      signal = none → elements.reduceOption ≠ [] →
      Delivered signal r s elements k ((s.holding elements' k).stop (.fault f))

/-- The entries behind the iterator are as they were, and none of them has matched. -/
theorem loop_delivered (signal : Option (Arguments α)) (r : Resumption α) (s : SignalSubscription α)
    (k : Nat) (before rest : List (Callback α))
    (hbefore : ∀ w ∈ before.reduceOption, ¬ accepts signal w.1) :
    Delivered signal r s (before ++ rest) k
      (loop signal r rest.length ⟨before.length, k⟩ (s.holding (before ++ rest) k)) := by
  induction rest generalizing before with
  | nil =>
    rw [List.append_nil]
    exact .ignored hbefore
  | cons e rest ih =>
    have hnext : (⟨before.length, k⟩ : Iterator).next = ⟨(before ++ [e]).length, k⟩ := by
      rw [List.length_append]
      rfl
    have happend : before ++ e :: rest = (before ++ [e]) ++ rest := by simp
    rw [List.length_cons, loop, read_holding]
    cases e with
    | none =>
      dsimp only
      rw [hnext, happend]
      exact ih _ (forall_reduceOption_concat hbefore fun _ h => nomatch h)
    | some w =>
      dsimp only
      rw [write_holding]
      cases signal with
      | none =>
        refine .failed rfl ?_
        rw [List.reduceOption_append, List.reduceOption_cons_of_some]
        exact List.append_ne_nil_of_right_ne_nil _ (List.cons_ne_nil _ _)
      | some arguments =>
        simp only [call, Option.map_some]
        by_cases hmatch : isMatch arguments w.1 = true
        · rw [if_pos hmatch]
          exact .resumed rfl hbefore hmatch
        · -- not matched: the entry is put back, and the loop goes on behind it
          rw [if_neg hmatch]
          dsimp only
          rw [if_neg (by decide), read_holding, write_holding]
          dsimp only
          rw [hnext, happend]
          exact ih _ (forall_reduceOption_concat hbefore fun _ h => Option.some.inj h ▸ hmatch)

/-! ### Every delivery -/

variable {s s' : SignalSubscription α} {signal : Option (Arguments α)} {r : Resumption α}

theorem step_awaitMatch {key : MatchKey α} (h : s.step (.awaitMatch key) = some s') :
    s.stopped = none ∧ s' = s.awaitMatch key := by
  unfold step at h
  split at h
  · exact ⟨‹_›, (Option.some.inj h).symm⟩
  · nomatch h

theorem step_signal (h : s.step (.signal signal r) = some s') :
    s.stopped = none ∧ ∃ v, s.callbacks = some v ∧
      Delivered signal r s v.elements v.version s' := by
  unfold step at h
  split at h
  · next v hstopped hv =>
    obtain rfl := Option.some.inj h
    refine ⟨hstopped, v, hv, ?_⟩
    have hloop := loop_delivered signal r s v.version [] v.elements (by simp)
    rw [List.nil_append, holding_self hv] at hloop
    exact hloop
  · nomatch h

theorem Consistent.delivered (hs : s.Consistent) (h : s.step (.signal signal r) = some s') :
    s'.Consistent ∧ DeliveredTo signal r s s' (s.history.first (accepts signal)) := by
  obtain ⟨hstopped, v, hv, hdelivered⟩ := step_signal h
  have hwaiting : v.elements.reduceOption = s.history.waiting :=
    hs.registered hstopped _ (by rw [SignalSubscription.registered, hv]; rfl)
  cases hdelivered with
  | ignored hnone =>
    rw [holding_self hv, OneShot.first_eq_none (hwaiting ▸ hnone)]
    exact ⟨hs, rfl, fun _ => rfl, fun _ => ⟨hstopped, rfl⟩⟩
  | @failed elements' f hsignal hne =>
    have hnone : s.history.first (accepts signal) = none := by
      refine OneShot.first_eq_none fun w _ => ?_
      rw [hsignal]
      exact Bool.false_ne_true
    rw [hnone]
    refine ⟨⟨hs.valid, nofun, nofun⟩, rfl, nofun, ?_⟩
    rintro (hread | hnobody)
    · rw [hsignal] at hread
      cases hread
    · exact absurd (hwaiting.trans hnobody) hne
  | @resumed before after w helements hbefore hw =>
    have happend : s.history.waiting = before.reduceOption ++ w :: after.reduceOption := by
      rw [← hwaiting, helements, List.reduceOption_append, List.reduceOption_cons_of_some]
    rw [OneShot.first_of_append happend hbefore hw]
    exact ⟨hs.resumed happend, deliveredTo_resumed hstopped happend⟩

theorem consistent_of_reaches (h : (machine α).Reaches Machine.Always init s) : s.Consistent := by
  refine h.invariant consistent_init fun s i s' hs _ hi => ?_
  cases i with
  | awaitMatch key =>
    obtain ⟨-, rfl⟩ := step_awaitMatch hi
    exact hs.awaitMatch key
  | signal arguments r => exact (hs.delivered hi).1

/-- **Deliveries to a subscription.**  Whatever was registered and delivered before, no
memory is used that is gone, nobody was resumed twice, the vector holds those who still
wait, in their order, and a signal is for the first of them that it matches, who alone
leaves.  One that can be read and matches nobody leaves everything as it is. -/
theorem delivery (h : (machine α).Reaches Machine.Always init s) :
    s.stopped ≠ some .undefined ∧ s.history.resumed.Nodup ∧
    (s.stopped = none → ∀ ws, s.registered = some ws → ws = s.history.waiting) ∧
    (∀ key s', s.step (.awaitMatch key) = some s' →
      s'.history.resumed = s.history.resumed ∧
      s'.history.registered = s.history.registered ++ [key]) ∧
    ∀ signal r s', s.step (.signal signal r) = some s' →
      DeliveredTo signal r s s' (s.history.first (accepts signal)) := by
  have hs : s.Consistent := consistent_of_reaches h
  refine ⟨hs.defined, hs.valid.nodup, hs.registered, ?_, fun signal r s' hi => (hs.delivered hi).2⟩
  intro key s' hi
  obtain ⟨-, rfl⟩ := step_awaitMatch hi
  exact ⟨rfl, rfl⟩

/-- Two coroutines wait, for `1` and for anything, when `2` is signalled; the second one
awaits `2` before it is suspended again. -/
theorem delivery_two :
    ∃ s', ((init.awaitMatch (some ⟨(), 1⟩)).awaitMatch none : SignalSubscription fun _ : Unit => Nat).step
        (.signal (some fun _ => 2) ⟨[some ⟨(), 2⟩], false⟩) = some s' ∧
      s'.history.resumed = [1] ∧ s'.registered = some [(some ⟨(), 1⟩, 0), (some ⟨(), 2⟩, 2)] := by
  have hrun : (machine fun _ : Unit => Nat).run init
      [.awaitMatch (some ⟨(), 1⟩), .awaitMatch none] =
        some ((init.awaitMatch (some ⟨(), 1⟩)).awaitMatch none) := rfl
  have hdelivery := (delivery (Machine.reaches_of_run hrun)).2.2.2.2 (some fun _ => 2)
    ⟨[some ⟨(), 2⟩], false⟩ _ rfl
  exact ⟨_, rfl, hdelivery.1, hdelivery.2.2.2⟩

end SignalSubscription

end Nonsense
