import Nonsense.Lib.Machine
import Mathlib.Logic.Function.Basic

/-!
# The queue of an entity

`queue_awaitable` and `queue_token` of `entity.cpp`.  Whoever works on an entity
holds its token.  `co_await enqueue()` takes it when it is free and otherwise
waits; the destructor of the token gives it to the coroutine that has waited
longest, by resuming it there and then.

`Queue` and its operations are the code; where an assertion fails they are
`none`.  `Queues` is the machine of all names and of what runs on the call stack.
A destructor that has popped a waiter leaves a `resume` on top of the stack, so
that coroutines may nest to any depth.  `tokens` counts the tokens that exist,
and `enqueued` and `granted` keep the order of the calls and of the grants.
-/

namespace Nonsense

/-- `queue_state`, with handles of type `κ`. -/
structure Queue (κ : Type*) where
  held : Bool
  queue : List κ
  deriving DecidableEq

namespace Queue

variable {κ : Type*}

/-- A state that the table makes on its first use. -/
def empty : Queue κ := { held := false, queue := [] }

def awaitReady (q : Queue κ) : Bool := !q.held

def awaitSuspend (q : Queue κ) (handle : κ) : Option (Queue κ) :=
  if q.held then some { q with queue := q.queue ++ [handle] } else none

def awaitResume (q : Queue κ) : Option (Queue κ) :=
  if q.held then none else some { q with held := true }

/-- `~queue_token`, up to where it resumes the handle it has popped. -/
def release (q : Queue κ) : Option (Queue κ × Option κ) :=
  if q.held then
    match q.queue with
    | [] => some ({ held := false, queue := [] }, none)
    | handle :: queue => some ({ held := false, queue }, some handle)
  else none

end Queue

/-- What is on the call stack: a coroutine that runs, or the destructor of a token
of `name` about to resume one. -/
inductive Queues.Activity (ν κ : Type*)
  | run (coroutine : κ)
  | resume (name : ν) (coroutine : κ)
  deriving DecidableEq

structure Queues (ν κ : Type*) where
  queue : ν → Queue κ
  tokens : ν → Nat
  /-- The top comes first; where it is empty, `main` runs. -/
  stack : List (Queues.Activity ν κ)
  enqueued : ν → List κ
  granted : ν → List κ
  failed : Bool

namespace Queues

variable {ν κ : Type*}

/-- What may happen next. -/
inductive Input (ν κ : Type*)
  /-- What runs starts a coroutine, or resumes one from elsewhere. -/
  | call (coroutine : κ)
  /-- The coroutine that runs awaits the queue of `name`. -/
  | enqueue (name : ν)
  /-- What runs destroys a token of `name`. -/
  | destroy (name : ν)
  /-- The destructor on top resumes the waiter it has popped. -/
  | resume
  /-- The coroutine that runs ends, or waits for something else. -/
  | leave

def init : Queues ν κ :=
  { queue := fun _ => .empty, tokens := fun _ => 0, stack := [], enqueued := fun _ => [],
    granted := fun _ => [], failed := false }

/-- Nothing runs but `main` or a coroutine. -/
def running (s : Queues ν κ) : Prop := ∀ n c, s.stack.head? ≠ some (.resume n c)

instance (s : Queues ν κ) : Decidable s.running :=
  match h : s.stack.head? with
  | none | some (.run _) => isTrue (by simp [running, h])
  | some (.resume n c) => isFalse fun hr => hr n c h

variable [DecidableEq ν]

/-- A token of `n` is made for `c`. -/
def grant (s : Queues ν κ) (n : ν) (c : κ) (q : Queue κ) : Queues ν κ :=
  { s with
    queue := Function.update s.queue n q
    tokens := Function.update s.tokens n (s.tokens n + 1)
    granted := Function.update s.granted n (s.granted n ++ [c]) }

def fail (s : Queues ν κ) : Queues ν κ := { s with failed := true }

/-- `co_await enqueue()` by `c`, which runs on top of `stack`. -/
def enqueue (s : Queues ν κ) (n : ν) (c : κ) (stack : List (Activity ν κ)) : Queues ν κ :=
  let s := { s with enqueued := Function.update s.enqueued n (s.enqueued n ++ [c]) }
  if (s.queue n).awaitReady then
    match (s.queue n).awaitResume with
    | none => s.fail
    | some q => s.grant n c q
  else
    match (s.queue n).awaitSuspend c with
    | none => s.fail
    | some q => { s with queue := Function.update s.queue n q, stack }

/-- `~queue_token` on `n`. -/
def destroy (s : Queues ν κ) (n : ν) : Queues ν κ :=
  match (s.queue n).release with
  | none => s.fail
  | some (q, popped) =>
    { s with
      queue := Function.update s.queue n q
      tokens := Function.update s.tokens n (s.tokens n - 1)
      stack := (popped.map (.resume n)).toList ++ s.stack }

/-- A destructor resumes `c`. -/
def resume (s : Queues ν κ) (n : ν) (c : κ) (stack : List (Activity ν κ)) : Queues ν κ :=
  match (s.queue n).awaitResume with
  | none => s.fail
  | some q => { s.grant n c q with stack := .run c :: stack }

def step (s : Queues ν κ) (i : Input ν κ) : Option (Queues ν κ) :=
  if s.failed then none
  else
    match i, s.stack with
    | .call c, stack => if s.running then some { s with stack := .run c :: stack } else none
    | .enqueue n, .run c :: stack => some (s.enqueue n c stack)
    | .destroy n, _ => if s.running ∧ 0 < s.tokens n then some (s.destroy n) else none
    | .resume, .resume n c :: stack => some (s.resume n c stack)
    | .leave, .run _ :: stack => some { s with stack }
    | _, _ => none

def machine (ν κ : Type*) [DecidableEq ν] : Machine (Queues ν κ) (Input ν κ) := ⟨step⟩

/-! ### The invariant -/

/-- The coroutine that a destructor on top of the stack is about to resume with a
token of `n`. -/
def popped (n : ν) : List (Activity ν κ) → List κ
  | .resume m c :: _ => if m = n then [c] else []
  | _ => []

/-- What holds of one name at any depth of the stack. -/
structure NameOk (s : Queues ν κ) (n : ν) : Prop where
  /-- A token exists exactly when the queue is held. -/
  tokens : s.tokens n = if (s.queue n).held then 1 else 0
  /-- A destructor resumes only where the token is gone. -/
  popped : popped n s.stack ≠ [] → (s.queue n).held = false
  /-- Nobody waits for a token that nobody has, unless it is on its way. -/
  free : Queues.popped n s.stack = [] → (s.queue n).held = false → (s.queue n).queue = []
  /-- First come, first served. -/
  order : s.enqueued n = s.granted n ++ Queues.popped n s.stack ++ (s.queue n).queue

/-- A stack of coroutines only. -/
def Plain (stack : List (Activity ν κ)) : Prop := ∀ a ∈ stack, ∃ c, a = .run c

structure Ok (s : Queues ν κ) : Prop where
  failed : s.failed = false
  /-- Only the top of the stack may be in the middle of a destructor. -/
  under : Plain s.stack.tail
  name : ∀ n, s.NameOk n

variable {s s' : Queues ν κ} {n m : ν} {c : κ} {stack : List (Activity ν κ)}

theorem init_ok : (init : Queues ν κ).Ok :=
  ⟨rfl, by simp [init, Plain], fun n => ⟨rfl, by simp [init, popped], fun _ _ => rfl, rfl⟩⟩

@[simp] theorem popped_run : popped n (.run c :: stack) = [] := rfl

theorem popped_plain (h : Plain stack) : popped n stack = [] := by
  cases stack with
  | nil => rfl
  | cons a stack =>
    obtain ⟨c, rfl⟩ := h a (List.mem_cons_self ..)
    rfl

theorem popped_running (h : s.running) : popped n s.stack = [] := by
  unfold popped
  split
  · rename_i m c stack hs
    exact absurd (by rw [hs]; rfl) (h m c)
  · rfl

theorem plain_running (h : s.running) (hok : s.Ok) : Plain s.stack := by
  have hunder := hok.under
  cases hs : s.stack with
  | nil => intro a ha; cases ha
  | cons a stack =>
    rw [hs] at hunder
    intro b hb
    rcases List.mem_cons.mp hb with rfl | hb
    · cases b with
      | run c => exact ⟨c, rfl⟩
      | resume m c => exact absurd (by rw [hs]; rfl) (h m c)
    · exact hunder b hb

omit [DecidableEq ν] in
theorem Plain.tail (h : Plain stack) : Plain stack.tail := fun a ha => h a (List.mem_of_mem_tail ha)

theorem tokens_eq_zero (hok : s.NameOk n) (h : (s.queue n).held = false) : s.tokens n = 0 := by
  rw [hok.tokens, h]
  rfl

/-! ### The operations keep it -/

theorem call_ok (hok : s.Ok) (hr : s.running) : Ok { s with stack := .run c :: s.stack } := by
  refine ⟨hok.failed, plain_running hr hok, ?_⟩
  intro n
  obtain ⟨htok, -, hfree, hord⟩ := hok.name n
  rw [popped_running hr] at hfree hord
  exact ⟨htok, fun h => absurd rfl h, fun _ => hfree rfl, hord⟩

theorem leave_ok (hok : s.Ok) (hs : s.stack = .run c :: stack) : Ok { s with stack } := by
  have hplain : Plain stack := by
    have h := hok.under
    rwa [hs] at h
  refine ⟨hok.failed, hplain.tail, ?_⟩
  intro n
  obtain ⟨htok, -, hfree, hord⟩ := hok.name n
  rw [hs, popped_run] at hfree hord
  refine ⟨htok, fun h => absurd (popped_plain hplain) h, fun _ => hfree rfl, ?_⟩
  rw [popped_plain hplain]
  exact hord

/-- **Taking a token or waiting for it.** -/
theorem enqueue_ok (hok : s.Ok) (hs : s.stack = .run c :: stack) : (s.enqueue n c stack).Ok := by
  have hplain : Plain stack := by
    have h := hok.under
    rwa [hs] at h
  have hname := hok.name n
  cases hq : (s.queue n).held with
  | false =>
    have hempty : (s.queue n).queue = [] := hname.free (by rw [hs]; rfl) hq
    have htok : s.tokens n = 0 := tokens_eq_zero hname hq
    have hord := hname.order
    simp only [enqueue, Queue.awaitReady, Queue.awaitResume, hq]
    refine ⟨hok.failed, hok.under, ?_⟩
    intro m
    by_cases hmn : m = n
    · subst hmn
      refine ⟨?_, ?_, ?_, ?_⟩
      · simp [grant, htok]
      · simp [grant, hs]
      · simp [grant]
      · simpa [grant, hs, hempty] using hord
    · obtain ⟨htok, hpop, hfree, hord⟩ := hok.name m
      refine ⟨?_, ?_, ?_, ?_⟩
      · simpa [grant, hmn] using htok
      · simpa [grant, hmn] using hpop
      · simpa [grant, hmn] using hfree
      · simpa [grant, hmn] using hord
  | true =>
    simp only [enqueue, Queue.awaitReady, Queue.awaitSuspend, hq]
    refine ⟨hok.failed, hplain.tail, ?_⟩
    intro m
    obtain ⟨htok, hpop, hfree, hord⟩ := hok.name m
    rw [hs, popped_run] at hfree hord
    by_cases hmn : m = n
    · subst hmn
      refine ⟨?_, ?_, ?_, ?_⟩
      · simpa [hq] using htok
      · simp [popped_plain hplain]
      · simp
      · simp [popped_plain hplain, hord]
    · refine ⟨?_, ?_, ?_, ?_⟩
      · simpa [hmn] using htok
      · simp [popped_plain hplain]
      · simpa [hmn, popped_plain hplain] using hfree
      · simpa [hmn, popped_plain hplain] using hord

/-- **Giving a token up.**  What is popped is on its way until it is resumed. -/
theorem destroy_ok (hok : s.Ok) (hr : s.running) (ht : 0 < s.tokens n) : (s.destroy n).Ok := by
  have hplain := plain_running hr hok
  have hname := hok.name n
  have hq : (s.queue n).held = true := by
    by_contra hq
    rw [tokens_eq_zero hname (by simpa using hq)] at ht
    exact absurd ht (Nat.lt_irrefl 0)
  have htok : s.tokens n = 1 := by rw [hname.tokens, hq]; rfl
  have hord := hname.order
  rw [popped_running hr] at hord
  have hother : ∀ m, s.tokens m = (if (s.queue m).held then 1 else 0) ∧
      ((s.queue m).held = false → (s.queue m).queue = []) ∧
      s.enqueued m = s.granted m ++ (s.queue m).queue := by
    intro m
    obtain ⟨htok, -, hfree, hord⟩ := hok.name m
    rw [popped_running hr] at hfree hord
    exact ⟨htok, hfree rfl, by simpa using hord⟩
  cases hw : (s.queue n).queue with
  | nil =>
    simp only [destroy, Queue.release, hq, hw]
    refine ⟨hok.failed, hok.under, ?_⟩
    intro m
    obtain ⟨hmtok, hmfree, hmord⟩ := hother m
    by_cases hmn : m = n
    · subst hmn
      refine ⟨?_, ?_, ?_, ?_⟩
      · simp [htok]
      · simp
      · simp
      · simpa [popped_running hr, hw] using hord
    · refine ⟨?_, ?_, ?_, ?_⟩
      · simpa [hmn] using hmtok
      · simp [popped_running hr]
      · simpa [hmn] using fun _ => hmfree
      · simpa [hmn, popped_running hr] using hmord
  | cons c queue =>
    simp only [destroy, Queue.release, hq, hw]
    refine ⟨hok.failed, hplain, ?_⟩
    intro m
    obtain ⟨hmtok, hmfree, hmord⟩ := hother m
    by_cases hmn : m = n
    · subst hmn
      refine ⟨?_, ?_, ?_, ?_⟩
      · simp [htok]
      · simp
      · simp [popped]
      · simpa [popped, hw] using hord
    · have hnm : ¬ n = m := fun h => hmn h.symm
      refine ⟨?_, ?_, ?_, ?_⟩
      · simpa [hmn] using hmtok
      · simp [popped, hnm]
      · simpa [hmn] using fun _ => hmfree
      · simpa [popped, hmn, hnm] using hmord

/-- **Resuming a waiter** hands it the token that was given up. -/
theorem resume_ok (hok : s.Ok) (hs : s.stack = .resume n c :: stack) : (s.resume n c stack).Ok := by
  have hplain : Plain stack := by
    have h := hok.under
    rwa [hs] at h
  have hname := hok.name n
  have hpop : popped n s.stack = [c] := by rw [hs]; exact if_pos rfl
  have hq : (s.queue n).held = false := hname.popped (by rw [hpop]; exact List.cons_ne_nil _ _)
  have htok : s.tokens n = 0 := tokens_eq_zero hname hq
  have hord := hname.order
  simp only [resume, Queue.awaitResume, hq]
  refine ⟨hok.failed, hplain, ?_⟩
  intro m
  by_cases hmn : m = n
  · subst hmn
    refine ⟨?_, ?_, ?_, ?_⟩
    · simp [grant, htok]
    · simp
    · simp [grant]
    · simpa [grant, hpop] using hord
  · have hnm : ¬ n = m := fun h => hmn h.symm
    obtain ⟨hmtok, -, hmfree, hmord⟩ := hok.name m
    rw [show popped m s.stack = [] by rw [hs]; exact if_neg hnm] at hmfree hmord
    refine ⟨?_, ?_, ?_, ?_⟩
    · simpa [grant, hmn] using hmtok
    · simp
    · simpa [grant, hmn] using hmfree
    · simpa [grant, hmn] using hmord

/-! ### Runs -/

variable {i : Input ν κ} {inputs : List (Input ν κ)}

/-- **The step lemma.** -/
theorem step_ok (hok : s.Ok) (h : (machine ν κ).step s i = some s') : s'.Ok := by
  change step s i = some s' at h
  unfold step at h
  split at h
  · cases h
  split at h
  · split at h
    · rename_i hr
      cases h
      exact call_ok hok hr
    · cases h
  · rename_i hs
    cases h
    exact enqueue_ok hok hs
  · split at h
    · rename_i hr
      cases h
      exact destroy_ok hok hr.1 hr.2
    · cases h
  · rename_i hs
    cases h
    exact resume_ok hok hs
  · rename_i hs
    cases h
    exact leave_ok hok hs
  · cases h

theorem reaches_ok (h : (machine ν κ).Reaches Machine.Always init s) : s.Ok :=
  h.invariant init_ok fun _ _ _ hok _ hstep => step_ok hok hstep

/-! ### What a caller sees

The four things that happen to a name, with everything the machine does for them:
a coroutine that enqueues gets the token or waits, and a token that is destroyed
is free or passes to the coroutine that waits in front. -/

section Caller

variable {handles : List κ}

omit [DecidableEq ν] in
theorem running_of_plain (h : Plain s.stack) : s.running := by
  intro n c hc
  obtain ⟨c', hc'⟩ := h _ (List.mem_of_head? hc)
  cases hc'

theorem reaches_call (hf : s.failed = false) (hp : Plain s.stack) (c : κ) :
    (machine ν κ).Reaches Machine.Always s { s with stack := .run c :: s.stack } := by
  refine (Machine.Reaches.refl s).tail (i := .call c) trivial ?_
  show step s (.call c) = _
  simp [step, hf, running_of_plain hp]

theorem reaches_enqueue (hf : s.failed = false) (hp : Plain s.stack) (n : ν) (c : κ) :
    (machine ν κ).Reaches Machine.Always s
      (enqueue { s with stack := .run c :: s.stack } n c s.stack) := by
  refine (reaches_call hf hp c).tail (i := .enqueue n) trivial ?_
  show step _ (.enqueue n) = _
  simp [step, hf]

theorem reaches_destroy (hf : s.failed = false) (hp : Plain s.stack) (ht : 0 < s.tokens n) :
    (machine ν κ).Reaches Machine.Always s (s.destroy n) := by
  refine (Machine.Reaches.refl s).tail (i := .destroy n) trivial ?_
  show step s (.destroy n) = _
  simp [step, hf, running_of_plain hp, ht]

theorem reaches_taken (hf : s.failed = false) (hp : Plain s.stack) (c : κ)
    (hq : (s.queue n).held = false) :
    ∃ s', (machine ν κ).Reaches Machine.Always s s' ∧
      s'.queue = Function.update s.queue n { held := true, queue := (s.queue n).queue } ∧
      s'.tokens = Function.update s.tokens n (s.tokens n + 1) ∧
      Plain s'.stack ∧ s'.failed = false := by
  refine ⟨_, reaches_enqueue hf hp n c, ?_⟩
  simp only [enqueue, Queue.awaitReady, Queue.awaitResume, hq]
  refine ⟨rfl, rfl, ?_, hf⟩
  intro a ha
  rcases List.mem_cons.mp ha with rfl | ha
  · exact ⟨c, rfl⟩
  · exact hp a ha

theorem reaches_queued (hf : s.failed = false) (hp : Plain s.stack) (c : κ)
    (hq : (s.queue n).held = true) :
    ∃ s', (machine ν κ).Reaches Machine.Always s s' ∧
      s'.queue = Function.update s.queue n
        { held := true, queue := (s.queue n).queue ++ [c] } ∧
      s'.tokens = s.tokens ∧ Plain s'.stack ∧ s'.failed = false := by
  refine ⟨_, reaches_enqueue hf hp n c, ?_⟩
  simp only [enqueue, Queue.awaitReady, Queue.awaitSuspend, hq]
  exact ⟨rfl, rfl, hp, hf⟩

theorem reaches_freed (hf : s.failed = false) (hp : Plain s.stack) (ht : 0 < s.tokens n)
    (hq : (s.queue n).held = true) (hw : (s.queue n).queue = []) :
    ∃ s', (machine ν κ).Reaches Machine.Always s s' ∧
      s'.queue = Function.update s.queue n { held := false, queue := [] } ∧
      s'.tokens = Function.update s.tokens n (s.tokens n - 1) ∧
      Plain s'.stack ∧ s'.failed = false := by
  refine ⟨_, reaches_destroy hf hp ht, ?_⟩
  simp only [destroy, Queue.release, hq, hw]
  exact ⟨rfl, rfl, hp, hf⟩

theorem reaches_handed (hf : s.failed = false) (hp : Plain s.stack) (ht : 0 < s.tokens n)
    (hq : (s.queue n).held = true) (hw : (s.queue n).queue = c :: handles) :
    ∃ s', (machine ν κ).Reaches Machine.Always s s' ∧
      s'.queue = Function.update s.queue n { held := true, queue := handles } ∧
      s'.tokens = s.tokens ∧ Plain s'.stack ∧ s'.failed = false := by
  have hdestroy : s.destroy n = { s with
      queue := Function.update s.queue n { held := false, queue := handles }
      tokens := Function.update s.tokens n (s.tokens n - 1)
      stack := .resume n c :: s.stack } := by
    simp only [destroy, Queue.release, hq, hw]
    rfl
  have hsum : s.tokens n - 1 + 1 = s.tokens n := Nat.sub_add_cancel ht
  refine ⟨resume (s.destroy n) n c s.stack,
    (reaches_destroy hf hp ht).tail (i := .resume) trivial ?_, ?_⟩
  · show step (s.destroy n) .resume = _
    rw [hdestroy]
    simp [step, hf]
  · rw [hdestroy]
    simp only [resume, Queue.awaitResume, Function.update_self]
    refine ⟨?_, ?_, ?_, hf⟩
    · simp [grant]
    · simp [grant, hsum]
    · intro a ha
      rcases List.mem_cons.mp ha with rfl | ha
      · exact ⟨c, rfl⟩
      · exact hp a ha

end Caller

/-- The name whose queue an input works on. -/
def subject (s : Queues ν κ) : Input ν κ → Option ν
  | .enqueue n | .destroy n => some n
  | .resume =>
    match s.stack with
    | .resume n _ :: _ => some n
    | _ => none
  | _ => none

/-- **A step leaves every other name alone.** -/
theorem step_frame (h : (machine ν κ).step s i = some s') (hm : s.subject i ≠ some m) :
    s'.queue m = s.queue m ∧ s'.tokens m = s.tokens m ∧ s'.enqueued m = s.enqueued m ∧
      s'.granted m = s.granted m := by
  have hne : ∀ n, s.subject i = some n → m ≠ n := fun n hn hmn => hm (hmn ▸ hn)
  change step s i = some s' at h
  unfold step at h
  split at h
  · cases h
  split at h
  · split at h
    · cases h; exact ⟨rfl, rfl, rfl, rfl⟩
    · cases h
  · rename_i n c stack hs
    cases h
    have hmn : m ≠ n := hne n rfl
    unfold enqueue
    dsimp only
    split
    · split <;> simp [fail, grant, hmn]
    · split <;> simp [fail, hmn]
  · rename_i n
    split at h
    · cases h
      have hmn : m ≠ n := hne n rfl
      unfold destroy
      split <;> simp [fail, hmn]
    · cases h
  · rename_i n c stack hs
    cases h
    have hmn : m ≠ n := hne n (by rw [subject, hs])
    unfold resume
    split <;> simp [fail, grant, hmn]
  · cases h; exact ⟨rfl, rfl, rfl, rfl⟩
  · cases h

/-- **The queues of every run**: a name has one token at most and is held exactly
when it has one; a name that is not held, and whose token is not on its way, has
nobody waiting; tokens are granted in the order of the calls and to every caller
once; no assertion fails; and a step works on one name only. -/
theorem run_queues (h : (machine ν κ).run init inputs = some s) :
    (∀ n, s.tokens n ≤ 1 ∧ ((s.queue n).held = true ↔ s.tokens n = 1)) ∧
    (∀ n, popped n s.stack = [] → (s.queue n).held = false → (s.queue n).queue = []) ∧
    (∀ n, s.enqueued n = s.granted n ++ popped n s.stack ++ (s.queue n).queue) ∧
    s.failed = false ∧
    ∀ i s', (machine ν κ).step s i = some s' → s'.failed = false ∧
      ∀ m, s.subject i ≠ some m → s'.queue m = s.queue m ∧ s'.tokens m = s.tokens m ∧
        s'.enqueued m = s.enqueued m ∧ s'.granted m = s.granted m := by
  have hok : s.Ok := reaches_ok (Machine.reaches_of_run h)
  refine ⟨?_, fun n => (hok.name n).free, fun n => (hok.name n).order, hok.failed,
    fun i s' hstep => ⟨(step_ok hok hstep).failed, fun m hm => step_frame hstep hm⟩⟩
  intro n
  rw [(hok.name n).tokens]
  cases (s.queue n).held <;> simp

/-- Coroutine 1 waits for the token of coroutine 0 and is resumed inside its
destructor, where it takes and destroys a token of another name. -/
def nested : List (Input String Nat) :=
  [.call 0, .enqueue "ent1", .call 1, .enqueue "ent1", .destroy "ent1", .resume,
    .enqueue "ent2", .destroy "ent2", .leave]

theorem run_queues_nested :
    ∃ s, (machine String Nat).run init nested = some s ∧ s.granted "ent1" = [0, 1] ∧
      s.tokens "ent1" ≤ 1 ∧ s.failed = false := by
  have h := run_queues (show (machine String Nat).run init nested = some _ from rfl)
  exact ⟨_, rfl, rfl, (h.1 "ent1").1, h.2.2.2.1⟩

end Queues

end Nonsense
