import Nonsense.Entityd.Basic
import Nonsense.Lib.Edit

/-!
# Setting up as a script

What the system answers changes what the process does in one way only: where an
action has to succeed and does not, the process throws.  `Scripted x` says so of a
computation: there is one list of steps, and what `x` does is to go through it
until it stands still.

So the run in which everything succeeds says what any other run does.  The actions of
any run are a prefix of its actions (`Scripted.cut`), a run that returns ends
as it does (`Scripted.allOk_of_ok`), and a command that fails is the last action
(`Scripted.failed`).
-/

namespace Nonsense

namespace Entityd

/-- Everything succeeds. -/
def allOk : ℕ → Bool := fun _ => true

/-- The state after `actions`. -/
def State.did (s : State) (actions : List Action) : State :=
  { s with actions := s.actions ++ actions }

@[simp] theorem State.did_actions (s : State) (l : List Action) :
    (s.did l).actions = s.actions ++ l := rfl

@[simp] theorem State.did_cleanups (s : State) (l : List Action) :
    (s.did l).cleanups = s.cleanups := rfl

@[simp] theorem State.did_connectionCleanups (s : State) (l : List Action) :
    (s.did l).connectionCleanups = s.connectionCleanups := rfl

@[simp] theorem State.did_nil (s : State) : s.did [] = s := by
  rw [State.did, List.append_nil]

@[simp] theorem State.did_did (s : State) (l l' : List Action) :
    (s.did l).did l' = s.did (l ++ l') := by
  rw [State.did, State.did, State.did, List.append_assoc]

/-- A step of a script. -/
inductive Step
  /-- Ask for `action`, and throw `fault`, if there is one, where it does not succeed. -/
  | ask (action : Action) (fault : Option Fault)
  /-- Change what the process remembers. -/
  | note (f : State → State) (actions_eq : ∀ s, (f s).actions = s.actions)

/-- A command is only a part of a script if it has to succeed. -/
def Step.Checked : Step → Prop
  | ask (.system _) fault => fault.isSome
  | _ => True

variable {α β : Type} {ok : ℕ → Bool} {s t : State}

/-- Go through `steps`, and end with `e` behind them. -/
def execute (ok : ℕ → Bool) : List Step → Except Fault α → State → EStateM.Result Fault State α
  | [], .ok a, s => .ok a s
  | [], .error f, s => .error f s
  | .ask action none :: steps, e, s => execute ok steps e (s.did [action])
  | .ask action (some f) :: steps, e, s =>
    if ok s.actions.length then execute ok steps e (s.did [action])
    else .error f (s.did [action])
  | .note f _ :: steps, e, s => execute ok steps e (f s)

/-- `x` goes through a script. -/
def Scripted (x : (ℕ → Bool) → Proc α) : Prop :=
  ∃ steps e, (∀ step ∈ steps, step.Checked) ∧ ∀ ok s, x ok s = execute ok steps e s

/-! ### What is scripted -/

/-- Go on after a result. -/
def andThen (r : EStateM.Result Fault State α) (f : α → Proc β) : EStateM.Result Fault State β :=
  match r with
  | .ok a s => f a s
  | .error e s => .error e s

theorem bind_apply (x : Proc α) (f : α → Proc β) (s : State) :
    (x >>= f) s = andThen (x s) f := by
  show EStateM.bind x f s = _
  unfold EStateM.bind andThen
  cases x s <;> rfl

theorem andThen_execute_ok {a : α} {f : α → Proc β} {steps' : List Step} {e : Except Fault β}
    (hf : ∀ s, f a s = execute ok steps' e s) (steps : List Step) (s : State) :
    andThen (execute ok steps (.ok a) s) f = execute ok (steps ++ steps') e s := by
  induction steps generalizing s with
  | nil => exact hf s
  | cons step steps ih =>
    cases step with
    | ask action fault =>
      cases fault with
      | none => exact ih _
      | some e =>
        rw [List.cons_append, execute, execute]
        split
        · exact ih _
        · rfl
    | note g _ => exact ih _

theorem andThen_execute_error {e : Fault} {f : α → Proc β} (steps : List Step) (s : State) :
    andThen (execute ok steps (.error e) s) f = execute ok steps (.error e) s := by
  induction steps generalizing s with
  | nil => rfl
  | cons step steps ih =>
    cases step with
    | ask action fault =>
      cases fault with
      | none => exact ih _
      | some e =>
        rw [execute, execute]
        split
        · exact ih _
        · rfl
    | note g _ => exact ih _

/-- **Scripts one after the other are a script.** -/
theorem Scripted.bind {x : (ℕ → Bool) → Proc α} {f : (ℕ → Bool) → α → Proc β}
    (hx : Scripted x) (hf : ∀ a, Scripted fun ok => f ok a) :
    Scripted fun ok => x ok >>= f ok := by
  obtain ⟨steps, e, hsteps, hx⟩ := hx
  cases e with
  | error e =>
    refine ⟨steps, .error e, hsteps, ?_⟩
    intro ok s
    show (x ok >>= f ok) s = _
    rw [bind_apply, hx, andThen_execute_error]
  | ok a =>
    obtain ⟨steps', e', hsteps', hf⟩ := hf a
    refine ⟨steps ++ steps', e', ?_, ?_⟩
    · intro step hstep
      exact (List.mem_append.mp hstep).elim (hsteps step) (hsteps' step)
    · intro ok s
      show (x ok >>= f ok) s = _
      rw [bind_apply, hx, andThen_execute_ok (hf ok)]

theorem Scripted.pure (a : α) : Scripted fun _ => (pure a : Proc α) :=
  ⟨[], .ok a, by simp, fun _ _ => rfl⟩

theorem Scripted.throw (e : Fault) : Scripted fun _ => (throw e : Proc α) :=
  ⟨[], .error e, by simp, fun _ _ => rfl⟩

theorem Scripted.ite {p : Prop} [Decidable p] {x y : (ℕ → Bool) → Proc α} (hx : Scripted x)
    (hy : Scripted y) : Scripted fun ok => if p then x ok else y ok := by
  by_cases h : p
  · simp only [h, if_true]
    exact hx
  · simp only [h, if_false]
    exact hy

theorem Scripted.lift (x : Except Fault α) : Scripted fun _ => lift x := by
  cases x with
  | ok a => exact Scripted.pure a
  | error e => exact Scripted.throw e

theorem Scripted.modify (f : State → State) (hf : ∀ s, (f s).actions = s.actions) :
    Scripted fun _ => (modify f : Proc Unit) :=
  ⟨[.note f hf], .ok (), by simp [Step.Checked], fun _ _ => rfl⟩

/-- An action whose outcome is not looked at. -/
theorem Scripted.perform {action : Action} (h : ∀ c, action ≠ .system c) :
    Scripted fun ok => discard (perform ok action) := by
  refine ⟨[.ask action none], .ok (), ?_, fun _ _ => rfl⟩
  intro step hstep
  rw [List.mem_singleton.mp hstep]
  cases action with
  | system c => exact absurd rfl (h c)
  | _ => trivial

/-- An action that has to succeed. -/
theorem Scripted.require (action : Action) (e : Fault) :
    Scripted fun ok => require ok action e := by
  refine ⟨[.ask action (some e)], .ok (), ?_, ?_⟩
  · intro step hstep
    rw [List.mem_singleton.mp hstep]
    cases action <;> trivial
  · intro ok s
    show (if ok s.actions.length then _ else _ : Proc Unit) _ = _
    rw [execute]
    split <;> rfl

theorem Scripted.annotatedSystem (c : Command) : Scripted fun ok => annotatedSystem ok c :=
  Scripted.require (.system c) _

/-! ### What follows for every run -/

theorem execute_grows (ok : ℕ → Bool) (e : Except Fault α) (steps : List Step) (s : State) :
    s.actions <+: (finalState (execute ok steps e s)).actions := by
  induction steps generalizing s with
  | nil => cases e <;> exact List.prefix_rfl
  | cons step steps ih =>
    cases step with
    | ask action fault =>
      have hdid : s.actions <+: (s.did [action]).actions := List.prefix_append ..
      cases fault with
      | none => exact hdid.trans (ih _)
      | some f =>
        rw [execute]
        split
        · exact hdid.trans (ih _)
        · exact hdid
    | note f hf =>
      have hrun := ih (f s)
      rwa [hf] at hrun

theorem execute_cut (e : Except Fault α) (steps : List Step) (s : State) :
    (finalState (execute ok steps e s)).actions <+:
      (finalState (execute allOk steps e s)).actions := by
  induction steps generalizing s with
  | nil => cases e <;> exact List.prefix_rfl
  | cons step steps ih =>
    cases step with
    | ask action fault =>
      cases fault with
      | none => exact ih _
      | some f =>
        rw [execute, execute, if_pos (show allOk _ = true from rfl)]
        split
        · exact ih _
        · exact execute_grows _ e steps (s.did [action])
    | note f _ => exact ih _

theorem execute_allOk_of_ok {e : Except Fault α} {a : α} {steps : List Step}
    (h : execute ok steps e s = .ok a t) : execute allOk steps e s = .ok a t := by
  induction steps generalizing s with
  | nil => cases e <;> exact h
  | cons step steps ih =>
    cases step with
    | ask action fault =>
      cases fault with
      | none => exact ih h
      | some f =>
        rw [execute] at h
        split at h
        · rw [execute, if_pos (show allOk _ = true from rfl)]
          exact ih h
        · cases h
    | note f _ => exact ih h

/-- What is asked for first is asked for in every run. -/
theorem execute_starts (e : Except Fault α) (steps : List Step) (s : State)
    (h : s.actions.length < (finalState (execute allOk steps e s)).actions.length) :
    s.actions.length < (finalState (execute ok steps e s)).actions.length := by
  induction steps generalizing s with
  | nil => cases e <;> exact h
  | cons step steps ih =>
    cases step with
    | ask action fault =>
      have hdid : s.actions.length < (s.did [action]).actions.length := by simp
      cases fault with
      | none => exact hdid.trans_le (execute_grows _ e steps _).length_le
      | some f =>
        rw [execute]
        split
        · exact hdid.trans_le (execute_grows _ e steps _).length_le
        · exact hdid
    | note f hf =>
      have hrun := ih (f s)
      rw [hf] at hrun
      exact hrun h

/-- A command that fails is the end of it. -/
theorem execute_failed {e : Except Fault α} {steps : List Step} {c : Command} {i : ℕ}
    (hchecked : ∀ step ∈ steps, step.Checked) (hok : ok i = false) (hi : s.actions.length ≤ i)
    (hc : (finalState (execute ok steps e s)).actions[i]? = some (.system c)) :
    ∃ f t, execute ok steps e s = .error f t ∧ t.actions.length = i + 1 := by
  induction steps generalizing s with
  | nil =>
    have hnone : s.actions[i]? = none := List.getElem?_eq_none hi
    cases e <;> exact absurd (hc.symm.trans hnone) (by simp)
  | cons step steps ih =>
    have ih := fun {s : State} => ih (s := s) fun step hs => hchecked step (List.mem_cons_of_mem _ hs)
    cases step with
    | ask action fault =>
      have hlength : (s.did [action]).actions.length = s.actions.length + 1 := by simp
      cases fault with
      | none =>
        rw [execute] at hc ⊢
        rcases Nat.eq_or_lt_of_le hi with rfl | hlt
        · -- the action here is not a command
          obtain ⟨l, hl⟩ := execute_grows ok e steps (s.did [action])
          rw [← hl] at hc
          have haction : action = .system c := by simpa using hc
          have hstep := hchecked _ List.mem_cons_self
          rw [haction] at hstep
          cases hstep
        · exact ih (by omega) hc
      | some f =>
        rw [execute] at hc ⊢
        by_cases hhere : ok s.actions.length
        · rw [if_pos hhere] at hc ⊢
          have hne : i ≠ s.actions.length := by
            rintro rfl
            rw [hok] at hhere
            cases hhere
          exact ih (by omega) hc
        · rw [if_neg hhere] at hc ⊢
          refine ⟨f, s.did [action], rfl, ?_⟩
          obtain ⟨hlt, -⟩ := List.getElem?_eq_some_iff.mp hc
          have hlt : i < (s.did [action]).actions.length := hlt
          omega
    | note f hf => exact ih (by rw [hf]; exact hi) hc

variable {x : (ℕ → Bool) → Proc α}

/-- **Any run is cut from the one in which everything succeeds.** -/
theorem Scripted.cut (hx : Scripted x) (ok : ℕ → Bool) (s : State) :
    (finalState (x ok s)).actions <+: (finalState (x allOk s)).actions := by
  obtain ⟨steps, e, -, hx⟩ := hx
  rw [hx, hx]
  exact execute_cut e steps s

theorem Scripted.starts (hx : Scripted x) (ok : ℕ → Bool) (s : State)
    (h : s.actions.length < (finalState (x allOk s)).actions.length) :
    s.actions.length < (finalState (x ok s)).actions.length := by
  obtain ⟨steps, e, -, hx⟩ := hx
  rw [hx] at h ⊢
  exact execute_starts e steps s h

/-- **A run that returns** is the one in which everything succeeds. -/
theorem Scripted.allOk_of_ok (hx : Scripted x) {a : α} (h : x ok s = .ok a t) :
    x allOk s = .ok a t := by
  obtain ⟨steps, e, -, hx⟩ := hx
  rw [hx] at h ⊢
  exact execute_allOk_of_ok h

/-- **A command that fails is the last action**, and throws. -/
theorem Scripted.failed (hx : Scripted x) {c : Command} {i : ℕ} (hok : ok i = false)
    (hi : s.actions.length ≤ i) (hc : (finalState (x ok s)).actions[i]? = some (.system c)) :
    ∃ f t, x ok s = .error f t ∧ t.actions.length = i + 1 := by
  obtain ⟨steps, e, hchecked, hx⟩ := hx
  rw [hx] at hc ⊢
  exact execute_failed hchecked hok hi hc

/-! ### The functions of the process -/

variable {name : String}

theorem addCleanups_scripted (clean : List Action) : Scripted fun _ => addCleanups clean :=
  Scripted.modify _ fun _ => rfl

theorem addConnectionCleanups_scripted (clean : List Action) :
    Scripted fun _ => addConnectionCleanups clean :=
  Scripted.modify _ fun _ => rfl

theorem emplaceComponent_scripted (component : Json) :
    Scripted fun _ => emplaceComponent component :=
  Scripted.modify _ fun _ => rfl

theorem setupInterfaces_scripted : Scripted fun ok => setupInterfaces ok name := by
  unfold setupInterfaces
  apply (Scripted.annotatedSystem _).bind
  intro _
  apply (Scripted.annotatedSystem _).bind
  intro _
  exact addCleanups_scripted _

theorem setupBridge_scripted : Scripted fun ok => setupBridge ok name := by
  unfold setupBridge
  apply (Scripted.annotatedSystem _).bind
  intro _
  apply (Scripted.annotatedSystem _).bind
  intro _
  apply (Scripted.annotatedSystem _).bind
  intro _
  exact addCleanups_scripted _

theorem addRoutes_eq (net : String) (uplink : Json) (clean : List Action) :
    addRoutes ok net uplink clean =
      if uplink.isNull then pure clean
      else (do
        let role ← lift (uplink.subscript "role")
        if role.eqString "switch" then
          let uplinkName ← lift (getText uplink ":uplink-name")
          let uplinkNet ← lift (getText uplink "address")
          let uplinkUplinkAddress ← lift (nthAddressInSubnet uplinkNet 2 false)
          annotatedSystem ok (inside uplinkName (.routeAdd net uplinkUplinkAddress))
          let clean := clean ++ [.system (inside uplinkName (.routeDel net))]
          match uplink.find "uplink" with
          | some next => addRoutes ok net next clean
          | none => pure clean
        else pure clean) := by
  rw [addRoutes]
  cases uplink.find "uplink" <;> rfl

/-- The loop is scripted, by the size of what it still has to walk. -/
theorem addRoutes_scripted (net : String) (uplink : Json) (clean : List Action) :
    Scripted fun ok => addRoutes ok net uplink clean := by
  rw [show (fun ok => addRoutes ok net uplink clean) = _ from
    funext fun ok => addRoutes_eq net uplink clean]
  apply (Scripted.pure clean).ite
  apply (Scripted.lift _).bind
  intro role
  apply Scripted.ite ?_ (Scripted.pure clean)
  apply (Scripted.lift _).bind
  intro uplinkName
  apply (Scripted.lift _).bind
  intro uplinkNet
  apply (Scripted.lift _).bind
  intro address
  apply (Scripted.annotatedSystem _).bind
  intro _
  cases hnext : uplink.find "uplink" with
  | none => exact Scripted.pure _
  | some next => exact addRoutes_scripted net next _
termination_by sizeOf uplink
decreasing_by exact Json.sizeOf_find_lt hnext

theorem connectSwitch_scripted (component : Json) (uplinkName : String) (clean : List Action) :
    Scripted fun ok => connectSwitch ok name component uplinkName clean := by
  unfold connectSwitch
  apply (Scripted.lift _).bind
  intro net
  apply (Scripted.lift _).bind
  intro downlinkAddress
  apply (Scripted.annotatedSystem _).bind
  intro _
  apply (Scripted.lift _).bind
  intro uplink
  apply (addRoutes_scripted net uplink _).bind
  intro clean
  apply (Scripted.annotatedSystem _).bind
  intro _
  apply (Scripted.lift _).bind
  intro gateway
  apply (Scripted.lift _).bind
  intro assignedAddress
  apply (Scripted.annotatedSystem _).bind
  intro _
  apply (Scripted.annotatedSystem _).bind
  intro _
  exact Scripted.pure _

theorem connectClient_scripted (component : Json) (uplinkName : String) (clean : List Action) :
    Scripted fun ok => connectClient ok name component uplinkName clean := by
  unfold connectClient
  apply (Scripted.annotatedSystem _).bind
  intro _
  apply (Scripted.lift _).bind
  intro uplink
  apply (Scripted.lift _).bind
  intro uplinkNet
  apply (Scripted.lift _).bind
  intro gateway
  apply (Scripted.lift _).bind
  intro assignedAddress
  apply (Scripted.annotatedSystem _).bind
  intro _
  apply (Scripted.annotatedSystem _).bind
  intro _
  apply (Scripted.annotatedSystem _).bind
  intro _
  exact Scripted.pure _

theorem connect_scripted (component : Json) : Scripted fun ok => connect ok name component := by
  unfold connect
  apply (Scripted.lift _).bind
  intro uplinkName
  apply (Scripted.annotatedSystem _).bind
  intro _
  apply (Scripted.lift _).bind
  intro role
  apply Scripted.bind
  · exact (connectSwitch_scripted ..).ite (connectClient_scripted ..)
  · intro clean
    exact addConnectionCleanups_scripted clean

theorem enterNamespace_scripted (component : Json) :
    Scripted fun ok => enterNamespace ok name component := by
  unfold enterNamespace
  apply (Scripted.lift _).bind
  intro external
  apply (Scripted.lift _).bind
  intro default
  apply Scripted.ite
  · apply (Scripted.lift _).bind
    intro _
    apply (Scripted.require _ _).bind
    intro _
    exact Scripted.perform fun c hc => by cases hc
  · exact (Scripted.require _ _).ite (Scripted.pure ())

theorem mountNamespace_scripted : Scripted fun ok => mountNamespace ok name := by
  unfold mountNamespace
  apply (Scripted.require _ _).bind
  intro _
  apply (Scripted.perform fun c hc => by cases hc).bind
  intro _
  apply (Scripted.require _ _).bind
  intro _
  apply (Scripted.require _ _).bind
  intro _
  exact addCleanups_scripted _

theorem setupRole_scripted (component : Json) (role : NetworkRole) :
    Scripted fun ok => setupRole ok name component role := by
  cases role with
  | root => exact Scripted.pure ()
  | interface => exact Scripted.throw _
  | router =>
    apply setupInterfaces_scripted.bind
    intro _
    apply (Scripted.throw _).bind
    intro _
    exact connect_scripted component
  | switch =>
    apply setupInterfaces_scripted.bind
    intro _
    apply setupBridge_scripted.bind
    intro _
    exact connect_scripted component
  | client =>
    apply setupInterfaces_scripted.bind
    intro _
    exact connect_scripted component

/-- **Adding a network is scripted.** -/
theorem addNetworkBody_scripted (component : Json) :
    Scripted fun ok => addNetworkBody ok name component := by
  unfold addNetworkBody
  apply (Scripted.lift _).bind
  intro role
  cases knownNetworkRoles role with
  | none => exact Scripted.throw _
  | some roleEnum =>
    apply (emplaceComponent_scripted component).bind
    intro _
    apply (enterNamespace_scripted component).bind
    intro _
    apply mountNamespace_scripted.bind
    intro _
    exact setupRole_scripted component roleEnum

/-! ### The handler -/

variable {component : Json}

theorem addNetwork_eq_ok_iff :
    addNetwork ok name component s = .ok () t ↔ addNetworkBody ok name component s = .ok () t := by
  unfold addNetwork
  cases addNetworkBody ok name component s with
  | ok _ _ => exact Iff.rfl
  | error f _ => cases f <;> exact iff_of_false (fun h => by cases h) fun h => by cases h

theorem addNetwork_actions (ok : ℕ → Bool) (name : String) (component : Json) (s : State) :
    (finalState (addNetwork ok name component s)).actions =
      (finalState (addNetworkBody ok name component s)).actions := by
  unfold addNetwork
  cases addNetworkBody ok name component s with
  | ok _ _ => rfl
  | error f _ => cases f <;> rfl

/-- What `add_network` throws is a failed assertion: its handler asserts. -/
theorem addNetwork_error {f : Fault} (h : addNetwork ok name component s = .error f t) :
    ∃ what, f = .assertion what := by
  unfold addNetwork at h
  cases hbody : addNetworkBody ok name component s with
  | ok _ _ => rw [hbody] at h; cases h
  | error f' _ =>
    rw [hbody] at h
    cases f' <;> cases h <;> exact ⟨_, rfl⟩

theorem addNetwork_cut (ok : ℕ → Bool) (name : String) (component : Json) (s : State) :
    (finalState (addNetwork ok name component s)).actions <+:
      (finalState (addNetwork allOk name component s)).actions := by
  rw [addNetwork_actions, addNetwork_actions]
  exact (addNetworkBody_scripted component).cut ok s

theorem addNetwork_starts (ok : ℕ → Bool) {first : Action} {rest : List Action}
    (h : (finalState (addNetwork allOk name component .initial)).actions = first :: rest) :
    first ∈ (finalState (addNetwork ok name component .initial)).actions := by
  obtain ⟨l, hl⟩ := addNetwork_cut ok name component .initial
  have hlength : 0 < (finalState (addNetwork ok name component .initial)).actions.length := by
    rw [addNetwork_actions]
    apply (addNetworkBody_scripted component).starts ok .initial
    rw [← addNetwork_actions, h, List.length_cons]
    exact Nat.succ_pos _
  rw [h] at hl
  obtain ⟨a, l', hactions⟩ := List.exists_cons_of_length_pos hlength
  rw [hactions, List.cons_append] at hl
  cases hl
  rw [hactions]
  exact List.mem_cons_self

theorem addNetwork_allOk_of_ok (h : addNetwork ok name component s = .ok () t) :
    addNetwork allOk name component s = .ok () t :=
  addNetwork_eq_ok_iff.mpr ((addNetworkBody_scripted component).allOk_of_ok
    (addNetwork_eq_ok_iff.mp h))

/-- **A command that fails ends the process**, and it is the last thing done. -/
theorem addNetwork_failed {c : Command} {i : ℕ} (hok : ok i = false)
    (hi : s.actions.length ≤ i)
    (hc : (finalState (addNetwork ok name component s)).actions[i]? = some (.system c)) :
    ∃ what t, addNetwork ok name component s = .error (.assertion what) t ∧
      t.actions.length = i + 1 := by
  have hactions := addNetwork_actions ok name component s
  rw [hactions] at hc
  obtain ⟨f, t, hbody, ht⟩ := (addNetworkBody_scripted component).failed hok hi hc
  cases hnet : addNetwork ok name component s with
  | ok _ _ =>
    rw [addNetwork_eq_ok_iff.mp hnet] at hbody
    cases hbody
  | error f' t' =>
    obtain ⟨what, rfl⟩ := addNetwork_error hnet
    refine ⟨what, t', rfl, ?_⟩
    rw [hnet, hbody] at hactions
    have hactions : t'.actions = t.actions := hactions
    rw [hactions, ht]

/-- The process goes on to its end where `add_network` returns, and is gone where not. -/
theorem lifetime_eq :
    lifetime ok name component = match addNetwork ok name component .initial with
      | .ok _ s => finalState (shutdown ok s)
      | .error _ s => s := by
  have hadd : addComponent ok name "network" component .initial =
      match addNetwork ok name component .initial with
      | .ok _ s => .ok none s
      | .error f s => .error f s := by
    show (addNetwork ok name component >>= fun _ => pure none) State.initial = _
    rw [bind_apply]
    cases addNetwork ok name component .initial <;> rfl
  rw [lifetime, hadd]
  cases hnet : addNetwork ok name component .initial with
  | ok _ s => rfl
  | error f s =>
    obtain ⟨what, rfl⟩ := addNetwork_error hnet
    rfl

end Entityd

end Nonsense
