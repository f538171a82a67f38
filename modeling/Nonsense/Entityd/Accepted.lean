import Nonsense.Entityd.Runs
import Nonsense.Transactions.Commits

/-!
# The components that an entity can be given

After a run of the transactions the daemon sends an entity the component it builds
of its network (`Ledger.Sends`).  Whatever the file and the calls were, the component
is made of a chain of networks, the first of which has a known role, so that
`addNetwork_chain` says what the process does with it.
-/

namespace Nonsense

open Config (Ascent)
open Entity (nest)

variable {parse : String → Option Json} {j component : Json} {calls : List Call} {s : Ledger}
  {name : String} {m : Object}

/-- `component` is what is sent of the network `m` of the entity `name`. -/
structure Ledger.Sends (s : Ledger) (name : String) (m : Object) (component : Json) : Prop where
  network : Config.network s.manager.running.configuration name = some m
  sent : Entity.sent s.manager.running.configuration "network" (.object m) = .ok component

/-- What is sent of `name`, if anything. -/
def Ledger.sentOf (s : Ledger) (name : String) : Option (Object × Json) :=
  (Config.network s.manager.running.configuration name).bind fun m =>
    (Entity.sent s.manager.running.configuration "network" (.object m)).toOption.map fun component =>
      (m, component)

theorem Ledger.sends_of_sentOf (h : s.sentOf name = some (m, component)) :
    s.Sends name m component := by
  obtain ⟨m', hm, h⟩ := Option.bind_eq_some_iff.mp h
  obtain ⟨component', hsent, h⟩ := Option.map_eq_some_iff.mp h
  cases h
  refine ⟨hm, ?_⟩
  cases hs : Entity.sent s.manager.running.configuration "network" (.object m) with
  | error f => rw [hs] at hsent; cases hsent
  | ok component' => rw [hs] at hsent; cases hsent; rfl

theorem Ledger.loadAndRun_wellFormed (h : Ledger.loadAndRun parse j calls = some s) :
    Config.WellFormed s.manager.running.configuration := by
  obtain ⟨c, hload, hrun⟩ := Ledger.loadAndRun_eq_some_iff.mp h
  exact (Ledger.running_wellFormed hload hrun).1

namespace Entityd

/-- A component that the process can be given: that of the network `m` with the
role `r`, whose uplinks are `ms`. -/
structure Given (tree : Object) (name : String) (m : Object) (ms : List Object) (r : NetworkRole)
    (component : Json) : Prop where
  chain : Ascent tree name (m :: ms)
  role : ∃ role, m.find "role" = some (.string role) ∧ knownNetworkRoles role = some r
  external : m.find "external_name" = none
  component_eq : component = .object (nest (m :: ms))

/-- **What the daemon sends** is such a component. -/
theorem exists_given (h : Ledger.loadAndRun parse j calls = some s)
    (hsent : s.Sends name m component) :
    ∃ ms r, Given s.manager.running.configuration name m ms r component := by
  have hwf := Ledger.loadAndRun_wellFormed h
  obtain ⟨ms, hchain, rfl⟩ := (Entity.sent_eq_ok_iff hwf hsent.network).mp hsent.sent
  have hok := hwf.networkOk hsent.network
  obtain ⟨role, r, hrole, hr, -⟩ := hok.role
  exact ⟨ms, r, hchain, ⟨role, hrole, hr⟩, NetworkOk.external_name hok, rfl⟩

variable {tree : Object} {ms : List Object} {r : NetworkRole}

/-- **The run in which everything succeeds**, of a process with the argument `own` that has
just started. -/
theorem Given.run_as (h : Given tree name m ms r component) (own : String) :
    ((connecting own m ms r).2 = true →
      addNetwork allOk own component .initial =
        .ok () (({ State.initial with currentComponent := some component }.setUp own
          (preparing own m r)).connected own (connecting own m ms r).1)) ∧
    ((connecting own m ms r).2 = false →
      ∃ what t, addNetwork allOk own component .initial = .error (.assertion what) t ∧
        t.actions = preparing own m r ++ (connecting own m ms r).1) := by
  obtain ⟨hchain, ⟨role, hrole, hr⟩, hexternal, rfl⟩ := h
  exact addNetwork_chain hchain hrole hr hexternal .initial

theorem Given.run (h : Given tree name m ms r component) :
    ((connecting name m ms r).2 = true →
      addNetwork allOk name component .initial =
        .ok () (({ State.initial with currentComponent := some component }.setUp name
          (preparing name m r)).connected name (connecting name m ms r).1)) ∧
    ((connecting name m ms r).2 = false →
      ∃ what t, addNetwork allOk name component .initial = .error (.assertion what) t ∧
        t.actions = preparing name m r ++ (connecting name m ms r).1) :=
  h.run_as name

/-- Whether it returns or not, this is what it does. -/
theorem Given.actions (h : Given tree name m ms r component) (own : String) :
    (finalState (addNetwork allOk own component .initial)).actions =
      preparing own m r ++ (connecting own m ms r).1 := by
  obtain ⟨hok, herror⟩ := h.run_as own
  cases hend : (connecting own m ms r).2 with
  | true =>
    rw [hok hend]
    rfl
  | false =>
    obtain ⟨what, t, hrun, ht⟩ := herror hend
    rw [hrun]
    exact ht

/-- **Where it returns**: what it has done, and what it remembers. -/
theorem Given.of_ok {ok : ℕ → Bool} {own : String} {p : State}
    (h : Given tree name m ms r component) (hnet : addNetwork ok own component .initial = .ok () p) :
    (connecting own m ms r).2 = true ∧
      p.actions = preparing own m r ++ (connecting own m ms r).1 ∧
      p.cleanups = (preparing own m r).filterMap (Action.undo own) ∧
      p.connectionCleanups = (connecting own m ms r).1.filterMap (Action.undo own) := by
  obtain ⟨hok, herror⟩ := h.run_as own
  have hall := addNetwork_allOk_of_ok hnet
  cases hend : (connecting own m ms r).2 with
  | false =>
    obtain ⟨what, t, hrun, -⟩ := herror hend
    rw [hrun] at hall
    cases hall
  | true =>
    rw [hok hend] at hall
    injection hall with _ hp
    rw [← hp]
    exact ⟨rfl, rfl, rfl, rfl⟩

/-- A switch with a switch as its uplink, which has a root as its uplink. -/
def uplinksFile : Json :=
  .object [("!metadata", .object [("version", .integer 1)]),
    ("a", .object [("network", .object [("address", .string "10.0.1.0/24"),
      ("role", .string "switch"), ("uplink", .string "b")])]),
    ("b", .object [("network", .object [("address", .string "10.0.0.0/24"),
      ("role", .string "switch"), ("uplink", .string "c")])]),
    ("c", .object [("network", .object [("role", .string "root")])])]

/-- Load a file, and look at what is sent of `name`. -/
theorem exists_sends (parse : String → Option Json) (file : Json) (calls : List Call)
    (name : String) (P : Ledger → Object × Json → Bool)
    (h : (Ledger.loadAndRun parse file calls).any (fun s => (s.sentOf name).any (P s)) = true) :
    ∃ s m component, Ledger.loadAndRun parse file calls = some s ∧ s.Sends name m component ∧
      P s (m, component) = true := by
  obtain ⟨s, hs, hany⟩ := (Option.any_eq_true ..).mp h
  obtain ⟨⟨m, component⟩, hsent, hp⟩ := (Option.any_eq_true ..).mp hany
  exact ⟨s, m, component, hs, Ledger.sends_of_sentOf hsent, hp⟩

end Entityd

end Nonsense
