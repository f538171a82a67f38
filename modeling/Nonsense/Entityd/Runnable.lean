import Nonsense.Entityd.Accepted

/-!
# What can be set up

The validation of the daemon and the reading of `entityd` do not ask for the same.
`Runnable tree name m` is what the process needs to set up the network `m` of the
entity `name`: it can be a root, a switch with an uplink and an address in a /24, every
switch above which has these too, or a client with an uplink that has an address in a
/24.

It returns exactly then (`addNetwork_returns_iff`).
-/

namespace Nonsense

namespace Config

/-- `b` is the uplink of `a`, and a switch. -/
def SwitchUplink (tree : Object) (a b : String) : Prop :=
  uplinkOf tree a = some b ∧ ∃ m, network tree b = some m ∧ isSwitch m = true

variable {tree m um : Object} {name a b u : String} {ms : List Object}

theorem not_switchUplink (hm : network tree name = some m) (hup : m.find "uplink" = none) :
    ¬ SwitchUplink tree name b := by
  rintro ⟨hu, -⟩
  rw [uplinkOf_iff_of_network hm, hup] at hu
  cases hu

theorem switchUplink_iff (hm : network tree name = some m) (hup : m.find "uplink" = some (.string u))
    (hum : network tree u = some um) : SwitchUplink tree name b ↔ b = u ∧ isSwitch um = true := by
  constructor
  · rintro ⟨hu, bm, hbm, hswitch⟩
    rw [(uplinkOf_iff_of_network hm).mpr hup] at hu
    cases hu
    rw [hum] at hbm
    cases hbm
    exact ⟨rfl, hswitch⟩
  · rintro ⟨rfl, hswitch⟩
    exact ⟨(uplinkOf_iff_of_network hm).mpr hup, um, hum, hswitch⟩

end Config

namespace Entityd

open Config (Ascent uplinkName isSwitch SwitchUplink)

variable {parse : String → Option Json} {j component : Json} {calls : List Call} {s : Ledger}
  {tree m : Object} {name : String} {ms : List Object}

/-- A network with an uplink and an address in a /24. -/
def Routed (m : Object) : Prop := (uplinkName m).isSome ∧ (networkSubnet m).isSome

/-- Every switch that is above `name`, with switches only between, is routed. -/
def RoutedAbove (tree : Object) (name : String) : Prop :=
  ∀ b bm, Relation.TransGen (SwitchUplink tree) name b → Config.network tree b = some bm → Routed bm

/-- What the process can set up. -/
def Runnable (tree : Object) (name : String) (m : Object) : Prop :=
  m.find "role" = some (.string "root") ∨
  (m.find "role" = some (.string "switch") ∧ Routed m ∧ RoutedAbove tree name) ∨
  (m.find "role" = some (.string "client") ∧
    ∃ u um, Config.uplinkOf tree name = some u ∧ Config.network tree u = some um ∧
      (networkSubnet um).isSome)

theorem isSome_hop_iff : (hop m).isSome ↔ Routed m := by
  unfold hop Routed
  cases uplinkName m <;> cases networkSubnet m <;> simp

theorem routedAbove_iff {u : String} {um : Object} (hm : Config.network tree name = some m)
    (hup : m.find "uplink" = some (.string u)) (hum : Config.network tree u = some um) :
    RoutedAbove tree name ↔ (isSwitch um = true → Routed um ∧ RoutedAbove tree u) := by
  constructor
  · intro h hswitch
    have hfirst : SwitchUplink tree name u := (Config.switchUplink_iff hm hup hum).mpr ⟨rfl, hswitch⟩
    refine ⟨h u um (.single hfirst) hum, ?_⟩
    intro b bm hb hbm
    exact h b bm (.head hfirst hb) hbm
  · intro h b bm hb hbm
    obtain ⟨x, hx, hxb⟩ := Relation.TransGen.head'_iff.mp hb
    obtain ⟨rfl, hswitch⟩ := (Config.switchUplink_iff hm hup hum).mp hx
    obtain ⟨hrouted, habove⟩ := h hswitch
    rcases Relation.reflTransGen_iff_eq_or_transGen.mp hxb with rfl | hxb
    · rw [hum] at hbm
      cases hbm
      exact hrouted
    · exact habove b bm hxb hbm

/-- **The loop over the uplinks comes to its end** where the switches above are routed. -/
theorem hops_end_iff (h : Ascent tree name (m :: ms)) :
    (hops ms).2 = true ↔ RoutedAbove tree name := by
  generalize hl : m :: ms = l at h
  induction h generalizing m ms with
  | last hm hup =>
    cases hl
    refine iff_of_true rfl ?_
    intro b bm hb
    obtain ⟨x, hx, -⟩ := Relation.TransGen.head'_iff.mp hb
    exact absurd hx (Config.not_switchUplink hm hup)
  | @link name u m' ms' hm hup htail ih =>
    cases hl
    obtain ⟨um, ms, rfl⟩ := List.exists_cons_of_ne_nil htail.ne_nil
    rw [routedAbove_iff hm hup htail.network, ← ih rfl, ← isSome_hop_iff, hops]
    cases isSwitch um with
    | false => simp
    | true => cases hop um <;> simp

theorem connectedDeeds_returns_iff {u : String} :
    (connectedDeeds name u m ms).2 = true ↔
      if isSwitch m then (networkSubnet m).isSome ∧ (hops ms).2 = true
      else (uplinkSubnet ms).isSome := by
  rw [connectedDeeds]
  cases isSwitch m with
  | true =>
    rw [if_pos rfl, if_pos rfl, networkSubnet]
    cases Config.text m "address" with
    | none => simp
    | some net =>
      rw [Option.bind_some]
      cases hsubnet : subnet net with
      | none => simp [hsubnet]
      | some p => cases hend : (hops ms).2 <;> simp [hsubnet]
  | false =>
    rw [if_neg (by decide), if_neg (by decide)]
    cases uplinkSubnet ms <;> simp

theorem connectDeeds_returns_iff :
    (connectDeeds name m ms).2 = true ↔ (uplinkName m).isSome ∧
      if isSwitch m then (networkSubnet m).isSome ∧ (hops ms).2 = true
      else (uplinkSubnet ms).isSome := by
  rw [connectDeeds]
  cases uplinkName m with
  | none => simp
  | some u => simpa using connectedDeeds_returns_iff

/-- The uplink of a client is the first of the networks above it. -/
theorem uplinkSubnet_eq_some_iff {p : String} (h : Ascent tree name (m :: ms)) :
    uplinkSubnet ms = some p ↔ ∃ v um, Config.uplinkOf tree name = some v ∧
      Config.network tree v = some um ∧ networkSubnet um = some p := by
  cases h with
  | last hm hup =>
    refine iff_of_false (fun h => by cases h) ?_
    rintro ⟨v, um, hv, -⟩
    rw [Config.uplinkOf_iff_of_network hm, hup] at hv
    cases hv
  | @link _ v _ _ hm hup htail =>
    obtain ⟨um, ms, rfl⟩ := List.exists_cons_of_ne_nil htail.ne_nil
    have hv := (Config.uplinkOf_iff_of_network hm).mpr hup
    constructor
    · intro hp
      exact ⟨v, um, hv, htail.network, hp⟩
    · rintro ⟨v', um', hv', hum', hp⟩
      rw [hv] at hv'
      cases hv'
      rw [htail.network] at hum'
      cases hum'
      exact hp

theorem isSome_uplinkSubnet_iff (h : Ascent tree name (m :: ms)) :
    (uplinkName m).isSome ∧ (uplinkSubnet ms).isSome ↔
      ∃ u um, Config.uplinkOf tree name = some u ∧ Config.network tree u = some um ∧
        (networkSubnet um).isSome := by
  simp only [Option.isSome_iff_exists (x := uplinkSubnet ms), uplinkSubnet_eq_some_iff h]
  constructor
  · rintro ⟨-, p, u, um, hu, hum, hp⟩
    exact ⟨u, um, hu, hum, by rw [hp]; rfl⟩
  · rintro ⟨u, um, hu, hum, hp⟩
    obtain ⟨p, hp⟩ := Option.isSome_iff_exists.mp hp
    refine ⟨?_, p, u, um, hu, hum, hp⟩
    rw [Config.uplinkName_of_find ((Config.uplinkOf_iff_of_network h.network).mp hu)]
    rfl

theorem knownNetworkRoles_eq_iff {role : String} {r : NetworkRole}
    (h : knownNetworkRoles role = some r) :
    (role = "root" ↔ r = .root) ∧ (role = "router" ↔ r = .router) ∧
      (role = "switch" ↔ r = .switch) ∧ (role = "client" ↔ r = .client) := by
  unfold knownNetworkRoles at h
  split_ifs at h <;> cases h <;> simp_all

/-- The role as the configuration has it. -/
theorem Given.role_iff {r : NetworkRole} (h : Given tree name m ms r component) :
    (m.find "role" = some (.string "root") ↔ r = .root) ∧
      (m.find "role" = some (.string "router") ↔ r = .router) ∧
      (m.find "role" = some (.string "switch") ↔ r = .switch) ∧
      (m.find "role" = some (.string "client") ↔ r = .client) := by
  obtain ⟨role, hrole, hr⟩ := h.role
  rw [hrole]
  simpa only [Option.some.injEq, Json.string.injEq] using knownNetworkRoles_eq_iff hr

theorem Given.isSwitch_iff {r : NetworkRole} (h : Given tree name m ms r component) :
    isSwitch m = true ↔ r = .switch :=
  Config.isSwitch_iff.trans h.role_iff.2.2.1

/-- **What the process has set up in the end** is what it needs. -/
theorem Given.returns_iff {r : NetworkRole} (h : Given tree name m ms r component) :
    (connecting name m ms r).2 = true ↔ Runnable tree name m := by
  obtain ⟨hroot, -, hswitch, hclient⟩ := h.role_iff
  unfold Runnable
  rw [hroot, hswitch, hclient]
  cases r with
  | root => simp [connecting]
  | interface | router => simp [connecting]
  | switch =>
    rw [connecting, connectDeeds_returns_iff, if_pos (h.isSwitch_iff.mpr rfl), hops_end_iff h.chain,
      Routed]
    simp [and_assoc]
  | client =>
    have hno : ¬ isSwitch m = true := fun hc => by cases h.isSwitch_iff.mp hc
    rw [connecting, connectDeeds_returns_iff, if_neg hno, isSome_uplinkSubnet_iff h.chain]
    simp

/-- **When the process returns** from adding the network that it is sent, where
everything it asks for succeeds. -/
theorem addNetwork_returns_iff (h : Ledger.loadAndRun parse j calls = some s)
    (hacyclic : Acyclic (Config.uplinkOf s.manager.running.configuration))
    (hm : Config.network s.manager.running.configuration name = some m) :
    ∃ component, s.Sends name m component ∧
      ((∃ t, addNetwork allOk name component .initial = .ok () t) ↔
        Runnable s.manager.running.configuration name m) := by
  have hwf := Ledger.loadAndRun_wellFormed h
  obtain ⟨ms, hchain⟩ := hwf.exists_chain (hacyclic name) hm
  have hsends : s.Sends name m _ := ⟨hm, Entity.sent_chain hchain⟩
  refine ⟨_, hsends, ?_⟩
  obtain ⟨ms, r, hgiven⟩ := exists_given h hsends
  rw [← hgiven.returns_iff]
  constructor
  · rintro ⟨t, ht⟩
    by_contra hend
    obtain ⟨what, t', hrun, -⟩ := hgiven.run.2 (Bool.eq_false_of_not_eq_true hend)
    rw [hrun] at ht
    cases ht
  · intro hend
    exact ⟨_, hgiven.run.1 hend⟩

/-- A computation has returned. -/
def returned : EStateM.Result Fault State Unit → Bool
  | .ok _ _ => true
  | .error _ _ => false

theorem returned_iff {r : EStateM.Result Fault State Unit} :
    returned r = true ↔ ∃ t, r = .ok () t := by
  cases r with
  | ok _ t => exact iff_of_true rfl ⟨t, rfl⟩
  | error f t =>
    refine iff_of_false Bool.false_ne_true ?_
    rintro ⟨_, h⟩
    cases h

theorem addNetwork_returns_iff_uplinksFile :
    ∃ s m, Ledger.loadAndRun (fun _ => none) uplinksFile [] = some s ∧
      Config.network s.manager.running.configuration "a" = some m ∧
      Runnable s.manager.running.configuration "a" m := by
  obtain ⟨s, m, component, hs, hsent, hp⟩ := exists_sends (fun _ => none) uplinksFile [] "a"
    (fun s p => (∀ k ∈ s.manager.running.configuration.keys,
        ascend (Config.uplinkOf s.manager.running.configuration) 3 k = none) ∧
      returned (addNetwork allOk "a" p.2 .initial) = true) (by decide +kernel)
  obtain ⟨hkeys, hreturned⟩ := of_decide_eq_true hp
  obtain ⟨component', hsends, hiff⟩ :=
    addNetwork_returns_iff hs (Config.acyclic_of_keys 3 hkeys) hsent.network
  have hsame := hsends.sent.symm.trans hsent.sent
  cases hsame
  exact ⟨s, m, hs, hsent.network, hiff.mp (returned_iff.mp hreturned)⟩

/-- A switch with nothing else. -/
def bareSwitchFile : Json :=
  .object [("!metadata", .object [("version", .integer 1)]),
    ("a", .object [("network", .object [("role", .string "switch")])])]

/-- **A switch without an uplink and an address is accepted**, and then its process
ends in a failed assertion. -/
theorem bare_switch_asserts :
    ¬ ∀ (parse : String → Option Json) (j : Json) (calls : List Call) (s : Ledger) (name : String)
      (m : Object) (component : Json), Ledger.loadAndRun parse j calls = some s →
        Acyclic (Config.uplinkOf s.manager.running.configuration) → s.Sends name m component →
          ∃ t, addNetwork allOk name component .initial = .ok () t := by
  intro h
  obtain ⟨s, m, component, hs, hsent, hp⟩ := exists_sends (fun _ => none) bareSwitchFile [] "a"
    (fun s p => (∀ k ∈ s.manager.running.configuration.keys,
        ascend (Config.uplinkOf s.manager.running.configuration) 1 k = none) ∧
      returned (addNetwork allOk "a" p.2 .initial) = false) (by decide +kernel)
  obtain ⟨hkeys, hnot⟩ := of_decide_eq_true hp
  have hreturned := returned_iff.mpr (h _ _ _ _ _ _ _ hs (Config.acyclic_of_keys 1 hkeys) hsent)
  rw [hnot] at hreturned
  cases hreturned

end Entityd

end Nonsense
