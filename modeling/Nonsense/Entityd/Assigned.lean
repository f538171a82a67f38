import Nonsense.Entityd.Runnable

/-!
# The addresses that are given out

A switch takes the first two addresses of its own /24, and a client the third of the /24
of its uplink, each of them in a process of its own that knows of no other.  `netOf` is
the role of an entity and the /24 it takes its addresses from, and with the same of both
two entities take the same addresses: they are distinct just if `netOf` is injective
(`addresses_distinct_iff`).
-/

namespace Nonsense

namespace Entityd

open Config (Ascent uplinkName text isSwitch)

variable {parse : String → Option Json} {j component : Json} {calls : List Call} {s : Ledger}
  {tree m um : Object} {name u p link x : String} {ms : List Object} {r : NetworkRole}
  {octet : String → Option ℕ} {v : List ℕ}

/-- The process of `name` gives `link` the address `x`. -/
def Assigns (s : Ledger) (name link x : String) : Prop :=
  ∃ m component netns, s.Sends name m component ∧
    .system ⟨netns, .addrAdd x link⟩ ∈ (finalState (addNetwork allOk name component .initial)).actions

/-- For a switch with an uplink and an address in a /24, and for a client with such a
switch as its uplink: the role, and what the /24 means. -/
def netOf (octet : String → Option ℕ) (tree : Object) (name : String) :
    Option (NetworkRole × List ℕ) :=
  (Config.network tree name).bind fun m => (Config.uplinkOf tree name).bind fun u =>
    if isSwitch m then ((networkSubnet m).bind (reading octet)).map fun v => (.switch, v)
    else if text m "role" = some "client" then
      (Config.network tree u).bind fun um =>
        if isSwitch um then ((networkSubnet um).bind (reading octet)).map fun v => (.client, v)
        else none
    else none

/-- The entities of `S` are given addresses that are all different. -/
def DistinctAddresses (octet : String → Option ℕ) (s : Ledger) (S : Set String) : Prop :=
  ∀ a ∈ S, ∀ b ∈ S, ∀ link link' x y, Assigns s a link x → Assigns s b link' y →
    (a, link) ≠ (b, link') → address octet x ≠ address octet y

/-! ### The addresses of one entity -/

/-- The links of an entity that have addresses, and which these are. -/
def hosts (name : String) : NetworkRole → List (String × ℕ)
  | .switch => [(nd name, 1), (nb name, 2)]
  | .client => [(nu name, 3)]
  | _ => []

/-- The part of a role before the others. -/
def firstHost : NetworkRole → ℕ
  | .client => 3
  | _ => 1

theorem netOf_eq_some (h : netOf octet tree name = some (r, v)) :
    ∃ m u, Config.network tree name = some m ∧ Config.uplinkOf tree name = some u ∧
      ((r = .switch ∧ isSwitch m = true ∧ ∃ p, networkSubnet m = some p ∧ reading octet p = some v) ∨
        (r = .client ∧ text m "role" = some "client" ∧ ∃ um p, Config.network tree u = some um ∧
          networkSubnet um = some p ∧ reading octet p = some v)) := by
  obtain ⟨m, hm, h⟩ := Option.bind_eq_some_iff.mp h
  obtain ⟨u, hu, h⟩ := Option.bind_eq_some_iff.mp h
  refine ⟨m, u, hm, hu, ?_⟩
  split at h
  · rename_i hswitch
    obtain ⟨v', hv, h⟩ := Option.map_eq_some_iff.mp h
    cases h
    exact Or.inl ⟨rfl, hswitch, Option.bind_eq_some_iff.mp hv⟩
  · split at h
    · rename_i hclient
      obtain ⟨um, hum, h⟩ := Option.bind_eq_some_iff.mp h
      split at h
      · obtain ⟨v', hv, h⟩ := Option.map_eq_some_iff.mp h
        cases h
        obtain ⟨p, hp, hv⟩ := Option.bind_eq_some_iff.mp hv
        exact Or.inr ⟨rfl, hclient, um, p, hum, hp, hv⟩
      · cases h
    · cases h

theorem addrAdd_notMem_preparing {netns : Option String} :
    .system ⟨netns, .addrAdd x link⟩ ∉ preparing name m r := by
  unfold preparing entering mounting
  dsimp only
  cases r <;> split_ifs <;> simp [linking, pairing, bridging, here]

theorem connectDeeds_of_uplink (hu : uplinkName m = some u) :
    (connectDeeds name m ms).1 =
      .system (here (.linkSetNetns (nd name) u)) :: (connectedDeeds name u m ms).1 := by
  rw [connectDeeds, hu]

theorem connectDeeds_switch (hu : uplinkName m = some u) (hswitch : isSwitch m = true)
    {net : String} (hnet : text m "address" = some net) (hsubnet : subnet net = some p) :
    (connectDeeds name m ms).1 = .system (here (.linkSetNetns (nd name) u)) ::
      (switchDeeds name u net p (hops ms).1 ++
        if (hops ms).2 = true then switchEnd name u p else []) := by
  rw [connectDeeds_of_uplink hu]
  unfold connectedDeeds
  rw [if_pos hswitch, hnet]
  dsimp only
  rw [hsubnet]
  cases (hops ms).2 with
  | true => rfl
  | false => simp

theorem connectDeeds_client (hu : uplinkName m = some u) (hno : isSwitch m = false)
    (hp : uplinkSubnet ms = some p) :
    (connectDeeds name m ms).1 =
      .system (here (.linkSetNetns (nd name) u)) :: clientDeeds name u p := by
  rw [connectDeeds_of_uplink hu]
  unfold connectedDeeds
  rw [if_neg (by simp [hno]), hp]

theorem firstHost_switch (hu : uplinkName m = some u) (hswitch : isSwitch m = true)
    (hp : networkSubnet m = some p) : ∃ netns,
      .system ⟨netns, .addrAdd (host p 1 ++ "/24") (nd name)⟩ ∈ (connectDeeds name m ms).1 := by
  obtain ⟨net, hnet, hsubnet⟩ := exists_address hp
  refine ⟨some u, ?_⟩
  rw [connectDeeds_switch hu hswitch hnet hsubnet]
  simp [switchDeeds, inside]

/-- **The addresses of a switch** are the first two, or only the first. -/
theorem hosts_switch {netns : Option String} (hu : uplinkName m = some u)
    (hswitch : isSwitch m = true) (hp : networkSubnet m = some p)
    (h : .system ⟨netns, .addrAdd x link⟩ ∈ (connectDeeds name m ms).1) :
    ∃ n, (link, n) ∈ hosts name .switch ∧ x = host p n ++ "/24" := by
  obtain ⟨net, hnet, hsubnet⟩ := exists_address hp
  rw [connectDeeds_switch hu hswitch hnet hsubnet] at h
  rcases List.mem_cons.mp h with h | h
  · cases h
  rcases List.mem_append.mp h with h | h
  · rcases List.mem_cons.mp h with h | h
    · cases h
      exact ⟨1, by simp [hosts], rfl⟩
    · obtain ⟨hop, -, h⟩ := List.mem_map.mp h
      cases h
  · split at h
    · simp only [switchEnd, List.mem_cons, List.not_mem_nil, or_false] at h
      rcases h with h | h | h
      · cases h
      · cases h
        exact ⟨2, by simp [hosts], rfl⟩
      · cases h
    · cases h

theorem firstHost_client (hu : uplinkName m = some u) (hno : isSwitch m = false)
    (hp : uplinkSubnet ms = some p) : ∃ netns,
      .system ⟨netns, .addrAdd (host p 3 ++ "/24") (nu name)⟩ ∈ (connectDeeds name m ms).1 := by
  refine ⟨none, ?_⟩
  rw [connectDeeds_client hu hno hp]
  simp [clientDeeds, here]

/-- **The address of a client** is the third. -/
theorem hosts_client {netns : Option String} (hu : uplinkName m = some u)
    (hno : isSwitch m = false) (hp : uplinkSubnet ms = some p)
    (h : .system ⟨netns, .addrAdd x link⟩ ∈ (connectDeeds name m ms).1) :
    ∃ n, (link, n) ∈ hosts name .client ∧ x = host p n ++ "/24" := by
  rw [connectDeeds_client hu hno hp] at h
  simp only [clientDeeds, List.mem_cons, List.not_mem_nil, or_false] at h
  rcases h with h | h | h | h | h
  · cases h
  · cases h
  · cases h
  · cases h
    exact ⟨3, by simp [hosts], rfl⟩
  · cases h

theorem host_of_hosts {n : ℕ} (h : (link, n) ∈ hosts name r) : n ∈ [1, 2, 3] := by
  cases r <;> simp [hosts] at h ⊢ <;> omega

theorem firstHost_mem : firstHost r ∈ [1, 2, 3] := by
  cases r <;> decide

/-- What is given to an entity is in what its process does to connect. -/
theorem assigns_iff (hsent : s.Sends name m component)
    (hgiven : Given s.manager.running.configuration name m ms r component) :
    Assigns s name link x ↔
      ∃ netns, .system ⟨netns, .addrAdd x link⟩ ∈ (connecting name m ms r).1 := by
  constructor
  · rintro ⟨m', component', netns, hsent', hmem⟩
    obtain rfl := Option.some.inj (hsent'.network.symm.trans hsent.network)
    obtain rfl := Except.ok.inj (hsent'.sent.symm.trans hsent.sent)
    rw [hgiven.actions] at hmem
    refine ⟨netns, (List.mem_append.mp hmem).resolve_left addrAdd_notMem_preparing⟩
  · rintro ⟨netns, hmem⟩
    refine ⟨m, component, netns, hsent, ?_⟩
    rw [hgiven.actions]
    exact List.mem_append_right _ hmem

/-- **What an entity is given**: addresses in its /24, and the first of its role at least. -/
theorem assigns_of_netOf (hoctet : ∀ n ∈ [1, 2, 3], octet (toString n) = some n)
    (h : Ledger.loadAndRun parse j calls = some s)
    (hacyclic : Acyclic (Config.uplinkOf s.manager.running.configuration))
    (hnet : netOf octet s.manager.running.configuration name = some (r, v)) :
    (∃ link x, Assigns s name link x ∧ address octet x = some (v ++ [firstHost r])) ∧
      ∀ link x, Assigns s name link x →
        ∃ n, (link, n) ∈ hosts name r ∧ address octet x = some (v ++ [n]) := by
  obtain ⟨m, u, hm, hu, hrole⟩ := netOf_eq_some hnet
  obtain ⟨ms, hchain⟩ := (Ledger.loadAndRun_wellFormed h).exists_chain (hacyclic name) hm
  have hsent : s.Sends name m _ := ⟨hm, Entity.sent_chain hchain⟩
  obtain ⟨ms, r', hgiven⟩ := exists_given h hsent
  have hname : uplinkName m = some u :=
    Config.uplinkName_of_find ((Config.uplinkOf_iff_of_network hm).mp hu)
  -- in both roles what is given out is in one /24
  have hall : ∀ p, '/' ∉ p.toList → reading octet p = some v → r' = r →
      (∃ link netns, .system ⟨netns, .addrAdd (host p (firstHost r) ++ "/24") link⟩ ∈
        (connecting name m ms r).1) →
      (∀ link x netns, .system ⟨netns, .addrAdd x link⟩ ∈ (connecting name m ms r).1 →
        ∃ n, (link, n) ∈ hosts name r ∧ x = host p n ++ "/24") →
      (∃ link x, Assigns s name link x ∧ address octet x = some (v ++ [firstHost r])) ∧
        ∀ link x, Assigns s name link x →
          ∃ n, (link, n) ∈ hosts name r ∧ address octet x = some (v ++ [n]) := by
    rintro p hp hv rfl ⟨link, hfirst⟩ hmore
    refine ⟨⟨link, _, (assigns_iff hsent hgiven).mpr hfirst,
      address_host firstHost_mem (hoctet _ firstHost_mem) hp hv⟩, ?_⟩
    intro link x hx
    obtain ⟨netns, hmem⟩ := (assigns_iff hsent hgiven).mp hx
    obtain ⟨n, hn, rfl⟩ := hmore link x netns hmem
    exact ⟨n, hn, address_host (host_of_hosts hn) (hoctet _ (host_of_hosts hn)) hp hv⟩
  rcases hrole with ⟨rfl, hisSwitch, p, hp, hv⟩ | ⟨rfl, hisClient, um, p, hum, hp, hv⟩
  · obtain ⟨net, -, hsubnet⟩ := exists_address hp
    have hr' : r' = .switch := hgiven.isSwitch_iff.mp hisSwitch
    exact hall p (notMem_of_subnet hsubnet) hv hr' ⟨_, firstHost_switch hname hisSwitch hp⟩
      fun _ _ _ => hosts_switch hname hisSwitch hp
  · obtain ⟨net, -, hsubnet⟩ := exists_address hp
    have hr' : r' = .client := hgiven.role_iff.2.2.2.mp (Config.text_eq_some_iff.mp hisClient)
    have hno : isSwitch m = false := by
      rw [Bool.eq_false_iff, ne_eq, hgiven.isSwitch_iff, hr']
      exact NetworkRole.noConfusion
    have huplink : uplinkSubnet ms = some p :=
      (uplinkSubnet_eq_some_iff hgiven.chain).mpr ⟨u, um, hu, hum, hp⟩
    exact hall p (notMem_of_subnet hsubnet) hv hr' ⟨_, firstHost_client hname hno huplink⟩
      fun _ _ _ => hosts_client hname hno huplink

/-- The number of an address says whose role it is. -/
theorem role_eq_of_hosts {r' : NetworkRole} {a b link link' : String} {n : ℕ}
    (h : (link, n) ∈ hosts a r) (h' : (link', n) ∈ hosts b r') : r = r' := by
  cases r <;> cases r' <;> simp [hosts] at h h' ⊢ <;> omega

theorem link_eq_of_hosts {link link' : String} {n : ℕ} (h : (link, n) ∈ hosts name r)
    (h' : (link', n) ∈ hosts name r) : link = link' := by
  cases r <;> simp [hosts] at h h' <;> grind

/-- **The addresses that are given out are distinct** just if no two of the entities have
the same role and take their addresses from the same /24. -/
theorem addresses_distinct_iff {S : Set String}
    (hoctet : ∀ n ∈ [1, 2, 3], octet (toString n) = some n)
    (h : Ledger.loadAndRun parse j calls = some s)
    (hacyclic : Acyclic (Config.uplinkOf s.manager.running.configuration))
    (hS : ∀ name ∈ S, (netOf octet s.manager.running.configuration name).isSome) :
    DistinctAddresses octet s S ↔ Set.InjOn (netOf octet s.manager.running.configuration) S := by
  constructor
  · intro hdistinct a ha b hb heq
    obtain ⟨⟨r, v⟩, hnet⟩ := Option.isSome_iff_exists.mp (hS a ha)
    obtain ⟨⟨link, x, hx, hxv⟩, -⟩ := assigns_of_netOf hoctet h hacyclic hnet
    obtain ⟨⟨link', y, hy, hyv⟩, -⟩ := assigns_of_netOf hoctet h hacyclic (heq ▸ hnet)
    by_contra hne
    refine hdistinct a ha b hb link link' x y hx hy (fun hc => hne (congrArg Prod.fst hc)) ?_
    rw [hxv, hyv]
  · intro hinj a ha b hb link link' x y hx hy hne heq
    obtain ⟨⟨r, v⟩, hnet⟩ := Option.isSome_iff_exists.mp (hS a ha)
    obtain ⟨⟨r', v'⟩, hnet'⟩ := Option.isSome_iff_exists.mp (hS b hb)
    obtain ⟨n, hn, hxv⟩ := (assigns_of_netOf hoctet h hacyclic hnet).2 link x hx
    obtain ⟨n', hn', hyv⟩ := (assigns_of_netOf hoctet h hacyclic hnet').2 link' y hy
    rw [hxv, hyv, Option.some.injEq] at heq
    obtain ⟨rfl, hnn⟩ := List.append_inj' heq rfl
    cases hnn
    obtain rfl := role_eq_of_hosts hn hn'
    obtain rfl := hinj ha hb (hnet.trans hnet'.symm)
    exact hne (by rw [link_eq_of_hosts hn hn'])

/-- A part of an address that is written in decimal. -/
def decimal (part : String) : Option ℕ :=
  if part ≠ "" ∧ part.toList.all Char.isDigit = true then
    some (part.toList.foldl (fun n c => 10 * n + (c.toNat - 48)) 0)
  else none

theorem decimal_host : ∀ n ∈ [1, 2, 3], decimal (toString n) = some n := by decide

theorem addresses_distinct_iff_uplinksFile :
    ∃ s, Ledger.loadAndRun (fun _ => none) uplinksFile [] = some s ∧
      DistinctAddresses decimal s {"a", "b"} := by
  obtain ⟨s, m, component, hs, -, hp⟩ := exists_sends (fun _ => none) uplinksFile [] "a"
    (fun s _ => (∀ k ∈ s.manager.running.configuration.keys,
        ascend (Config.uplinkOf s.manager.running.configuration) 3 k = none) ∧
      netOf decimal s.manager.running.configuration "a" = some (.switch, [10, 0, 1]) ∧
      netOf decimal s.manager.running.configuration "b" = some (.switch, [10, 0, 0]))
    (by decide +kernel)
  obtain ⟨hkeys, ha, hb⟩ := of_decide_eq_true hp
  refine ⟨s, hs, (addresses_distinct_iff decimal_host hs (Config.acyclic_of_keys 3 hkeys) ?_).mpr ?_⟩
  · rintro name (rfl | rfl)
    · rw [ha]
      rfl
    · rw [hb]
      rfl
  · rintro name (rfl | rfl) name' (rfl | rfl) heq
    · rfl
    · rw [ha, hb] at heq
      cases heq
    · rw [ha, hb] at heq
      cases heq
    · rfl

/-- Two clients of one switch. -/
def clientsFile : Json :=
  .object [("!metadata", .object [("version", .integer 1)]),
    ("a", .object [("network", .object [("role", .string "client"), ("uplink", .string "w")])]),
    ("b", .object [("network", .object [("role", .string "client"), ("uplink", .string "w")])]),
    ("r", .object [("network", .object [("role", .string "root")])]),
    ("w", .object [("network", .object [("address", .string "10.0.0.0/24"),
      ("role", .string "switch"), ("uplink", .string "r")])])]

/-- **Two clients of one switch** are given one address. -/
theorem clients_share_address :
    ¬ ∀ (parse : String → Option Json) (j : Json) (calls : List Call) (s : Ledger)
      (octet : String → Option ℕ) (S : Set String), Ledger.loadAndRun parse j calls = some s →
        Acyclic (Config.uplinkOf s.manager.running.configuration) →
        (∀ n ∈ [1, 2, 3], octet (toString n) = some n) →
        (∀ name ∈ S, (netOf octet s.manager.running.configuration name).isSome) →
          DistinctAddresses octet s S := by
  intro h
  obtain ⟨s, m, component, hs, -, hp⟩ := exists_sends (fun _ => none) clientsFile [] "a"
    (fun s _ => (∀ k ∈ s.manager.running.configuration.keys,
        ascend (Config.uplinkOf s.manager.running.configuration) 3 k = none) ∧
      netOf decimal s.manager.running.configuration "a" = some (.client, [10, 0, 0]) ∧
      netOf decimal s.manager.running.configuration "b" = some (.client, [10, 0, 0]))
    (by decide +kernel)
  obtain ⟨hkeys, ha, hb⟩ := of_decide_eq_true hp
  have hacyclic := Config.acyclic_of_keys 3 hkeys
  have hdistinct := h _ _ _ s decimal {"a", "b"} hs hacyclic decimal_host (by
    rintro name (rfl | rfl)
    · rw [ha]
      rfl
    · rw [hb]
      rfl)
  obtain ⟨⟨link, x, hx, hxv⟩, -⟩ := assigns_of_netOf decimal_host hs hacyclic ha
  obtain ⟨⟨link', y, hy, hyv⟩, -⟩ := assigns_of_netOf decimal_host hs hacyclic hb
  refine hdistinct "a" (Or.inl rfl) "b" (Or.inr rfl) link link' x y hx hy (by simp) ?_
  rw [hxv, hyv]

end Entityd

end Nonsense
