import Nonsense.Entityd.DefaultNamespace
import Nonsense.Entityd.Gateways
import Nonsense.Entityd.Runnable

/-!
# The processes of a configuration

`partOf tree name` is what an entity of the configuration is in the network, where its
process can make it that.  Where the entities `names` are all of them of this kind, with
their uplinks among them and no address twice, their processes are a `Plan`
(`Settled.plan`), with the actions that `add_network` has them do.

So they set up the whole network, whatever the order in which their commands are run, on a
system that does what it is asked to where that is of the form that is taken
(`Settled.all_set_up`).
-/

namespace Nonsense

open Config (Ascent uplinkName uplinkOf text isSwitch)

namespace Entityd

def partOf (tree : Object) (name : String) : Option Part :=
  (Config.network tree name).bind fun m =>
    match (text m "role").bind knownNetworkRoles with
    | some .root => some .root
    | some .switch =>
      (uplinkOf tree name).bind fun u =>
        (text m "address").bind fun net => (subnet net).map fun p => .switch u net p
    | some .client =>
      (uplinkOf tree name).bind fun u =>
        ((Config.network tree u).bind networkSubnet).map fun p => .client u p
    | _ => none

/-- What the process of `name` does with the component that it is sent, where everything
succeeds. -/
def programOf (tree : Object) (name : String) : List Action :=
  match Entity.sent tree "network" (Config.component tree name "network") with
  | .ok component => (finalState (addNetwork allOk name component .initial)).actions
  | .error _ => []

/-- The entity with the network `m` is what its role says. -/
inductive Plays (tree : Object) (name : String) (m : Object) : NetworkRole → Part → Prop
  | root : Plays tree name m .root .root
  | switch {u net p : String} : uplinkOf tree name = some u → text m "address" = some net →
      subnet net = some p → Plays tree name m .switch (.switch u net p)
  | client {u p : String} {um : Object} : uplinkOf tree name = some u →
      Config.network tree u = some um → networkSubnet um = some p →
      Plays tree name m .client (.client u p)

/-- The entities that are set up. -/
structure Settled (tree : Object) (names : List String) : Prop where
  wellFormed : Config.WellFormed tree
  ends : Acyclic (uplinkOf tree)
  part : ∀ e ∈ names, (partOf tree e).isSome
  above : ∀ e ∈ names, ∀ u, (partOf tree e).bind Part.uplink = some u → u ∈ names
  /-- No two switches have the same address. -/
  distinct : ∀ e ∈ names, ∀ e' ∈ names, ∀ net, (partOf tree e).bind Part.net = some net →
    (partOf tree e').bind Part.net = some net → e = e'
  named : ∀ e ∈ names, IsName e
  network : ∀ e ∈ names, ∀ u net p, partOf tree e = some (.switch u net p) →
    IsSubnet p ∧ net = p ++ ".0/24"
  /-- No namespace is made by another. -/
  inside : ∀ e ∈ names, ∀ m, Config.network tree e = some m →
    m.find "external" ≠ some (.boolean true)

variable {tree m : Object} {name e u : String} {names : List String} {ms : List Object} {x : Part}

theorem exists_plays (h : partOf tree name = some x) :
    ∃ m role r, Config.network tree name = some m ∧ m.find "role" = some (.string role) ∧
      knownNetworkRoles role = some r ∧ Plays tree name m r x := by
  obtain ⟨m, hm, h⟩ := Option.bind_eq_some_iff.mp h
  cases hr : (text m "role").bind knownNetworkRoles with
  | none =>
    rw [hr] at h
    cases h
  | some r =>
    obtain ⟨role, hrole, hknown⟩ := Option.bind_eq_some_iff.mp hr
    refine ⟨m, role, r, hm, Config.text_eq_some_iff.mp hrole, hknown, ?_⟩
    rw [hr] at h
    cases r with
    | root =>
      cases h
      exact .root
    | switch =>
      obtain ⟨u, hu, h⟩ := Option.bind_eq_some_iff.mp h
      obtain ⟨net, hnet, h⟩ := Option.bind_eq_some_iff.mp h
      obtain ⟨p, hp, rfl⟩ := Option.map_eq_some_iff.mp h
      exact .switch hu hnet hp
    | client =>
      obtain ⟨u, hu, h⟩ := Option.bind_eq_some_iff.mp h
      obtain ⟨p, hp, rfl⟩ := Option.map_eq_some_iff.mp h
      obtain ⟨um, hum, hp⟩ := Option.bind_eq_some_iff.mp hp
      exact .client hu hum hp
    | interface | router => cases h

/-- What it is sent. -/
theorem exists_sent (hwf : Config.WellFormed tree) (hends : Ends (uplinkOf tree) name)
    {role : String} {r : NetworkRole} (hm : Config.network tree name = some m)
    (hrole : m.find "role" = some (.string role)) (hr : knownNetworkRoles role = some r) :
    ∃ ms component, Given tree name m ms r component ∧
      Entity.sent tree "network" (Config.component tree name "network") = .ok component := by
  obtain ⟨ms, hchain⟩ := hwf.exists_chain hends hm
  refine ⟨ms, _, ⟨hchain, ⟨role, hrole, hr⟩, NetworkOk.external_name (hwf.networkOk hm), rfl⟩, ?_⟩
  rw [Config.component_of_network hm]
  exact Entity.sent_chain hchain

/-- An uplink is not a client. -/
theorem uplink_not_client (hwf : Config.WellFormed tree) (hu : uplinkOf tree name = some u) :
    ∃ um, Config.network tree u = some um ∧ um.find "role" ≠ some (.string "client") := by
  obtain ⟨m, hm, hup⟩ := Config.uplinkOf_eq_some_iff.mp hu
  obtain ⟨_, um, hsame, hum, hrole⟩ := (hwf.networkOk hm).uplink _ hup
  cases hsame
  exact ⟨um, hum, hrole⟩

namespace Plays

variable {r : NetworkRole}

theorem uplinkOf (h : Plays tree name m r x) (hu : x.uplink = some u) :
    Config.uplinkOf tree name = some u := by
  cases h with
  | root => cases hu
  | switch h _ _ | client h _ _ =>
    cases hu
    exact h

end Plays

namespace Settled

/-- What the entity is, if it is one of those. -/
def partAmong (tree : Object) (names : List String) (e : String) : Option Part :=
  if e ∈ names then partOf tree e else none

theorem partAmong_eq_some_iff :
    partAmong tree names e = some x ↔ e ∈ names ∧ partOf tree e = some x := by
  rw [partAmong]
  split_ifs with he
  · simp [he]
  · simp [he]

theorem uplinkOf_of_uplinkBy (h : uplinkBy (partAmong tree names) e = some u) :
    ∃ x, e ∈ names ∧ partOf tree e = some x ∧ x.uplink = some u ∧ uplinkOf tree e = some u := by
  obtain ⟨x, hx, hu⟩ := Option.bind_eq_some_iff.mp h
  obtain ⟨he, hx⟩ := partAmong_eq_some_iff.mp hx
  obtain ⟨m, _, _, -, -, -, hplays⟩ := exists_plays hx
  exact ⟨x, he, hx, hu, hplays.uplinkOf hu⟩

/-- An uplink is a root, or a switch with an uplink. -/
theorem root_or_switch (h : Settled tree names) (hu : u ∈ names) (hm : Config.network tree u = some m)
    (hclient : m.find "role" ≠ some (.string "client")) :
    (isSwitch m = false ∧ partAmong tree names u = some .root) ∨
      ∃ v net p, isSwitch m = true ∧ hop m = some (v, p) ∧ v ∈ names ∧
        partAmong tree names u = some (.switch v net p) ∧ m.find "uplink" = some (.string v) := by
  obtain ⟨x, hx⟩ := Option.isSome_iff_exists.mp (h.part u hu)
  obtain ⟨m', role, r, hm', hrole, hr, hplays⟩ := exists_plays hx
  cases hm.symm.trans hm'
  obtain ⟨hroot, -, hswitch, hclient'⟩ := knownNetworkRoles_eq_iff hr
  have hpart := partAmong_eq_some_iff.mpr ⟨hu, hx⟩
  cases hplays with
  | root =>
    left
    refine ⟨?_, hpart⟩
    rw [isSwitch, hrole, hroot.mpr rfl]
    rfl
  | @switch v net p hup hnet hp =>
    right
    have hfind := (Config.uplinkOf_iff_of_network hm).mp hup
    refine ⟨v, net, p, ?_, ?_, h.above u hu v (by rw [hx]; rfl), hpart, hfind⟩
    · rw [Config.isSwitch_iff, hrole, hswitch.mpr rfl]
    · rw [hop_eq_some_iff, networkSubnet, hnet]
      exact ⟨Config.uplinkName_of_find hfind, hp⟩
  | client =>
    rw [hrole, hclient'.mpr rfl] at hclient
    exact absurd rfl hclient

/-- **The loop over the uplinks** goes from switch to switch, up to a root. -/
theorem exists_climb (h : Settled tree names) (hchain : Ascent tree u (m :: ms)) (hu : u ∈ names)
    (hclient : m.find "role" ≠ some (.string "client")) :
    ∃ hs, hops (m :: ms) = (hs, true) ∧ Climb (partAmong tree names) u hs := by
  generalize hl : m :: ms = l at hchain
  induction hchain generalizing m ms with
  | @last u m' hm hup =>
    cases hl
    rcases h.root_or_switch hu hm hclient with ⟨hno, hroot⟩ | ⟨v, net, p, -, -, -, -, hv⟩
    · exact ⟨[], by rw [hops, hno]; rfl, .root hroot⟩
    · rw [hup] at hv
      cases hv
  | @link u v' m' ms' hm hup htail ih =>
    cases hl
    rcases h.root_or_switch hu hm hclient with ⟨hno, hroot⟩ |
        ⟨v, net, p, hswitch, hhop, hmem, hpart, hv⟩
    · exact ⟨[], by rw [hops, hno]; rfl, .root hroot⟩
    · rw [hup] at hv
      cases hv
      obtain ⟨um, ms, rfl⟩ := List.exists_cons_of_ne_nil htail.ne_nil
      obtain ⟨um', hum, hno⟩ :=
        uplink_not_client h.wellFormed ((Config.uplinkOf_iff_of_network hm).mpr hup)
      cases htail.network.symm.trans hum
      obtain ⟨hs, hhops, hclimb⟩ := ih hmem hno rfl
      refine ⟨(v', p) :: hs, ?_, .switch hpart hclimb⟩
      rw [hops, hswitch, if_pos rfl, hhop, hhops]

theorem exists_above (h : Settled tree names) (hu : uplinkBy (partAmong tree names) e = some u) :
    ∃ hs, Climb (partAmong tree names) u hs := by
  obtain ⟨x, he, hx, hxu, hup⟩ := uplinkOf_of_uplinkBy hu
  obtain ⟨um, hum, hno⟩ := uplink_not_client h.wellFormed hup
  obtain ⟨ms, hchain⟩ := h.wellFormed.exists_chain (h.ends u) hum
  obtain ⟨hs, -, hclimb⟩ := h.exists_climb hchain (h.above e he u (by rw [hx]; exact hxu)) hno
  exact ⟨hs, hclimb⟩

/-- **The way into the namespace** is to make one. -/
theorem unshare_of_mem_entering {a : Action} (h : m.find "external" ≠ some (.boolean true))
    (ha : a ∈ entering name m) : a = .unshare := by
  by_cases hdefault : m.find "default" = some (.boolean true)
  · rw [entering_of_default h hdefault] at ha
    cases ha
  · rw [entering_of_not_default h hdefault] at ha
    exact List.mem_singleton.mp ha

/-- The uplink is the next of the chain. -/
theorem exists_next {r : NetworkRole} (h : Settled tree names) (hchain : Ascent tree e (m :: ms))
    (hx : partAmong tree names e = some x) (hplays : Plays tree e m r x) (hu : x.uplink = some u) :
    ∃ um ms' hs, ms = um :: ms' ∧ uplinkName m = some u ∧ Config.network tree u = some um ∧
      hops ms = (hs, true) ∧ Climb (partAmong tree names) u hs := by
  obtain ⟨he, hx⟩ := partAmong_eq_some_iff.mp hx
  have hup := hplays.uplinkOf hu
  obtain ⟨um, hum, hno⟩ := uplink_not_client h.wellFormed hup
  rw [Config.uplinkOf_iff_of_network hchain.network] at hup
  cases hchain with
  | last _ hnone =>
    rw [hnone] at hup
    cases hup
  | link _ hup' htail =>
    rw [hup'] at hup
    cases hup
    obtain ⟨um', ms', rfl⟩ := List.exists_cons_of_ne_nil htail.ne_nil
    cases htail.network.symm.trans hum
    obtain ⟨hs, hhops, hclimb⟩ := h.exists_climb htail (h.above e he u (by rw [hx]; exact hu)) hno
    exact ⟨um, ms', hs, rfl, Config.uplinkName_of_find hup', hum, hhops, hclimb⟩

/-- **What a process is sent** has it do what its part needs, and come to the end of that. -/
theorem exists_connecting (h : Settled tree names) (hx : partAmong tree names e = some x) :
    ∃ m ms r hs component, Given tree e m ms r component ∧
      Entity.sent tree "network" (Config.component tree e "network") = .ok component ∧
      (∀ u, x.uplink = some u → Climb (partAmong tree names) u hs) ∧
      (connecting e m ms r).2 = true ∧
      linking e r ++ (connecting e m ms r).1 = x.deeds e hs := by
  obtain ⟨m, role, r, hm, hrole, hr, hplays⟩ := exists_plays (partAmong_eq_some_iff.mp hx).2
  obtain ⟨ms, component, hgiven, hsent⟩ := exists_sent h.wellFormed (h.ends e) hm hrole hr
  have hnext := fun u => h.exists_next (u := u) hgiven.chain hx hplays
  cases hplays with
  | root => exact ⟨m, ms, _, [], component, hgiven, hsent, fun u hu => (by cases hu), rfl, rfl⟩
  | @switch u net p hup hnet hp =>
    obtain ⟨um, ms', hs, -, hname, -, hhops, hclimb⟩ := hnext u rfl
    have hconnecting : connecting e m ms .switch =
        (.system (here (.linkSetNetns (nd e) u)) ::
          (switchDeeds e u net p hs ++ switchEnd e u p), true) := by
      rw [connecting, connectDeeds, hname]
      dsimp only
      rw [connectedDeeds, hgiven.isSwitch_iff.mpr rfl, if_pos rfl, hnet]
      dsimp only
      rw [hp, hhops]
      rfl
    refine ⟨m, ms, _, hs, component, hgiven, hsent, ?_, ?_, ?_⟩
    · intro u' hu'
      cases hu'
      exact hclimb
    · rw [hconnecting]
    · rw [hconnecting]
      rfl
  | @client u p um hup hum hp =>
    obtain ⟨um', ms', hs, rfl, hname, hum', -, hclimb⟩ := hnext u rfl
    cases hum.symm.trans hum'
    have hno : ¬ isSwitch m = true := fun hc => by cases hgiven.isSwitch_iff.mp hc
    have hconnecting : connecting e m (um :: ms') .client =
        (.system (here (.linkSetNetns (nd e) u)) :: clientDeeds e u p, true) := by
      rw [connecting, connectDeeds, hname]
      dsimp only
      rw [connectedDeeds, if_neg hno, uplinkSubnet, List.head?_cons, Option.bind_some, hp]
    refine ⟨m, _, _, hs, component, hgiven, hsent, ?_, ?_, ?_⟩
    · intro u' hu'
      cases hu'
      exact hclimb
    · rw [hconnecting]
    · rw [hconnecting]
      rfl

/-- **What a process does** is to make it its part. -/
theorem does (h : Settled tree names) (hx : partAmong tree names e = some x) :
    ∃ entry hs, (∀ a ∈ entry, a = .unshare) ∧
      (∀ u, x.uplink = some u → Climb (partAmong tree names) u hs) ∧
      programOf tree e = entry ++ (mounting e ++ x.deeds e hs) := by
  obtain ⟨m, ms, r, hs, component, hgiven, hsent, hclimb, -, hdeeds⟩ := h.exists_connecting hx
  refine ⟨entering e m, hs, ?_, hclimb, ?_⟩
  · exact fun a ha => unshare_of_mem_entering
      (h.inside e (partAmong_eq_some_iff.mp hx).1 m hgiven.chain.network) ha
  · rw [programOf, hsent, ← hdeeds]
    dsimp only
    rw [hgiven.actions e, preparing]
    simp only [List.append_assoc]

/-- With that, `add_network` returns. -/
theorem returns (h : Settled tree names) (he : e ∈ names) :
    ∃ component t, Entity.sent tree "network" (Config.component tree e "network") = .ok component ∧
      addNetwork allOk e component .initial = .ok () t ∧ t.actions = programOf tree e := by
  obtain ⟨x, hx⟩ := Option.isSome_iff_exists.mp (h.part e he)
  obtain ⟨m, ms, r, hs, component, hgiven, hsent, -, hend, -⟩ :=
    h.exists_connecting (partAmong_eq_some_iff.mpr ⟨he, hx⟩)
  have hrun := hgiven.run.1 hend
  refine ⟨component, _, hsent, hrun, ?_⟩
  rw [programOf, hsent]
  dsimp only
  rw [hrun]
  rfl

/-- A client is below a switch: only that has an address. -/
theorem exists_port {p : String} (h : Settled tree names)
    (he : partAmong tree names e = some (.client u p)) :
    ∃ v net, partAmong tree names u = some (.switch v net p) := by
  obtain ⟨hmem, hx⟩ := partAmong_eq_some_iff.mp he
  obtain ⟨m, _, _, -, -, -, hplays⟩ := exists_plays hx
  cases hplays with
  | @client _ _ um hup hum hp =>
    obtain ⟨net, hnet, -⟩ := exists_address hp
    have hswitch : um.find "role" = some (.string "switch") := by
      apply (h.wellFormed.networkOk hum).address
      exact OrdMap.mem_keys_iff.mpr ⟨_, Config.text_eq_some_iff.mp hnet⟩
    have hu := h.above e hmem u (by rw [hx]; rfl)
    rcases h.root_or_switch hu hum (by rw [hswitch]; simp) with ⟨hno, -⟩ |
        ⟨v, net', p', -, hhop, -, hpart, -⟩
    · rw [Config.isSwitch_iff.mpr hswitch] at hno
      cases hno
    · rw [hop_eq_some_iff, hp] at hhop
      cases hhop.2
      exact ⟨v, net', hpart⟩

/-- **The processes of the configuration.** -/
def plan (h : Settled tree names) : Plan where
  part := partAmong tree names
  program e := if e ∈ names then programOf tree e else []
  ends := h.ends.mono fun a b hab => by
    obtain ⟨_, -, -, -, hup⟩ := uplinkOf_of_uplinkBy hab
    exact hup
  subnet := by
    intro e u net p he
    obtain ⟨-, hx⟩ := partAmong_eq_some_iff.mp he
    obtain ⟨m, _, _, -, -, -, hplays⟩ := exists_plays hx
    cases hplays with
    | switch _ _ hp => exact hp
  above := fun e u hu => h.exists_above hu
  port := fun e u p he => h.exists_port he
  distinct := by
    intro e e' u u' net p p' he he'
    obtain ⟨hmem, hx⟩ := partAmong_eq_some_iff.mp he
    obtain ⟨hmem', hx'⟩ := partAmong_eq_some_iff.mp he'
    exact h.distinct e hmem e' hmem' net (by rw [hx]; rfl) (by rw [hx']; rfl)
  idle := by
    intro e he
    rw [if_neg]
    intro hmem
    obtain ⟨x, hx⟩ := Option.isSome_iff_exists.mp (h.part e hmem)
    rw [partAmong_eq_some_iff.mpr ⟨hmem, hx⟩] at he
    cases he
  does := by
    intro e x hx
    rw [if_pos (partAmong_eq_some_iff.mp hx).1]
    obtain ⟨entry, hs, hentry, hdoes⟩ := h.does hx
    exact ⟨entry, hs, fun a ha => hentry a ha ▸ rfl, hdoes⟩

theorem spelled (h : Settled tree names) : h.plan.Spelled where
  name := by
    intro e x hx
    exact h.named e (partAmong_eq_some_iff.mp hx).1
  network := by
    intro e u net p hx
    obtain ⟨he, hx⟩ := partAmong_eq_some_iff.mp hx
    exact h.network e he u net p hx
  idle := by
    intro e a ha hidle
    have ha : a ∈ if e ∈ names then programOf tree e else [] := ha
    split_ifs at ha with he
    · obtain ⟨x, hx⟩ := Option.isSome_iff_exists.mp (h.part e he)
      obtain ⟨entry, hs, hentry, -, hprogram⟩ := h.does (partAmong_eq_some_iff.mpr ⟨he, hx⟩)
      rw [hprogram, List.mem_append, List.mem_append] at ha
      rcases ha with ha | ha | ha
      · rw [hentry a ha]
        exact .unshare
      · simp only [mounting, List.mem_cons, List.not_mem_nil, or_false] at ha
        rcases ha with rfl | rfl | rfl | rfl
        · exact .createDirectories
        · cases hidle
        · exact .openFile (h.named e he)
        · cases hidle
      · cases Part.deed_of_mem ha <;> cases hidle
    · cases ha

/-- **The whole network is set up**, whatever the order in which the commands are run, by a
system that does what is taken.  Where nothing of it was there before, no action fails, every
route is added over a gateway that is reached, and all the processes get through; when one is,
there is all that belongs to its entity, and nothing else has changed. -/
theorem all_set_up (h : Settled tree names) {ν σ : Type} [DecidableEq ν] {own : String → ν}
    (hown : Function.Injective own) {sys : ν → Action → σ → Option σ} {view : σ → Net ν} {s₀ : σ}
    (hheeded : h.plan.Heeded own sys view s₀) (hclean : h.plan.Clean own (view s₀))
    (hquiet : h.plan.Quiet own (view s₀)) {s : Threads.At String σ}
    (hs : (h.plan.processes own sys).Reaches (Threads.At.start String s₀) s) :
    (∀ e ∈ names, ∃ component t,
      Entity.sent tree "network" (Config.component tree e "network") = .ok component ∧
      addNetwork allOk e component .initial = .ok () t ∧ t.actions = programOf tree e) ∧
    (∀ e a, (h.plan.processes own sys).Ready s e a →
      (∃ s', (h.plan.processes own sys).Step s e s') ∧
      ∀ netns network gateway, a = .system ⟨netns, .routeAdd network gateway⟩ →
        (view s.state).Via ((h.plan.site e).within own netns) network gateway) ∧
    (∃ s', (h.plan.processes own sys).Reaches s s' ∧
      ∀ e ∈ names, (h.plan.processes own sys).Through s' e) ∧
    (∀ e ∈ names, (h.plan.processes own sys).Through s e → ∃ x hops, partOf tree e = some x ∧
      (∀ u, x.uplink = some u → Climb (partAmong tree names) u hops) ∧
      Shows own (h.plan.site e) (x.fitting e ((view s₀).routes (own e) "default") (routing hops))
        (view s.state)) ∧
    h.plan.Untouched own (view s₀) (view s.state) := by
  have hshown := Plan.shown hheeded h.spelled hown hclean hquiet
  have hseen := hshown.reaches hs
  obtain ⟨hprogress, hall, hthere, huntouched⟩ := Plan.through hown hclean hseen
  refine ⟨fun e he => h.returns he, ?_, ?_, ?_, huntouched⟩
  · intro e a hready
    have hready' : (h.plan.threads own).Ready (s.map view) e a := Threads.Shown.ready_iff.mp hready
    obtain ⟨⟨s', hstep⟩, -⟩ := hprogress e a hready'
    obtain ⟨s'', hstep, -⟩ := hshown.exists_step hs hstep
    refine ⟨⟨s'', hstep⟩, ?_⟩
    rintro netns network gateway rfl
    exact Plan.via h.spelled hown hclean hquiet hseen hready'
  · obtain ⟨s', hs', hthrough⟩ := hall names
    obtain ⟨s'', hs'', rfl⟩ := hshown.lift hs hs'
    exact ⟨s'', hs'', hthrough⟩
  · intro e he hthrough
    obtain ⟨x, hx⟩ := Option.isSome_iff_exists.mp (h.part e he)
    have hpart : h.plan.part e = some x := partAmong_eq_some_iff.mpr ⟨he, hx⟩
    obtain ⟨r, hshows, hr⟩ := hthere e x hpart hthrough
    obtain ⟨-, hops, -, hclimb, -⟩ := h.does hpart
    refine ⟨x, hops, hx, hclimb, ?_⟩
    cases x with
    | root | client => exact hshows
    | switch u net p =>
      rw [hr u hops rfl (hclimb u rfl)] at hshows
      exact hshows

end Settled

theorem exists_settled_uplinksFile :
    ∃ s, Ledger.loadAndRun (fun _ => none) uplinksFile [] = some s ∧
      Settled s.manager.running.configuration ["a", "b", "c"] ∧
      partOf s.manager.running.configuration "a" = some (.switch "b" "10.0.1.0/24" "10.0.1") ∧
      partOf s.manager.running.configuration "b" = some (.switch "c" "10.0.0.0/24" "10.0.0") ∧
      partOf s.manager.running.configuration "c" = some .root := by
  have hrun : (Ledger.loadAndRun (fun _ => none) uplinksFile []).any (fun s =>
      (∀ k ∈ s.manager.running.configuration.keys,
        ascend (uplinkOf s.manager.running.configuration) 3 k = none) ∧
      (∀ e ∈ ["a", "b", "c"], (Config.network s.manager.running.configuration e).all fun m =>
        (m.find "external").isNone) ∧
      partOf s.manager.running.configuration "a" = some (.switch "b" "10.0.1.0/24" "10.0.1") ∧
      partOf s.manager.running.configuration "b" = some (.switch "c" "10.0.0.0/24" "10.0.0") ∧
      partOf s.manager.running.configuration "c" = some .root) = true := by decide +kernel
  obtain ⟨s, hs, hp⟩ := (Option.any_eq_true ..).mp hrun
  obtain ⟨hkeys, hexternal, ha, hb, hc⟩ := of_decide_eq_true hp
  have hnamed : ∀ e ∈ ["a", "b", "c"], IsName e := by
    intro e he
    simp only [List.mem_cons, List.not_mem_nil, or_false] at he
    rcases he with rfl | rfl | rfl <;> exact ⟨by decide, by simp, by decide⟩
  have hinside : ∀ e ∈ ["a", "b", "c"], ∀ m,
      Config.network s.manager.running.configuration e = some m →
      m.find "external" ≠ some (.boolean true) := by
    intro e he m hm
    have hnone := hexternal e he
    rw [hm, Option.all_some, Option.isNone_iff_eq_none] at hnone
    rw [hnone]
    exact nofun
  refine ⟨s, hs, ⟨Ledger.loadAndRun_wellFormed hs, Config.acyclic_of_keys 3 hkeys, ?_, ?_, ?_,
    hnamed, ?_, hinside⟩, ha, hb, hc⟩
  · simp [ha, hb, hc]
  · simp [ha, hb, hc, Part.uplink]
  · simp [ha, hb, hc, Part.net]
  · simp only [List.mem_cons, List.not_mem_nil, or_false]
    rintro e (rfl | rfl | rfl) u net p he
    · cases ha.symm.trans he
      exact ⟨⟨10, 0, 1, by decide⟩, rfl⟩
    · cases hb.symm.trans he
      exact ⟨⟨10, 0, 0, by decide⟩, rfl⟩
    · cases hc.symm.trans he

/-- Nothing is there. -/
def Net.empty : Net String := ⟨fun _ => none, fun _ _ => none, fun _ _ => none⟩

theorem all_set_up_uplinksFile :
    ∃ (s : Ledger) (h : Settled s.manager.running.configuration ["a", "b", "c"])
      (t : Threads.At String (Net String)),
      Ledger.loadAndRun (fun _ => none) uplinksFile [] = some s ∧
      (h.plan.processes id Net.apply).Reaches (Threads.At.start String Net.empty) t ∧
      t.state.routes "c" "10.0.1.0/24" = some "10.0.0.2" ∧
      t.state.routes "a" "default" = some "10.0.1.1" := by
  obtain ⟨s, hs, h, ha, hb, hc⟩ := exists_settled_uplinksFile
  have hheeded : h.plan.Heeded id Net.apply id Net.empty :=
    ⟨fun _ _ _ net _ _ _ _ hseen => ⟨net, hseen, rfl⟩⟩
  have hclean : h.plan.Clean id Net.empty :=
    ⟨fun _ _ _ _ _ => rfl, fun _ _ _ => rfl, fun _ _ _ _ => rfl⟩
  have hquiet : h.plan.Quiet id Net.empty :=
    ⟨fun _ _ _ _ _ _ _ _ _ _ hl => (by cases hl), fun _ _ _ _ _ => rfl⟩
  obtain ⟨-, -, ⟨t, ht, hthrough⟩, -, -⟩ :=
    Settled.all_set_up h Function.injective_id hheeded hclean hquiet .refl
  obtain ⟨-, -, -, hthere, -⟩ :=
    Settled.all_set_up h Function.injective_id hheeded hclean hquiet ht
  obtain ⟨x, hops, hx, hclimb, hshows⟩ := hthere "a" (by simp) (hthrough "a" (by simp))
  cases ha.symm.trans hx
  have hpart : ∀ e x, e ∈ ["a", "b", "c"] → partOf s.manager.running.configuration e = some x →
      Settled.partAmong s.manager.running.configuration ["a", "b", "c"] e = some x :=
    fun e x he hx => Settled.partAmong_eq_some_iff.mpr ⟨he, hx⟩
  have hhops : hops = [("c", "10.0.0")] :=
    (hclimb "b" rfl).eq (.switch (hpart "b" _ (by simp) hb) (.root (hpart "c" _ (by simp) hc)))
  refine ⟨s, h, t, hs, ht, ?_, hshows.default⟩
  have hnet : (h.plan.site "a").net = some "10.0.1.0/24" :=
    congrArg (Option.bind · Part.net) (hpart "a" _ (by simp) ha)
  have hroute : t.state.routes "c" "10.0.1.0/24" = routing hops "c" :=
    hshows.routes "10.0.1.0/24" "c" hnet
  rw [hroute, hhops]
  decide

end Entityd

end Nonsense
