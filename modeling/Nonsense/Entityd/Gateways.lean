import Nonsense.Entityd.Taken

/-!
# The gateways can be reached

In a namespace of the entities, all addresses are those that were there before and those that
the processes give (`Plan.Gives`), and a route that is not the default one is one to the
network of a switch, by way of that namespace (`Plan.exists_route`).  Where what was there
before is elsewhere (`Plan.Quiet`), every gateway is then reached over a link, in a /24 in
which no other route leads (`Plan.via`).

So a system that does what is taken does all that the processes ask it to (`Plan.shown`).
-/

namespace Nonsense

namespace Entityd

/-! ### What there is comes from an action -/

namespace Fitting

variable {e : Site} {f f' : Fitting} {s : Slot} {k : Link} {a y gateway : String} {l : List Action}

theorem setLink_links {s' : Slot} {k' : Option Link} :
    (f.setLink s' k').links s = if s = s' then k' else f.links s := Function.update_apply ..

theorem exists_of_adjust {netns : Option String} {link : String} {g : Link → Option Link}
    (h : f.adjust e netns link g = some f') (hk : f'.links s = some k) :
    f.links s = some k ∨ ∃ k₀, e.slot netns link = some s ∧ f.links s = some k₀ ∧ g k₀ = some k := by
  obtain ⟨s', hs', h⟩ := Option.bind_eq_some_iff.mp h
  obtain ⟨k₀, hk₀, h⟩ := Option.bind_eq_some_iff.mp h
  obtain ⟨k', hg, rfl⟩ := Option.map_eq_some_iff.mp h
  rw [setLink_links] at hk
  split_ifs at hk with hs
  · subst hs
    cases hk
    exact Or.inr ⟨k₀, hs', hk₀, hg⟩
  · exact Or.inl hk

/-- What is put in a slot is there, or what was there before. -/
theorem links_of_setLink {s' : Slot} {k' : Option Link} (hk : (f.setLink s' k').links s = some k) :
    k' = some k ∨ f.links s = some k := by
  rw [setLink_links] at hk
  split_ifs at hk
  · exact Or.inl hk
  · exact Or.inr hk

theorem exists_address_of_apply {x : Action} (h : f.apply e x = some f') (hk : f'.links s = some k)
    (ha : a ∈ k.addresses) :
    (∃ k₀, f.links s = some k₀ ∧ a ∈ k₀.addresses) ∨
      ∃ netns link, x = .system ⟨netns, .addrAdd a link⟩ ∧ e.slot netns link = some s := by
  have hkept : f'.links = f.links → ∃ k₀, f.links s = some k₀ ∧ a ∈ k₀.addresses :=
    fun hlinks => ⟨k, by rw [← hlinks, hk], ha⟩
  cases x with
  | system c =>
    obtain ⟨netns, c⟩ := c
    cases c with
    | linkAddVeth link peer =>
      simp only [apply, ip] at h
      split_ifs at h
      cases h
      rcases links_of_setLink hk with hk | hk
      · cases hk
        cases ha
      · rcases links_of_setLink hk with hk | hk
        · cases hk
          cases ha
        · exact Or.inl ⟨k, hk, ha⟩
    | linkAddBridge link =>
      simp only [apply, ip] at h
      split_ifs at h
      cases h
      rcases links_of_setLink hk with hk | hk
      · cases hk
        cases ha
      · exact Or.inl ⟨k, hk, ha⟩
    | linkSetNetns link x =>
      simp only [apply, ip] at h
      split_ifs at h
      cases h
      rcases links_of_setLink hk with hk | hk
      · cases hk
        cases ha
      · rcases links_of_setLink hk with hk | hk
        · cases hk
        · exact Or.inl ⟨k, hk, ha⟩
    | linkSetUp link =>
      rcases exists_of_adjust h hk with hk | ⟨k₀, -, hk₀, hg⟩
      · exact Or.inl ⟨k, hk, ha⟩
      · cases hg
        exact Or.inl ⟨k₀, hk₀, ha⟩
    | linkSetMaster link bridge =>
      change (if f.bridged e bridge netns then f.adjust e netns link _ else none) = some f' at h
      split_ifs at h
      rcases exists_of_adjust h hk with hk | ⟨k₀, -, hk₀, hg⟩
      · exact Or.inl ⟨k, hk, ha⟩
      · cases hg
        exact Or.inl ⟨k₀, hk₀, ha⟩
    | addrAdd address link =>
      rcases exists_of_adjust h hk with hk | ⟨k₀, hslot, hk₀, hg⟩
      · exact Or.inl ⟨k, hk, ha⟩
      · split_ifs at hg
        cases hg
        rcases List.mem_append.mp ha with ha | ha
        · exact Or.inl ⟨k₀, hk₀, ha⟩
        · cases List.mem_singleton.mp ha
          exact Or.inr ⟨netns, link, rfl, hslot⟩
    | routeAdd network gateway => exact Or.inl (hkept (links_of_addRoute h))
    | _ => cases h
  | mount path | umount path =>
    rw [apply] at h
    split_ifs at h
    cases h
    exact Or.inl ⟨k, hk, ha⟩
  | _ =>
    cases h
    exact Or.inl ⟨k, hk, ha⟩

/-- **An address is added by an action.** -/
theorem exists_address (h : f.run e l = some f') (hk : f'.links s = some k) (ha : a ∈ k.addresses) :
    (∃ k₀, f.links s = some k₀ ∧ a ∈ k₀.addresses) ∨
      ∃ netns link, .system ⟨netns, .addrAdd a link⟩ ∈ l ∧ e.slot netns link = some s := by
  induction l generalizing f with
  | nil =>
    cases h
    exact Or.inl ⟨k, hk, ha⟩
  | cons x l ih =>
    rw [run, List.foldlM_cons] at h
    obtain ⟨f₁, hstep, h⟩ := Option.bind_eq_some_iff.mp h
    rcases ih h with ⟨k₁, hk₁, ha₁⟩ | ⟨netns, link, hmem, hslot⟩
    · rcases exists_address_of_apply hstep hk₁ ha₁ with hold | ⟨netns, link, rfl, hslot⟩
      · exact Or.inl hold
      · exact Or.inr ⟨netns, link, List.mem_cons_self, hslot⟩
    · exact Or.inr ⟨netns, link, List.mem_cons_of_mem x hmem, hslot⟩

theorem routes_of_adjust {netns : Option String} {link : String} {g : Link → Option Link}
    (h : f.adjust e netns link g = some f') : f'.routes = f.routes := by
  obtain ⟨s', -, h⟩ := Option.bind_eq_some_iff.mp h
  obtain ⟨k₀, -, h⟩ := Option.bind_eq_some_iff.mp h
  obtain ⟨k', -, rfl⟩ := Option.map_eq_some_iff.mp h
  rfl

theorem exists_route_of_apply {x : Action} (h : f.apply e x = some f')
    (hy : f'.routes y = some gateway) :
    f.routes y = some gateway ∨ ∃ network, x = .system ⟨some y, .routeAdd network gateway⟩ := by
  cases x with
  | system c =>
    obtain ⟨netns, c⟩ := c
    cases c with
    | linkAddVeth | linkAddBridge | linkSetNetns =>
      simp only [apply, ip] at h
      split_ifs at h
      cases h
      exact Or.inl hy
    | linkSetUp | addrAdd =>
      rw [← routes_of_adjust h]
      exact Or.inl hy
    | linkSetMaster link bridge =>
      change (if f.bridged e bridge netns then f.adjust e netns link _ else none) = some f' at h
      split_ifs at h
      rw [← routes_of_adjust h]
      exact Or.inl hy
    | routeAdd network g =>
      change f.addRoute e network g netns = some f' at h
      cases netns with
      | none =>
        rw [addRoute] at h
        split_ifs at h
        cases h
        exact Or.inl hy
      | some x =>
        rw [addRoute] at h
        split_ifs at h
        cases h
        change Function.update f.routes x (some g) y = some gateway at hy
        by_cases hx : y = x
        · subst hx
          rw [Function.update_self] at hy
          cases hy
          exact Or.inr ⟨network, rfl⟩
        · rw [Function.update_of_ne hx] at hy
          exact Or.inl hy
    | _ => cases h
  | mount path | umount path =>
    rw [apply] at h
    split_ifs at h
    cases h
    exact Or.inl hy
  | _ =>
    cases h
    exact Or.inl hy

/-- **And so is a route.** -/
theorem exists_route (h : f.run e l = some f') (hy : f'.routes y = some gateway) :
    f.routes y = some gateway ∨ ∃ network, .system ⟨some y, .routeAdd network gateway⟩ ∈ l := by
  induction l generalizing f with
  | nil =>
    cases h
    exact Or.inl hy
  | cons x l ih =>
    rw [run, List.foldlM_cons] at h
    obtain ⟨f₁, hstep, h⟩ := Option.bind_eq_some_iff.mp h
    rcases ih h with hy₁ | ⟨network, hmem⟩
    · rcases exists_route_of_apply hstep hy₁ with hold | ⟨network, rfl⟩
      · exact Or.inl hold
      · exact Or.inr ⟨network, List.mem_cons_self⟩
    · exact Or.inr ⟨network, List.mem_cons_of_mem x hmem⟩

end Fitting

namespace Part

variable {x : Part} {name link a network gateway y : String} {netns : Option String}
  {hs : List (String × String)}

/-- The addresses that an entity gives. -/
theorem address_of_mem (h : .system ⟨netns, .addrAdd a link⟩ ∈ x.deeds name hs) :
    (∃ u net p, x = .switch u net p ∧
      (netns = some u ∧ a = host p 1 ++ "/24" ∨ netns = none ∧ a = host p 2 ++ "/24")) ∨
    ∃ u p, x = .client u p ∧ netns = none ∧ a = host p 3 ++ "/24" := by
  cases deed_of_mem h with
  | @farAddress u net p => exact Or.inl ⟨u, net, p, rfl, Or.inl ⟨rfl, rfl⟩⟩
  | @bridgeAddress u net p => exact Or.inl ⟨u, net, p, rfl, Or.inr ⟨rfl, rfl⟩⟩
  | @address u p => exact Or.inr ⟨u, p, rfl, rfl, rfl⟩

/-- Its default route goes over the first host of a switch. -/
theorem default_of_mem (h : .system ⟨none, .routeAdd network gateway⟩ ∈ x.deeds name hs) :
    network = "default" ∧ ∃ p, gateway = host p 1 ∧
      ((∃ u net, x = .switch u net p) ∨ ∃ u, x = .client u p) := by
  cases deed_of_mem h with
  | @switchDefault u net p => exact ⟨rfl, p, rfl, Or.inl ⟨u, net, rfl⟩⟩
  | @clientDefault u p => exact ⟨rfl, p, rfl, Or.inr ⟨u, rfl⟩⟩

end Part

namespace Plan

variable {P : Plan} {e u w y net p network gateway link a : String} {x : Part} {n : ℕ}

/-- In the namespace of `y`, the processes give the address of the host `n` in the /24 of the
switch `w`. -/
inductive Gives (P : Plan) : String → String → String → ℕ → Prop
  | port {w y net p : String} : P.part w = some (.switch y net p) → Gives P y w p 1
  | bridge {y u net p : String} : P.part y = some (.switch u net p) → Gives P y y p 2
  | client {y w u net p : String} : P.part y = some (.client w p) →
      P.part w = some (.switch u net p) → Gives P y w p 3

theorem Gives.exists_switch (h : P.Gives y w p n) : ∃ u net, P.part w = some (.switch u net p) := by
  cases h with
  | port hw | bridge hw | client _ hw => exact ⟨_, _, hw⟩

/-- In the namespaces of the entities, there is nothing of the networks of the switches, and no
route but the default one. -/
structure Quiet {ν : Type} (P : Plan) (own : String → ν) (net₀ : Net ν) : Prop where
  addresses : ∀ y x w u net p, P.part y = some x → P.part w = some (.switch u net p) →
    ∀ link l, net₀.links (own y) link = some l → ∀ n mask, host p n ++ "/" ++ mask ∉ l.addresses
  routes : ∀ y x network, P.part y = some x → network ≠ "default" →
    net₀.routes (own y) network = none

theorem uplinkBy_of_switch (h : P.part e = some (.switch u net p)) : uplinkBy P.part e = some u := by
  rw [uplinkBy, h]
  rfl

theorem uplinkBy_of_client (h : P.part e = some (.client u p)) : uplinkBy P.part e = some u := by
  rw [uplinkBy, h]
  rfl

/-- An address is given by the entity that is named, in the namespace that is meant. -/
theorem gives_of_mem {netns : Option String} (h : .system ⟨netns, .addrAdd a link⟩ ∈ P.program e) :
    ∃ y w p n, netns.getD e = y ∧ P.Gives y w p n ∧ a = host p n ++ "/24" := by
  obtain ⟨x, hx, hno | ⟨hs, -, hmem⟩⟩ := mem_program h
  · exact absurd rfl (hno _)
  · rcases Part.address_of_mem hmem with
      ⟨u, net, p, rfl, ⟨rfl, rfl⟩ | ⟨rfl, rfl⟩⟩ | ⟨u, p, rfl, rfl, rfl⟩
    · exact ⟨u, e, p, 1, rfl, .port hx, rfl⟩
    · exact ⟨e, e, p, 2, rfl, .bridge hx, rfl⟩
    · obtain ⟨v, net, hu⟩ := P.port e u p hx
      exact ⟨e, u, p, 3, rfl, .client hx hu, rfl⟩

section

variable {ν : Type} {own : String → ν} {net₀ now : Net ν} {l : Link}

/-- **An address of a namespace** was there before, or is given. -/
theorem exists_given (hown : Function.Injective own) (hkept : P.Untouched own net₀ now)
    (hhas : ∀ e, ∃ n, P.Has own net₀ e n now) (hl : now.links (own y) link = some l)
    (ha : a ∈ l.addresses) :
    (∃ l₀, net₀.links (own y) link = some l₀ ∧ a ∈ l₀.addresses) ∨
      ∃ w p n, P.Gives y w p n ∧ a = host p n ++ "/24" := by
  by_cases hone : ∃ e x, P.part e = some x ∧ (P.site e).Has own (own y) link
  · obtain ⟨e, x, hx, s, hs, rfl⟩ := hone
    obtain ⟨n, hhas⟩ := hhas e
    obtain ⟨f, hf, hshows⟩ := hhas x hx
    have hfs : f.links s = some l := (hshows.links s _ hs).symm.trans hl
    rcases Fitting.exists_address hf hfs ha with ⟨k₀, hk₀, -⟩ | ⟨netns, link, hmem, hslot⟩
    · cases hk₀
    · obtain ⟨y', w, p, n, rfl, hgives, rfl⟩ := gives_of_mem (List.mem_of_mem_take hmem)
      have hspace := (Site.of_slot own hslot).2
      rw [hs] at hspace
      have hy : y = netns.getD e := by
        cases netns with
        | none | some => exact hown (Option.some.inj hspace)
      rw [hy]
      exact Or.inr ⟨w, p, n, hgives, rfl⟩
  · left
    rw [hkept.links (own y) link fun e x hx hhas => hone ⟨e, x, hx, hhas⟩] at hl
    exact ⟨l, hl, ha⟩

/-- **A route of a namespace** is the default one, or goes to the network of a switch behind it. -/
theorem exists_route (hkept : P.Untouched own net₀ now) (hhas : ∀ e, ∃ n, P.Has own net₀ e n now)
    (hquiet : P.Quiet own net₀) (hy : P.part y = some x) (hnetwork : network ≠ "default")
    (hroute : (now.routes (own y) network).isSome) :
    ∃ w u q v net p, P.part w = some (.switch u network q) ∧ Leads (uplinkBy P.part) w v ∧
      P.part v = some (.switch y net p) := by
  by_cases hone : ∃ w, (P.part w).bind Part.net = some network
  · obtain ⟨w, hnet⟩ := hone
    obtain ⟨part, hpart, -⟩ := Option.bind_eq_some_iff.mp hnet
    obtain ⟨n, hhas⟩ := hhas w
    obtain ⟨f, hf, hshows⟩ := hhas part hpart
    obtain ⟨gateway, hgateway⟩ := Option.isSome_iff_exists.mp hroute
    have hfy : f.routes y = some gateway := (hshows.routes network y hnet).symm.trans hgateway
    rcases Fitting.exists_route hf hfy with hold | ⟨network', hmem⟩
    · cases hold
    · have hmem := List.mem_of_mem_take hmem
      obtain ⟨u, q, v, net, p, hw, hv, hleads, -⟩ := exists_hop hmem
      rw [hw] at hnet
      cases hnet
      exact ⟨w, u, q, v, net, p, hw, hleads, hv⟩
  · rw [hkept.routes (own y) network (fun _ _ _ hc => hnetwork hc.2) fun e hnet => hone ⟨e, hnet⟩,
      hquiet.routes y x network hy hnetwork] at hroute
    cases hroute

/-- **A gateway is reached**, if no one else has it, and no way back leads there. -/
theorem via_of (hspelled : P.Spelled) (hown : Function.Injective own) (hquiet : P.Quiet own net₀)
    (hkept : P.Untouched own net₀ now) (hhas : ∀ e, ∃ n, P.Has own net₀ e n now)
    (hy : P.part y = some x) (hw : P.part w = some (.switch u net p))
    (honLink : now.OnLink (own y) (host p n)) (hforeign : ¬ P.Gives y w p n)
    (hapart : ∀ q, network = q ++ ".0/24" →
      ∃ v u net, P.part v = some (.switch u net q) ∧ ∀ k, ¬ P.Gives y v q k)
    (hdirect : ∀ v net q, P.part v = some (.switch y net q) → ¬ Leads (uplinkBy P.part) w v) :
    now.Via (own y) network (host p n) where
  onLink := honLink
  foreign := by
    intro link l hl a ha mask hmask
    rcases exists_given hown hkept hhas hl ha with ⟨l₀, hl₀, ha⟩ | ⟨w', q, k, hgives, rfl⟩
    · subst hmask
      exact hquiet.addresses y x w u net p hy hw link l₀ hl₀ n mask ha
    · obtain ⟨u', net', hw'⟩ := hgives.exists_switch
      obtain ⟨rfl, rfl⟩ := host_mask_inj (notMem_of_subnet (P.subnet w' u' net' q hw')) hmask
      rw [hspelled.eq_of_subnet hw' hw] at hgives
      exact hforeign hgives
  apart := by
    intro link l hl q k ha hnetwork
    obtain ⟨v, u', net', hv, hno⟩ := hapart q hnetwork
    rcases exists_given hown hkept hhas hl ha with ⟨l₀, hl₀, ha⟩ | ⟨w', q', k', hgives, hsame⟩
    · refine hquiet.addresses y x v u' net' q hy hv link l₀ hl₀ k "24" ?_
      rwa [String.append_assoc]
    · obtain ⟨rfl, rfl⟩ := host_inj (String.append_left_inj _ |>.mp hsame)
      obtain ⟨_, _, hw'⟩ := hgives.exists_switch
      rw [hspelled.eq_of_subnet hw' hv] at hgives
      exact hno k hgives
  direct := by
    intro network' hne hroute
    obtain ⟨w', u', q, v, net', p', hw', hleads, hv⟩ := exists_route hkept hhas hquiet hy hne hroute
    obtain ⟨-, rfl⟩ := hspelled.network w' u' network' q hw'
    refine ⟨q, rfl, ?_⟩
    rintro k hsame
    obtain ⟨rfl, -⟩ := host_inj hsame
    rw [hspelled.eq_of_subnet hw' hw] at hleads
    exact hdirect v net' p' hv hleads

/-- From a switch, one does not get back to what it is behind. -/
theorem not_leads_of_switch (hw : P.part w = some (.switch y net p))
    {v net' q : String} (hv : P.part v = some (.switch y net' q)) : ¬ Leads (uplinkBy P.part) w v := by
  intro hleads
  have hvy : uplinkBy P.part v = some y := uplinkBy_of_switch hv
  rcases hleads.eq_or_leads (uplinkBy_of_switch hw) with rfl | hleads
  · exact P.uplink_ne v hvy
  · exact P.ends.not_leads (hleads.tail hvy)

variable [DecidableEq ν]

/-- **Every route goes over a gateway that is reached.** -/
theorem via (hspelled : P.Spelled) (hown : Function.Injective own) (hclean : P.Clean own net₀)
    (hquiet : P.Quiet own net₀) {s : Threads.At String (Net ν)}
    (hs : (P.threads own).Reaches (Threads.At.start String net₀) s) {netns : Option String}
    (hready : (P.threads own).Ready s e (.system ⟨netns, .routeAdd network gateway⟩)) :
    s.state.Via ((P.site e).within own netns) network gateway := by
  obtain ⟨-, hkept, hhas⟩ := (P.outline hown hclean).reaches (.refl P own net₀) hclean.has hs
  have hhas : ∀ e, ∃ n, P.Has own net₀ e n s.state := fun e => ⟨_, hhas e⟩
  have honLink := onLink hown hclean hs hready
  have hmem : .system ⟨netns, .routeAdd network gateway⟩ ∈ P.program e :=
    List.mem_of_getElem? hready.next
  obtain ⟨x, hx, hno | ⟨hs, -, hdeed⟩⟩ := mem_program hmem
  · exact absurd rfl (hno _)
  · cases netns with
    | none =>
      obtain ⟨rfl, p, rfl, hpart⟩ := Part.default_of_mem hdeed
      -- the switch with the gateway is `e` or its uplink, and neither is behind `e`
      obtain ⟨w, u, net, hw, hloop⟩ : ∃ w u net, P.part w = some (.switch u net p) ∧
          ¬ Leads (uplinkBy P.part) w e := by
        rcases hpart with ⟨u, net, rfl⟩ | ⟨u, rfl⟩
        · exact ⟨e, u, net, hx, P.ends.not_leads⟩
        · obtain ⟨v, net, hu⟩ := P.port e u p hx
          exact ⟨u, v, net, hu, fun hleads => P.ends.not_leads (hleads.tail (uplinkBy_of_client hx))⟩
      refine via_of hspelled hown hquiet hkept hhas hx hw honLink ?_ ?_ ?_
      · intro hgives
        cases hgives with
        | port hw => exact hloop (.single (uplinkBy_of_switch hw))
      · intro q hq
        have hlast := congrArg (fun s => s.toList.getLast?) hq
        simp at hlast
      · intro v net q hv hleads
        exact hloop (hleads.tail (uplinkBy_of_switch hv))
    | some y =>
      obtain ⟨u, q, w, net, p, hx, hw, hleads, rfl⟩ := exists_hop hmem
      obtain ⟨part, hy⟩ := exists_part (uplinkBy_of_switch hw)
      have hleadsy : Leads (uplinkBy P.part) e y := hleads.tail (uplinkBy_of_switch hw)
      refine via_of hspelled hown hquiet hkept hhas hy hw honLink ?_ ?_ ?_
      · intro hgives
        cases hgives with
        | bridge => exact P.uplink_ne _ (uplinkBy_of_switch hw)
      · intro q' hq'
        obtain ⟨-, hq⟩ := hspelled.network e u network q hx
        obtain rfl : q = q' := String.append_left_inj _ |>.mp (hq.symm.trans hq')
        refine ⟨e, u, network, hx, fun k hgives => ?_⟩
        cases hgives with
        | port hx' => exact not_leads_of_switch hx' hw hleads
        | bridge => exact P.ends.not_leads hleadsy
        | client hye _ => exact P.ends.not_leads (hleadsy.tail (uplinkBy_of_client hye))
      · intro v net' q' hv
        exact not_leads_of_switch hw hv

/-- **What is seen of the system are the processes.** -/
theorem shown {σ : Type} {sys : ν → Action → σ → Option σ} {view : σ → Net ν} {s₀ : σ}
    (hheeded : P.Heeded own sys view s₀) (hspelled : P.Spelled) (hown : Function.Injective own)
    (hclean : P.Clean own (view s₀)) (hquiet : P.Quiet own (view s₀)) :
    (P.threads own).Shown (fun e => sys (own e)) view s₀ where
  progress := by
    intro s e a hs hready
    exact (P.outline hown hclean).progress (.refl P own (view s₀)) hclean.has hs hready
  acts := by
    intro s e a net hreaches hs hready happly
    refine hheeded.acts s e a net hreaches (Threads.Shown.ready_iff.mpr hready)
      (hspelled.taken_of_mem (List.mem_of_getElem? hready.next)) ?_ happly
    rintro netns network gateway rfl
    exact via hspelled hown hclean hquiet hs hready

end

end Plan

end Entityd

end Nonsense
