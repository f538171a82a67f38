import Nonsense.Entityd.Fitting
import Nonsense.Lib.Follow
import Nonsense.Lib.InTurn
import Nonsense.Lib.Threads

/-!
# All processes together

A `Plan` says which entities are set up, what each of them is in the network (`Part`), and
what its process does for it.  The processes are `Threads` on one network, in which a
process begins when that of its uplink is through, and their commands take turns in any
order (`Plan.threads`).

Where nothing of the kind is there before (`Plan.Clean`), a `Net` fails no command, every route is
one that goes somewhere (`Plan.onLink`), and where a process is through, all that belongs to
its part is there (`Plan.through`).
-/

namespace Nonsense

namespace Entityd

/-- What an entity is in the network: `net` is the address of a switch, `p` the /24 of that. -/
inductive Part
  | root
  | switch (uplink net p : String)
  | client (uplink p : String)
  deriving DecidableEq

namespace Part

def uplink : Part → Option String
  | root => none
  | switch uplink _ _ | client uplink _ => some uplink

def net : Part → Option String
  | switch _ net _ => some net
  | _ => none

/-- What is done for it when the own namespace is mounted; `hs` are the uplinks of the uplinks. -/
def deeds (name : String) (hs : List (String × String)) : Part → List Action
  | root => []
  | switch uplink net p => pairing name ++ bridging name ++
      .system (here (.linkSetNetns (nd name) uplink)) ::
        (switchDeeds name uplink net p hs ++ switchEnd name uplink p)
  | client uplink p =>
    pairing name ++ .system (here (.linkSetNetns (nd name) uplink)) :: clientDeeds name uplink p

/-- What there is of it in the end; `default` is the route that a root has. -/
def fitting (name : String) (default : Option String) (routes : String → Option String) :
    Part → Fitting
  | root => ⟨true, fun _ => none, default, fun _ => none⟩
  | switch _ _ p =>
    { mounted := true
      links := fun
        | .nu => some ⟨true, some (nb name), []⟩
        | .nd => none
        | .nb => some ⟨true, none, [host p 2 ++ "/24"]⟩
        | .far => some ⟨true, none, [host p 1 ++ "/24"]⟩
      default := some (host p 1)
      routes := routes }
  | client uplink p =>
    { mounted := true
      links := fun
        | .nu => some ⟨true, none, [host p 3 ++ "/24"]⟩
        | .nd | .nb => none
        | .far => some ⟨true, some (nb uplink), []⟩
      default := some (host p 1)
      routes := fun _ => none }

end Part

/-- It changes nothing in the network. -/
def Action.idle : Action → Bool
  | .system _ | .mount _ | .umount _ => false
  | _ => true

/-- The gateway to a network behind the uplinks `hs`, in the namespace of one of them. -/
def routing (hs : List (String × String)) (x : String) : Option String :=
  (hs.lookup x).map fun p => host p 2

/-! ### What comes of the programs -/

namespace Fitting

variable {e : Site} {f : Fitting} {l l' : List Action}

theorem run_append : f.run e (l ++ l') = (f.run e l).bind fun f => f.run e l' :=
  List.foldlM_append ..

theorem run_idle (h : ∀ a ∈ l, a.idle = true) : f.run e l = some f := by
  induction l with
  | nil => rfl
  | cons a l ih =>
    obtain ⟨ha, hl⟩ := List.forall_mem_cons.mp h
    have hstep : f.apply e a = some f := by
      cases a with
      | system | mount | umount => cases ha
      | _ => rfl
    rw [run, List.foldlM_cons, hstep]
    exact ih hl

theorem run_mounting : f.run e (mounting e.name) = some { f with mounted := true } := by
  simp [run, mounting, apply, Site.path]

end Fitting

namespace Site

variable (e : Site)

theorem slot_nu : e.slot none (nu e.name) = some .nu := if_pos rfl

theorem slot_nb : e.slot none (nb e.name) = some .nb := by
  have hne : ∀ s, s = Slot.nu ∨ s = Slot.nd → Slot.nb.link e.name ≠ s.link e.name := by
    intro s hs h
    rcases (Slot.link_inj h).2 with rfl | ⟨hnb, -⟩ | ⟨hnb, -⟩
    · simp at hs
    · cases hnb
    · cases hnb
  have hnu : nb e.name ≠ nu e.name := hne .nu (Or.inl rfl)
  have hnd : nb e.name ≠ nd e.name := hne .nd (Or.inr rfl)
  rw [slot, if_neg hnu, if_neg hnd, if_pos rfl]

theorem slot_far {u : String} (hu : e.uplink = some u) : e.slot (some u) (nd e.name) = some .far :=
  if_pos ⟨hu, rfl⟩

end Site

theorem lookup_of_notMem {hs : List (String × String)} {x : String}
    (h : x ∉ hs.map Prod.fst) : hs.lookup x = none := by
  rw [List.lookup_eq_none_iff]
  intro y hy
  rw [bne_iff_ne]
  intro hc
  exact h (hc ▸ List.mem_map_of_mem hy)

/-- What is not among the others is the last. -/
theorem eq_of_append_singleton {α : Type*} {l : List α} {a b : α} {n : ℕ}
    (h : (l ++ [b])[n]? = some a) (ha : a ∉ l) : n = l.length ∧ a = b := by
  rcases Nat.lt_or_ge n l.length with hn | hn
  · rw [List.getElem?_append_left hn] at h
    exact absurd (List.mem_of_getElem? h) ha
  · rw [List.getElem?_append_right hn, List.getElem?_singleton] at h
    split_ifs at h with hzero
    exact ⟨by omega, (Option.some.inj h).symm⟩

theorem routing_append_singleton {before : List (String × String)} {h : String × String}
    (hnew : h.1 ∉ before.map Prod.fst) :
    routing (before ++ [h]) = Function.update (routing before) h.1 (some (host h.2 2)) := by
  funext x
  rw [routing, List.lookup_append, List.lookup_cons]
  by_cases hx : x = h.1
  · rw [hx, Function.update_self, lookup_of_notMem hnew, beq_self_eq_true]
    rfl
  · rw [Function.update_of_ne hx, beq_false_of_ne hx, routing]
    exact congrArg _ (Option.or_none ..)

namespace Fitting

variable {e : Site} {f : Fitting} {u net p : String} {hs before : List (String × String)}
  {d : Option String}

/-- The routes behind the uplinks are added one by one. -/
theorem run_routes (hnet : e.net = some net) (hnodup : ((before ++ hs).map Prod.fst).Nodup)
    (hroutes : f.routes = routing before) :
    f.run e (hs.map (routeTo net)) = some { f with routes := routing (before ++ hs) } := by
  induction hs generalizing f before with
  | nil =>
    rw [List.append_nil, ← hroutes]
    rfl
  | cons h hs ih =>
    have hsplit : before ++ h :: hs = (before ++ [h]) ++ hs := by simp
    have hnew : h.1 ∉ before.map Prod.fst := by
      rw [List.map_append, List.map_cons] at hnodup
      exact fun hc => (List.nodup_append.mp hnodup).2.2 h.1 hc h.1 List.mem_cons_self rfl
    have hfree : routing before h.1 = none := by rw [routing, lookup_of_notMem hnew, Option.map_none]
    have hstep : f.apply e (routeTo net h) =
        some { f with routes := Function.update f.routes h.1 (some (host h.2 2)) } := by
      show f.addRoute e net (host h.2 2) (some h.1) = _
      rw [addRoute, if_pos]
      exact ⟨hnet, by rw [hroutes, hfree]; rfl⟩
    rw [run, List.map_cons, List.foldlM_cons, hstep]
    rw [hsplit] at hnodup ⊢
    refine (ih hnodup ?_).trans rfl
    rw [routing_append_singleton hnew, ← hroutes]

/-- Nothing is there yet. -/
def bare (d : Option String) : Fitting := ⟨false, fun _ => none, d, fun _ => none⟩

theorem run_pairing (hnu : f.links .nu = none) (hnd : f.links .nd = none) :
    f.run e (pairing e.name) =
      some ((f.setLink .nu (some ⟨true, none, []⟩)).setLink .nd (some .fresh)) := by
  have hne : Slot.nu ≠ Slot.nd := Slot.noConfusion
  simp [run, pairing, here, apply, ip, adjust, hnu, hnd, e.slot_nu, setLink, Link.fresh,
    Function.update_comm hne]

theorem run_bridging {l : Link} (hnb : f.links .nb = none) (hnu : f.links .nu = some l) :
    f.run e (bridging e.name) =
      some ((f.setLink .nb (some ⟨true, none, []⟩)).setLink .nu
        (some { l with master := some (nb e.name) })) := by
  simp [run, bridging, here, apply, ip, adjust, hnu, hnb, e.slot_nu, e.slot_nb, setLink, Link.fresh,
    bridged]

theorem run_cons {a : Action} {f' : Fitting} {l : List Action} (h : f.apply e a = some f') :
    f.run e (a :: l) = f'.run e l := by
  rw [run, List.foldlM_cons, h]
  rfl

theorem adjust_of_slot {netns : Option String} {link : String} {g : Link → Option Link} {s : Slot}
    {l l' : Link} (hs : e.slot netns link = some s) (hl : f.links s = some l) (hg : g l = some l') :
    f.adjust e netns link g = some (f.setLink s (some l')) := by
  rw [adjust, hs, Option.bind_some, hl, Option.bind_some, hg, Option.map_some]

theorem apply_move (hu : e.uplink = some u) (hnd : (f.links .nd).isSome)
    (hfar : f.links .far = none) :
    f.apply e (.system ⟨none, .linkSetNetns (nd e.name) u⟩) =
      some ((f.setLink .nd none).setLink .far (some .fresh)) :=
  if_pos ⟨rfl, rfl, hu, hnd, by rw [hfar]; rfl⟩

theorem apply_address {netns : Option String} {link a : String} {s : Slot} {l : Link}
    (hs : e.slot netns link = some s) (hl : f.links s = some l) (ha : l.addresses = []) :
    f.apply e (.system ⟨netns, .addrAdd a link⟩) =
      some (f.setLink s (some { l with addresses := [a] })) := by
  refine adjust_of_slot hs hl ?_
  rw [ha]
  rfl

theorem apply_up {netns : Option String} {link : String} {s : Slot} {l : Link}
    (hs : e.slot netns link = some s) (hl : f.links s = some l) :
    f.apply e (.system ⟨netns, .linkSetUp link⟩) = some (f.setLink s (some { l with up := true })) :=
  adjust_of_slot hs hl rfl

theorem apply_port {l : Link} (hu : e.uplink = some u) (hl : f.links .far = some l) :
    f.apply e (.system ⟨some u, .linkSetMaster (nd e.name) (nb u)⟩) =
      some (f.setLink .far (some { l with master := some (nb u) })) := by
  show (if f.bridged e (nb u) (some u) then f.adjust e (some u) (nd e.name) _ else none) = _
  rw [bridged, decide_eq_true rfl, if_pos rfl]
  exact adjust_of_slot (e.slot_far hu) hl rfl

theorem apply_default {g : String} (h : f.default = none) :
    f.apply e (.system ⟨none, .routeAdd "default" g⟩) = some { f with default := some g } :=
  if_pos ⟨rfl, by rw [h]; rfl⟩

theorem links_of_addRoute {netns : Option String} {network gateway : String} {f' : Fitting}
    (h : f.addRoute e network gateway netns = some f') : f'.links = f.links := by
  cases netns with
  | none | some =>
    rw [addRoute] at h
    split_ifs at h
    cases h
    rfl

/-- **What a switch does** makes all that belongs to one. -/
theorem run_switch (hu : e.uplink = some u) (hnet : e.net = some net)
    (hnodup : (hs.map Prod.fst).Nodup) :
    (bare none).run e (mounting e.name ++ (Part.switch u net p).deeds e.name hs) =
      some ((Part.switch u net p).fitting e.name d (routing hs)) := by
  rw [run_append, run_mounting, Option.bind_some, Part.deeds, List.append_assoc, run_append,
    run_pairing rfl rfl, Option.bind_some, run_append, run_bridging rfl rfl, Option.bind_some]
  simp only [switchDeeds, switchEnd, here, inside, List.cons_append]
  rw [run_cons (apply_move hu rfl rfl), run_cons (apply_address (e.slot_far hu) rfl rfl), run_append,
    run_routes hnet (by rwa [List.nil_append]) rfl, Option.bind_some,
    run_cons (apply_up (e.slot_far hu) rfl), run_cons (apply_address e.slot_nb rfl rfl),
    run_cons (apply_default rfl)]
  refine congrArg some ?_
  rw [Part.fitting]
  congr 1
  funext s
  cases s <;> rfl

/-- **And what a client does.** -/
theorem run_client (hu : e.uplink = some u) :
    (bare none).run e (mounting e.name ++ (Part.client u p).deeds e.name hs) =
      some ((Part.client u p).fitting e.name d (routing hs)) := by
  rw [run_append, run_mounting, Option.bind_some, Part.deeds, run_append,
    run_pairing rfl rfl, Option.bind_some]
  simp only [clientDeeds, here, inside]
  rw [run_cons (apply_move hu rfl rfl), run_cons (apply_port hu rfl),
    run_cons (apply_up (e.slot_far hu) rfl), run_cons (apply_address e.slot_nu rfl rfl),
    run_cons (apply_default rfl)]
  refine congrArg some ?_
  rw [Part.fitting]
  congr 1
  funext s
  cases s <;> rfl

theorem run_root : (bare d).run e (mounting e.name ++ Part.root.deeds e.name hs) =
    some (Part.root.fitting e.name d (routing hs)) := by
  rw [Part.deeds, List.append_nil, run_mounting]
  rfl

end Fitting

/-! ### What an action needs -/

namespace Part

variable {x : Part} {name y network gateway : String} {hs : List (String × String)} {a : Action}

/-- What is done for a part, one by one. -/
inductive Deed (name : String) (hs : List (String × String)) : Part → Action → Prop
  | pair {x : Part} {u : String} : x.uplink = some u →
      Deed name hs x (.system (here (.linkAddVeth (nu name) (nd name))))
  | pairUp {x : Part} {u : String} : x.uplink = some u →
      Deed name hs x (.system (here (.linkSetUp (nu name))))
  | move {x : Part} {u : String} : x.uplink = some u →
      Deed name hs x (.system (here (.linkSetNetns (nd name) u)))
  | farUp {x : Part} {u : String} : x.uplink = some u →
      Deed name hs x (.system (inside u (.linkSetUp (nd name))))
  | bridge {u net p : String} : Deed name hs (.switch u net p) (.system (here (.linkAddBridge (nb name))))
  | bridgeUp {u net p : String} : Deed name hs (.switch u net p) (.system (here (.linkSetUp (nb name))))
  | bridged {u net p : String} :
      Deed name hs (.switch u net p) (.system (here (.linkSetMaster (nu name) (nb name))))
  | farAddress {u net p : String} :
      Deed name hs (.switch u net p) (.system (inside u (.addrAdd (host p 1 ++ "/24") (nd name))))
  | route {u net p : String} {hop : String × String} : hop ∈ hs →
      Deed name hs (.switch u net p) (.system (inside hop.1 (.routeAdd net (host hop.2 2))))
  | bridgeAddress {u net p : String} :
      Deed name hs (.switch u net p) (.system (here (.addrAdd (host p 2 ++ "/24") (nb name))))
  | switchDefault {u net p : String} :
      Deed name hs (.switch u net p) (.system (here (.routeAdd "default" (host p 1))))
  | port {u p : String} :
      Deed name hs (.client u p) (.system (inside u (.linkSetMaster (nd name) (nb u))))
  | address {u p : String} :
      Deed name hs (.client u p) (.system (here (.addrAdd (host p 3 ++ "/24") (nu name))))
  | clientDefault {u p : String} :
      Deed name hs (.client u p) (.system (here (.routeAdd "default" (host p 1))))

theorem deed_of_mem (h : a ∈ x.deeds name hs) : x.Deed name hs a := by
  cases x with
  | root => cases h
  | switch u net p =>
    simp only [deeds, pairing, bridging, switchDeeds, switchEnd, List.mem_append, List.mem_cons,
      List.not_mem_nil, or_false, List.mem_map] at h
    rcases h with
      (((rfl | rfl) | rfl | rfl | rfl) | rfl | (rfl | ⟨hop, hmem, rfl⟩) | rfl | rfl | rfl)
    · exact .pair rfl
    · exact .pairUp rfl
    · exact .bridge
    · exact .bridgeUp
    · exact .bridged
    · exact .move rfl
    · exact .farAddress
    · exact .route hmem
    · exact .farUp rfl
    · exact .bridgeAddress
    · exact .switchDefault
  | client u p =>
    simp only [deeds, pairing, clientDeeds, List.mem_append, List.mem_cons, List.not_mem_nil,
      or_false] at h
    rcases h with ((rfl | rfl) | rfl | rfl | rfl | rfl | rfl)
    · exact .pair rfl
    · exact .pairUp rfl
    · exact .move rfl
    · exact .port
    · exact .farUp rfl
    · exact .address
    · exact .clientDefault

theorem uplink_of_others (h : a ∈ x.deeds name hs) (hy : y ∈ a.others) :
    ∃ u, x.uplink = some u ∧ (y = u ∨ y ∈ hs.map Prod.fst) := by
  cases deed_of_mem h with
  | move hu | farUp hu => exact ⟨_, hu, Or.inl (List.mem_singleton.mp hy)⟩
  | farAddress | port => exact ⟨_, rfl, Or.inl (List.mem_singleton.mp hy)⟩
  | @route u net p hop hmem =>
    cases List.mem_singleton.mp hy
    exact ⟨u, rfl, Or.inr (List.mem_map_of_mem hmem)⟩
  | _ => cases hy

theorem client_of_bridge (h : a ∈ x.deeds name hs) (hy : a.bridge = some y) :
    ∃ p, x = .client y p := by
  cases deed_of_mem h with
  | @port u p =>
    cases hy
    exact ⟨p, rfl⟩
  | _ => cases hy

/-- A route in the namespace of another is one behind an uplink. -/
theorem hop_of_route (h : .system ⟨some y, .routeAdd network gateway⟩ ∈ x.deeds name hs) :
    ∃ u hop p, x = .switch u network p ∧ hop ∈ hs ∧ hop.1 = y ∧ host hop.2 2 = gateway := by
  cases deed_of_mem h with
  | @route u net p hop hmem => exact ⟨u, hop, p, rfl, hmem, rfl, rfl⟩

end Part

/-! ### The plan -/

/-- The gateway is in the /24 of a link that is up, without which no route goes over it. -/
def Net.OnLink {ν : Type} (net : Net ν) (ns : ν) (gateway : String) : Prop :=
  ∃ link l p k n, net.links ns link = some l ∧ l.up = true ∧ host p k ++ "/24" ∈ l.addresses ∧
    gateway = host p n

/-- The uplinks from `u` on that are switches, each with its own uplink and its /24. -/
inductive Climb (part : String → Option Part) : String → List (String × String) → Prop
  | root {u : String} : part u = some .root → Climb part u []
  | switch {u v net p : String} {hs : List (String × String)} : part u = some (.switch v net p) →
      Climb part v hs → Climb part u ((v, p) :: hs)

/-- Where an entity leads to. -/
def uplinkBy (part : String → Option Part) (e : String) : Option String := (part e).bind Part.uplink

namespace Climb

variable {part : String → Option Part} {u : String} {hs hs' : List (String × String)}

theorem eq (h : Climb part u hs) (h' : Climb part u hs') : hs = hs' := by
  induction h generalizing hs' with
  | root hu =>
    cases h' with
    | root => rfl
    | switch hu' _ => rw [hu] at hu'; cases hu'
  | switch hu _ ih =>
    cases h' with
    | root hu' => rw [hu] at hu'; cases hu'
    | switch hu' hv =>
      rw [hu] at hu'
      cases hu'
      rw [ih hv]

theorem trail (h : Climb part u hs) : Trail (uplinkBy part) u (u :: hs.map Prod.fst) := by
  induction h with
  | root hu => exact .stop (by rw [uplinkBy, hu]; rfl)
  | switch hu _ ih => exact .step (by rw [uplinkBy, hu]; rfl) ih

theorem nodup (h : Climb part u hs) : (hs.map Prod.fst).Nodup := (List.nodup_cons.mp h.trail.nodup).2

theorem leads (h : Climb part u hs) {x : String} (hx : x ∈ hs.map Prod.fst) :
    Leads (uplinkBy part) u x := by
  induction h with
  | root => cases hx
  | @switch u v net p hs hu _ ih =>
    have hup : uplinkBy part u = some v := by rw [uplinkBy, hu]; rfl
    rcases List.mem_cons.mp hx with rfl | hx
    · exact .single hup
    · exact .head hup (ih hx)

/-- The gateways behind the uplinks are those of switches on the way. -/
theorem exists_switch (h : Climb part u hs) {x : String × String} (hx : x ∈ hs) :
    ∃ v net, part v = some (.switch x.1 net x.2) ∧ (v = u ∨ Leads (uplinkBy part) u v) := by
  induction h with
  | root => cases hx
  | @switch u w net p hs hu _ ih =>
    rcases List.mem_cons.mp hx with rfl | hx
    · exact ⟨u, net, hu, Or.inl rfl⟩
    · have hup : uplinkBy part u = some w := by rw [uplinkBy, hu]; rfl
      obtain ⟨v, net', hv, rfl | hwv⟩ := ih hx
      · exact ⟨v, net', hv, Or.inr (.single hup)⟩
      · exact ⟨v, net', hv, Or.inr (.head hup hwv)⟩

end Climb

/-- Which entities are set up, and what their processes do. -/
structure Plan where
  part : String → Option Part
  program : String → List Action
  ends : Acyclic (uplinkBy part)
  subnet : ∀ e u net p, part e = some (.switch u net p) → subnet net = some p
  above : ∀ e u, uplinkBy part e = some u → ∃ hs, Climb part u hs
  /-- A client is connected to the bridge of a switch. -/
  port : ∀ e u p, part e = some (.client u p) → ∃ v net, part u = some (.switch v net p)
  distinct : ∀ e e' u u' net p p', part e = some (.switch u net p) →
    part e' = some (.switch u' net p') → e = e'
  idle : ∀ e, part e = none → program e = []
  does : ∀ e x, part e = some x → ∃ entry hs, (∀ a ∈ entry, a.idle = true) ∧
    (∀ u, x.uplink = some u → Climb part u hs) ∧
    program e = entry ++ (mounting e ++ x.deeds e hs)

namespace Plan

variable (P : Plan)

theorem uplink_ne (e : String) : uplinkBy P.part e ≠ some e := fun h => not_ends_of_self h (P.ends e)

theorem net_ne (e : String) : (P.part e).bind Part.net ≠ some "default" := by
  intro h
  obtain ⟨x, hx, hnet⟩ := Option.bind_eq_some_iff.mp h
  cases x with
  | switch u net p =>
    cases hnet
    have hsubnet := P.subnet e u _ p hx
    revert hsubnet
    rw [show Entityd.subnet "default" = none by decide]
    intro hc
    cases hc
  | _ => cases hnet

/-- What is an entity's. -/
def site (e : String) : Site where
  name := e
  uplink := uplinkBy P.part e
  net := (P.part e).bind Part.net
  apart := P.uplink_ne e
  plain := P.net_ne e

/-- The processes, in namespaces of their own. -/
def threads {ν : Type} [DecidableEq ν] (own : String → ν) : Threads String Action (Net ν) where
  program := P.program
  apply e a net := net.apply (own e) a
  needs e u := uplinkBy P.part e = some u

/-- Nothing is there of what belongs to the entities. -/
structure Clean {ν : Type} (own : String → ν) (net : Net ν) : Prop where
  links : ∀ e x ns s, P.part e = some x → net.links ns (Slot.link e s) = none
  default : ∀ e u, uplinkBy P.part e = some u → net.routes (own e) "default" = none
  routes : ∀ e network x, (P.part e).bind Part.net = some network →
    net.routes (own x) network = none

/-- What belongs to none of the entities is as it was. -/
structure Untouched {ν : Type} (own : String → ν) (net net' : Net ν) : Prop where
  links : ∀ ns link, (∀ e x, P.part e = some x → ¬ (P.site e).Has own ns link) →
    net'.links ns link = net.links ns link
  routes : ∀ ns network, (∀ e x, P.part e = some x → ¬ (ns = own e ∧ network = "default")) →
    (∀ e, (P.part e).bind Part.net ≠ some network) → net'.routes ns network = net.routes ns network

/-- What is so of an entity when its process has done the first `n` actions. -/
def Has {ν : Type} (own : String → ν) (net₀ : Net ν) (e : String) (n : ℕ) (net : Net ν) : Prop :=
  ∀ x, P.part e = some x → ∃ f,
    (Fitting.bare (net₀.routes (own e) "default")).run (P.site e) ((P.program e).take n) = some f ∧
    Shows own (P.site e) f net

variable {P} {ν : Type} {own : String → ν} {net₀ net net' : Net ν} {e u : String} {x : Part}

theorem exists_part (h : uplinkBy P.part e = some u) : ∃ y, P.part u = some y := by
  obtain ⟨hs, h⟩ := P.above e u h
  cases h with
  | root hu => exact ⟨_, hu⟩
  | switch hu _ => exact ⟨_, hu⟩

/-- **What a program comes to.** -/
theorem run_program (hclean : P.Clean own net₀) (hx : P.part e = some x) :
    ∃ r, (Fitting.bare (net₀.routes (own e) "default")).run (P.site e) (P.program e) =
        some (x.fitting e (net₀.routes (own e) "default") r) ∧
      ∀ u hs, x.uplink = some u → Climb P.part u hs → r = routing hs := by
  obtain ⟨entry, hs, hentry, hclimb, hprogram⟩ := P.does e x hx
  refine ⟨routing hs, ?_, fun u hs' hu h => by rw [(hclimb u hu).eq h]⟩
  rw [hprogram, Fitting.run_append, Fitting.run_idle hentry, Option.bind_some]
  have hup : (P.site e).uplink = x.uplink := by
    show uplinkBy P.part e = _
    rw [uplinkBy, hx, Option.bind_some]
  have hnet : (P.site e).net = x.net := by
    show (P.part e).bind Part.net = _
    rw [hx, Option.bind_some]
  have hdefault : ∀ u, x.uplink = some u → net₀.routes (own e) "default" = none := fun u hu =>
    hclean.default e u (hup.trans hu)
  cases x with
  | root => exact Fitting.run_root (e := P.site e)
  | switch u net p =>
    rw [hdefault u rfl]
    exact Fitting.run_switch (e := P.site e) hup hnet (hclimb u rfl).nodup
  | client u p =>
    rw [hdefault u rfl]
    exact Fitting.run_client (e := P.site e) hup

/-- Behind its last action all that belongs to the entity is there. -/
theorem Has.complete (hclean : P.Clean own net₀) (hx : P.part e = some x)
    (h : P.Has own net₀ e (P.program e).length net) :
    ∃ r, Shows own (P.site e) (x.fitting e (net₀.routes (own e) "default") r) net ∧
      ∀ u hs, x.uplink = some u → Climb P.part u hs → r = routing hs := by
  obtain ⟨f, hf, hshows⟩ := h x hx
  obtain ⟨r, hrun, hr⟩ := run_program hclean hx
  rw [List.take_length, hrun] at hf
  cases hf
  exact ⟨r, hshows, hr⟩

/-- Before what it does for its part, a process runs no command. -/
theorem mem_program {a : Action} (ha : a ∈ P.program e) : ∃ x, P.part e = some x ∧
    ((∀ c, a ≠ .system c) ∨ ∃ hs, (∀ u, x.uplink = some u → Climb P.part u hs) ∧ a ∈ x.deeds e hs) := by
  cases hx : P.part e with
  | none =>
    rw [P.idle e hx] at ha
    cases ha
  | some x =>
    obtain ⟨entry, hs, hentry, hclimb, hprogram⟩ := P.does e x hx
    rw [hprogram, List.mem_append, List.mem_append] at ha
    refine ⟨x, rfl, ?_⟩
    rcases ha with ha | ha | ha
    · left
      rintro c rfl
      cases hentry _ ha
    · left
      rintro c rfl
      simp [mounting] at ha
    · exact Or.inr ⟨hs, hclimb, ha⟩

/-- The namespaces that the actions need are those of the uplinks. -/
theorem leads_of_others {a : Action} {y : String} (ha : a ∈ P.program e) (hy : y ∈ a.others) :
    Leads (uplinkBy P.part) e y := by
  obtain ⟨x, hx, hno | ⟨hs, hclimb, hmem⟩⟩ := mem_program ha
  · cases a with
    | system c => exact absurd rfl (hno c)
    | _ => cases hy
  · obtain ⟨u, hu, hyu⟩ := Part.uplink_of_others hmem hy
    have hup : uplinkBy P.part e = some u := by rw [uplinkBy, hx, Option.bind_some, hu]
    rcases hyu with rfl | hyu
    · exact .single hup
    · exact .head hup ((hclimb u hu).leads hyu)

/-- The bridge that an action needs is that of a switch. -/
theorem switch_of_bridge {a : Action} {y : String} (ha : a ∈ P.program e) (hy : a.bridge = some y) :
    uplinkBy P.part e = some y ∧ ∃ v net p, P.part y = some (.switch v net p) := by
  obtain ⟨x, hx, hno | ⟨hs, -, hmem⟩⟩ := mem_program ha
  · cases a with
    | system c => exact absurd rfl (hno c)
    | _ => cases hy
  · obtain ⟨p, rfl⟩ := Part.client_of_bridge hmem hy
    obtain ⟨v, net, hv⟩ := P.port e y p hx
    exact ⟨by rw [uplinkBy, hx]; rfl, v, net, p, hv⟩

/-- The other routes are those of a switch, over the bridges of switches above. -/
theorem exists_hop {y network gateway : String}
    (h : .system ⟨some y, .routeAdd network gateway⟩ ∈ P.program e) :
    ∃ u q v net p, P.part e = some (.switch u network q) ∧ P.part v = some (.switch y net p) ∧
      Leads (uplinkBy P.part) e v ∧ gateway = host p 2 := by
  obtain ⟨x, hx, hno | ⟨hs, hclimb, hmem⟩⟩ := mem_program h
  · exact absurd rfl (hno _)
  · obtain ⟨u, hop, q, rfl, hhop, rfl, rfl⟩ := Part.hop_of_route hmem
    have hup : uplinkBy P.part e = some u := by
      rw [uplinkBy, hx]
      rfl
    obtain ⟨v, net, hv, rfl | huv⟩ := (hclimb u rfl).exists_switch hhop
    · exact ⟨_, q, v, net, hop.2, hx, hv, .single hup, rfl⟩
    · exact ⟨u, q, v, net, hop.2, hx, hv, .head hup huv, rfl⟩

/-- The default route is added last, over an address in the network of one of its own. -/
theorem last_of_default (hx : P.part e = some x) {n : ℕ} {network gateway : String}
    (h : (P.program e)[n]? = some (.system ⟨none, .routeAdd network gateway⟩)) :
    (P.program e).length = n + 1 ∧ ∃ p k k' s l, (∀ d r, (x.fitting e d r).links s = some l) ∧
      s ≠ .far ∧ l.up = true ∧ host p k ++ "/24" ∈ l.addresses ∧ gateway = host p k' := by
  obtain ⟨entry, hs, hentry, -, hprogram⟩ := P.does e x hx
  have hbefore : .system ⟨none, .routeAdd network gateway⟩ ∉ entry ++ mounting e := by
    intro hmem
    rcases List.mem_append.mp hmem with hmem | hmem
    · cases hentry _ hmem
    · simp [mounting] at hmem
  cases x with
  | root =>
    rw [hprogram, Part.deeds, List.append_nil] at h
    exact absurd (List.mem_of_getElem? h) hbefore
  | switch u net p =>
    have hsplit : P.program e = (entry ++ mounting e ++ (pairing e ++ bridging e ++
        .system (here (.linkSetNetns (nd e) u)) :: (switchDeeds e u net p hs ++
          [.system (inside u (.linkSetUp (nd e))),
            .system (here (.addrAdd (host p 2 ++ "/24") (nb e)))]))) ++
        [.system (here (.routeAdd "default" (host p 1)))] := by
      rw [hprogram, Part.deeds, switchEnd]
      simp
    rw [hsplit] at h ⊢
    obtain ⟨rfl, hsame⟩ := eq_of_append_singleton h (by
      rw [List.mem_append, not_or]
      refine ⟨hbefore, ?_⟩
      simp [pairing, bridging, switchDeeds, routeTo, here, inside])
    cases hsame
    exact ⟨List.length_append, p, 2, 1, .nb, _, fun _ _ => rfl, Slot.noConfusion, rfl,
      List.mem_singleton_self _, rfl⟩
  | client u p =>
    have hsplit : P.program e = (entry ++ mounting e ++ (pairing e ++
        .system (here (.linkSetNetns (nd e) u)) ::
          [.system (inside u (.linkSetMaster (nd e) (nb u))), .system (inside u (.linkSetUp (nd e))),
            .system (here (.addrAdd (host p 3 ++ "/24") (nu e)))])) ++
        [.system (here (.routeAdd "default" (host p 1)))] := by
      rw [hprogram, Part.deeds, clientDeeds]
      simp
    rw [hsplit] at h ⊢
    obtain ⟨rfl, hsame⟩ := eq_of_append_singleton h (by
      rw [List.mem_append, not_or]
      refine ⟨hbefore, ?_⟩
      simp [pairing, here, inside])
    cases hsame
    exact ⟨List.length_append, p, 3, 1, .nu, _, fun _ _ => rfl, Slot.noConfusion, rfl,
      List.mem_singleton_self _, rfl⟩

theorem Clean.has (h : P.Clean own net₀) (e : String) : P.Has own net₀ e 0 net₀ := by
  intro x hx
  refine ⟨_, rfl, fun hm => (by cases hm), ?_, rfl, ?_⟩
  · intro s ns _
    exact h.links e x ns s hx
  · intro network y hnet
    exact h.routes e network y hnet

theorem Untouched.refl (P : Plan) (own : String → ν) (net : Net ν) : P.Untouched own net net :=
  ⟨fun _ _ _ => rfl, fun _ _ _ _ => rfl⟩

theorem Untouched.step (h : P.Untouched own net₀ net) (hx : P.part e = some x)
    (helse : Elsewhere own (P.site e) net net') : P.Untouched own net₀ net' where
  links := by
    intro ns link hno
    rw [helse.links ns link (hno e x hx), h.links ns link hno]
  routes := by
    intro ns network hdefault hnet
    rw [helse.routes ns network (hdefault e x hx) (hnet e), h.routes ns network hdefault hnet]

section

variable [DecidableEq ν]

/-- **Each process has its own**, and finds what it needs of the others. -/
theorem outline (hown : Function.Injective own) (hclean : P.Clean own net₀) :
    (P.threads own).Outline (P.Has own net₀) (P.Untouched own net₀) where
  nonempty := by
    intro e u hu hnil
    obtain ⟨y, hy⟩ := exists_part hu
    obtain ⟨entry, hs, -, -, hprogram⟩ := P.does u y hy
    have hnil : P.program u = [] := hnil
    rw [hprogram] at hnil
    simp [mounting] at hnil
  acts := by
    intro e n a net hnext huntouched hhas habove
    have hnext : (P.program e)[n]? = some a := hnext
    obtain ⟨hlt, hget⟩ := List.getElem?_eq_some_iff.mp hnext
    have hmem : a ∈ P.program e := hget ▸ List.getElem_mem hlt
    cases hx : P.part e with
    | none =>
      rw [P.idle e hx] at hmem
      cases hmem
    | some x =>
      obtain ⟨f, hf, hshows⟩ := hhas x hx
      -- the rest of the program can be done from here
      obtain ⟨r, hrun, -⟩ := run_program hclean hx
      have htake : (P.program e).take (n + 1) = (P.program e).take n ++ [a] := by
        rw [List.take_add_one, hnext]
        rfl
      rw [← List.take_append_drop (n + 1) (P.program e), htake, List.append_assoc,
        Fitting.run_append, hf, Option.bind_some, List.singleton_append] at hrun
      obtain ⟨f', hf', -⟩ : ∃ f', f.apply (P.site e) a = some f' ∧ _ :=
        Option.bind_eq_some_iff.mp hrun
      have hothers : ∀ y ∈ a.others, net.mounts (netnsPath (netnsName y)) = some (own y) := by
        intro y hy
        have hleads := leads_of_others hmem hy
        obtain ⟨z, -, hzy⟩ := Relation.TransGen.tail'_iff.mp hleads
        obtain ⟨part, hpart⟩ := exists_part hzy
        obtain ⟨r, hy', -⟩ := Has.complete hclean hpart (habove y hleads)
        exact hy'.mounted (by cases part <;> rfl)
      have hbridge : ∀ y, a.bridge = some y → (net.links (own y) (nb y)).isSome := by
        intro y hy
        obtain ⟨hup, v, network, p, hswitch⟩ := switch_of_bridge hmem hy
        obtain ⟨r, hy', -⟩ := Has.complete hclean hswitch (habove y (.single hup))
        have hnb : net.links (own y) (nb y) = _ := hy'.links .nb _ rfl
        rw [hnb]
        rfl
      obtain ⟨net', happly, hshows', helse⟩ := hshows.apply hown hf' hothers hbridge
      refine ⟨net', happly, huntouched.step hx helse, ?_, ?_⟩
      · intro x' hx'
        cases hx.symm.trans hx'
        refine ⟨f', ?_, hshows'⟩
        rw [htake, Fitting.run_append, hf, Option.bind_some, Fitting.run_cons hf']
        rfl
      · intro y hy k hk part hpart
        obtain ⟨g, hg, hg'⟩ := hk part hpart
        refine ⟨g, hg, hg'.elsewhere hown helse hy ?_⟩
        -- two switches with the same network are one
        intro network hnet hnet'
        obtain ⟨py, hpy, hny⟩ := Option.bind_eq_some_iff.mp hnet
        obtain ⟨pe, hpe, hne⟩ := Option.bind_eq_some_iff.mp hnet'
        cases py with
        | switch u net p =>
          cases pe with
          | switch u' net' p' =>
            cases hny
            cases hne
            exact hy (P.distinct y e u u' _ p p' hpy hpe)
          | _ => cases hne
        | _ => cases hny

/-- **No route is added over a gateway that cannot be reached.** -/
theorem onLink (hown : Function.Injective own) (hclean : P.Clean own net₀)
    {s : Threads.At String (Net ν)}
    (hs : (P.threads own).Reaches (Threads.At.start String net₀) s) {netns : Option String}
    {network gateway : String}
    (hready : (P.threads own).Ready s e (.system ⟨netns, .routeAdd network gateway⟩)) :
    s.state.OnLink ((P.site e).within own netns) gateway := by
  obtain ⟨-, hhas, habove⟩ := (P.outline hown hclean).ready (.refl P own net₀) hclean.has hs hready
  have hnext : (P.program e)[s.done e]? = some (.system ⟨netns, .routeAdd network gateway⟩) :=
    hready.next
  cases hx : P.part e with
  | none =>
    rw [P.idle e hx] at hnext
    cases hnext
  | some x =>
    cases netns with
    | none =>
      obtain ⟨hlast, p, k, n, slot, l, hlink, hslot, hup, haddress, rfl⟩ := last_of_default hx hnext
      obtain ⟨f, hf, hshows⟩ := hhas x hx
      obtain ⟨r, hrun, -⟩ := run_program hclean hx
      have hsplit : P.program e = (P.program e).take (s.done e) ++
          [.system ⟨none, .routeAdd network (host p n)⟩] := by
        conv_lhs => rw [← List.take_length (l := P.program e), hlast, List.take_add_one, hnext]
        rfl
      -- the action changes no link, so what is there in the end is there already
      rw [hsplit, Fitting.run_append, hf, Option.bind_some] at hrun
      obtain ⟨f', hroute, hnil⟩ := Option.bind_eq_some_iff.mp hrun
      cases hnil
      have hroute : f.addRoute (P.site e) network (host p n) none = _ := hroute
      have hspace : (P.site e).namespaceOf own slot = some (own e) := by
        cases slot with
        | far => exact absurd rfl hslot
        | _ => rfl
      refine ⟨slot.link e, l, p, k, n, ?_, hup, haddress, rfl⟩
      rw [← hlink _ r, Fitting.links_of_addRoute hroute]
      exact hshows.links slot _ hspace
    | some y =>
      obtain ⟨-, -, v, net, p, -, hv, hleads, rfl⟩ := exists_hop (List.mem_of_getElem? hnext)
      obtain ⟨r, hshows, -⟩ := Has.complete hclean hv (habove v hleads)
      have hspace : (P.site v).namespaceOf own .far = some (own y) := by
        show (uplinkBy P.part v).map own = _
        rw [uplinkBy, hv]
        rfl
      exact ⟨_, _, p, 1, 2, hshows.links .far _ hspace, rfl, List.mem_singleton_self _, rfl⟩

/-- **Whatever the order of their commands**, no process fails or adds a route to nowhere, all
of them get through, what belongs to an entity is there when its process is, and nothing
else has changed. -/
theorem through (hown : Function.Injective own) (hclean : P.Clean own net₀)
    {s : Threads.At String (Net ν)}
    (hs : (P.threads own).Reaches (Threads.At.start String net₀) s) :
    (∀ e a, (P.threads own).Ready s e a → (∃ s', (P.threads own).Step s e s') ∧
      ∀ netns network gateway, a = .system ⟨netns, .routeAdd network gateway⟩ →
        s.state.OnLink ((P.site e).within own netns) gateway) ∧
    (∀ l : List String, ∃ s', (P.threads own).Reaches s s' ∧
      ∀ e ∈ l, (P.threads own).Through s' e) ∧
    (∀ e x, P.part e = some x → (P.threads own).Through s e →
      ∃ r, Shows own (P.site e) (x.fitting e (net₀.routes (own e) "default") r) s.state ∧
        ∀ u hs, x.uplink = some u → Climb P.part u hs → r = routing hs) ∧
    P.Untouched own net₀ s.state := by
  have hout := P.outline hown hclean
  have huntouched : P.Untouched own net₀ net₀ := .refl P own net₀
  obtain ⟨-, hkept, hhas⟩ := hout.reaches huntouched hclean.has hs
  refine ⟨?_, ?_, ?_, hkept⟩
  · intro e a hready
    refine ⟨hout.progress huntouched hclean.has hs hready, ?_⟩
    rintro netns network gateway rfl
    exact onLink hown hclean hs hready
  · refine hout.exists_through huntouched hclean.has ?_ (fun e => (P.ends e).acc) hs
    intro e
    refine ⟨(uplinkBy P.part e).toList, fun u hu => ?_⟩
    exact Option.mem_toList.mpr hu
  · intro e x hx hthrough
    have h := hhas e
    rw [show s.done e = _ from hthrough] at h
    exact Has.complete hclean hx h

end

end Plan

end Entityd

end Nonsense
