import Nonsense.Entityd.Net

/-!
# What there is of an entity

What the process of an entity changes in the network is its own: its pair of links, one of
which it moves to the namespace of its uplink, its bridge, the default route of its
namespace, the routes to its network, and the place where its namespace is mounted.  A
`Site` says which these are, and a `Fitting` what there is of them.

`Fitting.apply` is what an action does to that, without the rest of the network.  The
network does the same (`Shows.apply`), and nothing happens `Elsewhere`; so the fitting of
any other entity is as it was (`Shows.elsewhere`).
-/

namespace Nonsense

namespace Entityd

/-- Where the things of an entity are. -/
structure Site where
  name : String
  /-- The entity that its link is moved to. -/
  uplink : Option String
  /-- The network that others have a route to. -/
  net : Option String
  apart : uplink ≠ some name
  plain : net ≠ some "default"

/-- The links: the pair, the bridge, and the second of the pair when it has been moved. -/
inductive Slot
  | nu
  | nd
  | nb
  | far
  deriving DecidableEq

def Slot.link (name : String) : Slot → String
  | nu => Entityd.nu name
  | nd | far => Entityd.nd name
  | nb => Entityd.nb name

structure Fitting where
  mounted : Bool
  links : Slot → Option Link
  default : Option String
  /-- The gateways to its network, by the entities in whose namespaces they are. -/
  routes : String → Option String

/-! ### What an action does to it -/

namespace Site

variable (e : Site)

/-- The link that a command is for. -/
def slot : Option String → String → Option Slot
  | none, link =>
    if link = nu e.name then some .nu
    else if link = nd e.name then some .nd
    else if link = nb e.name then some .nb
    else none
  | some x, link => if e.uplink = some x ∧ link = nd e.name then some .far else none

def path : String := netnsPath (netnsName e.name)

end Site

namespace Fitting

variable (e : Site) (f : Fitting)

def setLink (s : Slot) (l : Option Link) : Fitting := { f with links := Function.update f.links s l }

/-- Change a link that is there. -/
def adjust (netns : Option String) (link : String) (g : Link → Option Link) : Option Fitting :=
  (e.slot netns link).bind fun s => (f.links s).bind fun l => (g l).map fun l => f.setLink s (some l)

/-- The bridge is the own one, or that of the entity in whose namespace the command is run. -/
def bridged (bridge : String) : Option String → Bool
  | none => bridge = nb e.name && (f.links .nb).isSome
  | some x => bridge = nb x

def addRoute (network gateway : String) : Option String → Option Fitting
  | none =>
    if network = "default" ∧ f.default.isNone then some { f with default := some gateway } else none
  | some x =>
    if e.net = some network ∧ (f.routes x).isNone then
      some { f with routes := Function.update f.routes x (some gateway) }
    else none

/-- A command, if it is one for what there is of the entity. -/
def ip (netns : Option String) : Ip → Option Fitting
  | .linkAddVeth link peer =>
    if netns = none ∧ link = nu e.name ∧ peer = nd e.name ∧ (f.links .nu).isNone ∧
        (f.links .nd).isNone then
      some ((f.setLink .nu (some .fresh)).setLink .nd (some .fresh))
    else none
  | .linkAddBridge link =>
    if netns = none ∧ link = nb e.name ∧ (f.links .nb).isNone then
      some (f.setLink .nb (some .fresh))
    else none
  | .linkSetUp link => f.adjust e netns link fun l => some { l with up := true }
  | .linkSetMaster link bridge =>
    if f.bridged e bridge netns then
      f.adjust e netns link fun l => some { l with master := some bridge }
    else none
  | .linkSetNetns link x =>
    if netns = none ∧ link = nd e.name ∧ e.uplink = some x ∧ (f.links .nd).isSome ∧
        (f.links .far).isNone then
      some ((f.setLink .nd none).setLink .far (some .fresh))
    else none
  | .addrAdd address link => f.adjust e netns link fun l =>
    if address ∈ l.addresses then none else some { l with addresses := l.addresses ++ [address] }
  | .routeAdd network gateway => f.addRoute e network gateway netns
  | _ => none

def apply : Action → Option Fitting
  | .system c => f.ip e c.netns c.ip
  | .mount path => if path = e.path then some { f with mounted := true } else none
  | .umount path => if path = e.path then some { f with mounted := false } else none
  | _ => some f

/-- What a list of actions leads to. -/
def run (e : Site) (f : Fitting) (l : List Action) : Option Fitting :=
  l.foldlM (fun f a => f.apply e a) f

end Fitting

/-- The entities whose namespaces have to be mounted. -/
def Action.others : Action → List String
  | .system ⟨some x, _⟩ | .system ⟨none, .linkSetNetns _ x⟩ => [x]
  | _ => []

/-- The entity whose bridge has to be there. -/
def Action.bridge : Action → Option String
  | .system ⟨some x, .linkSetMaster _ _⟩ => some x
  | _ => none

/-! ### Where it is -/

section

variable {ν : Type} (own : String → ν)

namespace Site

variable (e : Site)

/-- The namespace that a link is in. -/
def namespaceOf : Slot → Option ν
  | .far => e.uplink.map own
  | _ => some (own e.name)

/-- The namespace that a command of its process is run in. -/
def within : Option String → ν
  | none => own e.name
  | some x => own x

/-- The link `link` of `ns` is one of the entity. -/
def Has (ns : ν) (link : String) : Prop := ∃ s, e.namespaceOf own s = some ns ∧ link = s.link e.name

end Site

/-- What there is of the entity in the network is `f`. -/
structure Shows (e : Site) (f : Fitting) (net : Net ν) : Prop where
  mounted : f.mounted = true → net.mounts e.path = some (own e.name)
  links : ∀ s ns, e.namespaceOf own s = some ns → net.links ns (s.link e.name) = f.links s
  default : net.routes (own e.name) "default" = f.default
  routes : ∀ network x, e.net = some network → net.routes (own x) network = f.routes x

/-- Only what is the entity's differs. -/
structure Elsewhere (e : Site) (net net' : Net ν) : Prop where
  mounts : ∀ path ≠ e.path, net'.mounts path = net.mounts path
  links : ∀ ns link, ¬ e.Has own ns link → net'.links ns link = net.links ns link
  routes : ∀ ns network, ¬ (ns = own e.name ∧ network = "default") → e.net ≠ some network →
    net'.routes ns network = net.routes ns network

end

/-! ### Names -/

theorem Slot.link_inj {s s' : Slot} {name name' : String} (h : s.link name = s'.link name') :
    name = name' ∧ (s = s' ∨ s = .nd ∧ s' = .far ∨ s = .far ∧ s' = .nd) := by
  have hlist := congrArg String.toList h
  cases s <;> cases s' <;>
    simp only [Slot.link, Entityd.nu, Entityd.nd, Entityd.nb, String.toList_append] at hlist <;>
    simp at hlist ⊢ <;> exact String.toList_injective hlist

theorem path_injective {name name' : String}
    (h : netnsPath (netnsName name) = netnsPath (netnsName name')) : name = name' := by
  rw [netnsPath, netnsName, netnsPath, netnsName] at h
  exact String.append_right_inj _ |>.mp (String.append_right_inj _ |>.mp h)

variable {ν : Type} {own : String → ν} {e e' : Site} {f f' : Fitting} {net net' : Net ν}
  {s s' : Slot} {ns ns' : ν} {link : String} {netns : Option String}

/-- A command for a link of the entity is for one of its slots, in the namespace of that. -/
theorem Site.of_slot (own : String → ν) (h : e.slot netns link = some s) :
    link = s.link e.name ∧
      e.namespaceOf own s = some (e.within own netns) := by
  cases netns with
  | none =>
    rw [Site.slot] at h
    split_ifs at h with hnu hnd hnb
    all_goals
      cases h
    · exact ⟨hnu, rfl⟩
    · exact ⟨hnd, rfl⟩
    · exact ⟨hnb, rfl⟩
  | some x =>
    rw [Site.slot] at h
    split_ifs at h with hfar
    cases h
    exact ⟨hfar.2, by rw [Site.namespaceOf, hfar.1, Option.map_some, Site.within]⟩

/-- No two slots are the same link of the same namespace. -/
theorem Site.slot_eq (hown : Function.Injective own) (hs : e.namespaceOf own s = some ns)
    (hs' : e.namespaceOf own s' = some ns) (h : s.link e.name = s'.link e.name) : s = s' := by
  have hfar : ∀ ns, e.namespaceOf own .nd = some ns → e.namespaceOf own .far ≠ some ns := by
    intro ns hnd hfar
    cases hnd
    obtain ⟨u, hu, hn⟩ := Option.map_eq_some_iff.mp hfar
    exact e.apart (hu.trans (congrArg some (hown hn)))
  rcases (Slot.link_inj h).2 with rfl | ⟨rfl, rfl⟩ | ⟨rfl, rfl⟩
  · rfl
  · exact absurd hs' (hfar ns hs)
  · exact absurd hs (hfar ns hs')

/-! ### What an action does -/

theorem Elsewhere.refl (own : String → ν) (e : Site) (net : Net ν) : Elsewhere own e net net :=
  ⟨fun _ _ => rfl, fun _ _ _ => rfl, fun _ _ _ _ => rfl⟩

theorem Elsewhere.trans {net'' : Net ν} (h : Elsewhere own e net net')
    (h' : Elsewhere own e net' net'') : Elsewhere own e net net'' where
  mounts := fun path hpath => (h'.mounts path hpath).trans (h.mounts path hpath)
  links := fun ns link hno => (h'.links ns link hno).trans (h.links ns link hno)
  routes := fun ns network hdefault hnet =>
    (h'.routes ns network hdefault hnet).trans (h.routes ns network hdefault hnet)

section

variable [DecidableEq ν]

theorem Elsewhere.setLink (hs : e.namespaceOf own s = some ns) (l : Option Link) :
    Elsewhere own e net (net.setLink ns (s.link e.name) l) where
  mounts := fun _ _ => rfl
  links := by
    intro ns' link hno
    rw [Net.setLink_links, if_neg]
    rintro ⟨rfl, rfl⟩
    exact hno ⟨s, hs, rfl⟩
  routes := fun _ _ _ _ => rfl

theorem Shows.setLink (hown : Function.Injective own) (h : Shows own e f net)
    (hs : e.namespaceOf own s = some ns) (l : Option Link) :
    Shows own e (f.setLink s l) (net.setLink ns (s.link e.name) l) where
  mounted := h.mounted
  links := by
    intro s' ns' hs'
    rw [Net.setLink_links]
    by_cases heq : s' = s
    · subst heq
      rw [hs] at hs'
      cases hs'
      rw [if_pos ⟨rfl, rfl⟩]
      exact (Function.update_self s' l f.links).symm
    · rw [if_neg]
      · exact (h.links s' ns' hs').trans (Function.update_of_ne heq _ _).symm
      · rintro ⟨rfl, hlink⟩
        exact heq (Site.slot_eq hown hs' hs hlink)
  default := h.default
  routes := h.routes

/-- The same is changed at the same link. -/
theorem Shows.adjust (hown : Function.Injective own) (h : Shows own e f net)
    {g : Link → Option Link} (ha : f.adjust e netns link g = some f') :
    ∃ net', net.adjust (e.within own netns) link g = some net' ∧
      Shows own e f' net' ∧ Elsewhere own e net net' := by
  obtain ⟨s, hs, ha⟩ := Option.bind_eq_some_iff.mp ha
  obtain ⟨l, hl, ha⟩ := Option.bind_eq_some_iff.mp ha
  obtain ⟨l', hl', rfl⟩ := Option.map_eq_some_iff.mp ha
  obtain ⟨rfl, hspace⟩ := Site.of_slot own hs
  refine ⟨_, ?_, h.setLink hown hspace (some l'), .setLink hspace _⟩
  rw [Net.adjust, h.links s _ hspace, hl, Option.bind_some, hl', Option.map_some]

theorem Shows.addRoute (hown : Function.Injective own) (h : Shows own e f net)
    {network gateway : String} (ha : f.addRoute e network gateway netns = some f') :
    ∃ net', net.ip (e.within own netns) (.routeAdd network gateway) = some net' ∧
      Shows own e f' net' ∧ Elsewhere own e net net' := by
  cases netns with
  | none =>
    rw [Fitting.addRoute] at ha
    split_ifs at ha with hfree
    cases ha
    obtain ⟨rfl, hnone⟩ := hfree
    refine ⟨net.setRoute (own e.name) "default" (some gateway), ?_, ⟨h.mounted, h.links, ?_, ?_⟩,
      ⟨fun _ _ => rfl, fun _ _ _ => rfl, ?_⟩⟩
    · rw [Site.within, Net.ip, h.default, if_pos hnone]
    · rw [Net.setRoute_routes, if_pos ⟨rfl, rfl⟩]
    · intro network x hnet
      rw [Net.setRoute_routes, if_neg, h.routes network x hnet]
      rintro ⟨-, rfl⟩
      exact e.plain hnet
    · intro ns network hno _
      rw [Net.setRoute_routes, if_neg hno]
  | some x =>
    rw [Fitting.addRoute] at ha
    split_ifs at ha with hfree
    cases ha
    obtain ⟨hnet, hnone⟩ := hfree
    refine ⟨net.setRoute (own x) network (some gateway), ?_, ⟨h.mounted, h.links, ?_, ?_⟩,
      ⟨fun _ _ => rfl, fun _ _ _ => rfl, ?_⟩⟩
    · rw [Site.within, Net.ip, h.routes network x hnet, if_pos hnone]
    · rw [Net.setRoute_routes, if_neg, h.default]
      rintro ⟨-, rfl⟩
      exact e.plain hnet
    · intro network' y hnet'
      cases hnet.symm.trans hnet'
      rw [Net.setRoute_routes]
      by_cases hy : y = x
      · subst hy
        rw [if_pos ⟨rfl, rfl⟩]
        exact (Function.update_self y (some gateway) f.routes).symm
      · rw [if_neg fun hc => hy (hown hc.1), h.routes network y hnet]
        exact (Function.update_of_ne hy _ _).symm
    · intro ns network' _ hnet'
      rw [Net.setRoute_routes, if_neg]
      rintro ⟨-, rfl⟩
      exact hnet' hnet

theorem Shows.addVeth (hown : Function.Injective own) (h : Shows own e f net) {peer : String}
    (ha : f.ip e netns (.linkAddVeth link peer) = some f') :
    ∃ net', net.ip (e.within own netns) (.linkAddVeth link peer) = some net' ∧
      Shows own e f' net' ∧ Elsewhere own e net net' := by
  rw [Fitting.ip] at ha
  split_ifs at ha with hfree
  cases ha
  obtain ⟨rfl, rfl, rfl, hnu, hnd⟩ := hfree
  have hnu' : net.links (own e.name) (nu e.name) = f.links .nu := h.links .nu _ rfl
  have hnd' : net.links (own e.name) (nd e.name) = f.links .nd := h.links .nd _ rfl
  have hnuSpace : e.namespaceOf own .nu = some (own e.name) := rfl
  have hndSpace : e.namespaceOf own .nd = some (own e.name) := rfl
  refine ⟨_, ?_, (h.setLink hown hnuSpace _).setLink hown hndSpace _,
    (Elsewhere.setLink hnuSpace _).trans (.setLink hndSpace _)⟩
  rw [Site.within, Net.ip, hnu', hnd', hnu, hnd]
  rfl

theorem Shows.addBridge (hown : Function.Injective own) (h : Shows own e f net)
    (ha : f.ip e netns (.linkAddBridge link) = some f') :
    ∃ net', net.ip (e.within own netns) (.linkAddBridge link) = some net' ∧
      Shows own e f' net' ∧ Elsewhere own e net net' := by
  rw [Fitting.ip] at ha
  split_ifs at ha with hfree
  cases ha
  obtain ⟨rfl, rfl, hnb⟩ := hfree
  have hnb' : net.links (own e.name) (nb e.name) = f.links .nb := h.links .nb _ rfl
  have hspace : e.namespaceOf own .nb = some (own e.name) := rfl
  refine ⟨_, ?_, h.setLink hown hspace _, .setLink hspace _⟩
  rw [Site.within, Net.ip, hnb', if_pos hnb]
  rfl

/-- The link is moved to where the uplink is. -/
theorem Shows.move (hown : Function.Injective own) (h : Shows own e f net) {x : String}
    (ha : f.ip e netns (.linkSetNetns link x) = some f')
    (hx : net.mounts (netnsPath (netnsName x)) = some (own x)) :
    ∃ net', net.ip (e.within own netns) (.linkSetNetns link x) = some net' ∧
      Shows own e f' net' ∧ Elsewhere own e net net' := by
  rw [Fitting.ip] at ha
  split_ifs at ha with hfree
  cases ha
  obtain ⟨rfl, rfl, hu, hnd, hfar⟩ := hfree
  have hnd' : net.links (own e.name) (nd e.name) = f.links .nd := h.links .nd _ rfl
  have hndSpace : e.namespaceOf own .nd = some (own e.name) := rfl
  have hfarSpace : e.namespaceOf own .far = some (own x) := by
    rw [Site.namespaceOf, hu, Option.map_some]
  have hfar' : net.links (own x) (nd e.name) = f.links .far := h.links .far _ hfarSpace
  have hne : own x ≠ own e.name := fun hc => e.apart (hu.trans (congrArg some (hown hc)))
  refine ⟨_, ?_, (h.setLink hown hndSpace _).setLink hown hfarSpace _,
    (Elsewhere.setLink hndSpace _).trans (.setLink hfarSpace _)⟩
  rw [Site.within, Net.ip, hnd', if_pos hnd, hx]
  dsimp only
  rw [if_neg hne, hfar', if_pos hfar]
  rfl

theorem Shows.setMaster (hown : Function.Injective own) (h : Shows own e f net) {bridge : String}
    (ha : f.ip e netns (.linkSetMaster link bridge) = some f')
    (hbridge : ∀ x, netns = some x → (net.links (own x) (nb x)).isSome) :
    ∃ net', net.ip (e.within own netns) (.linkSetMaster link bridge) = some net' ∧
      Shows own e f' net' ∧ Elsewhere own e net net' := by
  rw [Fitting.ip] at ha
  split_ifs at ha with hthere
  have hsome : (net.links (e.within own netns) bridge).isSome := by
    cases netns with
    | none =>
      obtain ⟨hname, hnb⟩ := Bool.and_eq_true_iff.mp hthere
      rw [of_decide_eq_true hname]
      show (net.links (own e.name) (Slot.nb.link e.name)).isSome = true
      rwa [h.links .nb _ rfl]
    | some x =>
      rw [of_decide_eq_true hthere]
      exact hbridge x rfl
  rw [Net.ip, if_pos hsome]
  exact h.adjust hown ha

/-- **The network does the same**, if the namespaces of the others that are needed are
mounted, and the bridge is there. -/
theorem Shows.apply (hown : Function.Injective own) (h : Shows own e f net) {a : Action}
    (ha : f.apply e a = some f')
    (hothers : ∀ x ∈ a.others, net.mounts (netnsPath (netnsName x)) = some (own x))
    (hbridge : ∀ x, a.bridge = some x → (net.links (own x) (nb x)).isSome) :
    ∃ net', net.apply (own e.name) a = some net' ∧ Shows own e f' net' ∧
      Elsewhere own e net net' := by
  cases a with
  | system c =>
    obtain ⟨netns, c⟩ := c
    have hns : net.namespaceOf (own e.name) netns = some (e.within own netns) := by
      cases netns with
      | none => rfl
      | some x => exact hothers x (by cases c <;> exact List.mem_singleton_self x)
    have hip : ∃ net', net.ip (e.within own netns) c = some net' ∧ Shows own e f' net' ∧
        Elsewhere own e net net' := by
      cases c with
      | linkAddVeth link peer => exact h.addVeth hown ha
      | linkAddBridge link => exact h.addBridge hown ha
      | linkSetUp link | addrAdd address link => exact h.adjust hown ha
      | linkSetMaster link bridge =>
        refine h.setMaster hown ha fun x hx => hbridge x ?_
        subst hx
        rfl
      | linkSetNetns link x =>
        refine h.move hown ha (hothers x ?_)
        have hnone : netns = none := by
          change f.ip e netns (.linkSetNetns link x) = some f' at ha
          rw [Fitting.ip] at ha
          split_ifs at ha with hfree
          exact hfree.1
        subst hnone
        exact List.mem_singleton_self x
      | routeAdd network gateway => exact h.addRoute hown ha
      | _ => cases ha
    obtain ⟨net', hip, hshows⟩ := hip
    refine ⟨net', ?_, hshows⟩
    rw [Net.apply, hns, Option.bind_some, hip]
  | mount path =>
    rw [Fitting.apply] at ha
    split_ifs at ha with hpath
    cases ha
    subst hpath
    refine ⟨_, rfl, ⟨fun _ => Function.update_self .., h.links, h.default, h.routes⟩,
      ⟨fun path hne => Function.update_of_ne hne _ _, fun _ _ _ => rfl, fun _ _ _ _ => rfl⟩⟩
  | umount path =>
    rw [Fitting.apply] at ha
    split_ifs at ha with hpath
    cases ha
    subst hpath
    refine ⟨_, rfl, ⟨fun hc => ?_, h.links, h.default, h.routes⟩,
      ⟨fun path hne => Function.update_of_ne hne _ _, fun _ _ _ => rfl, fun _ _ _ _ => rfl⟩⟩
    cases hc
  | _ =>
    cases ha
    exact ⟨net, rfl, h, .refl own e net⟩

end

/-! ### What the others see -/

/-- **Nothing is taken from another entity**, if its network is another. -/
theorem Shows.elsewhere (hown : Function.Injective own) (h : Shows own e f net)
    (hother : Elsewhere own e' net net') (hname : e.name ≠ e'.name)
    (hnet : ∀ network, e.net = some network → e'.net ≠ some network) : Shows own e f net' where
  mounted := fun hm => (hother.mounts e.path fun hc => hname (path_injective hc)).trans (h.mounted hm)
  links := by
    intro s ns hs
    rw [hother.links, h.links s ns hs]
    rintro ⟨s', -, hlink⟩
    exact hname (Slot.link_inj hlink).1
  default := by
    rw [hother.routes, h.default]
    · exact fun hc => hname (hown hc.1)
    · exact e'.plain
  routes := by
    intro network x hn
    rw [hother.routes, h.routes network x hn]
    · rintro ⟨-, rfl⟩
      exact e.plain hn
    · exact hnet network hn

end Entityd

end Nonsense
