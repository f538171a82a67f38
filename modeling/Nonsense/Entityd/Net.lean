import Nonsense.Entityd.Runs
import Nonsense.Lib.Undo
import Mathlib.Logic.Function.Basic

/-!
# What `ip` does

A `Net ν` are the links and the routes of network namespaces `ν`, and which of them is
mounted where.  A command of `ip` adds, removes, moves or changes the link, the address
or the route it names, and nothing else; it fails where what it adds is there already
or what it needs is not.  A link that is moved to another namespace loses its addresses
and its bridge.  That is what is assumed of `ip`; which texts it takes is left out here.

`tidying own name` is the process of `name` in the namespace `own`: an action, and what
undoes it.
-/

namespace Nonsense

namespace Entityd

structure Link where
  up : Bool
  master : Option String
  addresses : List String

/-- A link that has just been made, or moved. -/
def Link.fresh : Link := ⟨false, none, []⟩

structure Net (ν : Type) where
  /-- The namespaces that are mounted, by their paths. -/
  mounts : String → Option ν
  links : ν → String → Option Link
  /-- The gateways, by the networks. -/
  routes : ν → String → Option String

namespace Net

variable {ν : Type} [DecidableEq ν] {net net' : Net ν} {own ns : ν}

def setLink (net : Net ν) (ns : ν) (link : String) (l : Option Link) : Net ν :=
  { net with links := Function.update net.links ns (Function.update (net.links ns) link l) }

def setRoute (net : Net ν) (ns : ν) (network : String) (gateway : Option String) : Net ν :=
  { net with routes := Function.update net.routes ns (Function.update (net.routes ns) network gateway) }

/-- Change a link that is there. -/
def adjust (net : Net ν) (ns : ν) (link : String) (f : Link → Option Link) : Option (Net ν) :=
  (net.links ns link).bind fun l => (f l).map fun l => net.setLink ns link (some l)

/-- A command in the namespace `ns`. -/
def ip (net : Net ν) (ns : ν) : Ip → Option (Net ν)
  | .linkAddVeth link peer =>
    if (net.links ns link).isNone && (net.links ns peer).isNone then
      some ((net.setLink ns link (some .fresh)).setLink ns peer (some .fresh))
    else none
  | .linkAddBridge link =>
    if (net.links ns link).isNone then some (net.setLink ns link (some .fresh)) else none
  | .linkDel link => if (net.links ns link).isSome then some (net.setLink ns link none) else none
  | .linkSetUp link => net.adjust ns link fun l => some { l with up := true }
  | .linkSetDown link => net.adjust ns link fun l => some { l with up := false }
  | .linkSetMaster link bridge =>
    if (net.links ns bridge).isSome then
      net.adjust ns link fun l => some { l with master := some bridge }
    else none
  | .linkSetNetns link entity =>
    if (net.links ns link).isSome then
      match net.mounts (netnsPath (netnsName entity)) with
      | none => none
      | some far =>
        if far = ns then some net
        else if (net.links far link).isNone then
          some ((net.setLink ns link none).setLink far link (some .fresh))
        else none
    else none
  | .addrAdd address link => net.adjust ns link fun l =>
    if address ∈ l.addresses then none else some { l with addresses := l.addresses ++ [address] }
  | .addrDel address link => net.adjust ns link fun l =>
    if address ∈ l.addresses then some { l with addresses := l.addresses.erase address } else none
  | .routeAdd network gateway =>
    if (net.routes ns network).isNone then some (net.setRoute ns network (some gateway)) else none
  | .routeDel network =>
    if (net.routes ns network).isSome then some (net.setRoute ns network none) else none

/-- The namespace a command is run in. -/
def namespaceOf (net : Net ν) (own : ν) : Option String → Option ν
  | none => some own
  | some entity => net.mounts (netnsPath (netnsName entity))

/-- An action of a process in the namespace `own`. -/
def apply (own : ν) : Action → Net ν → Option (Net ν)
  | .system c, net => (net.namespaceOf own c.netns).bind fun ns => net.ip ns c.ip
  | .mount path, net => some { net with mounts := Function.update net.mounts path (some own) }
  | .umount path, net => some { net with mounts := Function.update net.mounts path none }
  -- what is left is the way into the namespace, and files
  | _, net => some net

theorem setLink_links (ns' : ν) (link link' : String) (l : Option Link) :
    (net.setLink ns link l).links ns' link' =
      if ns' = ns ∧ link' = link then l else net.links ns' link' := by
  rw [setLink]
  by_cases hns : ns' = ns
  · subst hns
    by_cases hlink : link' = link
    · subst hlink
      simp
    · simp [hlink]
  · simp [hns]

theorem setRoute_routes (ns' : ν) (network network' : String) (gateway : Option String) :
    (net.setRoute ns network gateway).routes ns' network' =
      if ns' = ns ∧ network' = network then gateway else net.routes ns' network' := by
  rw [setRoute]
  by_cases hns : ns' = ns
  · subst hns
    by_cases hnetwork : network' = network
    · subst hnetwork
      simp
    · simp [hnetwork]
  · simp [hns]

/-- A link is changed, and nothing else. -/
def Adjusted (ns : ν) (link : String) (net net' : Net ν) : Prop :=
  ∃ l l', net.links ns link = some l ∧ net' = net.setLink ns link (some l')

theorem adjusted_of_adjust {link : String} {f : Link → Option Link}
    (h : net.adjust ns link f = some net') : Adjusted ns link net net' := by
  obtain ⟨l, hl, h⟩ := Option.bind_eq_some_iff.mp h
  obtain ⟨l', -, rfl⟩ := Option.map_eq_some_iff.mp h
  exact ⟨l, l', hl, rfl⟩

end Net

/-- The link that a command changes, if it does no more. -/
def Ip.adjusts : Ip → Option String
  | linkSetUp link | linkSetDown link | linkSetMaster link _ | addrAdd _ link | addrDel _ link =>
    some link
  | _ => none

theorem Net.adjusted_of_ip {ν : Type} [DecidableEq ν] {net net' : Net ν} {ns : ν} {c : Ip}
    {link : String} (hc : c.adjusts = some link) (h : net.ip ns c = some net') :
    Adjusted ns link net net' := by
  cases c with
  | linkSetUp | linkSetDown | addrAdd | addrDel =>
    cases hc
    exact adjusted_of_adjust h
  | linkSetMaster =>
    cases hc
    rw [Net.ip] at h
    split at h
    · exact adjusted_of_adjust h
    · cases h
  | _ => cases hc

/-- It is a move to another namespace. -/
def Ip.isMove : Ip → Bool
  | linkSetNetns .. => true
  | _ => false

/-- **A command that moves nothing** stays in its namespace. -/
theorem Net.ip_frame {ν : Type} [DecidableEq ν] {net net' : Net ν} {ns : ν} {c : Ip}
    (hc : c.isMove = false) (h : net.ip ns c = some net') :
    net'.mounts = net.mounts ∧
      ∀ ns' ≠ ns, net'.links ns' = net.links ns' ∧ net'.routes ns' = net.routes ns' := by
  have hlink : ∀ (net : Net ν) link l, ∀ ns' ≠ ns, (net.setLink ns link l).links ns' = net.links ns' :=
    fun net link l ns' hns => Function.update_of_ne hns _ _
  have hroute : ∀ network gateway, ∀ ns' ≠ ns,
      (net.setRoute ns network gateway).routes ns' = net.routes ns' :=
    fun network gateway ns' hns => Function.update_of_ne hns _ _
  cases hadjusts : c.adjusts with
  | some link =>
    obtain ⟨l, l', -, rfl⟩ := adjusted_of_ip hadjusts h
    exact ⟨rfl, fun ns' hns => ⟨hlink _ _ _ ns' hns, rfl⟩⟩
  | none =>
    cases c with
    | linkAddVeth link peer =>
      rw [Net.ip] at h
      split at h
      · cases h
        refine ⟨rfl, fun ns' hns => ⟨?_, rfl⟩⟩
        rw [hlink _ _ _ ns' hns, hlink _ _ _ ns' hns]
      · cases h
    | linkAddBridge link | linkDel link =>
      rw [Net.ip] at h
      split at h
      · cases h
        exact ⟨rfl, fun ns' hns => ⟨hlink _ _ _ ns' hns, rfl⟩⟩
      · cases h
    | routeAdd network gateway | routeDel network =>
      rw [Net.ip] at h
      split at h
      · cases h
        exact ⟨rfl, fun ns' hns => ⟨rfl, hroute _ _ ns' hns⟩⟩
      · cases h
    | linkSetNetns => cases hc
    | _ => cases hadjusts

/-- No command mounts anything. -/
theorem Net.ip_mounts {ν : Type} [DecidableEq ν] {net net' : Net ν} {ns : ν} {c : Ip}
    (h : net.ip ns c = some net') : net'.mounts = net.mounts := by
  cases hc : c.isMove with
  | false => exact (ip_frame hc h).1
  | true =>
    cases c with
    | linkSetNetns link entity =>
      rw [Net.ip] at h
      split at h
      · split at h
        · cases h
        · split at h
          · cases h; rfl
          · split at h
            · cases h; rfl
            · cases h
      · cases h
    | _ => cases hc

/-- The process of `name` in the namespace `own`. -/
def tidying {ν : Type} [DecidableEq ν] (own : ν) (name : String) : Undoable Action (Net ν) :=
  ⟨Net.apply own, Action.undo name⟩

end Entityd

end Nonsense
