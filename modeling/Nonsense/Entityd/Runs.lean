import Nonsense.Entity.Component
import Nonsense.Entityd.Addresses
import Nonsense.Entityd.Scripts

/-!
# The run in which everything succeeds

What the process of an entity does with the component of a chain of networks
(`Config.Ascent`, `Entity.nest`), if nothing fails.  `hops` are the uplinks that the
loop over the uplinks gets through, each with its own uplink and the /24 of its
address, and whether the loop comes to its end.

For each function there is one lemma: what it asks of the system, what it remembers
for the end, and whether it returns.
-/

namespace Nonsense

namespace Config

/-- The role is `switch`. -/
def isSwitch (m : Object) : Bool := ((m.find "role").getD .null).eqString "switch"

theorem isSwitch_iff {m : Object} : isSwitch m = true ↔ m.find "role" = some (.string "switch") := by
  rw [isSwitch, Json.eqString_iff]
  cases m.find "role" <;> simp

end Config

namespace Entityd

open Config (Ascent uplinkName text isSwitch)
open Entity (nest find_nest find_nest_uplink text_nest_uplinkName)
open EState

/-- The /24 of the address of a network. -/
def networkSubnet (m : Object) : Option String := (text m "address").bind subnet

/-- The uplink and the /24 of a network, which is what a turn of the loop needs. -/
def hop (m : Object) : Option (String × String) :=
  match uplinkName m, networkSubnet m with
  | some u, some p => some (u, p)
  | _, _ => none

/-- The networks that the loop gets through, and whether it comes to its end. -/
def hops : List Object → List (String × String) × Bool
  | [] => ([], true)
  | m :: ms =>
    if isSwitch m then
      match hop m with
      | some h => (h :: (hops ms).1, (hops ms).2)
      | none => ([], false)
    else ([], true)

/-- The route to `net` behind an uplink, and what removes it. -/
def routeTo (net : String) (h : String × String) : Action :=
  .system (inside h.1 (.routeAdd net (host h.2 2)))

def routeBack (net : String) (h : String × String) : Action :=
  .system (inside h.1 (.routeDel net))

variable {tree : Object} {name entity : String} {m : Object} {ms : List Object} {s : State}

/-! ### Reading a component -/

theorem lift_of_ok {α : Type} {x : Except Fault α} {a : α} (h : x = .ok a) : lift x s = .ok a s := by
  rw [h]
  rfl

theorem lift_of_error {α : Type} {x : Except Fault α} {f : Fault} (h : x = .error f) :
    lift x s = .error f s := by
  rw [h]
  rfl

theorem annotatedSystem_allOk (c : Command) (s : State) :
    annotatedSystem allOk c s = .ok () (s.did [.system c]) := rfl

theorem require_allOk (action : Action) (f : Fault) (s : State) :
    require allOk action f s = .ok () (s.did [action]) := rfl

theorem perform_allOk (action : Action) (s : State) :
    discard (perform allOk action) s = .ok () (s.did [action]) := rfl

theorem getText_of_text {key v : String} (h : text m key = some v) :
    getText (.object m) key = .ok v := by
  rw [Config.text_eq_some_iff] at h
  show (Except.ok ((OrdMap.find m key).getD .null) >>= Json.getRefString) = _
  rw [h]
  rfl

theorem getText_of_none {key : String} (h : text m key = none) :
    ∃ f, getText (.object m) key = .error f := by
  show ∃ f, ((OrdMap.find m key).getD .null).getRefString = .error f
  cases hj : (OrdMap.find m key).getD .null with
  | string v =>
    have hfind : m.find key = some (.string v) := by
      cases hf : OrdMap.find m key with
      | none => rw [hf] at hj; cases hj
      | some j => rw [hf] at hj; rw [← hj]; rfl
    rw [Config.text_eq_some_iff.mpr hfind] at h
    cases h
  | _ => exact ⟨_, rfl⟩

theorem subscript_role : (Json.object (nest (m :: ms))).subscript "role" =
    .ok ((m.find "role").getD .null) := by
  rw [Json.subscript, find_nest (by decide) (by decide)]

theorem getText_address {net : String} (h : text m "address" = some net) :
    getText (.object (nest (m :: ms))) "address" = .ok net := by
  apply getText_of_text
  rwa [Config.text_of_find_eq (find_nest (by decide) (by decide))]

theorem getText_address_none (h : text m "address" = none) :
    ∃ f, getText (.object (nest (m :: ms))) "address" = .error f := by
  apply getText_of_none
  rwa [Config.text_of_find_eq (find_nest (by decide) (by decide))]

theorem getText_uplinkName {u : String} (hchain : Ascent tree name (m :: ms))
    (h : uplinkName m = some u) : getText (.object (nest (m :: ms))) ":uplink-name" = .ok u := by
  apply getText_of_text
  rwa [text_nest_uplinkName hchain]

theorem getText_uplinkName_none (hchain : Ascent tree name (m :: ms)) (h : uplinkName m = none) :
    ∃ f, getText (.object (nest (m :: ms))) ":uplink-name" = .error f := by
  apply getText_of_none
  rwa [text_nest_uplinkName hchain]

/-- Where a network has no address in a /24, reading it throws. -/
theorem address_throws (ms : List Object) (h : networkSubnet m = none) :
    (∃ f, getText (.object (nest (m :: ms))) "address" = .error f) ∨
      ∃ net f, getText (.object (nest (m :: ms))) "address" = .ok net ∧
        ∀ n mask, nthAddressInSubnet net n mask = .error f := by
  cases hnet : text m "address" with
  | none => exact Or.inl (getText_address_none hnet)
  | some net =>
    rw [networkSubnet, hnet] at h
    obtain ⟨f, hf⟩ := nthAddressInSubnet_of_none h
    exact Or.inr ⟨net, f, getText_address hnet, hf⟩

theorem exists_address {p : String} (h : networkSubnet m = some p) :
    ∃ net, text m "address" = some net ∧ subnet net = some p :=
  Option.bind_eq_some_iff.mp h

/-! ### The loop over the uplinks -/

theorem hop_eq_some_iff {h : String × String} :
    hop m = some h ↔ uplinkName m = some h.1 ∧ networkSubnet m = some h.2 := by
  unfold hop
  split
  · rename_i u p hu hp
    rw [hu, hp, Option.some.injEq, Option.some.injEq, Option.some.injEq, Prod.ext_iff]
  · rename_i hno
    constructor
    · intro h
      cases h
    · rintro ⟨hu, hp⟩
      exact absurd hp (hno _ _ hu)

variable {net : String}

/-- A turn in which the network is not a switch. -/
theorem addRoutes_stop (hrole : isSwitch m = false) (clean : List Action) (s : State) :
    addRoutes allOk net (.object (nest (m :: ms))) clean s = .ok clean s := by
  rw [addRoutes_eq, if_neg (by simp [Json.isNull]), bind_of_ok (lift_of_ok subscript_role)]
  rw [isSwitch] at hrole
  rw [hrole]
  rfl

/-- A turn that throws. -/
theorem addRoutes_throws (hchain : Ascent tree name (m :: ms)) (hrole : isSwitch m = true)
    (hhop : hop m = none) (clean : List Action) (s : State) :
    ∃ f, addRoutes allOk net (.object (nest (m :: ms))) clean s = .error f s := by
  rw [addRoutes_eq, if_neg (by simp [Json.isNull]), bind_of_ok (lift_of_ok subscript_role)]
  rw [isSwitch] at hrole
  rw [hrole, if_pos rfl]
  cases hu : uplinkName m with
  | none =>
    obtain ⟨f, hf⟩ := getText_uplinkName_none hchain hu
    exact ⟨f, bind_of_error (lift_of_error hf)⟩
  | some u =>
    have hsubnet : networkSubnet m = none := by
      cases hp : networkSubnet m with
      | none => rfl
      | some p => rw [hop_eq_some_iff (h := (u, p)) |>.mpr ⟨hu, hp⟩] at hhop; cases hhop
    rw [bind_of_ok (lift_of_ok (getText_uplinkName hchain hu))]
    rcases address_throws ms hsubnet with ⟨f, hf⟩ | ⟨net', f, hnet, hf⟩
    · exact ⟨f, bind_of_error (lift_of_error hf)⟩
    · rw [bind_of_ok (lift_of_ok hnet)]
      exact ⟨f, bind_of_error (lift_of_error (hf _ _))⟩

/-- A turn that adds a route. -/
theorem addRoutes_turn (hchain : Ascent tree name (m :: ms)) (hrole : isSwitch m = true)
    {h : String × String} (hhop : hop m = some h) (clean : List Action) (s : State) :
    addRoutes allOk net (.object (nest (m :: ms))) clean s =
      (match (nest (m :: ms)).find "uplink" with
        | some next => addRoutes allOk net next (clean ++ [routeBack net h])
        | none => pure (clean ++ [routeBack net h])) (s.did [routeTo net h]) := by
  obtain ⟨hu, hp⟩ := hop_eq_some_iff.mp hhop
  obtain ⟨net', hnet, hsubnet⟩ := exists_address hp
  rw [addRoutes_eq, if_neg (by simp [Json.isNull]), bind_of_ok (lift_of_ok subscript_role)]
  rw [isSwitch] at hrole
  rw [hrole, if_pos rfl, bind_of_ok (lift_of_ok (getText_uplinkName hchain hu)),
    bind_of_ok (lift_of_ok (getText_address hnet)),
    bind_of_ok (lift_of_ok (nthAddressInSubnet_bare hsubnet 2)),
    bind_of_ok (annotatedSystem_allOk _ s)]
  rfl

/-- **The loop adds a route behind each of the `hops`.** -/
theorem addRoutes_chain (h : Ascent tree name ms) : ∀ (clean : List Action) (s : State),
    ((hops ms).2 = true → addRoutes allOk net (.object (nest ms)) clean s =
      .ok (clean ++ (hops ms).1.map (routeBack net)) (s.did ((hops ms).1.map (routeTo net)))) ∧
    ((hops ms).2 = false → ∃ f, addRoutes allOk net (.object (nest ms)) clean s =
      .error f (s.did ((hops ms).1.map (routeTo net)))) := by
  induction h with
  | @last name m hm hup =>
    intro clean s
    have hchain : Ascent tree name [m] := .last hm hup
    rw [hops]
    cases hrole : isSwitch m with
    | false => simp [addRoutes_stop hrole]
    | true =>
      cases hhop : hop m with
      | none => simpa using addRoutes_throws hchain hrole hhop clean s
      | some h =>
        rw [addRoutes_turn hchain hrole hhop]
        rw [nest, hup]
        simp [hops, pure_apply]
  | @link name u m ms hm hup htail ih =>
    intro clean s
    have hchain : Ascent tree name (m :: ms) := .link hm hup htail
    rw [hops]
    cases hrole : isSwitch m with
    | false => simp [addRoutes_stop hrole]
    | true =>
      cases hhop : hop m with
      | none => simpa using addRoutes_throws hchain hrole hhop clean s
      | some h =>
        rw [addRoutes_turn hchain hrole hhop]
        rw [find_nest_uplink htail.ne_nil]
        obtain ⟨ihok, iherror⟩ := ih (clean ++ [routeBack net h]) (s.did [routeTo net h])
        simp only [if_true]
        refine ⟨?_, ?_⟩
        · intro hend
          rw [ihok hend]
          simp
        · intro hend
          obtain ⟨f, hf⟩ := iherror hend
          exact ⟨f, by rw [hf]; simp⟩

/-- The loop of `connect`, from the uplink of the component. -/
theorem addRoutes_uplink (net : String) (hchain : Ascent tree name (m :: ms)) :
    ∃ uplink, (Json.object (nest (m :: ms))).subscript "uplink" = .ok uplink ∧
      ∀ (clean : List Action) (s : State),
        ((hops ms).2 = true → addRoutes allOk net uplink clean s =
          .ok (clean ++ (hops ms).1.map (routeBack net)) (s.did ((hops ms).1.map (routeTo net)))) ∧
        ((hops ms).2 = false → ∃ f, addRoutes allOk net uplink clean s =
          .error f (s.did ((hops ms).1.map (routeTo net)))) := by
  cases hchain with
  | last hm hup =>
    refine ⟨.null, ?_, ?_⟩
    · rw [Json.subscript, nest, hup]
      rfl
    · intro clean s
      have hnull : addRoutes allOk net .null clean s = .ok clean s := by
        rw [addRoutes_eq]
        rfl
      simp [hops, hnull]
  | link hm hup htail =>
    refine ⟨.object (nest ms), ?_, fun clean s => addRoutes_chain htail clean s⟩
    rw [Json.subscript, find_nest_uplink htail.ne_nil]
    rfl

/-! ### What is undone at the end -/

/-- What undoes an action, where there is something that does. -/
def Action.undo (name : String) : Action → Option Action
  | .mount path => some (.umount path)
  | .system ⟨netns, .linkAddVeth link _⟩ => some (.system ⟨netns, .linkDel link⟩)
  | .system ⟨netns, .linkAddBridge link⟩ => some (.system ⟨netns, .linkDel link⟩)
  | .system ⟨none, .linkSetNetns link entity⟩ =>
    some (.system (inside entity (.linkSetNetns link name)))
  | .system ⟨netns, .addrAdd address link⟩ => some (.system ⟨netns, .addrDel address link⟩)
  | .system ⟨netns, .routeAdd network _⟩ => some (.system ⟨netns, .routeDel network⟩)
  -- the links of its own it leaves up, and deletes them
  | .system ⟨some entity, .linkSetUp link⟩ => some (.system (inside entity (.linkSetDown link)))
  | _ => none

/-- The state after `actions`, with what undoes them in `cleanups`. -/
def State.setUp (s : State) (name : String) (actions : List Action) : State :=
  { s.did actions with cleanups := s.cleanups ++ actions.filterMap (Action.undo name) }

/-- The state after `actions`, with what undoes them in `connection_cleanups`. -/
def State.connected (s : State) (name : String) (actions : List Action) : State :=
  { s.did actions with
    connectionCleanups := s.connectionCleanups ++ actions.filterMap (Action.undo name) }

@[simp] theorem State.setUp_nil (s : State) : s.setUp name [] = s := by
  simp [State.setUp, State.did]

@[simp] theorem State.setUp_setUp (s : State) (l l' : List Action) :
    (s.setUp name l).setUp name l' = s.setUp name (l ++ l') := by
  simp [State.setUp, State.did]

@[simp] theorem State.setUp_actions (s : State) (l : List Action) :
    (s.setUp name l).actions = s.actions ++ l := rfl

@[simp] theorem State.connected_nil (s : State) : s.connected name [] = s := by
  simp [State.connected, State.did]

theorem filterMap_undo_routeTo (hs : List (String × String)) :
    hs.filterMap (Action.undo name ∘ routeTo net) = hs.map (routeBack net) := by
  rw [show Action.undo name ∘ routeTo net = some ∘ routeBack net from rfl, List.filterMap_eq_map]

/-! ### Connecting -/

/-- What `connect` does for a switch, up to the end of the loop. -/
def switchDeeds (name u net p : String) (hs : List (String × String)) : List Action :=
  .system (inside u (.addrAdd (host p 1 ++ "/24") (nd name))) :: hs.map (routeTo net)

/-- What it does behind the loop. -/
def switchEnd (name u p : String) : List Action :=
  [.system (inside u (.linkSetUp (nd name))),
    .system (here (.addrAdd (host p 2 ++ "/24") (nb name))),
    .system (here (.routeAdd "default" (host p 1)))]

/-- What it does for a client. -/
def clientDeeds (name u p : String) : List Action :=
  [.system (inside u (.linkSetMaster (nd name) (nb u))),
    .system (inside u (.linkSetUp (nd name))),
    .system (here (.addrAdd (host p 3 ++ "/24") (nu name))),
    .system (here (.routeAdd "default" (host p 1)))]

theorem connectSwitch_throws (h : networkSubnet m = none) (u : String) (clean : List Action)
    (s : State) :
    ∃ f, connectSwitch allOk name (.object (nest (m :: ms))) u clean s = .error f s := by
  unfold connectSwitch
  rcases address_throws ms h with ⟨f, hf⟩ | ⟨net, f, hnet, hf⟩
  · exact ⟨f, bind_of_error (lift_of_error hf)⟩
  · rw [bind_of_ok (lift_of_ok hnet)]
    exact ⟨f, bind_of_error (lift_of_error (hf _ _))⟩

theorem connectSwitch_chain {p : String} (hchain : Ascent tree entity (m :: ms))
    (hnet : text m "address" = some net) (hsubnet : subnet net = some p) (u : String)
    (clean : List Action) (s : State) :
    ((hops ms).2 = true → connectSwitch allOk name (.object (nest (m :: ms))) u clean s =
      .ok (clean ++ (switchDeeds name u net p (hops ms).1 ++ switchEnd name u p).filterMap
          (Action.undo name))
        (s.did (switchDeeds name u net p (hops ms).1 ++ switchEnd name u p))) ∧
    ((hops ms).2 = false → ∃ f, connectSwitch allOk name (.object (nest (m :: ms))) u clean s =
      .error f (s.did (switchDeeds name u net p (hops ms).1))) := by
  obtain ⟨uplink, huplink, hloop⟩ := addRoutes_uplink net hchain
  unfold connectSwitch
  rw [bind_of_ok (lift_of_ok (getText_address hnet)),
    bind_of_ok (lift_of_ok (nthAddressInSubnet_masked hsubnet 1)),
    bind_of_ok (annotatedSystem_allOk _ s), bind_of_ok (lift_of_ok huplink)]
  obtain ⟨hok, herror⟩ := hloop
    (clean ++ [.system (inside u (.addrDel (host p 1 ++ "/24") (nd name)))])
    (s.did [.system (inside u (.addrAdd (host p 1 ++ "/24") (nd name)))])
  refine ⟨?_, ?_⟩
  · intro hend
    rw [bind_of_ok (hok hend), bind_of_ok (annotatedSystem_allOk _ _),
      bind_of_ok (lift_of_ok (nthAddressInSubnet_bare hsubnet 1)),
      bind_of_ok (lift_of_ok (nthAddressInSubnet_masked hsubnet 2)),
      bind_of_ok (annotatedSystem_allOk _ _), bind_of_ok (annotatedSystem_allOk _ _), pure_apply]
    simp [switchDeeds, switchEnd, filterMap_undo_routeTo, Action.undo, inside, here]
  · intro hend
    obtain ⟨f, hf⟩ := herror hend
    exact ⟨f, by rw [bind_of_error hf]; simp [switchDeeds]⟩

/-- The /24 of the uplink of a client. -/
def uplinkSubnet (ms : List Object) : Option String := ms.head?.bind networkSubnet

theorem connectClient_chain (hchain : Ascent tree entity (m :: ms)) (u : String)
    (clean : List Action) (s : State) :
    (∀ p, uplinkSubnet ms = some p →
      connectClient allOk name (.object (nest (m :: ms))) u clean s =
        .ok (clean ++ (clientDeeds name u p).filterMap (Action.undo name))
          (s.did (clientDeeds name u p))) ∧
    (uplinkSubnet ms = none →
      ∃ f, connectClient allOk name (.object (nest (m :: ms))) u clean s =
        .error f (s.did [.system (inside u (.linkSetMaster (nd name) (nb u)))])) := by
  unfold connectClient
  rw [bind_of_ok (annotatedSystem_allOk _ s)]
  cases hchain with
  | last hm hup =>
    have huplink : (Json.object (nest [m])).subscript "uplink" = .ok .null := by
      rw [Json.subscript, nest, hup]
      rfl
    rw [bind_of_ok (lift_of_ok huplink)]
    refine ⟨?_, ?_⟩
    · intro p hp
      cases hp
    · intro _
      exact ⟨_, rfl⟩
  | link hm hup htail =>
    obtain ⟨um, ms, rfl⟩ := List.exists_cons_of_ne_nil htail.ne_nil
    have huplink : (Json.object (nest (m :: um :: ms))).subscript "uplink" =
        .ok (.object (nest (um :: ms))) := by
      rw [Json.subscript, find_nest_uplink htail.ne_nil]
      rfl
    rw [bind_of_ok (lift_of_ok huplink)]
    refine ⟨?_, ?_⟩
    · intro p hp
      obtain ⟨net, hnet, hsubnet⟩ := exists_address (m := um) hp
      rw [bind_of_ok (lift_of_ok (getText_address hnet)),
        bind_of_ok (lift_of_ok (nthAddressInSubnet_bare hsubnet 1)),
        bind_of_ok (lift_of_ok (nthAddressInSubnet_masked hsubnet 3)),
        bind_of_ok (annotatedSystem_allOk _ _), bind_of_ok (annotatedSystem_allOk _ _),
        bind_of_ok (annotatedSystem_allOk _ _), pure_apply]
      simp only [State.did_did, List.append_assoc]
      rfl
    · intro hp
      rcases address_throws ms hp with ⟨f, hf⟩ | ⟨net, f, hnet, hf⟩
      · exact ⟨f, bind_of_error (lift_of_error hf)⟩
      · rw [bind_of_ok (lift_of_ok hnet)]
        exact ⟨f, bind_of_error (lift_of_error (hf _ _))⟩

/-- What `connect` does behind the move of the link, and whether it returns. -/
def connectedDeeds (name u : String) (m : Object) (ms : List Object) : List Action × Bool :=
  if isSwitch m then
    match text m "address" with
    | none => ([], false)
    | some net =>
      match subnet net with
      | none => ([], false)
      | some p =>
        if (hops ms).2 then (switchDeeds name u net p (hops ms).1 ++ switchEnd name u p, true)
        else (switchDeeds name u net p (hops ms).1, false)
  else
    match uplinkSubnet ms with
    | none => ([.system (inside u (.linkSetMaster (nd name) (nb u)))], false)
    | some p => (clientDeeds name u p, true)

theorem connectAs_chain (hchain : Ascent tree entity (m :: ms)) (u : String) (clean : List Action)
    (s : State) :
    ((connectedDeeds name u m ms).2 = true →
      connectAs allOk name (.object (nest (m :: ms))) ((m.find "role").getD .null) u clean s =
        .ok (clean ++ (connectedDeeds name u m ms).1.filterMap (Action.undo name))
          (s.did (connectedDeeds name u m ms).1)) ∧
    ((connectedDeeds name u m ms).2 = false →
      ∃ f, connectAs allOk name (.object (nest (m :: ms))) ((m.find "role").getD .null) u clean s =
        .error f (s.did (connectedDeeds name u m ms).1)) := by
  have hrole : ((m.find "role").getD .null).eqString "switch" = isSwitch m := rfl
  rw [connectAs, connectedDeeds, hrole]
  cases isSwitch m with
  | true =>
    rw [if_pos rfl, if_pos rfl]
    cases hnet : text m "address" with
    | none =>
      have hnone : networkSubnet m = none := by rw [networkSubnet, hnet]; rfl
      simpa using connectSwitch_throws hnone u clean s
    | some net =>
      cases hsubnet : subnet net with
      | none =>
        have hnone : networkSubnet m = none := by rw [networkSubnet, hnet]; exact hsubnet
        simpa [hsubnet] using connectSwitch_throws hnone u clean s
      | some p =>
        obtain ⟨hok, herror⟩ := connectSwitch_chain hchain hnet hsubnet u clean s
        cases hend : (hops ms).2 with
        | true => simpa [hsubnet] using hok hend
        | false => simpa [hsubnet] using herror hend
  | false =>
    rw [if_neg (by decide), if_neg (by decide)]
    obtain ⟨hok, herror⟩ := connectClient_chain hchain u clean s
    cases hp : uplinkSubnet ms with
    | none => simpa using herror hp
    | some p => simpa using hok p hp

/-- What `connect` does, and whether it returns. -/
def connectDeeds (name : String) (m : Object) (ms : List Object) : List Action × Bool :=
  match uplinkName m with
  | none => ([], false)
  | some u =>
    (.system (here (.linkSetNetns (nd name) u)) :: (connectedDeeds name u m ms).1,
      (connectedDeeds name u m ms).2)

/-- **`connect`** does what `connectDeeds` says, and remembers what undoes it. -/
theorem connect_chain (hchain : Ascent tree entity (m :: ms)) (s : State) :
    ((connectDeeds name m ms).2 = true → connect allOk name (.object (nest (m :: ms))) s =
      .ok () (s.connected name (connectDeeds name m ms).1)) ∧
    ((connectDeeds name m ms).2 = false → ∃ f, connect allOk name (.object (nest (m :: ms))) s =
      .error f (s.did (connectDeeds name m ms).1)) := by
  unfold connect connectDeeds
  cases hu : uplinkName m with
  | none =>
    refine ⟨?_, ?_⟩
    · intro h
      cases h
    · intro _
      obtain ⟨f, hf⟩ := getText_uplinkName_none hchain hu
      exact ⟨f, by rw [bind_of_error (lift_of_error hf), State.did_nil]⟩
  | some u =>
    rw [bind_of_ok (lift_of_ok (getText_uplinkName hchain hu)),
      bind_of_ok (annotatedSystem_allOk _ s), bind_of_ok (lift_of_ok subscript_role)]
    obtain ⟨hok, herror⟩ := connectAs_chain hchain u
      [.system (inside u (.linkSetNetns (nd name) name))]
      (s.did [.system (here (.linkSetNetns (nd name) u))])
    refine ⟨?_, ?_⟩
    · intro h
      rw [bind_of_ok (hok h), State.did_did]
      rfl
    · intro h
      obtain ⟨f, hf⟩ := herror h
      exact ⟨f, by rw [bind_of_error hf, State.did_did]; rfl⟩

/-! ### Adding a network -/

/-- How the process gets into its namespace. -/
def entering (name : String) (m : Object) : List Action :=
  let external := (m.find "external").getD .null
  let default := (m.find "default").getD .null
  if external.isBoolean && external.eqBoolean true then [.openFile (netnsPath name), .setns]
  else if !default.isBoolean || default.eqBoolean false then [.unshare]
  else []

/-- How it mounts it. -/
def mounting (name : String) : List Action :=
  [.createDirectories "/var/run/netns", .umount (netnsPath (netnsName name)),
    .openFile (netnsPath (netnsName name)), .mount (netnsPath (netnsName name))]

/-- Its pair of links. -/
def pairing (name : String) : List Action :=
  [.system (here (.linkAddVeth (nu name) (nd name))), .system (here (.linkSetUp (nu name)))]

/-- Its bridge. -/
def bridging (name : String) : List Action :=
  [.system (here (.linkAddBridge (nb name))), .system (here (.linkSetUp (nb name))),
    .system (here (.linkSetMaster (nu name) (nb name)))]

/-- The links that belong to a role. -/
def linking (name : String) : NetworkRole → List Action
  | .root | .interface => []
  | .router | .client => pairing name
  | .switch => pairing name ++ bridging name

/-- What is done to connect to the uplink, and whether the role has been set up then. -/
def connecting (name : String) (m : Object) (ms : List Object) : NetworkRole → List Action × Bool
  | .root => ([], true)
  | .interface | .router => ([], false)
  | .switch | .client => connectDeeds name m ms

theorem subscript_nest {key : String} (hname : key ≠ ":uplink-name") (huplink : key ≠ "uplink") :
    (Json.object (nest (m :: ms))).subscript key = .ok ((m.find key).getD .null) := by
  rw [Json.subscript, find_nest hname huplink]

theorem enterNamespace_allOk (hexternal : m.find "external_name" = none) (s : State) :
    enterNamespace allOk name (.object (nest (m :: ms))) s = .ok () (s.did (entering name m)) := by
  have hpath : externalPath name (.object (nest (m :: ms))) = .ok (netnsPath name) := by
    rw [externalPath, Json.find_object, find_nest (by decide) (by decide), hexternal]
  unfold enterNamespace entering
  rw [bind_of_ok (lift_of_ok (subscript_nest (by decide) (by decide))),
    bind_of_ok (lift_of_ok (subscript_nest (by decide) (by decide)))]
  dsimp only
  split_ifs
  · rw [bind_of_ok (lift_of_ok hpath)]
    show EStateM.Result.ok () ((s.did _).did _) = _
    rw [State.did_did]
    rfl
  · rfl
  · rw [State.did_nil]
    rfl

theorem mountNamespace_allOk (s : State) :
    mountNamespace allOk name s = .ok () (s.setUp name (mounting name)) := by
  unfold mountNamespace
  rw [bind_of_ok (require_allOk ..), bind_of_ok (perform_allOk ..), bind_of_ok (require_allOk ..),
    bind_of_ok (require_allOk ..)]
  simp only [State.did_did]
  rfl

theorem setupInterfaces_allOk (s : State) :
    setupInterfaces allOk name s = .ok () (s.setUp name (pairing name)) := by
  unfold setupInterfaces
  rw [bind_of_ok (annotatedSystem_allOk ..), bind_of_ok (annotatedSystem_allOk ..), State.did_did]
  rfl

theorem setupBridge_allOk (s : State) :
    setupBridge allOk name s = .ok () (s.setUp name (bridging name)) := by
  unfold setupBridge
  rw [bind_of_ok (annotatedSystem_allOk ..), bind_of_ok (annotatedSystem_allOk ..),
    bind_of_ok (annotatedSystem_allOk ..)]
  simp only [State.did_did]
  rfl

/-- **The part for a role.** -/
theorem setupRole_chain (hchain : Ascent tree entity (m :: ms)) (r : NetworkRole) (s : State) :
    ((connecting name m ms r).2 = true →
      setupRole allOk name (.object (nest (m :: ms))) r s =
        .ok () ((s.setUp name (linking name r)).connected name (connecting name m ms r).1)) ∧
    ((connecting name m ms r).2 = false →
      ∃ f t, setupRole allOk name (.object (nest (m :: ms))) r s = .error f t ∧
        t.actions = s.actions ++ linking name r ++ (connecting name m ms r).1) := by
  have hconnect : ∀ s : State,
      ((connectDeeds name m ms).2 = false →
        ∃ f t, connect allOk name (.object (nest (m :: ms))) s = .error f t ∧
          t.actions = s.actions ++ (connectDeeds name m ms).1) := by
    intro s h
    obtain ⟨f, hf⟩ := (connect_chain hchain s).2 h
    exact ⟨f, _, hf, rfl⟩
  cases r with
  | root =>
    refine ⟨?_, fun h => by cases h⟩
    intro _
    rw [linking, connecting, State.setUp_nil, State.connected_nil]
    rfl
  | interface =>
    refine ⟨fun h => (by cases h), ?_⟩
    intro _
    exact ⟨_, s, rfl, by simp [linking, connecting]⟩
  | router =>
    refine ⟨fun h => (by cases h), ?_⟩
    intro _
    rw [setupRole, bind_of_ok (setupInterfaces_allOk s)]
    exact ⟨_, _, rfl, by simp [linking, connecting]⟩
  | switch =>
    rw [setupRole, bind_of_ok (setupInterfaces_allOk s), bind_of_ok (setupBridge_allOk _),
      State.setUp_setUp]
    exact ⟨(connect_chain hchain _).1, hconnect _⟩
  | client =>
    rw [setupRole, bind_of_ok (setupInterfaces_allOk s)]
    exact ⟨(connect_chain hchain _).1, hconnect _⟩

theorem mem_entering {a : Action} (h : a ∈ entering name m) :
    a = .openFile (netnsPath name) ∨ a = .setns ∨ a = .unshare := by
  unfold entering at h
  dsimp only at h
  split_ifs at h
  · simp only [List.mem_cons, List.not_mem_nil, or_false] at h
    rcases h with h | h
    · exact Or.inl h
    · exact Or.inr (Or.inl h)
  · exact Or.inr (Or.inr (List.mem_singleton.mp h))
  · cases h

/-- No command is run before the namespace is mounted. -/
theorem system_notMem_before {c : Command} : .system c ∉ entering name m ++ mounting name := by
  intro h
  rcases List.mem_append.mp h with h | h
  · rcases mem_entering h with h | h | h <;> cases h
  · simp [mounting] at h

/-- Nothing undoes the way into the namespace. -/
theorem filterMap_undo_entering : (entering name m).filterMap (Action.undo name) = [] := by
  unfold entering
  dsimp only
  split_ifs <;> rfl

theorem did_entering (s : State) : s.did (entering name m) = s.setUp name (entering name m) := by
  rw [State.setUp, filterMap_undo_entering, List.append_nil]
  rfl

theorem NetworkOk.external_name (h : Config.NetworkOk tree m) : m.find "external_name" = none := by
  rw [OrdMap.find_eq_none_iff]
  intro hmem
  rcases h.keys _ hmem with hcolon | hknown
  · exact absurd hcolon (by decide)
  · exact absurd hknown (by decide)

/-- What is done before the connection to the uplink. -/
def preparing (name : String) (m : Object) (r : NetworkRole) : List Action :=
  entering name m ++ mounting name ++ linking name r

/-- **`add_network`** on the component of a chain, where everything succeeds. -/
theorem addNetwork_chain {role : String} {r : NetworkRole} (hchain : Ascent tree entity (m :: ms))
    (hrole : m.find "role" = some (.string role)) (hr : knownNetworkRoles role = some r)
    (hexternal : m.find "external_name" = none) (s : State) :
    ((connecting name m ms r).2 = true →
      addNetwork allOk name (.object (nest (m :: ms))) s =
        .ok () (({ s with currentComponent := some (.object (nest (m :: ms))) }.setUp name
          (preparing name m r)).connected name (connecting name m ms r).1)) ∧
    ((connecting name m ms r).2 = false →
      ∃ what t, addNetwork allOk name (.object (nest (m :: ms))) s = .error (.assertion what) t ∧
        t.actions = s.actions ++ preparing name m r ++ (connecting name m ms r).1) := by
  have htext : getText (.object (nest (m :: ms))) "role" = .ok role := by
    apply getText_of_text
    rw [Config.text_of_find_eq (find_nest (by decide) (by decide))]
    exact Config.text_eq_some_iff.mpr hrole
  have hbody : addNetworkBody allOk name (.object (nest (m :: ms))) s =
      setupRole allOk name (.object (nest (m :: ms))) r
        ({ s with currentComponent := some (.object (nest (m :: ms))) }.setUp name
          (entering name m ++ mounting name)) := by
    unfold addNetworkBody
    rw [bind_of_ok (lift_of_ok htext), hr]
    dsimp only
    rw [bind_of_ok (show emplaceComponent _ s = .ok () _ from rfl),
      bind_of_ok (enterNamespace_allOk hexternal _), bind_of_ok (mountNamespace_allOk _),
      did_entering, State.setUp_setUp]
  unfold addNetwork
  rw [hbody]
  obtain ⟨hok, herror⟩ := setupRole_chain hchain r
    ({ s with currentComponent := some (.object (nest (m :: ms))) }.setUp name
      (entering name m ++ mounting name))
  refine ⟨?_, ?_⟩
  · intro h
    rw [hok h, State.setUp_setUp]
    rfl
  · intro h
    obtain ⟨f, t, hf, ht⟩ := herror h
    rw [hf]
    have ht : t.actions = s.actions ++ preparing name m r ++ (connecting name m ms r).1 := by
      rw [ht, State.setUp_actions, preparing, List.append_assoc s.actions]
    cases f with
    | exception what => exact ⟨_, _, rfl, ht⟩
    | assertion what => exact ⟨_, _, rfl, ht⟩

/-! ### Behind the mount there are commands only -/

theorem linking_system {r : NetworkRole} {a : Action} (h : a ∈ linking name r) :
    ∃ c, a = .system c := by
  cases r <;> simp [linking, pairing, bridging] at h <;>
    rcases h with rfl | rfl | rfl | rfl | rfl <;> exact ⟨_, rfl⟩

theorem switchDeeds_system {u p : String} {hs : List (String × String)} {a : Action}
    (h : a ∈ switchDeeds name u net p hs) : ∃ c, a = .system c := by
  rcases List.mem_cons.mp h with rfl | h
  · exact ⟨_, rfl⟩
  · obtain ⟨hop, -, rfl⟩ := List.mem_map.mp h
    exact ⟨_, rfl⟩

theorem connectedDeeds_system {u : String} {a : Action} (h : a ∈ (connectedDeeds name u m ms).1) :
    ∃ c, a = .system c := by
  unfold connectedDeeds at h
  split at h
  · split at h
    · cases h
    · split at h
      · cases h
      · split at h
        · rcases List.mem_append.mp h with h | h
          · exact switchDeeds_system h
          · simp only [switchEnd, List.mem_cons, List.not_mem_nil, or_false] at h
            rcases h with rfl | rfl | rfl <;> exact ⟨_, rfl⟩
        · exact switchDeeds_system h
  · split at h
    · rw [List.mem_singleton.mp h]
      exact ⟨_, rfl⟩
    · simp only [clientDeeds, List.mem_cons, List.not_mem_nil, or_false] at h
      rcases h with rfl | rfl | rfl | rfl <;> exact ⟨_, rfl⟩

theorem connecting_system {r : NetworkRole} {a : Action} (h : a ∈ (connecting name m ms r).1) :
    ∃ c, a = .system c := by
  have hconnect : a ∈ (connectDeeds name m ms).1 → ∃ c, a = .system c := by
    intro h
    unfold connectDeeds at h
    split at h
    · cases h
    · rcases List.mem_cons.mp h with rfl | h
      · exact ⟨_, rfl⟩
      · exact connectedDeeds_system h
  cases r with
  | root | interface | router => cases h
  | switch | client => exact hconnect h

/-! ### The end -/

variable {ok : ℕ → Bool}

theorem runCleanup_eq (l : List Action) (p : State) :
    runCleanup ok l p = .ok () (p.did l.reverse) := by
  induction l generalizing p with
  | nil =>
    rw [List.reverse_nil, State.did_nil]
    rfl
  | cons a l ih =>
    rw [runCleanup, bind_of_ok (ih p), List.reverse_cons, ← State.did_did]
    rfl

/-- What the process does at its end. -/
theorem shutdown_eq (p : State) : shutdown ok p =
    .ok () { p.did (p.connectionCleanups.reverse ++ p.cleanups.reverse) with
      cleanups := [], connectionCleanups := [] } := by
  unfold shutdown
  rw [bind_of_ok (show (get : Proc State) p = .ok p p from rfl), bind_of_ok (runCleanup_eq _ p)]
  show (runCleanup ok p.cleanups >>= fun _ =>
    (modify fun s => { s with cleanups := [] } : Proc Unit))
      { p.did p.connectionCleanups.reverse with connectionCleanups := [] } = _
  rw [bind_of_ok (runCleanup_eq _ _), ← State.did_did]
  rfl

theorem lifetime_of_ok {component : Json} {p : State}
    (h : addNetwork ok name component .initial = .ok () p) :
    (lifetime ok name component).actions =
      p.actions ++ (p.connectionCleanups.reverse ++ p.cleanups.reverse) := by
  rw [lifetime_eq, h]
  show (finalState (shutdown ok p)).actions = _
  rw [shutdown_eq]
  rfl

theorem lifetime_of_error {component : Json} {f : Fault} {p : State}
    (h : addNetwork ok name component .initial = .error f p) : lifetime ok name component = p := by
  rw [lifetime_eq, h]

end Entityd

end Nonsense
