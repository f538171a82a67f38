import Nonsense.Entityd.Net
import Nonsense.Entityd.Runnable

/-!
# Shutting down

`shutdown` runs what `add_network` has remembered, the last thing first, and that is what
undoes each of its actions (`shutdown_undoes`).  What comes of it in the network is
shown by three relations, one for each part of `add_network`: `SameOutside` before the
namespace is mounted, `SameMounted` until the link is moved to the uplink, and `Apart`
behind that.  The last says nothing about the link itself but where it is: what is
changed at it while it is away is lost when it is moved back.
-/

namespace Nonsense

namespace Entityd

variable {ν : Type} [DecidableEq ν] {own far ns : ν} {name u link : String} {s s' t t' : Net ν}

/-! ### The relations -/

/-- Nothing differs outside of the namespace `own`. -/
def SameOutside (own : ν) (s t : Net ν) : Prop :=
  ∀ ns ≠ own, s.links ns = t.links ns ∧ s.routes ns = t.routes ns

/-- Nor in what is mounted; and the own namespace is. -/
structure SameMounted (own : ν) (name : String) (s t : Net ν) : Prop where
  home : s.mounts (netnsPath (netnsName name)) = some own
  mounts : s.mounts = t.mounts
  outside : SameOutside own s t

/-- The link has been moved to the namespace `far` of `u`, and may differ there. -/
structure Apart (own far : ν) (name u : String) (s t : Net ν) : Prop where
  home : s.mounts (netnsPath (netnsName name)) = some own
  away : s.mounts (netnsPath (netnsName u)) = some far
  mounts : s.mounts = t.mounts
  routes : ∀ ns ≠ own, s.routes ns = t.routes ns
  links : ∀ ns ≠ own, ∀ l, ¬ (ns = far ∧ l = nd name) → s.links ns l = t.links ns l
  own_link : (s.links own (nd name)).isSome = (t.links own (nd name)).isSome
  far_link : (s.links far (nd name)).isSome = (t.links far (nd name)).isSome

/-! ### Changing a link -/

/-- A link that is changed stays where it is. -/
theorem Net.Adjusted.isSome_links (h : Net.Adjusted ns link s s') (ns' : ν) (l : String) :
    (s'.links ns' l).isSome = (s.links ns' l).isSome := by
  obtain ⟨x, y, hx, rfl⟩ := h
  rw [Net.setLink_links]
  split
  · rename_i heq
    obtain ⟨rfl, rfl⟩ := heq
    rw [hx]
    rfl
  · rfl

theorem Net.Adjusted.links_ne (h : Net.Adjusted ns link s s') {ns' : ν} {l : String}
    (hne : ¬ (ns' = ns ∧ l = link)) : s'.links ns' l = s.links ns' l := by
  obtain ⟨x, y, hx, rfl⟩ := h
  rw [Net.setLink_links, if_neg hne]

theorem Net.Adjusted.mounts (h : Net.Adjusted ns link s s') : s'.mounts = s.mounts := by
  obtain ⟨x, y, hx, rfl⟩ := h
  rfl

theorem Net.Adjusted.routes (h : Net.Adjusted ns link s s') : s'.routes = s.routes := by
  obtain ⟨x, y, hx, rfl⟩ := h
  rfl

/-- What is changed in the own namespace, or at the link that is away, is not looked at. -/
theorem Net.Adjusted.links_apart (h : Net.Adjusted ns link s s')
    (hwhere : ns = own ∨ (ns = far ∧ link = nd name)) {ns' : ν} (hns : ns' ≠ own) {l : String}
    (hl : ¬ (ns' = far ∧ l = nd name)) : s'.links ns' l = s.links ns' l := by
  apply h.links_ne
  rintro ⟨rfl, rfl⟩
  rcases hwhere with hown | hfar
  · exact hns hown
  · exact hl hfar

theorem Apart.adjusted_left (h : Apart own far name u s' t) (hs : Net.Adjusted ns link s s')
    (hwhere : ns = own ∨ (ns = far ∧ link = nd name)) : Apart own far name u s t where
  home := hs.mounts ▸ h.home
  away := hs.mounts ▸ h.away
  mounts := hs.mounts ▸ h.mounts
  routes := hs.routes ▸ h.routes
  links := fun ns' hns l hl => (hs.links_apart hwhere hns hl).symm.trans (h.links ns' hns l hl)
  own_link := (hs.isSome_links ..).symm.trans h.own_link
  far_link := (hs.isSome_links ..).symm.trans h.far_link

theorem Apart.adjusted_right (h : Apart own far name u s t) (ht : Net.Adjusted ns link t t')
    (hwhere : ns = own ∨ (ns = far ∧ link = nd name)) : Apart own far name u s t' where
  home := h.home
  away := h.away
  mounts := h.mounts.trans ht.mounts.symm
  routes := ht.routes ▸ h.routes
  links := fun ns' hns l hl => (h.links ns' hns l hl).trans (ht.links_apart hwhere hns hl).symm
  own_link := h.own_link.trans (ht.isSome_links ..).symm
  far_link := h.far_link.trans (ht.isSome_links ..).symm

/-! ### Behind the move of the link -/

/-- An action behind the move: it changes a link of the own namespace or the one that is
away, or it adds a route. -/
inductive Tidy (name u : String) : Action → Prop
  | adjust {netns : Option String} {c : Ip} {link : String} : c.adjusts = some link →
      (netns = none ∨ (netns = some u ∧ link = nd name)) → Tidy name u (.system ⟨netns, c⟩)
  | route {netns : Option String} {network gateway : String} :
      Tidy name u (.system ⟨netns, .routeAdd network gateway⟩)

/-- What undoes a change changes the same link. -/
theorem undo_adjusts (name : String) (netns : Option String) {c : Ip} (hc : c.adjusts = some link) :
    Action.undo name (.system ⟨netns, c⟩) = none ∨
      ∃ c', c'.adjusts = some link ∧
        Action.undo name (.system ⟨netns, c⟩) = some (.system ⟨netns, c'⟩) := by
  cases c with
  | linkSetUp link =>
    cases netns with
    | none => exact Or.inl rfl
    | some entity => exact Or.inr ⟨.linkSetDown link, hc, rfl⟩
  | addrAdd address link => exact Or.inr ⟨.addrDel address link, hc, rfl⟩
  | linkSetDown | linkSetMaster | addrDel => exact Or.inl rfl
  | _ => cases hc

theorem apply_system_eq_some {c : Command} (h : (tidying own name).apply (.system c) s = some s') :
    ∃ ns, s.namespaceOf own c.netns = some ns ∧ s.ip ns c.ip = some s' :=
  Option.bind_eq_some_iff.mp h

omit [DecidableEq ν] in
theorem where_of_namespaceOf {netns : Option String} (hs : s.namespaceOf own netns = some ns)
    (haway : s.mounts (netnsPath (netnsName u)) = some far)
    (hwhere : netns = none ∨ (netns = some u ∧ link = nd name)) :
    ns = own ∨ (ns = far ∧ link = nd name) := by
  rcases hwhere with rfl | ⟨rfl, hlink⟩
  · cases hs
    exact Or.inl rfl
  · rw [Net.namespaceOf, haway] at hs
    cases hs
    exact Or.inr ⟨rfl, hlink⟩

theorem Tidy.undoes_adjust {netns : Option String} {c : Ip} (hc : c.adjusts = some link)
    (hwhere : netns = none ∨ (netns = some u ∧ link = nd name)) :
    (tidying own name).Undoes (Apart own far name u) (Apart own far name u)
      (.system ⟨netns, c⟩) := by
  have hleft : ∀ s s' t : Net ν, (tidying own name).apply (.system ⟨netns, c⟩) s = some s' →
      Apart own far name u s' t → Apart own far name u s t := by
    intro s s' t happly h
    obtain ⟨ns, hns, hip⟩ := apply_system_eq_some happly
    have hadjusted := Net.adjusted_of_ip hc hip
    exact h.adjusted_left hadjusted (where_of_namespaceOf hns (hadjusted.mounts ▸ h.away) hwhere)
  rcases undo_adjusts name netns hc with hundo | ⟨c', hc', hundo⟩
  · exact Undoable.Undoes.of_none hundo hleft
  · refine Undoable.Undoes.of_some hundo ?_
    intro s s' t happly h
    apply Undoable.attempt_keeps (hleft s s' t happly h)
    intro t' hback
    obtain ⟨ns, hns, hip⟩ := apply_system_eq_some hback
    have h := hleft s s' t happly h
    exact h.adjusted_right (Net.adjusted_of_ip hc' hip)
      (where_of_namespaceOf hns (h.mounts ▸ h.away) hwhere)

omit [DecidableEq ν] in
/-- Routes do not move links. -/
theorem Apart.of_routes (h : Apart own far name u s' t) (hmounts : s'.mounts = s.mounts)
    (hlinks : s'.links = s.links) (htmounts : t'.mounts = t.mounts) (htlinks : t'.links = t.links)
    (hroutes : ∀ ns ≠ own, s.routes ns = t'.routes ns) : Apart own far name u s t' where
  home := hmounts ▸ h.home
  away := hmounts ▸ h.away
  mounts := hmounts ▸ htmounts ▸ h.mounts
  routes := hroutes
  links := hlinks ▸ htlinks ▸ h.links
  own_link := hlinks ▸ htlinks ▸ h.own_link
  far_link := hlinks ▸ htlinks ▸ h.far_link

theorem apply_routeDel {netns : Option String} {network gateway : String}
    (hns : t.namespaceOf own netns = some ns) (hthere : t.routes ns network = some gateway) :
    (tidying own name).apply (.system ⟨netns, .routeDel network⟩) t =
      some (t.setRoute ns network none) := by
  show (t.namespaceOf own netns).bind (fun ns => t.ip ns (.routeDel network)) = _
  rw [hns, Option.bind_some, Net.ip, hthere]
  rfl

theorem Net.ip_routeAdd {network gateway : String} (h : s.ip ns (.routeAdd network gateway) = some s') :
    s.routes ns network = none ∧ s' = s.setRoute ns network (some gateway) := by
  rw [Net.ip] at h
  split at h
  · rename_i hnone
    cases h
    exact ⟨Option.isNone_iff_eq_none.mp hnone, rfl⟩
  · cases h

/-- A route of the own namespace is not looked at. -/
theorem Apart.attempt_routeDel {netns : Option String} {network : String}
    (h : Apart own far name u s t) (hns : t.namespaceOf own netns = some own) :
    Apart own far name u s
      ((tidying own name).attempt t (.system ⟨netns, .routeDel network⟩)) := by
  apply Undoable.attempt_keeps h
  intro t' happly
  obtain ⟨ns, hns', hip⟩ := apply_system_eq_some happly
  rw [hns] at hns'
  cases hns'
  obtain ⟨hmounts, hframe⟩ := Net.ip_frame rfl hip
  rw [Net.ip] at hip
  split at hip
  · cases hip
    exact h.of_routes rfl rfl rfl rfl fun ns' hne => (h.routes ns' hne).trans (hframe ns' hne).2.symm
  · cases hip

theorem Tidy.undoes_route {netns : Option String} {network gateway : String} :
    (tidying own name).Undoes (Apart own far name u) (Apart own far name u)
      (.system ⟨netns, .routeAdd network gateway⟩) := by
  have hundo : Action.undo name (.system ⟨netns, .routeAdd network gateway⟩) =
      some (.system ⟨netns, .routeDel network⟩) := rfl
  refine Undoable.Undoes.of_some hundo ?_
  intro s s' t happly h
  obtain ⟨ns, hns, hip⟩ := apply_system_eq_some happly
  obtain ⟨hnone, rfl⟩ := Net.ip_routeAdd hip
  have hback : t.namespaceOf own netns = some ns := by
    rw [← hns]
    unfold Net.namespaceOf
    rw [← h.mounts]
    rfl
  by_cases hown : ns = own
  · subst hown
    refine Apart.attempt_routeDel (h.of_routes rfl rfl rfl rfl fun ns' hne => ?_) hback
    rw [← h.routes ns' hne]
    exact (Function.update_of_ne hne _ _).symm
  · have hthere : t.routes ns network = some gateway := by
      rw [← h.routes ns hown, Net.setRoute_routes, if_pos ⟨rfl, rfl⟩]
    rw [Undoable.attempt_of_some (apply_routeDel hback hthere)]
    refine h.of_routes rfl rfl rfl rfl fun ns' hne => ?_
    funext network'
    rw [Net.setRoute_routes, ← h.routes ns' hne, Net.setRoute_routes]
    split
    · rename_i heq
      rw [heq.1, heq.2, hnone]
    · rfl

/-- **Behind the move** every action is undone, but for what the link looks like. -/
theorem Tidy.undoes {a : Action} (h : Tidy name u a) :
    (tidying own name).Undoes (Apart own far name u) (Apart own far name u) a := by
  cases h with
  | adjust hc hwhere => exact undoes_adjust hc hwhere
  | route => exact undoes_route

/-! ### The move -/

/-- What a move to another namespace does. -/
theorem ip_linkSetNetns {entity : String} (h : s.ip ns (.linkSetNetns link entity) = some s') :
    ∃ far, s.mounts (netnsPath (netnsName entity)) = some far ∧ (s.links ns link).isSome ∧
      ((far = ns ∧ s' = s) ∨ (far ≠ ns ∧ s.links far link = none ∧
        s' = (s.setLink ns link none).setLink far link (some .fresh))) := by
  rw [Net.ip] at h
  split at h
  swap
  · cases h
  rename_i hlink
  split at h
  · cases h
  · rename_i far hfar
    refine ⟨far, hfar, hlink, ?_⟩
    split at h
    · rename_i heq
      cases h
      exact Or.inl ⟨heq, rfl⟩
    · rename_i hne
      split at h
      · rename_i hnone
        cases h
        exact Or.inr ⟨hne, Option.isNone_iff_eq_none.mp hnone, rfl⟩
      · cases h

/-- The move back from another namespace. -/
theorem apply_moveBack (haway : t.mounts (netnsPath (netnsName u)) = some far)
    (hhome : t.mounts (netnsPath (netnsName name)) = some own) (hne : far ≠ own)
    (hthere : (t.links far (nd name)).isSome) (hgone : (t.links own (nd name)).isNone) :
    (tidying own name).apply (.system (inside u (.linkSetNetns (nd name) name))) t =
      some ((t.setLink far (nd name) none).setLink own (nd name) (some .fresh)) := by
  have hback : t.namespaceOf own (some u) = some far := haway
  show (t.namespaceOf own (some u)).bind (fun ns => t.ip ns (.linkSetNetns (nd name) name)) = _
  rw [hback, Option.bind_some, Net.ip, if_pos hthere, hhome]
  dsimp only
  rw [if_neg hne.symm, if_pos hgone]

/-- The move back where the uplink is in the same namespace. -/
theorem apply_moveBack_self (haway : t.mounts (netnsPath (netnsName u)) = some own)
    (hhome : t.mounts (netnsPath (netnsName name)) = some own)
    (h : (tidying own name).apply (.system (inside u (.linkSetNetns (nd name) name))) t = some t') :
    t' = t := by
  obtain ⟨ns, hns, hip⟩ := apply_system_eq_some h
  have hback : t.namespaceOf own (some u) = some ns := hns
  obtain rfl := Option.some.inj (haway.symm.trans hback)
  obtain ⟨own', hown', -, hmove⟩ := ip_linkSetNetns hip
  obtain rfl := Option.some.inj (hhome.symm.trans hown')
  rcases hmove with ⟨-, rfl⟩ | ⟨hne, -⟩
  · rfl
  · exact absurd rfl hne

/-- **Moving the link back** loses what it was given while it was away. -/
theorem undoes_move : (tidying own name).Undoes (SameMounted own name) (Apart own far name u)
    (.system (here (.linkSetNetns (nd name) u))) := by
  have hundo : Action.undo name (.system (here (.linkSetNetns (nd name) u))) =
      some (.system (inside u (.linkSetNetns (nd name) name))) := rfl
  refine Undoable.Undoes.of_some hundo ?_
  intro s s' t happly h
  obtain ⟨ns, hns, hip⟩ := apply_system_eq_some happly
  cases hns
  obtain ⟨far', hfar', hlink, hmove⟩ := ip_linkSetNetns hip
  have hmounts : s'.mounts = s.mounts := Net.ip_mounts hip
  obtain rfl := Option.some.inj (hfar'.symm.trans (hmounts ▸ h.away))
  have haway := h.mounts ▸ h.away
  have hhome := h.mounts ▸ h.home
  rcases hmove with ⟨rfl, rfl⟩ | ⟨hne, hnone, rfl⟩
  · -- the uplink is in the same namespace
    have hsame : SameMounted far' name s' t := by
      refine ⟨h.home, h.mounts, fun ns hns => ⟨?_, h.routes ns hns⟩⟩
      funext l
      exact h.links ns hns l fun hc => hns hc.1
    apply Undoable.attempt_keeps hsame
    intro t' happly
    rwa [apply_moveBack_self haway hhome happly]
  · have hthere : (t.links far' (nd name)).isSome := by
      rw [← h.far_link, Net.setLink_links, if_pos ⟨rfl, rfl⟩]
      rfl
    have hgone : (t.links own (nd name)).isNone := by
      rw [← Option.not_isSome, ← h.own_link, Net.setLink_links, if_neg fun hc => hne hc.1.symm,
        Net.setLink_links, if_pos ⟨rfl, rfl⟩]
      rfl
    rw [Undoable.attempt_of_some (apply_moveBack haway hhome hne hthere hgone)]
    refine ⟨hmounts ▸ h.home, hmounts ▸ h.mounts, fun ns hns => ⟨?_, h.routes ns hns⟩⟩
    funext l
    rw [Net.setLink_links, if_neg fun hc => hns hc.1, Net.setLink_links]
    split
    · rename_i heq
      rw [heq.1, heq.2]
      exact hnone
    · rename_i hother
      rw [← h.links ns hns l hother, Net.setLink_links, if_neg hother, Net.setLink_links,
        if_neg fun hc => hns hc.1]

/-! ### Before the move -/

/-- What undoes a command that moves nothing moves nothing. -/
theorem undo_isMove (name : String) {c : Ip} (hc : c.isMove = false) :
    Action.undo name (.system ⟨none, c⟩) = none ∨
      ∃ c', c'.isMove = false ∧ Action.undo name (.system ⟨none, c⟩) = some (.system ⟨none, c'⟩) := by
  cases c with
  | linkAddVeth link peer => exact Or.inr ⟨.linkDel link, rfl, rfl⟩
  | linkAddBridge link => exact Or.inr ⟨.linkDel link, rfl, rfl⟩
  | addrAdd address link => exact Or.inr ⟨.addrDel address link, rfl, rfl⟩
  | routeAdd network gateway => exact Or.inr ⟨.routeDel network, rfl, rfl⟩
  | linkSetNetns => cases hc
  | _ => exact Or.inl rfl

/-- **In the own namespace** nothing is seen outside. -/
theorem undoes_own {c : Ip} (hc : c.isMove = false) :
    (tidying own name).Undoes (SameMounted own name) (SameMounted own name)
      (.system ⟨none, c⟩) := by
  have hframe : ∀ (c : Ip) (s s' : Net ν), c.isMove = false →
      (tidying own name).apply (.system ⟨none, c⟩) s = some s' →
      s'.mounts = s.mounts ∧ SameOutside own s' s := by
    intro c s s' hc happly
    obtain ⟨ns, hns, hip⟩ := apply_system_eq_some happly
    cases hns
    exact Net.ip_frame hc hip
  have hleft : ∀ s s' t : Net ν, (tidying own name).apply (.system ⟨none, c⟩) s = some s' →
      SameMounted own name s' t → SameMounted own name s t := by
    intro s s' t happly h
    obtain ⟨hmounts, hout⟩ := hframe c s s' hc happly
    refine ⟨hmounts ▸ h.home, hmounts ▸ h.mounts, fun ns hns => ⟨?_, ?_⟩⟩
    · rw [← (hout ns hns).1, (h.outside ns hns).1]
    · rw [← (hout ns hns).2, (h.outside ns hns).2]
  rcases undo_isMove name hc with hundo | ⟨c', hc', hundo⟩
  · exact Undoable.Undoes.of_none hundo hleft
  · refine Undoable.Undoes.of_some hundo ?_
    intro s s' t happly h
    have h := hleft s s' t happly h
    apply Undoable.attempt_keeps h
    intro t' hback
    obtain ⟨hmounts, hout⟩ := hframe c' t t' hc' hback
    refine ⟨h.home, h.mounts.trans hmounts.symm, fun ns hns => ⟨?_, ?_⟩⟩
    · rw [(hout ns hns).1, (h.outside ns hns).1]
    · rw [(hout ns hns).2, (h.outside ns hns).2]

theorem undoes_mount : (tidying own name).Undoes (SameOutside own) (SameMounted own name)
    (.mount (netnsPath (netnsName name))) := by
  have hundo : Action.undo name (.mount (netnsPath (netnsName name))) =
      some (.umount (netnsPath (netnsName name))) := rfl
  refine Undoable.Undoes.of_some hundo ?_
  intro s s' t happly h
  cases happly
  exact h.outside

/-- What comes before the mount is not seen in any namespace. -/
theorem undoes_before {a : Action} (hsystem : ∀ c, a ≠ .system c) (hmount : ∀ path, a ≠ .mount path) :
    (tidying own name).Undoes (SameOutside own) (SameOutside own) a := by
  have hundo : Action.undo name a = none := by
    cases a with
    | system c => exact absurd rfl (hsystem c)
    | mount path => exact absurd rfl (hmount path)
    | _ => rfl
  refine Undoable.Undoes.of_none hundo ?_
  intro s s' t happly h
  cases a with
  | system c => exact absurd rfl (hsystem c)
  | mount path => exact absurd rfl (hmount path)
  | _ => cases happly; exact h

/-! ### The whole -/

open Config (isSwitch)

variable {m : Object} {ms : List Object} {r : NetworkRole}

theorem linking_own {a : Action} (h : a ∈ linking name r) :
    ∃ c : Ip, c.isMove = false ∧ a = .system ⟨none, c⟩ := by
  cases r <;> simp [linking, pairing, bridging] at h <;>
    rcases h with rfl | rfl | rfl | rfl | rfl <;> exact ⟨_, rfl, rfl⟩

theorem connectedDeeds_tidy {a : Action} (hend : (connectedDeeds name u m ms).2 = true)
    (h : a ∈ (connectedDeeds name u m ms).1) : Tidy name u a := by
  unfold connectedDeeds at h hend
  split at h
  · split at h
    · cases h
    · split at h
      · cases h
      · split at h
        · rcases List.mem_append.mp h with h | h
          · rcases List.mem_cons.mp h with rfl | h
            · exact .adjust rfl (Or.inr ⟨rfl, rfl⟩)
            · obtain ⟨hop, -, rfl⟩ := List.mem_map.mp h
              exact .route
          · simp only [switchEnd, List.mem_cons, List.not_mem_nil, or_false] at h
            rcases h with rfl | rfl | rfl
            · exact .adjust rfl (Or.inr ⟨rfl, rfl⟩)
            · exact .adjust rfl (Or.inl rfl)
            · exact .route
        · rename_i hno
          simp_all
  · split at h
    · simp_all
    · simp only [clientDeeds, List.mem_cons, List.not_mem_nil, or_false] at h
      rcases h with rfl | rfl | rfl | rfl
      · exact .adjust rfl (Or.inr ⟨rfl, rfl⟩)
      · exact .adjust rfl (Or.inr ⟨rfl, rfl⟩)
      · exact .adjust rfl (Or.inl rfl)
      · exact .route

/-- **What is done to connect**, where it comes to its end: nothing for a root, and else
the move and what is behind it. -/
theorem connecting_eq (hend : (connecting name m ms r).2 = true) :
    (connecting name m ms r).1 = [] ∨
      ∃ u l, (connecting name m ms r).1 = .system (here (.linkSetNetns (nd name) u)) :: l ∧
        ∀ a ∈ l, Tidy name u a := by
  have hconnect : (connectDeeds name m ms).2 = true →
      ∃ u l, (connectDeeds name m ms).1 = .system (here (.linkSetNetns (nd name) u)) :: l ∧
        ∀ a ∈ l, Tidy name u a := by
    intro hend
    unfold connectDeeds at hend ⊢
    cases hu : Config.uplinkName m with
    | none => rw [hu] at hend; cases hend
    | some u =>
      rw [hu] at hend
      exact ⟨u, _, rfl, fun a ha => connectedDeeds_tidy hend ha⟩
  cases r with
  | root => exact Or.inl rfl
  | interface | router => cases hend
  | switch | client => exact Or.inr (hconnect hend)

/-- Commands mount nothing. -/
theorem run_mounts {l : List Action} (hl : ∀ a ∈ l, ∃ c, a = .system c)
    (h : (tidying own name).run l s = some s') : s'.mounts = s.mounts := by
  refine Undoable.run_invariant (P := fun t => t.mounts = s.mounts) ?_ h rfl
  intro a ha t t' happly ht
  obtain ⟨c, rfl⟩ := hl a ha
  obtain ⟨ns, -, hip⟩ := apply_system_eq_some happly
  exact (Net.ip_mounts hip).trans ht

/-- **Undoing the connection**, from where the own namespace is mounted. -/
theorem undoes_connecting (hend : (connecting name m ms r).2 = true)
    (hhome : s.mounts (netnsPath (netnsName name)) = some own)
    (h : (tidying own name).run (connecting name m ms r).1 s = some s') :
    SameMounted own name s ((tidying own name).attemptAll
      ((tidying own name).undos (connecting name m ms r).1) s') := by
  have hmounts : s'.mounts = s.mounts := run_mounts (fun a ha => connecting_system ha) h
  rcases connecting_eq hend with hnil | ⟨u, l, hcons, htidy⟩
  · rw [hnil] at h ⊢
    cases h
    exact ⟨hhome, rfl, fun ns hns => ⟨rfl, rfl⟩⟩
  · rw [hcons] at h ⊢
    -- the namespace of the uplink is mounted, or the link could not have been moved
    obtain ⟨s₁, hmove, -⟩ := Undoable.run_cons_eq_some_iff.mp h
    obtain ⟨ns, -, hip⟩ := apply_system_eq_some hmove
    obtain ⟨far, hfar, -⟩ := ip_linkSetNetns hip
    have hsame : Apart own far name u s' s' :=
      ⟨hmounts ▸ hhome, hmounts ▸ hfar, rfl, fun _ _ => rfl, fun _ _ _ _ => rfl, rfl, rfl⟩
    have hmoving : (tidying own name).Undoes (SameMounted own name) (Apart own far name u)
      (.system (here (.linkSetNetns (nd name) u))) := undoes_move
    refine Undoable.attemptAll_undos_cons hmoving (fun s₁ _ hrest => ?_) h
    exact Undoable.attemptAll_undos (fun a ha => (htidy a ha).undoes) hrest hsame

/-- **Undoing `add_network`**, where it has come to its end. -/
theorem undoes_all (hend : (connecting name m ms r).2 = true)
    (h : (tidying own name).run (preparing name m r ++ (connecting name m ms r).1) s = some s') :
    SameOutside own s ((tidying own name).attemptAll
      ((tidying own name).undos (preparing name m r ++ (connecting name m ms r).1)) s') := by
  have hsplit : preparing name m r ++ (connecting name m ms r).1 =
      (entering name m ++ [.createDirectories "/var/run/netns",
        .umount (netnsPath (netnsName name)), .openFile (netnsPath (netnsName name))]) ++
        (.mount (netnsPath (netnsName name)) :: (linking name r ++ (connecting name m ms r).1)) := by
    simp [preparing, mounting]
  have hbefore : ∀ a ∈ entering name m ++ [.createDirectories "/var/run/netns",
      .umount (netnsPath (netnsName name)), .openFile (netnsPath (netnsName name))],
      (tidying own name).Undoes (SameOutside own) (SameOutside own) a := by
    intro a ha
    rcases List.mem_append.mp ha with ha | ha
    · rcases mem_entering ha with rfl | rfl | rfl
      · exact undoes_before (fun c => by simp) (fun path => by simp)
      · exact undoes_before (fun c => by simp) (fun path => by simp)
      · exact undoes_before (fun c => by simp) (fun path => by simp)
    · simp only [List.mem_cons, List.not_mem_nil, or_false] at ha
      rcases ha with rfl | rfl | rfl
      · exact undoes_before (fun c => by simp) (fun path => by simp)
      · exact undoes_before (fun c => by simp) (fun path => by simp)
      · exact undoes_before (fun c => by simp) (fun path => by simp)
  rw [hsplit] at h ⊢
  refine Undoable.attemptAll_undos_append hbefore (fun s₁ _ hbehind => ?_) h
  refine Undoable.attemptAll_undos_cons undoes_mount (fun s₂ hmount hbehind => ?_) hbehind
  refine Undoable.attemptAll_undos_append (R := SameMounted own name) ?_ (fun s₃ hlink hconnect => ?_) hbehind
  · intro a ha
    obtain ⟨c, hc, rfl⟩ := linking_own ha
    exact undoes_own hc
  · have hhome : s₃.mounts (netnsPath (netnsName name)) = some own := by
      rw [run_mounts (fun a ha => linking_system ha) hlink]
      cases hmount
      exact Function.update_self ..
    exact undoes_connecting hend hhome hconnect

/-! ### The process -/

variable {parse : String → Option Json} {j component : Json} {calls : List Call} {l : Ledger}
  {ok : ℕ → Bool} {p : State}

/-- **Shutting down** undoes what `add_network` has done, in reverse order, and nothing is
left of it outside of the own namespace. -/
theorem shutdown_undoes (h : Ledger.loadAndRun parse j calls = some l)
    (hsent : l.Sends name m component) (hnet : addNetwork ok name component .initial = .ok () p) :
    p.cleanups ++ p.connectionCleanups = p.actions.filterMap (Action.undo name) ∧
      (∃ p', shutdown ok p = .ok () p' ∧
        p'.actions = p.actions ++ (p.actions.filterMap (Action.undo name)).reverse) ∧
      ∀ s s' : Net ν, (tidying own name).run p.actions s = some s' →
        SameOutside own s ((tidying own name).attemptAll
          (p.actions.filterMap (Action.undo name)).reverse s') := by
  obtain ⟨ms, r, hgiven⟩ := exists_given h hsent
  obtain ⟨hend, hactions, hcleanups, hconnection⟩ := hgiven.of_ok hnet
  have hregistered : p.cleanups ++ p.connectionCleanups =
      p.actions.filterMap (Action.undo name) := by
    rw [hcleanups, hconnection, hactions, List.filterMap_append]
  refine ⟨hregistered, ⟨_, shutdown_eq p, ?_⟩, ?_⟩
  · rw [← hregistered, List.reverse_append]
    rfl
  · intro s s' hs
    rw [hactions] at hs ⊢
    exact undoes_all hend hs

/-- No links and no routes, and the namespaces of `b` and `c` are mounted. -/
def emptyNet : Net String where
  mounts := fun path =>
    if path = "/var/run/netns/nonsense:b" then some "b"
    else if path = "/var/run/netns/nonsense:c" then some "c"
    else none
  links := fun _ _ => none
  routes := fun _ _ => none

theorem shutdown_undoes_uplinksFile :
    ∃ l m component p s', Ledger.loadAndRun (fun _ => none) uplinksFile [] = some l ∧
      l.Sends "a" m component ∧ addNetwork allOk "a" component .initial = .ok () p ∧
      (tidying "a" "a").run p.actions emptyNet = some s' ∧
      SameOutside "a" emptyNet ((tidying "a" "a").attemptAll
        (p.actions.filterMap (Action.undo "a")).reverse s') := by
  obtain ⟨l, m, component, hl, hsent, hp⟩ := exists_sends (fun _ => none) uplinksFile [] "a"
    (fun _ q => returned (addNetwork allOk "a" q.2 .initial) &&
      ((tidying "a" "a").run (finalState (addNetwork allOk "a" q.2 .initial)).actions
        emptyNet).isSome) (by decide +kernel)
  obtain ⟨hreturned, hrun⟩ := Bool.and_eq_true_iff.mp hp
  obtain ⟨p, hnet⟩ := returned_iff.mp hreturned
  rw [hnet] at hrun
  obtain ⟨s', hs'⟩ := Option.isSome_iff_exists.mp hrun
  exact ⟨l, m, component, p, s', hl, hsent, hnet, hs',
    (shutdown_undoes hl hsent hnet).2.2 emptyNet s' hs'⟩

end Entityd

end Nonsense
