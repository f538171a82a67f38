import Nonsense.Entityd.Runs

/-!
# Routing along a chain of switches

The daemon nests the networks above a switch into one component, and `connect` walks
them and adds a route to the switch in the namespace of each but the first.  What
comes of it is only seen where the processes of the whole chain are put together: the
route in the namespace of `e (k + 1)` goes over an address that the process of `e k`
gives to its bridge.

`Hop tree target net u e` says that in the namespace of `u` the next hop towards `net`,
the network of `target`, is `e`.  In a chain of switches below a root it leads from each
to the one below (`chain_routed`).
-/

namespace Nonsense

namespace Entityd

open Config (Ascent uplinkName text isSwitch)
open Entity (nest deepUplinkInfoEdit)

/-- Switches `e 0`, …, `e (n - 1)` with the addresses `a`, each the uplink of the one
before, and a root `e n` behind them. -/
structure SwitchChain (tree : Object) (n : ℕ) (e : ℕ → String) (a : ℕ → Slash24) : Prop where
  distinct : ∀ i ≤ n, ∀ k ≤ n, e i = e k → i = k
  switch : ∀ k < n, ∃ m, Config.network tree (e k) = some m ∧
    m.find "role" = some (.string "switch") ∧ m.find "address" = some (.string (a k).text) ∧
    m.find "uplink" = some (.string (e (k + 1)))
  root : ∃ m, Config.network tree (e n) = some m ∧ m.find "role" = some (.string "root") ∧
    m.find "uplink" = none

/-- What `connect` does in the process of `name`, with the component that is built for
it, where everything succeeds. -/
def connectActions (tree : Object) (name : String) : List Action :=
  match Entity.sent tree "network" (Config.component tree name "network") with
  | .ok component => (finalState (connect allOk name component .initial)).actions
  | .error _ => []

/-- A route in another namespace. -/
def Action.isFarRoute : Action → Bool
  | .system ⟨some _, .routeAdd _ _⟩ => true
  | _ => false

/-- An address in another namespace. -/
def Action.isFarAddress : Action → Bool
  | .system ⟨some _, .addrAdd _ _⟩ => true
  | _ => false

/-- An address in the own namespace. -/
def Action.isOwnAddress : Action → Bool
  | .system ⟨none, .addrAdd _ _⟩ => true
  | _ => false

/-- The link of `e` is in the namespace of `u`, with the first address under `p`, and
the bridge of `e` has the second. -/
def Attached (tree : Object) (u e p : String) : Prop :=
  .system (here (.linkSetNetns (nd e) u)) ∈ connectActions tree e ∧
  .system (inside u (.addrAdd (host p 1 ++ "/24") (nd e))) ∈ connectActions tree e ∧
  .system (here (.addrAdd (host p 2 ++ "/24") (nb e))) ∈ connectActions tree e

/-- In the namespace of `u` packets to `net`, the network of `target`, go on to `e`: over
the route that is there, or because `net` is the network between the two. -/
def Hop (tree : Object) (target net u e : String) : Prop :=
  ∃ p, Attached tree u e p ∧
    (.system (inside u (.routeAdd net (host p 2))) ∈ connectActions tree target ∨
      subnet net = some p)

variable {tree : Object} {n : ℕ} {e : ℕ → String} {a : ℕ → Slash24}

/-- The uplinks above `e k`, with what is between them. -/
def above (e : ℕ → String) (a : ℕ → Slash24) (n k : ℕ) : List (String × String) :=
  (List.range (n - k)).map fun i => (e (k + i + 1), (a (k + i)).net)

theorem above_eq_cons {k : ℕ} (hk : k < n) :
    above e a n k = (e (k + 1), (a k).net) :: above e a n (k + 1) := by
  obtain ⟨d, rfl⟩ := Nat.exists_eq_add_of_lt hk
  rw [above, above, show k + d + 1 - k = d + 1 by omega,
    show k + d + 1 - (k + 1) = d by omega, List.range_succ_eq_map, List.map_cons, List.map_map]
  refine congrArg _ (List.map_congr_left fun i _ => ?_)
  show (e (k + (i + 1) + 1), (a (k + (i + 1))).net) = _
  rw [show k + (i + 1) = k + 1 + i by omega]

/-- **The networks from `e k` on are a chain**, and the loop gets through all of them. -/
theorem SwitchChain.exists_chain (h : SwitchChain tree n e a) : ∀ d ≤ n,
    ∃ m ms, Ascent tree (e (n - d)) (m :: ms) ∧ hops (m :: ms) = (above e a n (n - d), true) := by
  intro d
  induction d with
  | zero =>
    intro _
    obtain ⟨m, hm, hrole, hup⟩ := h.root
    refine ⟨m, [], .last hm hup, ?_⟩
    have hno : isSwitch m = false := by
      rw [Config.isSwitch, hrole]
      rfl
    rw [hops, hno, above]
    simp
  | succ d ih =>
    intro hd
    obtain ⟨um, ms, hchain, hhops⟩ := ih (by omega)
    obtain ⟨m, hm, hrole, haddress, hup⟩ := h.switch (n - (d + 1)) (by omega)
    have hnext : n - (d + 1) + 1 = n - d := by omega
    rw [hnext] at hup
    refine ⟨m, um :: ms, .link hm hup hchain, ?_⟩
    have hhop : hop m = some (e (n - d), (a (n - (d + 1))).net) := by
      rw [hop_eq_some_iff, networkSubnet, Config.text_eq_some_iff.mpr haddress]
      exact ⟨Config.uplinkName_of_find hup, Slash24.subnet_text _⟩
    rw [hops, Config.isSwitch_iff.mpr hrole, if_pos rfl, hhop, hhops,
      above_eq_cons (show n - (d + 1) < n by omega), hnext]

/-- **What the process of `e k` does**: it moves its link to `e (k + 1)`, gives it an
address there, and adds a route in each of the namespaces behind. -/
theorem SwitchChain.connect (h : SwitchChain tree n e a) {k : ℕ} (hk : k < n) :
    ∃ component t,
      deepUplinkInfoEdit (tree.length + 1) (Config.component tree (e k) "network") tree =
        .ok component tree ∧
      connect allOk (e k) component .initial = .ok () t ∧
      t.actions = connectActions tree (e k) ∧
      connectActions tree (e k) = .system (here (.linkSetNetns (nd (e k)) (e (k + 1)))) ::
        (switchDeeds (e k) (e (k + 1)) (a k).text (a k).net (above e a n (k + 1)) ++
          switchEnd (e k) (e (k + 1)) (a k).net) := by
  obtain ⟨um, ms, habove, hhops⟩ := h.exists_chain (n - (k + 1)) (by omega)
  rw [show n - (n - (k + 1)) = k + 1 by omega] at habove hhops
  obtain ⟨m, hm, hrole, haddress, hup⟩ := h.switch k hk
  have hchain : Ascent tree (e k) (m :: um :: ms) := .link hm hup habove
  have hname := Config.uplinkName_of_find hup
  have hdeeds : connectDeeds (e k) m (um :: ms) =
      (.system (here (.linkSetNetns (nd (e k)) (e (k + 1)))) ::
        (switchDeeds (e k) (e (k + 1)) (a k).text (a k).net (above e a n (k + 1)) ++
          switchEnd (e k) (e (k + 1)) (a k).net), true) := by
    have hconnected : connectedDeeds (e k) (e (k + 1)) m (um :: ms) =
        (switchDeeds (e k) (e (k + 1)) (a k).text (a k).net (above e a n (k + 1)) ++
          switchEnd (e k) (e (k + 1)) (a k).net, true) := by
      rw [connectedDeeds, Config.isSwitch_iff.mpr hrole, if_pos rfl,
        Config.text_eq_some_iff.mpr haddress, hhops]
      dsimp only
      rw [Slash24.subnet_text]
      rfl
    rw [connectDeeds, hname]
    dsimp only
    rw [hconnected]
  have hrun := (connect_chain hchain .initial).1 (by rw [hdeeds])
  have hcomponent : Config.component tree (e k) "network" = .object m :=
    Config.component_of_network hm
  have hsent := Entity.sent_chain hchain
  have hactions : connectActions tree (e k) = (connectDeeds (e k) m (um :: ms)).1 := by
    rw [connectActions, hcomponent, hsent]
    dsimp only
    rw [hrun]
    rfl
  refine ⟨_, _, ?_, hrun, ?_, ?_⟩
  · rw [hcomponent, Entity.deepUplinkInfoEdit_eq_ok_iff]
    rw [Entity.sent, if_pos rfl] at hsent
    exact ⟨hsent, rfl⟩
  · rw [hactions]
    rfl
  · rw [hactions, hdeeds]

theorem SwitchChain.connectActions (h : SwitchChain tree n e a) {k : ℕ} (hk : k < n) :
    connectActions tree (e k) = .system (here (.linkSetNetns (nd (e k)) (e (k + 1)))) ::
      (switchDeeds (e k) (e (k + 1)) (a k).text (a k).net (above e a n (k + 1)) ++
        switchEnd (e k) (e (k + 1)) (a k).net) := by
  obtain ⟨_, _, -, -, -, hactions⟩ := h.connect hk
  exact hactions

/-- The routes of the loop, as far as they are looked for. -/
theorem filter_routeTo (P : Action → Bool) (net : String) (b : Bool)
    (hP : ∀ h, P (routeTo net h) = b) (hs : List (String × String)) :
    (hs.map (routeTo net)).filter P = if b then hs.map (routeTo net) else [] := by
  induction hs with
  | nil => cases b <;> rfl
  | cons h hs ih =>
    rw [List.map_cons, List.filter_cons, hP, ih]
    cases b <;> rfl

/-- The routes in other namespaces are those of the loop. -/
theorem SwitchChain.filter_isFarRoute (h : SwitchChain tree n e a) {k : ℕ} (hk : k < n) :
    (Entityd.connectActions tree (e k)).filter Action.isFarRoute =
      (above e a n (k + 1)).map (routeTo (a k).text) := by
  have hroutes := filter_routeTo Action.isFarRoute (a k).text true fun _ => rfl
  rw [h.connectActions hk, switchDeeds]
  simp [hroutes, switchEnd, Action.isFarRoute, here, inside]

theorem SwitchChain.filter_isFarAddress (h : SwitchChain tree n e a) {k : ℕ} (hk : k < n) :
    (Entityd.connectActions tree (e k)).filter Action.isFarAddress =
      [.system (inside (e (k + 1)) (.addrAdd (host (a k).net 1 ++ "/24") (nd (e k))))] := by
  have hroutes := filter_routeTo Action.isFarAddress (a k).text false fun _ => rfl
  rw [h.connectActions hk, switchDeeds]
  simp [List.filter_cons, hroutes, switchEnd, Action.isFarAddress, here, inside]

theorem SwitchChain.filter_isOwnAddress (h : SwitchChain tree n e a) {k : ℕ} (hk : k < n) :
    (Entityd.connectActions tree (e k)).filter Action.isOwnAddress =
      [.system (here (.addrAdd (host (a k).net 2 ++ "/24") (nb (e k))))] := by
  have hroutes := filter_routeTo Action.isOwnAddress (a k).text false fun _ => rfl
  rw [h.connectActions hk, switchDeeds]
  simp [List.filter_cons, hroutes, switchEnd, Action.isOwnAddress, here, inside]

/-! ### Hop by hop -/

theorem SwitchChain.attached (h : SwitchChain tree n e a) {k : ℕ} (hk : k < n) :
    Attached tree (e (k + 1)) (e k) (a k).net := by
  rw [Attached, h.connectActions hk]
  simp [switchDeeds, switchEnd]

/-- The link of `e k` is in one namespace only. -/
theorem SwitchChain.eq_of_moved (h : SwitchChain tree n e a) {k : ℕ} (hk : k < n) {u : String}
    (hu : .system (here (.linkSetNetns (nd (e k)) u)) ∈ Entityd.connectActions tree (e k)) :
    u = e (k + 1) := by
  rw [h.connectActions hk] at hu
  simpa [switchDeeds, switchEnd, routeTo, here, inside] using hu

/-- **The next hop** towards the network of `e 0` is the one below. -/
theorem SwitchChain.hop_iff (h : SwitchChain tree n e a) {i k : ℕ} (hi : i ≤ n) (hk : k < n) :
    Hop tree (e 0) (a 0).text (e i) (e k) ↔ i = k + 1 := by
  constructor
  · rintro ⟨p, ⟨hmoved, -, -⟩, -⟩
    exact h.distinct i hi (k + 1) hk (h.eq_of_moved hk hmoved)
  · rintro rfl
    refine ⟨(a k).net, h.attached hk, ?_⟩
    cases k with
    | zero => exact Or.inr (Slash24.subnet_text _)
    | succ k =>
      left
      rw [h.connectActions (by omega : 0 < n)]
      have hmem : routeTo (a 0).text (e (k + 1 + 1), (a (k + 1)).net) ∈
          (above e a n (0 + 1)).map (routeTo (a 0).text) := by
        apply List.mem_map_of_mem
        rw [above, List.mem_map]
        refine ⟨k, List.mem_range.mpr (by omega), ?_⟩
        rw [show 0 + 1 + k = k + 1 by omega]
      exact List.mem_cons_of_mem _ (List.mem_append_left _ (List.mem_cons_of_mem _ hmem))

/-- **Switches in a row are routed from end to end.**  The components of all of them
are built without a change to the configuration, and with them `connect` returns in
each process.  That of `e 0` adds a route in each of the namespaces behind the first, over
the address that the switch below it has given to its bridge; and following the routes
one comes from the root to `e 0`, by way of every switch. -/
theorem chain_routed (hn : 1 ≤ n) (h : SwitchChain tree n e a) :
    (∀ k < n, ∃ component t,
      deepUplinkInfoEdit (tree.length + 1) (Config.component tree (e k) "network") tree =
        .ok component tree ∧
      connect allOk (e k) component .initial = .ok () t ∧
      t.actions = connectActions tree (e k)) ∧
    (connectActions tree (e 0)).filter Action.isFarRoute =
      (List.range (n - 1)).map (fun k =>
        .system (inside (e (k + 2)) (.routeAdd (a 0).text (host (a (k + 1)).net 2)))) ∧
    (connectActions tree (e 0)).filter Action.isFarAddress =
      [.system (inside (e 1) (.addrAdd (host (a 0).net 1 ++ "/24") (nd (e 0))))] ∧
    (∀ k < n, (connectActions tree (e k)).filter Action.isOwnAddress =
      [.system (here (.addrAdd (host (a k).net 2 ++ "/24") (nb (e k))))]) ∧
    (∀ i ≤ n, ∀ k < n, Hop tree (e 0) (a 0).text (e i) (e k) ↔ i = k + 1) ∧
    Relation.ReflTransGen (Hop tree (e 0) (a 0).text) (e n) (e 0) := by
  refine ⟨?_, ?_, h.filter_isFarAddress hn, fun k hk => h.filter_isOwnAddress hk,
    fun i hi k hk => h.hop_iff hi hk, ?_⟩
  · intro k hk
    obtain ⟨component, t, hbuild, hrun, ht, -⟩ := h.connect hk
    exact ⟨component, t, hbuild, hrun, ht⟩
  · rw [h.filter_isFarRoute hn, above, List.map_map]
    refine List.map_congr_left fun k _ => ?_
    show routeTo (a 0).text (e (0 + 1 + k + 1), (a (0 + 1 + k)).net) = _
    rw [show 0 + 1 + k = k + 1 by omega]
    rfl
  · have hdown : ∀ k ≤ n, Relation.ReflTransGen (Hop tree (e 0) (a 0).text) (e k) (e 0) := by
      intro k
      induction k with
      | zero => exact fun _ => .refl
      | succ k ih =>
        intro hk
        exact .head ((h.hop_iff hk (by omega)).mpr rfl) (ih (by omega))
    exact hdown n le_rfl

/-- Three switches in a row, and a root. -/
def rowTree : Object :=
  [("a", .object [("network", .object [("address", .string "10.0.2.0/24"),
      ("role", .string "switch"), ("uplink", .string "b")])]),
    ("b", .object [("network", .object [("address", .string "10.0.1.0/24"),
      ("role", .string "switch"), ("uplink", .string "c")])]),
    ("c", .object [("network", .object [("address", .string "10.0.0.0/24"),
      ("role", .string "switch"), ("uplink", .string "d")])]),
    ("d", .object [("network", .object [("role", .string "root")])])]

def rowName : ℕ → String
  | 0 => "a"
  | 1 => "b"
  | 2 => "c"
  | _ => "d"

def rowAddress : ℕ → Slash24
  | 0 => ⟨"10", "0", "2", "0", by decide⟩
  | 1 => ⟨"10", "0", "1", "0", by decide⟩
  | _ => ⟨"10", "0", "0", "0", by decide⟩

theorem switchChain_rowTree : SwitchChain rowTree 3 rowName rowAddress := by
  refine ⟨by decide, ?_, _, rfl, rfl, rfl⟩
  intro k hk
  rcases k with _ | _ | _ | k
  · exact ⟨_, rfl, rfl, rfl, rfl⟩
  · exact ⟨_, rfl, rfl, rfl, rfl⟩
  · exact ⟨_, rfl, rfl, rfl, rfl⟩
  · omega

theorem chain_routed_rowTree :
    (connectActions rowTree "a").filter Action.isFarRoute =
      [.system (inside "c" (.routeAdd "10.0.2.0/24" "10.0.1.2")),
        .system (inside "d" (.routeAdd "10.0.2.0/24" "10.0.0.2"))] :=
  (chain_routed (by decide) switchChain_rowTree).2.1

end Entityd

end Nonsense
