import Nonsense.Config.Defaults
import Nonsense.Lib.InTurn

/-!
# When a validation returns

`EntityValid` says of an entity what the validator asks for, and `DefaultFree` what it
asks for besides of an entity with the parameter `default`.  `validateEntity_ok_iff`: a
validation returns exactly when both hold of the tree it starts with.

The validator writes while it checks, so the checks are read off a tree that is not the
one it started with.  But no `Write` changes what one of them says
(`Writes.parameterOk_iff`), and a turn of the loop that throws has not written
(`validateParameter_ends`).
-/

namespace Nonsense

namespace Config

open EState

variable {name : String} {tree tree' : Object}

/-! ### What a turn of the loop asks for -/

/-- Nothing is recorded as the default, or `name` is. -/
def DefaultFree (tree : Object) (name : String) : Prop :=
  (tree.find ":default-netns").getD .null = .null ∨
    tree.find ":default-netns" = some (.string name)

/-- `uplink` names an entity whose network component is a string. -/
def Delegated (tree : Object) (uplink : Json) : Prop :=
  ∃ u e s, uplink = .string u ∧ tree.find u = some (.object e) ∧
    OrdMap.find e "network" = some (.string s)

/-- The check at a key passes. -/
@[mk_iff]
structure ParameterOk (tree : Object) (name : String) (m : Object) (key : String) : Prop where
  known : startsWithColon key ∨ key ∈ ["role", "external", "default", "address", "uplink"]
  default : key = "default" → DefaultFree tree name
  address : key = "address" → m.find "role" = some (.string "switch")
  uplink : key = "uplink" → ∃ uplink, m.find "uplink" = some uplink ∧ UplinkOk tree uplink

/-- The check at a key runs into the assertion. -/
def Asserts (tree m : Object) (key : String) : Prop :=
  key = "uplink" ∧ ∃ uplink, m.find "uplink" = some uplink ∧ Delegated tree uplink

/-! ### No write changes what is asked for -/

theorem Write.uplinkOk_iff (w : Write name tree tree') {uplink : Json} :
    UplinkOk tree' uplink ↔ UplinkOk tree uplink := by
  refine ⟨?_, w.uplinkOk⟩
  rintro ⟨u, m', rfl, hm', hrole⟩
  obtain ⟨m, hm⟩ := w.exists_network hm'
  refine ⟨u, m, rfl, hm, ?_⟩
  rcases w.network hm with h | ⟨-, r, h⟩ | ⟨hnone, -⟩
  · rw [hm'] at h
    cases h
    exact hrole
  · rw [hm'] at h
    cases h
    rwa [OrdMap.find_insert_ne _ _ (by decide)] at hrole
  · rw [hnone]
    simp

theorem Write.delegated_iff (w : Write name tree tree') {uplink : Json} :
    Delegated tree' uplink ↔ Delegated tree uplink := by
  have hentry : ∀ u, (∃ e s, tree'.find u = some (.object e) ∧
        OrdMap.find e "network" = some (.string s)) ↔
      ∃ e s, tree.find u = some (.object e) ∧ OrdMap.find e "network" = some (.string s) := by
    intro u
    rcases w.find u with h | ⟨-, hnull, h⟩ | ⟨e, m, m', he, hem, h⟩
    · rw [h]
    · refine iff_of_false ?_ ?_
      · rintro ⟨e, s, he, -⟩
        rw [h] at he
        cases he
      · rintro ⟨e, s, he, -⟩
        rw [he] at hnull
        cases hnull
    · refine iff_of_false ?_ ?_
      · rintro ⟨e', s, he', hs⟩
        rw [h] at he'
        cases he'
        rw [OrdMap.find_insert_self] at hs
        cases hs
      · rintro ⟨e', s, he', hs⟩
        rw [he] at he'
        cases he'
        rw [hem] at hs
        cases hs
  constructor
  · rintro ⟨u, e, s, rfl, he⟩
    obtain ⟨e', s', he'⟩ := (hentry u).mp ⟨e, s, he⟩
    exact ⟨u, e', s', rfl, he'⟩
  · rintro ⟨u, e, s, rfl, he⟩
    obtain ⟨e', s', he'⟩ := (hentry u).mpr ⟨e, s, he⟩
    exact ⟨u, e', s', rfl, he'⟩

theorem Write.defaultFree_iff (w : Write name tree tree') :
    DefaultFree tree' name ↔ DefaultFree tree name := by
  unfold DefaultFree
  rcases w.find ":default-netns" with h | ⟨-, hnull, h⟩ | ⟨e, m, m', he, -, h⟩
  · rw [h]
  · exact iff_of_true (Or.inr h) (Or.inl hnull)
  · rw [h, he]
    simp

theorem Writes.uplinkOk_iff (w : Writes name tree tree') {uplink : Json} :
    UplinkOk tree' uplink ↔ UplinkOk tree uplink :=
  w.iff_of_write fun w => w.uplinkOk_iff

theorem Writes.delegated_iff (w : Writes name tree tree') {uplink : Json} :
    Delegated tree' uplink ↔ Delegated tree uplink :=
  w.iff_of_write fun w => w.delegated_iff

theorem Writes.defaultFree_iff (w : Writes name tree tree') :
    DefaultFree tree' name ↔ DefaultFree tree name :=
  w.iff_of_write fun w => w.defaultFree_iff

theorem Writes.parameterOk_iff (w : Writes name tree tree') {m : Object} {key : String} :
    ParameterOk tree' name m key ↔ ParameterOk tree name m key := by
  simp only [Config.parameterOk_iff, w.defaultFree_iff, w.uplinkOk_iff]

theorem Writes.asserts_iff (w : Writes name tree tree') {m : Object} {key : String} :
    Asserts tree' m key ↔ Asserts tree m key := by
  simp only [Asserts, w.delegated_iff]

/-! ### A turn of the loop -/

/-- How a check ends: it returns where `passes` holds, and otherwise throws what stands
for `fatal` or not, without having written. -/
inductive Verdict (passes fatal : Prop) (tree : Object) : EStateM.Result Fault Object Unit → Prop
  | passed {tree' : Object} : passes → Verdict passes fatal tree (.ok () tree')
  | threw {what : String} : ¬ passes → ¬ fatal →
    Verdict passes fatal tree (.error (.exception what) tree)
  | died {text : String} : ¬ passes → fatal →
    Verdict passes fatal tree (.error (.assertion text) tree)

theorem eq_some_of_getD {o : Option Json} {j : Json} (h : o.getD .null = j) (hj : j ≠ .null) :
    o = some j := by
  cases o with
  | none => exact absurd h.symm hj
  | some j' => exact congrArg some h

theorem validateDefault_ends : Verdict (DefaultFree tree name) False tree
    (validateDefault name tree) := by
  rw [validateDefault, get_bind_apply]
  cases hd : (OrdMap.find tree ":default-netns").getD .null with
  | null => exact .passed (Or.inl hd)
  | _ =>
    have hfind := eq_some_of_getD hd (by simp)
    dsimp only
    split
    · rename_i heq
      rw [Json.eqString_iff.mp heq] at hfind
      exact .passed (Or.inr hfind)
    · rename_i heq
      have hno : ¬ DefaultFree tree name := by
        rintro (h | h)
        · rw [hd] at h
          cases h
        · rw [hfind] at h
          exact heq (Json.eqString_iff.mpr (Option.some.inj h))
      exact .threw hno not_false

theorem validateAddress_ends {role : Json}
    (hrole : (component tree name "network").find ":role" = some role) :
    Verdict (role.eqInteger NetworkRole.switch.toInt = true) False tree
      (validateAddress name tree) := by
  rw [validateAddress, bind_of_ok (subscript_of_find hrole)]
  split
  · rename_i h
    exact .passed h
  · rename_i h
    exact .threw h not_false

theorem validateUplink_ends {uplink : Json}
    (hu : (component tree name "network").find "uplink" = some uplink) :
    Verdict (UplinkOk tree uplink) (Delegated tree uplink) tree (validateUplink name tree) := by
  rw [validateUplink, bind_of_ok (subscript_of_find hu), get_bind_apply]
  cases uplink with
  | string u => ?_
  | _ =>
    refine .threw ?_ ?_
    · rintro ⟨u, m, hs, -⟩
      cases hs
    · rintro ⟨u, e, s, hs, -⟩
      cases hs
  have hok : UplinkOk tree (.string u) ↔
      ∃ m, network tree u = some m ∧ m.find "role" ≠ some (.string "client") :=
    ⟨fun ⟨u', m, hs, h⟩ => ⟨m, by cases hs; exact h⟩, fun ⟨m, h⟩ => ⟨u, m, rfl, h⟩⟩
  have hdel : Delegated tree (.string u) ↔
      ∃ e s, tree.find u = some (.object e) ∧ OrdMap.find e "network" = some (.string s) :=
    ⟨fun ⟨u', e, s, hs, h⟩ => ⟨e, s, by cases hs; exact h⟩, fun ⟨e, s, h⟩ => ⟨u, e, s, rfl, h⟩⟩
  simp only [hok, hdel, network_eq_some_iff]
  cases he : OrdMap.find tree u with
  | none => exact .threw (by simp) (by simp)
  | some j => ?_
  cases j with
  | object e => ?_
  | _ => exact .threw (by simp) (by simp)
  dsimp only
  cases hj : OrdMap.find e "network" with
  | none => exact .threw (by simp [hj]) (by simp [hj])
  | some j => ?_
  cases j with
  | object m => ?_
  | string s => exact .died (by simp [hj]) (by simp [hj])
  | _ => exact .threw (by simp [hj]) (by simp [hj])
  -- what is read is the role, or the null that is put in its place
  have hm : network tree u = some m := network_eq_some_iff.mpr ⟨e, he, hj⟩
  dsimp only
  cases hrole : OrdMap.find m "role" with
  | none =>
    have hsub : ∃ t, subscript u "network" "role" tree = .ok .null t := by
      rw [subscript_apply, component_of_network hm, Json.find_object, hrole]
      exact ⟨_, rfl⟩
    obtain ⟨t, ht⟩ := hsub
    rw [bind_of_ok ht]
    exact .passed ⟨m, ⟨e, rfl, hj⟩, by simp [hrole]⟩
  | some role =>
    rw [bind_of_ok (subscript_of_find (by rw [component_of_network hm]; exact hrole))]
    split
    · rename_i hclient
      rw [Json.eqString_iff] at hclient
      exact .threw (by simp [hj, hrole, hclient]) (by simp [hj])
    · rename_i hclient
      rw [Json.eqString_iff] at hclient
      exact .passed ⟨m, ⟨e, rfl, hj⟩, by simpa [hrole] using hclient⟩

/-- Where the loop over the parameters runs: the role is a known one, and its number is
recorded. -/
structure InLoop (tree m : Object) (name : String) : Prop where
  network : Config.network tree name = some m
  role : ∃ role r, m.find "role" = some (.string role) ∧ knownNetworkRoles role = some r ∧
    m.find ":role" = some (.integer r.toInt)

theorem eqInteger_switch_iff {role : String} {r : NetworkRole}
    (hr : knownNetworkRoles role = some r) :
    (Json.integer r.toInt).eqInteger NetworkRole.switch.toInt = true ↔ role = "switch" := by
  refine ⟨eq_switch_of_toInt hr, ?_⟩
  rintro rfl
  obtain rfl := Option.some.inj hr
  rfl

/-- **One turn of the loop**, by its key. -/
theorem validateParameter_ends {m : Object} {key : String} (h : InLoop tree m name)
    (hk : key ∈ m.keys) : Verdict (ParameterOk tree name m key) (Asserts tree m key) tree
      (validateParameter name key tree) := by
  have hcomponent := component_of_network h.network
  unfold validateParameter
  split
  · rename_i hcolon
    have hne : ∀ k, startsWithColon k = false → key ≠ k := by
      rintro _ hk rfl
      rw [hk] at hcolon
      cases hcolon
    exact .passed ⟨Or.inl hcolon, fun hc => absurd hc (hne _ (by decide)),
      fun hc => absurd hc (hne _ (by decide)), fun hc => absurd hc (hne _ (by decide))⟩
  · rename_i hcolon
    -- the checks of the known keys, each under its own conditions
    have hends : ∀ {passes fatal : Prop} {r : EStateM.Result Fault Object Unit},
        Verdict passes fatal tree r → (ParameterOk tree name m key ↔ passes) →
        (Asserts tree m key ↔ fatal) → Verdict (ParameterOk tree name m key) (Asserts tree m key)
          tree r := by
      intro passes fatal r hr hpasses hfatal
      rwa [hpasses, hfatal]
    unfold knownParameters
    split_ifs with hrole hexternal hdefault haddress huplink
    · subst hrole
      exact .passed (by simp [parameterOk_iff])
    · subst hexternal
      exact .passed (by simp [parameterOk_iff])
    · subst hdefault
      exact hends validateDefault_ends (by simp [parameterOk_iff]) (by simp [Asserts])
    · subst haddress
      obtain ⟨role, r, hmr, hkr, hr⟩ := h.role
      refine hends (validateAddress_ends (by rw [hcomponent]; exact hr)) ?_ (by simp [Asserts])
      rw [eqInteger_switch_iff hkr]
      simp [parameterOk_iff, hmr]
    · subst huplink
      obtain ⟨uplink, hu⟩ := OrdMap.mem_keys_iff.mp hk
      exact hends (validateUplink_ends (by rw [hcomponent]; exact hu))
        (by simp [parameterOk_iff, hu]) (by simp [Asserts, hu])
    · refine .threw (fun hok => ?_) fun ha => huplink ha.1
      have hknown := hok.known.resolve_left hcolon
      simp only [List.mem_cons, List.not_mem_nil, or_false] at hknown
      tauto

/-! ### The loop over the parameters -/

theorem validateParameters_eq_forM (keys : List String) :
    validateParameters name keys = keys.forM (validateParameter name) := by
  induction keys with
  | nil => rfl
  | cons key keys ih => rw [validateParameters, ih, forM_cons]

theorem InLoop.validateParameter {m : Object} {key : String} (h : InLoop tree m name)
    (hk : key ∈ m.keys) (hturn : validateParameter name key tree = .ok () tree') :
    Writes name tree tree' ∧ InLoop tree' m name := by
  obtain ⟨role, r, hmr, hkr, hr⟩ := h.role
  obtain ⟨hw, hm, -⟩ := validateParameter_spec h.network ⟨_, hmr⟩ ⟨_, hr⟩ hk hturn
  exact ⟨hw, hm, h.role⟩

theorem InLoop.validateParameters {m : Object} {keys : List String} (h : InLoop tree m name)
    (hkeys : ∀ key ∈ keys, key ∈ m.keys)
    (hrun : validateParameters name keys tree = .ok () tree') :
    Writes name tree tree' ∧ InLoop tree' m name := by
  obtain ⟨role, r, hmr, hkr, hr⟩ := h.role
  obtain ⟨hw, hm, -⟩ := validateParameters_spec h.network ⟨_, hmr⟩ ⟨_, hr⟩ hkeys hrun
  exact ⟨hw, hm, h.role⟩

/-- **The loop returns where every check passes** on the tree it starts with. -/
theorem validateParameters_ok_iff {m : Object} {keys : List String} (h : InLoop tree m name)
    (hkeys : ∀ key ∈ keys, key ∈ m.keys) :
    (∃ tree', validateParameters name keys tree = .ok () tree') ↔
      ∀ key ∈ keys, ParameterOk tree name m key := by
  induction keys generalizing tree with
  | nil => exact iff_of_true ⟨tree, rfl⟩ fun key hk => absurd hk List.not_mem_nil
  | cons key keys ih =>
    have hk : key ∈ m.keys := hkeys key List.mem_cons_self
    have hends := validateParameter_ends h hk
    rw [List.forall_mem_cons, validateParameters]
    cases hturn : Config.validateParameter name key tree with
    | ok a tree₁ =>
      rw [hturn] at hends
      obtain ⟨hw, h₁⟩ := h.validateParameter hk hturn
      have hrest := ih h₁ fun k hk => hkeys k (List.mem_cons_of_mem key hk)
      rw [bind_of_ok hturn, hrest]
      simp only [hw.parameterOk_iff]
      cases hends with
      | passed hp => exact (and_iff_right hp).symm
    | error f tree₁ =>
      rw [hturn] at hends
      rw [bind_of_error hturn]
      refine iff_of_false (fun ⟨_, hc⟩ => by cases hc) fun hall => ?_
      cases hends with
      | threw hp _ => exact hp hall.1
      | died hp _ => exact hp hall.1

/-- **The loop throws at the first check that does not pass**; what it has written then it
wrote before. -/
theorem validateParameters_eq_error {m : Object} {keys : List String} {f : Fault}
    (h : InLoop tree m name) (hkeys : ∀ key ∈ keys, key ∈ m.keys)
    (herr : validateParameters name keys tree = .error f tree') :
    ∃ before key after, keys = before ++ key :: after ∧
      validateParameters name before tree = .ok () tree' ∧
      (∀ k ∈ before, ParameterOk tree name m k) ∧ ¬ ParameterOk tree name m key ∧
      ((∃ text, f = .assertion text) ↔ Asserts tree m key) := by
  rw [validateParameters_eq_forM, forM_eq_error_iff] at herr
  obtain ⟨before, key, after, tree₁, rfl, hb, hturn⟩ := herr
  rw [← validateParameters_eq_forM] at hb
  have hbkeys : ∀ k ∈ before, k ∈ m.keys := fun k hk => hkeys k (List.mem_append_left _ hk)
  obtain ⟨hw, h₁⟩ := h.validateParameters hbkeys hb
  have hends := validateParameter_ends h₁
    (hkeys key (List.mem_append_right _ List.mem_cons_self))
  rw [hturn, hw.parameterOk_iff, hw.asserts_iff] at hends
  have hpassed := (validateParameters_ok_iff h hbkeys).mp ⟨tree₁, hb⟩
  cases hends with
  | threw hp ha =>
    exact ⟨before, key, after, rfl, hb, hpassed, hp, iff_of_false (by simp) ha⟩
  | died hp ha =>
    exact ⟨before, key, after, rfl, hb, hpassed, hp, iff_of_true ⟨_, rfl⟩ ha⟩

theorem Delegated.not_uplinkOk {uplink : Json} (h : Delegated tree uplink) :
    ¬ UplinkOk tree uplink := by
  obtain ⟨u, e, s, rfl, he, hs⟩ := h
  rintro ⟨u', m, hu, hm, -⟩
  cases hu
  rw [network_iff_of_object he, hs] at hm
  cases hm

theorem Asserts.not_parameterOk {m : Object} {key : String} (h : Asserts tree m key) :
    ¬ ParameterOk tree name m key := by
  obtain ⟨hk, uplink, hu, hdel⟩ := h
  intro hok
  obtain ⟨uplink', hu', hok⟩ := hok.uplink hk
  rw [hu] at hu'
  cases hu'
  exact hdel.not_uplinkOk hok

/-- The same the other way: a check that does not pass, behind others that do, is where the
loop throws. -/
theorem validateParameters_of_fails {m : Object} {before : List String} {key : String}
    (after : List String) (h : InLoop tree m name) (hkeys : ∀ k ∈ before ++ key :: after, k ∈ m.keys)
    (hb : ∀ k ∈ before, ParameterOk tree name m k) (hk : ¬ ParameterOk tree name m key) :
    ∃ f tree', validateParameters name (before ++ key :: after) tree = .error f tree' ∧
      validateParameters name before tree = .ok () tree' ∧
      ((∃ text, f = .assertion text) ↔ Asserts tree m key) := by
  have hno : ¬ ∃ tree', validateParameters name (before ++ key :: after) tree = .ok () tree' := by
    rw [validateParameters_ok_iff h hkeys]
    exact fun hall => hk (hall key (List.mem_append_right _ List.mem_cons_self))
  cases herr : validateParameters name (before ++ key :: after) tree with
  | ok _ tree' => exact absurd ⟨tree', herr⟩ hno
  | error f tree' =>
    obtain ⟨before', key', after', hsplit, hrun, hb', hk', hf⟩ :=
      validateParameters_eq_error h hkeys herr
    obtain ⟨rfl, rfl⟩ := first_unique hsplit hb hk hb' hk'
    exact ⟨f, tree', rfl, hrun, hf⟩

/-! ### The network component -/

/-- What the loop over the parameters of `e` walks: its network component with the number of
its role, a known one. -/
def Walked (e m : Object) : Prop :=
  ∃ (n : Object) (role : String) (r : NetworkRole), e.find "network" = some (.object n) ∧
    n.find "role" = some (.string role) ∧ knownNetworkRoles role = some r ∧
    m = n.insert ":role" (.integer r.toInt)

theorem Walked.unique {e m m' : Object} (h : Walked e m) (h' : Walked e m') : m = m' := by
  obtain ⟨n, role, r, hn, hrole, hr, rfl⟩ := h
  obtain ⟨n', role', r', hn', hrole', hr', rfl⟩ := h'
  rw [hn] at hn'
  cases hn'
  rw [hrole] at hrole'
  cases hrole'
  rw [hr] at hr'
  cases hr'
  rfl

theorem component_eq {e : Object} (he : tree.find name = some (.object e)) :
    component tree name "network" = (e.find "network").getD .null := by
  rw [component, he]
  rfl

/-- With a known role the validation of a component is the loop. -/
theorem validateNetwork_of_walked {e m : Object} (he : tree.find name = some (.object e))
    (hm : Walked e m) :
    validateNetwork name tree = validateParameters name m.keys (setNetwork tree name m) ∧
      Write name tree (setNetwork tree name m) ∧ InLoop (setNetwork tree name m) m name := by
  obtain ⟨n, role, r, hn, hrole, hr, rfl⟩ := hm
  have hnet : network tree name = some n := network_eq_some_iff.mpr ⟨e, he, hn⟩
  have hcomponent := component_of_network hnet
  have hnet' : network (setNetwork tree name (n.insert ":role" (.integer r.toInt))) name = _ :=
    network_setNetwork_self hnet
  refine ⟨?_, .role r.toInt hnet, hnet', role, r, ?_, hr, OrdMap.find_insert_self _ _ _⟩
  · have hlift : (lift (Json.getRefString (.string role)) : Edit String) tree = .ok role tree := rfl
    have hassign : assign name "network" ":role" (.integer r.toInt) tree =
        .ok () (setNetwork tree name (n.insert ":role" (.integer r.toInt))) := by
      rw [assign_apply, hcomponent]
      rfl
    rw [validateNetwork, bind_of_ok (subscript_of_find (by rw [hcomponent]; exact hrole)),
      bind_of_ok hlift, hr]
    dsimp only
    rw [bind_of_ok hassign, get_bind_apply, component_of_network hnet']
    rfl
  · rw [OrdMap.find_insert_ne _ _ (by decide)]
    exact hrole

theorem exception_of_assign {j v : Json} {key : String} {f : Fault}
    (h : j.assign key v = .error f) : ∃ what, f = .exception what := by
  cases j <;> cases h <;> exact ⟨_, rfl⟩

theorem erase_setComponent {type : String} {j : Json} :
    (setComponent tree name type j).erase name = tree.erase name := by
  unfold setComponent
  split
  · exact OrdMap.erase_insert_self _ _ _
  · rfl

/-- Without one it throws, and all that it may have changed is the entity. -/
theorem validateNetwork_of_not_walked {e : Object} (he : tree.find name = some (.object e))
    (h : ¬ ∃ m, Walked e m) : ∃ what tree',
      validateNetwork name tree = .error (.exception what) tree' ∧
      tree'.erase name = tree.erase name := by
  rw [validateNetwork]
  have hcomponent := component_eq he
  cases hv : (component tree name "network").find "role" with
  | some v =>
    rw [bind_of_ok (subscript_of_find hv)]
    cases hs : v.getRefString with
    | error f =>
      have hf : ∃ what, f = .exception what := by
        cases v <;> cases hs <;> exact ⟨_, rfl⟩
      obtain ⟨what, rfl⟩ := hf
      exact ⟨what, tree, rfl, rfl⟩
    | ok role =>
      obtain rfl := Json.getRefString_eq_ok hs
      cases hr : knownNetworkRoles role with
      | none =>
        have hlift : (lift (Except.ok role) : Edit String) tree = .ok role tree := rfl
        rw [bind_of_ok hlift, hr]
        exact ⟨_, tree, rfl, rfl⟩
      | some r =>
        obtain ⟨n, hn, hnr⟩ := Json.eq_object_of_find hv
        rw [hcomponent] at hn
        exact absurd ⟨_, n, role, r, eq_some_of_getD hn (by simp), hnr, hr, rfl⟩ h
  | none =>
    cases ha : (component tree name "network").assign "role" .null with
    | error f =>
      obtain ⟨what, rfl⟩ := exception_of_assign ha
      have hsub : subscript name "network" "role" tree = .error (.exception what) tree := by
        rw [subscript_apply, hv, ha]
      exact ⟨what, tree, bind_of_error hsub, rfl⟩
    | ok j =>
      have hsub : subscript name "network" "role" tree =
          .ok .null (setComponent tree name "network" j) := by
        rw [subscript_apply, hv, ha]
      rw [bind_of_ok hsub]
      exact ⟨_, _, rfl, erase_setComponent⟩

/-- The checks of the network component of `e` pass. -/
def NetworkPasses (tree : Object) (name : String) (e : Object) : Prop :=
  ∃ m, Walked e m ∧ ∀ key ∈ m.keys, ParameterOk tree name m key

theorem validateNetwork_ok_iff {e : Object} (he : tree.find name = some (.object e)) :
    (∃ tree', validateNetwork name tree = .ok () tree') ↔ NetworkPasses tree name e := by
  by_cases h : ∃ m, Walked e m
  · obtain ⟨m, hm⟩ := h
    obtain ⟨heq, hw, hloop⟩ := validateNetwork_of_walked he hm
    rw [heq, validateParameters_ok_iff hloop fun _ hk => hk]
    simp only [Writes.parameterOk_iff (.single hw)]
    constructor
    · exact fun hall => ⟨m, hm, hall⟩
    · rintro ⟨m', hm', hall⟩
      rwa [hm.unique hm']
  · obtain ⟨what, tree', herr, -⟩ := validateNetwork_of_not_walked he h
    rw [herr]
    exact iff_of_false (fun ⟨_, hc⟩ => by cases hc) fun ⟨m, hm, _⟩ => h ⟨m, hm⟩

/-- A component that has passed passes again. -/
theorem networkPasses_of_ok (h : validateNetwork name tree = .ok () tree') :
    ∃ e, tree'.find name = some (.object e) ∧ NetworkPasses tree' name e := by
  obtain ⟨n, role, r, hnet, hrole, hr, hw, hnet', -⟩ := validateNetwork_spec h
  obtain ⟨e, he, hn⟩ := network_eq_some_iff.mp hnet
  obtain ⟨e', he', hn'⟩ := network_eq_some_iff.mp hnet'
  obtain ⟨m, hm, hall⟩ := (validateNetwork_ok_iff he).mp ⟨tree', h⟩
  have hwalked : Walked e (n.insert ":role" (.integer r.toInt)) := ⟨n, role, r, hn, hrole, hr, rfl⟩
  obtain rfl := hm.unique hwalked
  refine ⟨e', he', _, ⟨_, role, r, hn', ?_, hr, (OrdMap.insert_insert_self _ _ _ _).symm⟩,
    fun key hk => hw.parameterOk_iff.mpr (hall key hk)⟩
  rw [OrdMap.find_insert_ne _ _ (by decide)]
  exact hrole

/-! ### The entity -/

theorem validateComponents_cons_of_ne (name : String) (tree : Object) {type : String}
    (types : List String) (h : type ≠ "network") : ∃ what,
      validateComponents name (type :: types) tree = .error (.exception what) tree := by
  have hunknown : knownComponents type = none := if_neg h
  rw [validateComponents, hunknown]
  exact ⟨_, rfl⟩

theorem validateComponents_cons_network {types : List String} :
    validateComponents name ("network" :: types) =
      (validateNetwork name >>= fun _ => validateComponents name types) := rfl

theorem validateComponents_ok_iff {types : List String} {e : Object}
    (he : tree.find name = some (.object e)) :
    (∃ tree', validateComponents name types tree = .ok () tree') ↔
      (∀ type ∈ types, type = "network") ∧ (types ≠ [] → NetworkPasses tree name e) := by
  induction types generalizing tree e with
  | nil => exact iff_of_true ⟨tree, rfl⟩ ⟨fun _ ht => absurd ht List.not_mem_nil, fun h => absurd rfl h⟩
  | cons type types ih =>
    by_cases ht : type = "network"
    · subst ht
      rw [validateComponents_cons_network, List.forall_mem_cons]
      simp only [true_and, ne_eq, reduceCtorEq, not_false_eq_true, forall_const]
      rw [← validateNetwork_ok_iff he]
      constructor
      · rintro ⟨tree', h⟩
        obtain ⟨_, tree₁, h₁, hrest⟩ := bind_eq_ok_iff.mp h
        obtain ⟨e₁, he₁, -⟩ := networkPasses_of_ok h₁
        exact ⟨((ih he₁).mp ⟨tree', hrest⟩).1, tree₁, h₁⟩
      · rintro ⟨hall, tree₁, h₁⟩
        obtain ⟨e₁, he₁, hpasses⟩ := networkPasses_of_ok h₁
        obtain ⟨tree', hrest⟩ := (ih he₁).mpr ⟨hall, fun _ => hpasses⟩
        exact ⟨tree', bind_eq_ok_iff.mpr ⟨(), tree₁, h₁, hrest⟩⟩
    · obtain ⟨what, herr⟩ := validateComponents_cons_of_ne name tree types ht
      rw [herr]
      exact iff_of_false (fun ⟨_, hc⟩ => by cases hc) fun ⟨hall, _⟩ =>
        ht (hall type List.mem_cons_self)

/-- What the validator asks of a network component. -/
structure NetworkValid (tree m : Object) : Prop where
  role : ∃ role r, m.find "role" = some (.string role) ∧ knownNetworkRoles role = some r
  keys : ∀ key ∈ m.keys, startsWithColon key ∨
    key ∈ ["role", "external", "default", "address", "uplink"]
  address : "address" ∈ m.keys → m.find "role" = some (.string "switch")
  uplink : ∀ uplink, m.find "uplink" = some uplink → UplinkOk tree uplink

/-- What the validator asks of an entity. -/
structure EntityValid (tree e : Object) : Prop where
  types : ∀ type ∈ e.keys, type = "network"
  network : ∀ j, e.find "network" = some j → ∃ m : Object, j = .object m ∧ NetworkValid tree m

/-- The checks at the keys are those of `NetworkValid`, and of the default. -/
theorem networkPasses_iff {e m : Object} (hm : e.find "network" = some (.object m)) :
    NetworkPasses tree name e ↔
      NetworkValid tree m ∧ ("default" ∈ m.keys → DefaultFree tree name) := by
  have hkeys : ∀ r key, key ∈ (m.insert ":role" (.integer r)).keys ↔ key = ":role" ∨ key ∈ m.keys :=
    fun r key => OrdMap.mem_keys_insert
  have hfind : ∀ r key, key ≠ ":role" →
      (m.insert ":role" (.integer r)).find key = m.find key :=
    fun r key hk => OrdMap.find_insert_ne _ _ hk
  constructor
  · rintro ⟨_, ⟨n, role, r, hn, hrole, hr, rfl⟩, hall⟩
    rw [hm] at hn
    cases hn
    have hmem : ∀ key, key ∈ m.keys → key ∈ (m.insert ":role" (.integer r.toInt)).keys :=
      fun key hk => (hkeys _ key).mpr (Or.inr hk)
    refine ⟨⟨⟨role, r, hrole, hr⟩, fun key hk => (hall key (hmem key hk)).known, ?_, ?_⟩, ?_⟩
    · intro hk
      have haddress := (hall _ (hmem _ hk)).address rfl
      rwa [hfind _ _ (by decide)] at haddress
    · intro uplink hu
      obtain ⟨uplink', hu', hok⟩ :=
        (hall _ (hmem _ (OrdMap.mem_keys_iff.mpr ⟨uplink, hu⟩))).uplink rfl
      rw [hfind _ _ (by decide), hu] at hu'
      cases hu'
      exact hok
    · exact fun hk => (hall _ (hmem _ hk)).default rfl
  · rintro ⟨hvalid, hdefault⟩
    obtain ⟨role, r, hrole, hr⟩ := hvalid.role
    refine ⟨_, ⟨m, role, r, hm, hrole, hr, rfl⟩, fun key hk => ?_⟩
    rcases (hkeys _ key).mp hk with rfl | hk
    · exact ⟨Or.inl (by decide), fun hc => absurd hc (by decide), fun hc => absurd hc (by decide),
        fun hc => absurd hc (by decide)⟩
    · refine ⟨hvalid.keys key hk, ?_, ?_, ?_⟩
      · rintro rfl
        exact hdefault hk
      · rintro rfl
        rw [hfind _ _ (by decide)]
        exact hvalid.address hk
      · rintro rfl
        obtain ⟨uplink, hu⟩ := OrdMap.mem_keys_iff.mp hk
        exact ⟨uplink, (hfind _ _ (by decide)).trans hu, hvalid.uplink uplink hu⟩

theorem validateEntity_apply {e : Object} (he : tree.find name = some (.object e)) :
    validateEntity name tree = validateComponents name e.keys tree := by
  rw [validateEntity, get_bind_apply, he]
  rfl

/-- **When a validation returns.** -/
theorem validateEntity_ok_iff {e : Object} (he : tree.find name = some (.object e)) :
    (∃ tree', validateEntity name tree = .ok () tree') ↔
      EntityValid tree e ∧ (HasDefault tree name → DefaultFree tree name) := by
  have hdefault : ∀ m : Object, e.find "network" = some (.object m) →
      (HasDefault tree name ↔ "default" ∈ m.keys) := by
    intro m hm
    rw [hasDefault_iff_of_object he, hm]
    simp
  rw [validateEntity_apply he, validateComponents_ok_iff he]
  constructor
  · rintro ⟨htypes, hpasses⟩
    -- an entity with components passes by its network object
    have hnetwork : ∀ j, e.find "network" = some j → ∃ m : Object, j = .object m ∧
        NetworkValid tree m ∧ (HasDefault tree name → DefaultFree tree name) := by
      intro j hj
      have hne : e.keys ≠ [] := List.ne_nil_of_mem (OrdMap.mem_keys_iff.mpr ⟨j, hj⟩)
      obtain ⟨m, ⟨n, role, r, hn, hrest⟩, hall⟩ := hpasses hne
      have hvalid := (networkPasses_iff hn).mp ⟨m, ⟨n, role, r, hn, hrest⟩, hall⟩
      rw [hj] at hn
      refine ⟨n, Option.some.inj hn, hvalid.1, ?_⟩
      rw [hdefault n (hj.trans hn)]
      exact hvalid.2
    refine ⟨⟨htypes, fun j hj => ?_⟩, fun hd => ?_⟩
    · obtain ⟨m, rfl, hvalid, -⟩ := hnetwork j hj
      exact ⟨m, rfl, hvalid⟩
    · obtain ⟨m, hm, -⟩ := id hd
      obtain ⟨_, -, -, hfree⟩ := hnetwork _ ((network_iff_of_object he).mp hm)
      exact hfree hd
  · rintro ⟨hvalid, hfree⟩
    refine ⟨hvalid.types, fun hne => ?_⟩
    obtain ⟨type, htype⟩ := List.exists_mem_of_ne_nil _ hne
    obtain ⟨j, hj⟩ := OrdMap.mem_keys_iff.mp (hvalid.types type htype ▸ htype)
    obtain ⟨m, rfl, hm⟩ := hvalid.network j hj
    refine (networkPasses_iff hj).mpr ⟨hm, fun hk => hfree ((hdefault m hj).mpr hk)⟩

end Config

end Nonsense
