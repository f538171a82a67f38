import Nonsense.Config.Escapes

/-!
# What a failed `add` leaves behind

A refused `add` erases the entity it had put in.  It does not where a value stands in the
way of a path (`Blocks`), and it takes nothing else back: not the record of the default,
nor the null under the missing role of an uplink, which checks that passed have written
before a later one threw (`Leaks`).  `add_atomic_iff` says that there is nothing else.
-/

namespace Nonsense

namespace Config

open EState Nested

variable {parse : String → Option Json} {ps : List ParameterValue} {c c' : Config}
  {name : String} {tree tree' : Object} {r : ConfigResult}

/-! ### Writes to other entries -/

/-- The check at the key writes into another entry: it records the default, or puts a null
under the missing role of the uplink. -/
inductive WritesOutside (tree m : Object) (key : String) : Prop
  | default : key = "default" → (tree.find ":default-netns").getD .null = .null →
    WritesOutside tree m key
  | uplink {u : String} {n : Object} : key = "uplink" → m.find "uplink" = some (.string u) →
    network tree u = some n → n.find "role" = none → WritesOutside tree m key

theorem validateParameter_unchanged {m : Object} {key : String} (h : InLoop tree m name)
    (hk : key ∈ m.keys) (hno : ¬ WritesOutside tree m key)
    (hturn : validateParameter name key tree = .ok () tree') : tree' = tree := by
  have hcomponent := component_of_network h.network
  cases validateParameter_cases hturn with
  | colon _ => rfl
  | role | external => rfl
  | default hd =>
    rcases validateDefault_cases hd with ⟨hnull, -⟩ | ⟨-, rfl⟩
    · exact absurd (.default rfl hnull) hno
    · rfl
  | address ha =>
    obtain ⟨role, hsub, -⟩ := validateAddress_cases ha
    obtain ⟨_, _, -, -, hr⟩ := h.role
    rw [subscript_of_find (by rw [hcomponent]; exact hr)] at hsub
    cases hsub
    rfl
  | uplink hu =>
    obtain ⟨u, tree₁, n, role, huplink, hn, hrole, -⟩ := validateUplink_cases hu
    obtain ⟨uplink, hmu⟩ := OrdMap.mem_keys_iff.mp hk
    rw [subscript_of_find (by rw [hcomponent]; exact hmu)] at huplink
    cases huplink
    cases hnr : OrdMap.find n "role" with
    | none => exact absurd (.uplink rfl hmu hn hnr) hno
    | some v =>
      rw [subscript_of_find (by rw [component_of_network hn]; exact hnr)] at hrole
      cases hrole
      rfl

/-- A loop none of whose checks writes leaves the tree as it is. -/
theorem validateParameters_unchanged {m : Object} {keys : List String} (h : InLoop tree m name)
    (hkeys : ∀ key ∈ keys, key ∈ m.keys) (hno : ∀ key ∈ keys, ¬ WritesOutside tree m key)
    (hrun : validateParameters name keys tree = .ok () tree') : tree' = tree := by
  induction keys with
  | nil =>
    cases hrun
    rfl
  | cons key keys ih =>
    obtain ⟨_, tree₁, hturn, hrest⟩ := bind_eq_ok_iff.mp hrun
    obtain rfl := validateParameter_unchanged h (hkeys key List.mem_cons_self)
      (hno key List.mem_cons_self) hturn
    exact ih (fun k hk => hkeys k (List.mem_cons_of_mem key hk))
      (fun k hk => hno k (List.mem_cons_of_mem key hk)) hrest

theorem Write.role_of_role (w : Write name tree tree') {u : String} {n : Object}
    (hn : Config.network tree u = some n) (hrole : n.find "role" ≠ none) :
    ∃ n', Config.network tree' u = some n' ∧ n'.find "role" ≠ none := by
  rcases w.network hn with h | ⟨-, r, h⟩ | ⟨hnone, -⟩
  · exact ⟨n, h, hrole⟩
  · refine ⟨_, h, ?_⟩
    rwa [OrdMap.find_insert_ne _ _ (by decide)]
  · exact absurd hnone hrole

theorem Writes.role_of_role (w : Writes name tree tree') {u : String} {n : Object}
    (hn : network tree u = some n) (hrole : n.find "role" ≠ none) :
    ∃ n', network tree' u = some n' ∧ n'.find "role" ≠ none := by
  induction w with
  | refl => exact ⟨n, hn, hrole⟩
  | tail _ w ih =>
    obtain ⟨n₁, hn₁, hrole₁⟩ := ih
    exact w.role_of_role hn₁ hrole₁

/-- An uplink that has been checked has a role, be it null. -/
theorem validateUplink_role {m : Object} {u : String} (hm : network tree name = some m)
    (hu : m.find "uplink" = some (.string u)) (h : validateUplink name tree = .ok () tree') :
    ∃ n, network tree' u = some n ∧ n.find "role" ≠ none := by
  obtain ⟨u', tree₁, n, role, huplink, hn, hrole, -⟩ := validateUplink_cases h
  rw [subscript_of_find (by rw [component_of_network hm]; exact hu)] at huplink
  cases huplink
  rw [subscript_apply, component_of_network hn, Json.find_object] at hrole
  cases hnr : OrdMap.find n "role" with
  | some v =>
    rw [hnr] at hrole
    cases hrole
    exact ⟨n, hn, by simp [hnr]⟩
  | none =>
    rw [hnr] at hrole
    cases hrole
    refine ⟨_, network_setNetwork_self hn, ?_⟩
    rw [OrdMap.find_insert_self]
    simp

/-- **A loop one of whose checks writes into another entry changes it.** -/
theorem validateParameters_changed {m : Object} {keys : List String} {key : String}
    (h : InLoop tree m name) (hkeys : ∀ k ∈ keys, k ∈ m.keys) (hk : key ∈ keys)
    (hwrites : WritesOutside tree m key)
    (hrun : validateParameters name keys tree = .ok () tree') :
    ∃ k, k ≠ name ∧ tree'.find k ≠ tree.find k := by
  obtain ⟨e, he, -⟩ := network_eq_some_iff.mp h.network
  cases hwrites with
  | default hkey hnull =>
    subst hkey
    have hrecorded := (validateParameters_recorded hrun).1 hk
    refine ⟨":default-netns", ?_, ?_⟩
    · rintro rfl
      rw [he] at hnull
      cases hnull
    · rw [recorded_eq_some_iff.mp hrecorded.1]
      intro hc
      rw [← hc] at hnull
      cases hnull
  | @uplink u n hkey hu hn hrole =>
    subst hkey
    obtain ⟨before, after, rfl⟩ := List.append_of_mem hk
    -- the uplink has a role behind its check, and keeps it
    rw [validateParameters_eq_forM, forM_append_eq_ok_iff] at hrun
    obtain ⟨tree₁, hb, hrest⟩ := hrun
    rw [forM_cons] at hrest
    obtain ⟨_, tree₂, hturn, ha⟩ := bind_eq_ok_iff.mp hrest
    rw [← validateParameters_eq_forM] at hb ha
    obtain ⟨-, h₁⟩ := h.validateParameters (fun k hk => hkeys k (List.mem_append_left _ hk)) hb
    obtain ⟨-, h₂⟩ := h₁.validateParameter (hkeys _ hk) hturn
    obtain ⟨w, -⟩ := h₂.validateParameters
      (fun k hk => hkeys k (List.mem_append_right _ (List.mem_cons_of_mem _ hk))) ha
    obtain ⟨n₂, hn₂, hrole₂⟩ := validateUplink_role h₁.network hu hturn
    obtain ⟨n', hn', hrole'⟩ := w.role_of_role hn₂ hrole₂
    refine ⟨u, ?_, ?_⟩
    · rintro rfl
      obtain ⟨_, _, hmr, -⟩ := h.role
      rw [h.network] at hn
      cases hn
      rw [hmr] at hrole
      cases hrole
    · intro hc
      rw [network_of_find_eq hc, hn] at hn'
      cases hn'
      exact hrole' hrole

/-! ### A validation that leaves something behind -/

/-- Validation throws behind a check that has written into another entry: at a later check,
or at a component behind the network. -/
def Leaks (tree : Object) (name : String) (e : Object) : Prop :=
  ∃ m types before, e.keys = "network" :: types ∧ Walked e m ∧
    (∀ k ∈ before, ParameterOk tree name m k) ∧ (∃ k ∈ before, WritesOutside tree m k) ∧
    ((∃ key after, m.keys = before ++ key :: after ∧ ¬ ParameterOk tree name m key ∧
      ¬ Asserts tree m key) ∨ (m.keys = before ∧ types ≠ []))

/-- The number of the role in the entity itself does not matter to what is outside. -/
theorem writesOutside_setNetwork {e m : Object} {key : String}
    (he : tree.find name = some (.object e)) (hm : Walked e m) :
    WritesOutside (setNetwork tree name m) m key ↔ WritesOutside tree m key := by
  obtain ⟨-, -, hloop⟩ := validateNetwork_of_walked he hm
  obtain ⟨n₀, role, r, hn₀, hrole₀, hr, rfl⟩ := hm
  have hnet : network tree name = some n₀ := network_eq_some_iff.mpr ⟨e, he, hn₀⟩
  have hself : ∀ j, (setNetwork tree name j).find name = some (.object (e.insert "network" (.object j))) :=
    fun j => find_setComponent_self he
  constructor
  · rintro (⟨hk, hnull⟩ | ⟨hk, hu, hn, hrole⟩)
    · by_cases hname : ":default-netns" = name
      · rw [hname, hself] at hnull
        cases hnull
      · rw [find_setNetwork_ne hname] at hnull
        exact .default hk hnull
    · rename_i u n
      by_cases hname : u = name
      · subst hname
        rw [hloop.network] at hn
        cases hn
        rw [OrdMap.find_insert_ne _ _ (by decide), hrole₀] at hrole
        cases hrole
      · rw [network_setNetwork_ne hname] at hn
        exact .uplink hk hu hn hrole
  · rintro (⟨hk, hnull⟩ | ⟨hk, hu, hn, hrole⟩)
    · by_cases hname : ":default-netns" = name
      · rw [hname, he] at hnull
        cases hnull
      · refine .default hk ?_
        rwa [find_setNetwork_ne hname]
    · rename_i u n
      by_cases hname : u = name
      · subst hname
        rw [hnet] at hn
        cases hn
        rw [hrole₀] at hrole
        cases hrole
      · refine .uplink hk hu ?_ hrole
        rwa [network_setNetwork_ne hname]

/-- What the loop has left outside of the entity. -/
theorem erase_ne_iff {e m : Object} {before : List String}
    (he : tree.find name = some (.object e)) (hm : Walked e m) (hkeys : ∀ k ∈ before, k ∈ m.keys)
    (hrun : validateParameters name before (setNetwork tree name m) = .ok () tree') :
    tree'.erase name ≠ tree.erase name ↔ ∃ k ∈ before, WritesOutside tree m k := by
  obtain ⟨-, -, hloop⟩ := validateNetwork_of_walked he hm
  constructor
  · intro hne
    by_contra hno
    refine hne ?_
    have hsame := validateParameters_unchanged hloop hkeys
      (fun k hk hw => hno ⟨k, hk, (writesOutside_setNetwork he hm).mp hw⟩) hrun
    rw [hsame]
    exact erase_setComponent
  · rintro ⟨k, hk, hw⟩ hsame
    obtain ⟨k', hk', hne⟩ := validateParameters_changed hloop hkeys hk
      ((writesOutside_setNetwork he hm).mpr hw) hrun
    refine hne ?_
    rw [find_setNetwork_ne hk', ← OrdMap.find_erase_ne tree' hk', hsame,
      OrdMap.find_erase_ne tree hk']

/-- Of the keys of an ordered map only the first is `network` where that comes first. -/
theorem ne_network_of_ordered {e : Object} {type : String} {types : List String}
    (hord : e.Ordered) (hkeys : e.keys = "network" :: type :: types) : type ≠ "network" := by
  rw [OrdMap.Ordered, hkeys] at hord
  exact ((List.pairwise_cons.mp hord).1 type List.mem_cons_self).ne'

theorem leaks_of_error {e : Object} {what : String} (he : tree.find name = some (.object e))
    (hord : e.Ordered) (herr : validateEntity name tree = .error (.exception what) tree')
    (hne : tree'.erase name ≠ tree.erase name) : Leaks tree name e := by
  rw [validateEntity_apply he] at herr
  cases htypes : e.keys with
  | nil =>
    rw [htypes] at herr
    cases herr
  | cons type types =>
    rw [htypes] at herr
    -- where the network is not reached, or not looked into, only the entity is touched
    by_cases ht : type = "network"
    · subst ht
      by_cases hwalked : ∃ m, Walked e m
      · obtain ⟨m, hm⟩ := hwalked
        obtain ⟨heq, w, hloop⟩ := validateNetwork_of_walked he hm
        have hw : Writes name tree (setNetwork tree name m) := .single w
        rcases bind_eq_error_iff.mp herr with herr | ⟨_, tree₁, hrun, hrest⟩
        · rw [heq] at herr
          obtain ⟨before, key, after, hkeys, hrun, hb, hk, hf⟩ :=
            validateParameters_eq_error hloop (fun _ hk => hk) herr
          have hwrites := (erase_ne_iff he hm
            (fun k hk => by rw [hkeys]; exact List.mem_append_left _ hk) hrun).mp hne
          refine ⟨m, types, before, htypes, hm, fun k hk => hw.parameterOk_iff.mp (hb k hk),
            hwrites, Or.inl ⟨key, after, hkeys, fun hc => hk (hw.parameterOk_iff.mpr hc), ?_⟩⟩
          intro ha
          obtain ⟨text, hc⟩ := hf.mpr (hw.asserts_iff.mpr ha)
          cases hc
        · rw [heq] at hrun
          have hall := (validateParameters_ok_iff hloop fun _ hk => hk).mp ⟨tree₁, hrun⟩
          cases types with
          | nil => cases hrest
          | cons t ts =>
            obtain ⟨what', herr'⟩ := validateComponents_cons_of_ne name tree₁ ts
              (ne_network_of_ordered hord htypes)
            obtain ⟨-, rfl⟩ := EStateM.Result.error.inj (herr'.symm.trans hrest)
            exact ⟨m, t :: ts, m.keys, htypes, hm, fun k hk => hw.parameterOk_iff.mp (hall k hk),
              (erase_ne_iff he hm (fun _ hk => hk) hrun).mp hne, Or.inr ⟨rfl, by simp⟩⟩
      · obtain ⟨what', tree₁, herr', hsame⟩ := validateNetwork_of_not_walked he hwalked
        rw [validateComponents_cons_network, bind_of_error herr'] at herr
        cases herr
        exact absurd hsame hne
    · obtain ⟨what', herr'⟩ := validateComponents_cons_of_ne name tree types ht
      rw [herr'] at herr
      cases herr
      exact absurd rfl hne

theorem Leaks.error {e : Object} (h : Leaks tree name e) (he : tree.find name = some (.object e))
    (hord : e.Ordered) :
    ∃ what tree', validateEntity name tree = .error (.exception what) tree' ∧
      tree'.erase name ≠ tree.erase name := by
  obtain ⟨m, types, before, htypes, hm, hb, hwrites, hends⟩ := h
  obtain ⟨heq, w, hloop⟩ := validateNetwork_of_walked he hm
  have hw : Writes name tree (setNetwork tree name m) := .single w
  have hb' : ∀ k ∈ before, ParameterOk (setNetwork tree name m) name m k :=
    fun k hk => hw.parameterOk_iff.mpr (hb k hk)
  rw [validateEntity_apply he, htypes, validateComponents_cons_network]
  rcases hends with ⟨key, after, hkeys, hk, ha⟩ | ⟨rfl, hne⟩
  · obtain ⟨f, tree', herr, hrun, hf⟩ := validateParameters_of_fails after hloop
      (by rw [hkeys]; exact fun _ hk => hk) hb' fun hc => hk (hw.parameterOk_iff.mp hc)
    rw [hkeys] at heq
    cases f with
    | exception what =>
      exact ⟨what, tree', bind_of_error (heq.trans herr), (erase_ne_iff he hm
        (fun k hk => by rw [hkeys]; exact List.mem_append_left _ hk) hrun).mpr hwrites⟩
    | assertion text => exact absurd (hw.asserts_iff.mp (hf.mp ⟨text, rfl⟩)) ha
  · obtain ⟨tree', hrun⟩ := (validateParameters_ok_iff hloop fun _ hk => hk).mpr hb'
    cases types with
    | nil => exact absurd rfl hne
    | cons t ts =>
      obtain ⟨what, herr⟩ := validateComponents_cons_of_ne name tree' ts
        (ne_network_of_ordered hord htypes)
      exact ⟨what, tree', (bind_of_ok (heq.trans hrun)).trans herr,
        (erase_ne_iff he hm (fun _ hk => hk) hrun).mpr hwrites⟩

/-! ### Adding -/

/-- Where all parameters fit, validation decides. -/
theorem add_atomic_iff_of_fits (hmut : c.isMutable = true) (hnew : c.configuration.find name = none)
    (h : InTurn (Fits parse) ps) :
    (∀ r c', add parse c name ps = .returned r c' → r.errorCode < 0 →
      c'.configuration = c.configuration) ↔
      ¬ Leaks (c.configuration.insert name (.object (entityOf parse ps))) name
        (entityOf parse ps) := by
  have he : (c.configuration.insert name (.object (entityOf parse ps))).find name =
      some (.object (entityOf parse ps)) := OrdMap.find_insert_self _ _ _
  have hback : (c.configuration.insert name (.object (entityOf parse ps))).erase name =
      c.configuration := OrdMap.erase_insert_of_none _ hnew
  rw [add_of_fits hmut hnew h]
  constructor
  · intro hatomic hleaks
    obtain ⟨what, tree', herr, hne⟩ := hleaks.error he entityOf_ordered
    rw [herr] at hatomic
    rw [hback] at hne
    exact hne (hatomic _ _ rfl (show -EINVAL < 0 by decide))
  · intro hno r c' hadd hr
    cases hval : validateEntity name
        (c.configuration.insert name (.object (entityOf parse ps))) with
    | ok _ tree' =>
      rw [hval] at hadd
      cases hadd
      exact absurd hr (by decide)
    | error f tree' =>
      rw [hval] at hadd
      cases f with
      | exception what =>
        cases hadd
        by_contra hne
        rw [← hback] at hne
        exact hno (leaks_of_error he entityOf_ordered hval hne)
      | assertion text => cases hadd

/-- **When a failed `add` leaves the configuration as it was.** -/
theorem add_atomic_iff (parse : String → Option Json) (c : Config) (name : String)
    (ps : List ParameterValue) :
    (∀ r c', add parse c name ps = .returned r c' → r.errorCode < 0 →
      c'.configuration = c.configuration) ↔
      ¬ (c.isMutable = true ∧ c.configuration.find name = none ∧
        (Blocks parse ps ∨ (InTurn (Fits parse) ps ∧
          Leaks (c.configuration.insert name (.object (entityOf parse ps))) name
            (entityOf parse ps)))) := by
  by_cases hmut : c.isMutable = true
  swap
  · refine iff_of_true (fun r c' hadd _ => ?_) fun h => hmut h.1
    rw [add, if_pos (by simpa using hmut)] at hadd
    cases hadd
    rfl
  cases hnew : c.configuration.find name with
  | some j =>
    refine iff_of_true (fun r c' hadd _ => ?_) fun h => by cases h.2.1
    simp only [add, hmut, hnew] at hadd
    cases hadd
    rfl
  | none =>
    simp only [hmut, true_and]
    rcases buildEntity_cases parse name ps with
      ⟨h, hb⟩ | ⟨h, ⟨hblocks, r, e, hb⟩ | ⟨-, f, hb⟩ | ⟨r, hb⟩⟩
    · have hblocks : ¬ Blocks parse ps := not_blocks_of_ne_left name (by simp [hb])
      rw [or_iff_right hblocks, and_iff_right h]
      exact add_atomic_iff_of_fits hmut hnew h
    · -- the half-built entity stays
      refine iff_of_false (fun hatomic => ?_) fun h => h (Or.inl hblocks)
      have hadd : add parse c name ps = .returned r
          { c with configuration := c.configuration.insert name e } := by
        rw [add_of_new hmut hnew, hb]
      have hr := buildEntity_errorCode (Or.inl ⟨e, hb⟩)
      have hsame : c.configuration.insert name e = c.configuration :=
        hatomic _ _ hadd (by rw [hr]; decide)
      rw [← hsame, OrdMap.find_insert_self] at hnew
      cases hnew
    · have hblocks : ¬ Blocks parse ps := not_blocks_of_ne_left name (by simp [hb])
      refine iff_of_true (fun r c' hadd _ => ?_) fun hc => hc.elim hblocks fun hc => h hc.1
      rw [add_of_new hmut hnew, hb] at hadd
      cases hadd
    · have hblocks : ¬ Blocks parse ps := not_blocks_of_ne_left name (by simp [hb])
      refine iff_of_true (fun r' c' hadd _ => ?_) fun hc => hc.elim hblocks fun hc => h hc.1
      rw [add_of_new hmut hnew, hb] at hadd
      cases hadd
      rfl

/-- **A refused entity stays recorded as the default namespace.** -/
theorem add_leaves_record :
    ¬ ∀ (parse : String → Option Json) (c c' : Config) (name : String) (ps : List ParameterValue)
      (r : ConfigResult), add parse c name ps = .returned r c' → r.errorCode < 0 →
        c'.configuration = c.configuration := by
  intro h
  have hany : (add (fun _ => none) noEntities "a" [⟨"network.role", "root"⟩,
      ⟨"network.default", "yes"⟩, ⟨"network.uplink", "b"⟩]).any (fun r c' =>
        r.errorCode < 0 ∧ recorded c'.configuration = some "a") = true := by decide +kernel
  obtain ⟨r, c', hadd, hp⟩ := Added.any_eq_true_iff.mp hany
  obtain ⟨hr, hrecorded⟩ := of_decide_eq_true hp
  rw [h _ _ _ _ _ _ hadd hr] at hrecorded
  exact absurd hrecorded (by decide)

end Config

end Nonsense
