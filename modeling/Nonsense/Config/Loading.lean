import Nonsense.Config.Verdict

/-!
# Which files are loaded

`FileValid` is what a file has to be: every entity valid, and one default at most.  The
constructor walks the entries in the order of their names while validation puts
`:default-netns` into the same map.  Where the walk is past that name the record is not
seen; where it is not, the record is met, and is no entity (`load_ok_iff`).
-/

namespace Nonsense

namespace Config

open EState

variable {name : String} {tree tree' file : Object}

/-! ### Validity under writes -/

/-- The entity of that name, if there is one, is valid. -/
def Valid (tree : Object) (name : String) : Prop :=
  ∀ e : Object, tree.find name = some (.object e) → EntityValid tree e

theorem networkValid_role_iff {m : Object} (r : Int)
    (huplink : ∀ {uplink}, UplinkOk tree' uplink ↔ UplinkOk tree uplink) :
    NetworkValid tree' (m.insert ":role" (.integer r)) ↔ NetworkValid tree m := by
  have hfind : ∀ key, key ≠ ":role" →
      (m.insert ":role" (.integer r)).find key = m.find key :=
    fun key hk => OrdMap.find_insert_ne _ _ hk
  constructor
  · intro h
    refine ⟨?_, fun key hk => h.keys key (OrdMap.mem_keys_insert.mpr (Or.inr hk)), ?_, ?_⟩
    · obtain ⟨role, r', hrole, hr'⟩ := h.role
      exact ⟨role, r', (hfind _ (by decide)).symm.trans hrole, hr'⟩
    · intro hk
      exact (hfind _ (by decide)).symm.trans (h.address (OrdMap.mem_keys_insert.mpr (Or.inr hk)))
    · intro uplink hu
      exact huplink.mp (h.uplink uplink ((hfind _ (by decide)).trans hu))
  · intro h
    refine ⟨?_, fun key hk => ?_, ?_, ?_⟩
    · obtain ⟨role, r', hrole, hr'⟩ := h.role
      exact ⟨role, r', (hfind _ (by decide)).trans hrole, hr'⟩
    · rcases OrdMap.mem_keys_insert.mp hk with rfl | hk
      · exact Or.inl (by decide)
      · exact h.keys key hk
    · intro hk
      have hk' := (OrdMap.mem_keys_insert.mp hk).resolve_left (by decide)
      exact (hfind _ (by decide)).trans (h.address hk')
    · intro uplink hu
      exact huplink.mpr (h.uplink uplink ((hfind _ (by decide)).symm.trans hu))

/-- A network component without a role is not valid, nor is one with null for it. -/
theorem not_networkValid_of_role {m : Object} (h : ∀ role, m.find "role" ≠ some (.string role)) :
    ¬ NetworkValid tree m := by
  intro hvalid
  obtain ⟨role, _, hrole, -⟩ := hvalid.role
  exact h role hrole

theorem Write.networkValid_iff (w : Write name tree tree') {k : String} {m m' : Object}
    (hm : Config.network tree k = some m) (hm' : Config.network tree' k = some m') :
    NetworkValid tree' m' ↔ NetworkValid tree m := by
  rcases w.network hm with h | ⟨-, r, h⟩ | ⟨hnone, h⟩
  · rw [hm'] at h
    obtain rfl := Option.some.inj h
    constructor
    · exact fun hv => ⟨hv.role, hv.keys, hv.address,
        fun uplink hu => w.uplinkOk_iff.mp (hv.uplink uplink hu)⟩
    · exact fun hv => ⟨hv.role, hv.keys, hv.address,
        fun uplink hu => w.uplinkOk_iff.mpr (hv.uplink uplink hu)⟩
  · rw [hm'] at h
    obtain rfl := Option.some.inj h
    exact networkValid_role_iff r w.uplinkOk_iff
  · rw [hm'] at h
    obtain rfl := Option.some.inj h
    refine iff_of_false (not_networkValid_of_role ?_) (not_networkValid_of_role ?_)
    · intro role
      rw [OrdMap.find_insert_self]
      simp
    · intro role
      rw [hnone]
      simp

/-- An entity with a network object. -/
theorem entityValid_iff_of_network {e m : Object} (hm : e.find "network" = some (.object m)) :
    EntityValid tree e ↔ (∀ type ∈ e.keys, type = "network") ∧ NetworkValid tree m := by
  constructor
  · intro h
    obtain ⟨m', hm', hvalid⟩ := h.network _ hm
    cases hm'
    exact ⟨h.types, hvalid⟩
  · rintro ⟨htypes, hvalid⟩
    refine ⟨htypes, fun j hj => ⟨m, ?_, hvalid⟩⟩
    rw [hm] at hj
    exact (Option.some.inj hj).symm

theorem entityValid_congr {e : Object} (h : ∀ m : Object, e.find "network" = some (.object m) →
    (NetworkValid tree' m ↔ NetworkValid tree m)) : EntityValid tree' e ↔ EntityValid tree e := by
  constructor
  · refine fun hv => ⟨hv.types, fun j hj => ?_⟩
    obtain ⟨m, rfl, hm⟩ := hv.network j hj
    exact ⟨m, rfl, (h m hj).mp hm⟩
  · refine fun hv => ⟨hv.types, fun j hj => ?_⟩
    obtain ⟨m, rfl, hm⟩ := hv.network j hj
    exact ⟨m, rfl, (h m hj).mpr hm⟩

/-- **No write makes an entity valid, or not valid.** -/
theorem Write.valid_iff (w : Write name tree tree') {k : String} :
    Valid tree' k ↔ Valid tree k := by
  rcases w.find k with h | ⟨-, hnull, h⟩ | ⟨e, m, m', he, hem, h⟩
  · have hentity : ∀ e : Object, tree.find k = some (.object e) →
        (EntityValid tree' e ↔ EntityValid tree e) := fun e he =>
      entityValid_congr fun m hm => w.networkValid_iff (network_eq_some_iff.mpr ⟨e, he, hm⟩)
        (network_eq_some_iff.mpr ⟨e, h.trans he, hm⟩)
    unfold Valid
    rw [h]
    exact forall₂_congr hentity
  · -- null before, and a name behind
    refine iff_of_true (fun e he => ?_) fun e he => ?_
    · rw [h] at he
      cases he
    · rw [he] at hnull
      cases hnull
  · have hkeys : ∀ type, type ∈ (e.insert "network" (.object m')).keys ↔ type ∈ e.keys := by
      intro type
      rw [OrdMap.mem_keys_insert, or_iff_right_of_imp]
      rintro rfl
      exact OrdMap.mem_keys_iff.mpr ⟨_, hem⟩
    have hvalid := w.networkValid_iff (network_eq_some_iff.mpr ⟨e, he, hem⟩)
      (network_eq_some_iff.mpr ⟨_, h, OrdMap.find_insert_self _ _ _⟩)
    simp only [Valid, h, he, Option.some.injEq, Json.object.injEq, forall_eq',
      entityValid_iff_of_network hem,
      entityValid_iff_of_network (OrdMap.find_insert_self e "network" (.object m')), hkeys, hvalid]

theorem Writes.valid_iff (w : Writes name tree tree') {k : String} :
    Valid tree' k ↔ Valid tree k :=
  w.iff_of_write fun w => w.valid_iff

/-! ### Files -/

/-- The files that are spoken of: the entries are in the order of their names, the metadata
has the version 1 and nothing else, and every other name starts with neither mark and has
an object. -/
structure Plain (file : Object) : Prop where
  ordered : file.Ordered
  metadata : ∃ version : Json, file.find "!metadata" = some (.object [("version", version)]) ∧
    version.eqInteger 1 = true
  names : ∀ name ∈ file.keys, name ≠ "!metadata" →
    name.toList.head? ≠ some '!' ∧ name.toList.head? ≠ some ':'
  entities : ∀ name j, file.find name = some j → ∃ e : Object, j = .object e

/-- What a file has to be. -/
structure FileValid (file : Object) : Prop where
  entity : ∀ name e, file.find name = some (.object e) → name ≠ "!metadata" → EntityValid file e
  default : ∀ a b, HasDefault file a → HasDefault file b → a = b

theorem Plain.find_default (h : Plain file) : file.find ":default-netns" = none := by
  rw [OrdMap.find_eq_none_iff]
  intro hk
  exact (h.names _ hk (by decide)).2 (by decide)

theorem Plain.validateMetadata (h : Plain file) : validateMetadata (.object file) = .ok () := by
  obtain ⟨version, hmeta, hversion⟩ := h.metadata
  simp [Config.validateMetadata, hmeta, validateMetadataKeys, OrdMap.find_cons, hversion, bind,
    Except.bind, pure, Except.pure]

/-- The metadata has no network. -/
theorem Plain.not_hasDefault (h : Plain file) : ¬ HasDefault file "!metadata" := by
  rintro ⟨m, hm, -⟩
  obtain ⟨version, hmeta, -⟩ := h.metadata
  cases (network_iff_of_object hmeta).mp hm

/-! ### The walk over the entries -/

/-- Where the walk is, with `keys` before it: every entity is valid, one at most has the
parameter `default`, what is recorded is that one, and the record is not in the way. -/
structure Walking (tree : Object) (keys : List String) : Prop where
  ordered : keys.Pairwise (· < ·)
  entities : ∀ name ∈ keys,
    tree.find name = none ∨ ∃ e : Object, tree.find name = some (.object e)
  valid : ∀ name, name ≠ "!metadata" → Valid tree name
  default : ∀ a b, HasDefault tree a → HasDefault tree b → a = b
  behind : ∀ a, HasDefault tree a → ":default-netns" < a
  record : tree.find ":default-netns" = none ∨
    ∃ a, tree.find ":default-netns" = some (.string a) ∧ HasDefault tree a
  ahead : ":default-netns" ∈ keys → tree.find ":default-netns" = none

theorem Walking.skip {key : String} {keys : List String} (h : Walking tree (key :: keys)) :
    Walking tree keys :=
  ⟨(List.pairwise_cons.mp h.ordered).2, fun name hn => h.entities name (List.mem_cons_of_mem _ hn),
    h.valid, h.default, h.behind, h.record, fun hd => h.ahead (List.mem_cons_of_mem _ hd)⟩

/-- Only a record appears where nothing was. -/
theorem Writes.find_of_none (w : Writes name tree tree') {k : String} (h : tree.find k = none) :
    tree'.find k = none ∨ (k = ":default-netns" ∧ ∃ s, tree'.find k = some (.string s)) := by
  induction w with
  | refl => exact Or.inl h
  | @tail tree₁ tree₂ _ w ih =>
    rcases w.find k with hf | ⟨hk, -, hf⟩ | ⟨e, m, m', he, -, -⟩
    · rw [hf]
      exact ih
    · exact Or.inr ⟨hk, _, hf⟩
    · rcases ih with hnone | ⟨-, s, hs⟩
      · rw [hnone] at he
        cases he
      · rw [hs] at he
        cases he

theorem Writes.find_object (w : Writes name tree tree') {k : String} {e : Object}
    (h : tree.find k = some (.object e)) : ∃ e' : Object, tree'.find k = some (.object e') := by
  induction w with
  | refl => exact ⟨e, h⟩
  | tail _ w ih =>
    obtain ⟨e₁, he₁⟩ := ih
    rcases w.find k with hf | ⟨-, hnull, -⟩ | ⟨_, _, _, -, -, hf⟩
    · exact ⟨e₁, hf.trans he₁⟩
    · rw [he₁] at hnull
      cases hnull
    · exact ⟨_, hf⟩

/-- Without the parameter nothing is recorded. -/
theorem find_default_of_not_hasDefault (h : validateEntity name tree = .ok () tree')
    (hno : ¬ HasDefault tree name) (hnone : tree.find ":default-netns" = none) :
    tree'.find ":default-netns" = none := by
  rcases (validateEntity_spec h).1.find_of_none hnone with hf | ⟨-, s, hs⟩
  · exact hf
  · have hrecorded := (validateEntity_recorded h).2 hno
    rw [recorded_eq_some_iff.mpr hs, recorded, hnone] at hrecorded
    cases hrecorded

/-- **One entry.** -/
theorem Walking.turn {key : String} {keys : List String} (h : Walking tree (key :: keys))
    (hturn : validateEntity key tree = .ok () tree') : Walking tree' keys := by
  obtain ⟨hlt, hordered⟩ := List.pairwise_cons.mp h.ordered
  have w : Writes key tree tree' := (validateEntity_spec hturn).1
  have hahead : ":default-netns" ∈ keys → tree'.find ":default-netns" = none := fun hd =>
    find_default_of_not_hasDefault hturn (fun hk => lt_asymm (hlt _ hd) (h.behind _ hk))
      (h.ahead (List.mem_cons_of_mem _ hd))
  refine ⟨hordered, fun name hn => ?_, fun name hne => w.valid_iff.mpr (h.valid name hne),
    fun a b ha hb => h.default a b (w.hasDefault.mp ha) (w.hasDefault.mp hb),
    fun a ha => h.behind a (w.hasDefault.mp ha), ?_, hahead⟩
  · rcases h.entities name (List.mem_cons_of_mem _ hn) with hnone | ⟨e, he⟩
    · rcases w.find_of_none hnone with hf | ⟨rfl, -⟩
      · exact Or.inl hf
      · exact Or.inl (hahead hn)
    · exact Or.inr (w.find_object he)
  · by_cases hk : HasDefault tree key
    · exact Or.inr ⟨key, recorded_eq_some_iff.mp ((validateEntity_recorded hturn).1 hk).1,
        w.hasDefault.mpr hk⟩
    · rcases h.record with hnone | ⟨a, ha, hda⟩
      · exact Or.inl (find_default_of_not_hasDefault hturn hk hnone)
      · have hrecorded := (validateEntity_recorded hturn).2 hk
        rw [recorded_eq_some_iff.mpr ha] at hrecorded
        exact Or.inr ⟨a, recorded_eq_some_iff.mp hrecorded, w.hasDefault.mpr hda⟩

theorem Walking.defaultFree {keys : List String} (h : Walking tree keys)
    (hd : HasDefault tree name) : DefaultFree tree name := by
  rcases h.record with hnone | ⟨a, ha, hda⟩
  · exact Or.inl (by rw [hnone]; rfl)
  · exact Or.inr (h.default a name hda hd ▸ ha)

/-- **The walk comes to its end.** -/
theorem Walking.validateEntries {keys : List String} (h : Walking tree keys) :
    ∃ tree', validateEntries keys tree = .ok () tree' := by
  induction keys generalizing tree with
  | nil => exact ⟨tree, rfl⟩
  | cons key keys ih =>
    by_cases hkey : key ≠ "!metadata" ∧ (tree.find key).isSome
    · obtain ⟨e, he⟩ : ∃ e : Object, tree.find key = some (.object e) := by
        refine (h.entities key List.mem_cons_self).resolve_left fun hnone => ?_
        rw [hnone] at hkey
        exact absurd hkey.2 (by simp)
      obtain ⟨tree₁, h₁⟩ := (validateEntity_ok_iff he).mpr
        ⟨h.valid key hkey.1 e he, h.defaultFree⟩
      obtain ⟨tree', hrest⟩ := ih (h.turn h₁)
      refine ⟨tree', ?_⟩
      rw [Config.validateEntries, get_bind_apply, if_pos hkey]
      exact (bind_of_ok h₁).trans hrest
    · obtain ⟨tree', hrest⟩ := ih h.skip
      refine ⟨tree', ?_⟩
      rw [Config.validateEntries, get_bind_apply, if_neg hkey]
      exact hrest

/-- A walk that comes to its end has found every entity valid. -/
theorem validateEntries_valid {keys : List String}
    (h : validateEntries keys tree = .ok () tree') :
    ∀ k ∈ keys, k ≠ "!metadata" → Valid tree k := by
  induction keys generalizing tree with
  | nil => exact fun k hk => absurd hk List.not_mem_nil
  | cons key keys ih =>
    intro k hk hne
    rcases validateEntries_cons_cases h with ⟨hskip, h⟩ | ⟨tree₁, -, h₁, h⟩
    · rcases List.mem_cons.mp hk with rfl | hk
      · intro e he
        rw [hskip.resolve_left hne] at he
        cases he
      · exact ih h k hk hne
    · rcases List.mem_cons.mp hk with rfl | hk
      · exact fun e he => ((validateEntity_ok_iff he).mp ⟨tree₁, h₁⟩).1
      · exact (validateEntity_spec h₁).1.valid_iff.mp (ih h k hk hne)

/-- A default that comes before the record is met behind it. -/
theorem validateEntries_early {keys : List String} {a : String} (hkeys : keys.Pairwise (· < ·))
    (hmem : ":default-netns" ∈ keys) (hlt : a < ":default-netns") (ha : a ∈ keys)
    (hne : a ≠ "!metadata") (hd : HasDefault tree a) : validateEntries keys tree ≠ .ok () tree' := by
  intro h
  induction keys generalizing tree with
  | nil => cases ha
  | cons key keys ih =>
    obtain ⟨hhead, htail⟩ := List.pairwise_cons.mp hkeys
    have hmem' : key ≠ ":default-netns" → ":default-netns" ∈ keys := fun hk =>
      (List.mem_cons.mp hmem).resolve_left fun hc => hk hc.symm
    have hkey : key ≠ ":default-netns" := by
      rintro rfl
      rcases List.mem_cons.mp ha with rfl | ha
      · exact lt_irrefl _ hlt
      · exact lt_asymm hlt (hhead a ha)
    rcases validateEntries_cons_cases h with ⟨hskip, hrest⟩ | ⟨tree₁, -, h₁, hrest⟩
    · refine ih htail (hmem' hkey) ((List.mem_cons.mp ha).resolve_left ?_) hd hrest
      rintro rfl
      obtain ⟨e, he⟩ := hd.find
      rw [hskip.resolve_left hne] at he
      cases he
    · rcases List.mem_cons.mp ha with rfl | ha
      · have hrecorded := ((validateEntity_recorded h₁).1 hd).1
        exact ((validateEntries_recorded hrest).1 _ hrecorded).2 (hmem' hkey)
      · exact ih htail (hmem' hkey) ha ((validateEntity_spec h₁).1.hasDefault.mpr hd) hrest

/-- **Which files are loaded.** -/
theorem load_ok_iff (h : Plain file) :
    (∃ c, load (.object file) = .ok c) ↔
      FileValid file ∧ ∀ a, HasDefault file a → ":default-netns" < a := by
  have hordered : (file.insert ":default-netns" .null).keys.Pairwise (· < ·) := h.ordered.insert
  have hkeys : ∀ {k j}, file.find k = some j → k ∈ (file.insert ":default-netns" .null).keys :=
    fun hk => OrdMap.mem_keys_insert.mpr (Or.inr (OrdMap.mem_keys_iff.mpr ⟨_, hk⟩))
  constructor
  · rintro ⟨c, hload⟩
    obtain ⟨_, hj, -, hrun⟩ := load_eq_ok hload
    cases hj
    refine ⟨⟨fun name e he hne => validateEntries_valid hrun name (hkeys he) hne e he, ?_⟩, ?_⟩
    · intro a b ha hb
      have hsingle := load_singleDefault hload
      have ha' := (hsingle a).mp ((validateEntries_hasDefault hrun).mpr ha)
      have hb' := (hsingle b).mp ((validateEntries_hasDefault hrun).mpr hb)
      exact Option.some.inj (ha'.symm.trans hb')
    · intro a ha
      obtain ⟨e, he⟩ := ha.find
      by_contra hlt
      rcases lt_or_eq_of_le (not_lt.mp hlt) with hlt | rfl
      · refine validateEntries_early hordered (OrdMap.mem_keys_insert.mpr (Or.inl rfl)) hlt
          (hkeys he) ?_ ha hrun
        rintro rfl
        exact h.not_hasDefault ha
      · rw [h.find_default] at he
        cases he
  · rintro ⟨hvalid, hbehind⟩
    have hwalking : Walking file (file.insert ":default-netns" .null).keys := by
      refine ⟨hordered, fun name _ => ?_, fun name hne e he => hvalid.entity name e he hne,
        hvalid.default, hbehind, Or.inl h.find_default, fun _ => h.find_default⟩
      cases hf : file.find name with
      | none => exact Or.inl rfl
      | some j =>
        obtain ⟨e, rfl⟩ := h.entities name j hf
        exact Or.inr ⟨e, rfl⟩
    obtain ⟨tree', hrun⟩ := hwalking.validateEntries
    refine ⟨{ isMutable := false, configuration := tree' }, ?_⟩
    simp only [load, h.validateMetadata, hrun]

/-- **When loading accepts exactly the valid files.** -/
theorem load_accepts_iff (h : Plain file) :
    ((∃ c, load (.object file) = .ok c) ↔ FileValid file) ↔
      ¬ (FileValid file ∧ ∃ a, HasDefault file a ∧ a < ":default-netns") := by
  rw [load_ok_iff h]
  constructor
  · rintro hiff ⟨hvalid, a, ha, hlt⟩
    exact lt_asymm hlt ((hiff.mpr hvalid).2 a ha)
  · intro hno
    refine ⟨fun hload => hload.1, fun hvalid => ⟨hvalid, fun a ha => ?_⟩⟩
    refine lt_of_le_of_ne (not_lt.mp fun hlt => hno ⟨hvalid, a, ha, hlt⟩) ?_
    rintro rfl
    obtain ⟨e, he⟩ := ha.find
    rw [h.find_default] at he
    cases he

/-- A file with one entity, the default, under the name `name`. -/
def oneEntity (name : String) : Object :=
  [("!metadata", .object [("version", .integer 1)]),
    (name, .object [("network", .object [("default", .boolean true), ("role", .string "root")])])]

theorem oneEntity_plain (hname : "!metadata" < name) (hmark : name.toList.head? ≠ some '!')
    (hcolon : name.toList.head? ≠ some ':') : Plain (oneEntity name) := by
  refine ⟨List.pairwise_pair.mpr hname, ⟨_, rfl, rfl⟩, ?_, ?_⟩
  · intro k hk hne
    have hk' : k = "!metadata" ∨ k = name := by simpa [oneEntity] using hk
    rw [hk'.resolve_left hne]
    exact ⟨hmark, hcolon⟩
  · intro k j hk
    rw [oneEntity, OrdMap.find_cons, OrdMap.find_cons] at hk
    split_ifs at hk
    · exact ⟨_, (Option.some.inj hk).symm⟩
    · exact ⟨_, (Option.some.inj hk).symm⟩
    · cases hk

theorem load_accepts_iff_behind :
    (∃ c, load (.object (oneEntity "a")) = .ok c) ↔ FileValid (oneEntity "a") := by
  refine (load_accepts_iff (oneEntity_plain (by decide) (by decide) (by decide))).mpr ?_
  rintro ⟨-, a, ⟨m, hm, hd⟩, hlt⟩
  obtain ⟨e, he⟩ := HasDefault.find ⟨m, hm, hd⟩
  have hk : a = "!metadata" ∨ a = "a" := by
    simpa [oneEntity] using OrdMap.mem_keys_iff.mpr ⟨_, he⟩
  rcases hk with rfl | rfl
  · cases hm
  · exact absurd hlt (by decide)

/-- **A valid file whose default sorts before the record is refused.** -/
theorem load_refuses_valid :
    ¬ ∀ file : Object, Plain file → ((∃ c, load (.object file) = .ok c) ↔ FileValid file) := by
  intro h
  have hplain : Plain (oneEntity "1") := oneEntity_plain (by decide) (by decide) (by decide)
  have hrefused : (load (.object (oneEntity "1"))).isOk = false := by decide +kernel
  have hkeys : ∀ {a j}, (oneEntity "1").find a = some j → a = "!metadata" ∨ a = "1" := fun ha => by
    simpa [oneEntity] using OrdMap.mem_keys_iff.mpr ⟨_, ha⟩
  have hdefault : ∀ {a}, HasDefault (oneEntity "1") a → a = "1" := by
    intro a ha
    obtain ⟨e, he⟩ := ha.find
    refine (hkeys he).resolve_left ?_
    rintro rfl
    exact hplain.not_hasDefault ha
  have hvalid : FileValid (oneEntity "1") := by
    refine ⟨fun name e he hne => ?_, fun a b ha hb => (hdefault ha).trans (hdefault hb).symm⟩
    obtain rfl := (hkeys he).resolve_left hne
    cases hval : validateEntity "1" (oneEntity "1") with
    | ok _ tree' => exact ((validateEntity_ok_iff he).mp ⟨tree', hval⟩).1
    | error f tree' =>
      have hok : (match validateEntity "1" (oneEntity "1") with
        | .ok _ _ => true
        | .error _ _ => false) = true := by decide +kernel
      rw [hval] at hok
      cases hok
  obtain ⟨c, hc⟩ := (h _ hplain).mpr hvalid
  rw [hc] at hrefused
  cases hrefused

end Config

end Nonsense
