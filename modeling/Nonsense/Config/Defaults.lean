import Nonsense.Config.Accepted

/-!
# The default namespace

`:default-netns` stands in the tree among the entities.  `recorded` is the name it
holds, if it holds one, and `HasDefault` says of an entity that its network
component has the parameter `default`.  `SingleDefault` is that the two agree, so
that there is one such entity at most.

The record is written in the middle of a validation, by whatever entity comes
first, and an entity may even be called `:default-netns`; but a validation that
returns has recorded its own entity if that has the parameter, and has left the
record alone if not (`validateEntity_recorded`).
-/

namespace Nonsense

namespace Config

open EState

variable {name : String} {tree tree' : Object}

/-- The name that `:default-netns` records. -/
def recorded (tree : Object) : Option String :=
  match tree.find ":default-netns" with
  | some (.string s) => some s
  | _ => none

/-- The network component of the entity has the parameter `default`. -/
def HasDefault (tree : Object) (name : String) : Prop :=
  ∃ m, network tree name = some m ∧ "default" ∈ m.keys

theorem hasDefault_iff_of_object {tree e : Object} {name : String}
    (he : tree.find name = some (.object e)) :
    HasDefault tree name ↔ ∃ m : Object, e.find "network" = some (.object m) ∧ "default" ∈ m.keys :=
  exists_congr fun _ => and_congr_left fun _ => network_iff_of_object he

theorem HasDefault.find {tree : Object} {name : String} (h : HasDefault tree name) :
    ∃ e : Object, tree.find name = some (.object e) := by
  obtain ⟨m, hm, -⟩ := h
  obtain ⟨e, he, -⟩ := network_eq_some_iff.mp hm
  exact ⟨e, he⟩

/-- The record is of the entity with the parameter. -/
def SingleDefault (tree : Object) : Prop :=
  ∀ name, HasDefault tree name ↔ recorded tree = some name

theorem recorded_eq_some_iff {s : String} :
    recorded tree = some s ↔ tree.find ":default-netns" = some (.string s) := by
  unfold recorded
  split
  · rename_i s' hs
    rw [hs]
    simp
  · rename_i hno
    constructor
    · intro h
      cases h
    · intro h
      exact absurd h (hno s)

theorem recorded_of_find_eq (h : tree'.find ":default-netns" = tree.find ":default-netns") :
    recorded tree' = recorded tree := by
  rw [recorded, h, recorded]

theorem recorded_insert_ne {j : Json} (h : name ≠ ":default-netns") :
    recorded (tree.insert name j) = recorded tree :=
  recorded_of_find_eq (OrdMap.find_insert_ne _ _ h.symm)

theorem recorded_setComponent {type : String} {j : Json} :
    recorded (setComponent tree name type j) = recorded tree := by
  unfold setComponent
  split
  · rename_i entity he
    by_cases hname : name = ":default-netns"
    · -- an entity of that name is no record, and stays none
      subst hname
      rw [recorded, OrdMap.find_insert_self, recorded, he]
    · exact recorded_insert_ne hname
  · rfl

theorem Write.hasDefault (w : Write name tree tree') {k : String} :
    HasDefault tree' k ↔ HasDefault tree k := by
  have hforth : ∀ m, Config.network tree k = some m → ∃ m', Config.network tree' k = some m' ∧
      ("default" ∈ m'.keys ↔ "default" ∈ m.keys) := by
    intro m hm
    rcases w.network hm with hm' | ⟨-, r, hm'⟩ | ⟨-, hm'⟩
    · exact ⟨m, hm', Iff.rfl⟩
    · exact ⟨_, hm', by rw [OrdMap.mem_keys_insert]; simp⟩
    · exact ⟨_, hm', by rw [OrdMap.mem_keys_insert]; simp⟩
  constructor
  · rintro ⟨m', hm', hdefault⟩
    obtain ⟨m, hm⟩ := w.exists_network hm'
    obtain ⟨m₁, hm₁, hiff⟩ := hforth m hm
    rw [hm'] at hm₁
    cases hm₁
    exact ⟨m, hm, hiff.mp hdefault⟩
  · rintro ⟨m, hm, hdefault⟩
    obtain ⟨m', hm', hiff⟩ := hforth m hm
    exact ⟨m', hm', hiff.mpr hdefault⟩

theorem Writes.hasDefault (w : Writes name tree tree') {k : String} :
    HasDefault tree' k ↔ HasDefault tree k :=
  w.iff_of_write fun w => w.hasDefault

/-! ### What a validation does to the record -/

/-- The record of `name` is made, or was there. -/
def Records (tree tree' : Object) (name : String) : Prop :=
  recorded tree' = some name ∧ (recorded tree = none ∨ recorded tree = some name)

theorem subscript_recorded {type key : String} {v : Json}
    (h : subscript name type key tree = .ok v tree') : recorded tree' = recorded tree := by
  rw [subscript_apply] at h
  split at h
  · cases h; rfl
  · split at h
    · cases h
    · cases h; exact recorded_setComponent

theorem validateDefault_recorded (h : validateDefault name tree = .ok () tree') :
    Records tree tree' name := by
  rcases validateDefault_cases h with ⟨hd, rfl⟩ | ⟨hf, rfl⟩
  · have hnone : recorded tree = none := by
      cases hr : recorded tree with
      | none => rfl
      | some s =>
        rw [recorded_eq_some_iff.mp hr] at hd
        cases hd
    exact ⟨recorded_eq_some_iff.mpr (OrdMap.find_insert_self ..), Or.inl hnone⟩
  · exact ⟨recorded_eq_some_iff.mpr hf, Or.inr (recorded_eq_some_iff.mpr hf)⟩

/-- **One turn of the loop** touches the record only at the parameter `default`. -/
theorem validateParameter_recorded {key : String}
    (h : validateParameter name key tree = .ok () tree') :
    (key = "default" → Records tree tree' name) ∧
      (key ≠ "default" → recorded tree' = recorded tree) := by
  cases validateParameter_cases h with
  | colon hcolon => exact ⟨fun hk => absurd hcolon (by rw [hk]; decide), fun _ => rfl⟩
  | role | external => exact ⟨fun hk => absurd hk (by decide), fun _ => rfl⟩
  | default h => exact ⟨fun _ => validateDefault_recorded h, fun hk => absurd rfl hk⟩
  | address h =>
    obtain ⟨_, hrole, -⟩ := validateAddress_cases h
    exact ⟨fun hk => absurd hk (by decide), fun _ => subscript_recorded hrole⟩
  | uplink h =>
    obtain ⟨_, _, _, _, huplink, -, hrole, -⟩ := validateUplink_cases h
    exact ⟨fun hk => absurd hk (by decide),
      fun _ => (subscript_recorded hrole).trans (subscript_recorded huplink)⟩

theorem validateParameters_recorded : ∀ {keys : List String} {tree : Object},
    validateParameters name keys tree = .ok () tree' →
    ("default" ∈ keys → Records tree tree' name) ∧
      ("default" ∉ keys → recorded tree' = recorded tree) := by
  intro keys
  induction keys with
  | nil =>
    intro tree h
    cases h
    exact ⟨fun hk => absurd hk List.not_mem_nil, fun _ => rfl⟩
  | cons key keys ih =>
    intro tree h
    obtain ⟨_, tree₁, h₁, h⟩ := bind_eq_ok_iff.mp h
    obtain ⟨hdef, hother⟩ := validateParameter_recorded h₁
    obtain ⟨ihdef, ihother⟩ := ih h
    by_cases hk : key = "default"
    · obtain ⟨hnew, hold⟩ := hdef hk
      refine ⟨fun _ => ⟨?_, hold⟩, fun hno => absurd (hk ▸ List.mem_cons_self) hno⟩
      by_cases hrest : "default" ∈ keys
      · exact (ihdef hrest).1
      · exact (ihother hrest).trans hnew
    · rw [Records, ← hother hk]
      refine ⟨?_, ?_⟩
      · intro hmem
        exact ihdef ((List.mem_cons.mp hmem).resolve_left fun hc => hk hc.symm)
      · intro hno
        exact ihother fun hmem => hno (List.mem_cons_of_mem _ hmem)

theorem validateNetwork_recorded (h : validateNetwork name tree = .ok () tree') :
    (HasDefault tree name → Records tree tree' name) ∧
      (¬ HasDefault tree name → recorded tree' = recorded tree) := by
  obtain ⟨m, role, r, hnet, -, -, h⟩ := validateNetwork_loop h
  have hmem : HasDefault tree name ↔ "default" ∈ (m.insert ":role" (.integer r.toInt)).keys := by
    rw [OrdMap.mem_keys_insert, or_iff_right (by decide)]
    constructor
    · rintro ⟨m₁, hm₁, hdefault⟩
      rw [hnet] at hm₁
      cases hm₁
      exact hdefault
    · exact fun hdefault => ⟨m, hnet, hdefault⟩
  have hsame : recorded (setNetwork tree name (m.insert ":role" (.integer r.toInt))) =
      recorded tree := recorded_setComponent
  have hloop := validateParameters_recorded h
  rwa [← hmem, Records, hsame] at hloop

theorem validateComponents_recorded : ∀ {types : List String} {tree : Object},
    validateComponents name types tree = .ok () tree' → types ≠ [] →
    (HasDefault tree name → Records tree tree' name) ∧
      (¬ HasDefault tree name → recorded tree' = recorded tree) := by
  intro types
  induction types with
  | nil => exact fun _ hnil => absurd rfl hnil
  | cons type types ih =>
    intro tree h _
    obtain ⟨-, tree₁, h₁, h⟩ := validateComponents_cons_cases h
    have hnet := validateNetwork_recorded h₁
    obtain ⟨_, _, _, -, -, -, hw₁, -, -⟩ := validateNetwork_spec h₁
    cases types with
    | nil => cases h; exact hnet
    | cons t ts =>
      have hrest := ih h (List.cons_ne_nil t ts)
      rw [hw₁.hasDefault] at hrest
      refine ⟨?_, ?_⟩
      · intro hdefault
        exact ⟨(hrest.1 hdefault).1, (hnet.1 hdefault).2⟩
      · intro hno
        exact (hrest.2 hno).trans (hnet.2 hno)

/-- **What a validation that returns does to the record.** -/
theorem validateEntity_recorded (h : validateEntity name tree = .ok () tree') :
    (HasDefault tree name → Records tree tree' name) ∧
      (¬ HasDefault tree name → recorded tree' = recorded tree) := by
  rw [validateEntity, get_bind_apply] at h
  by_cases hnil : ((tree.find name).getD .null).itemKeys = []
  · -- without components there is no network
    have hno : ¬ HasDefault tree name := by
      rintro ⟨m, hm, -⟩
      obtain ⟨e, he, hem⟩ := network_eq_some_iff.mp hm
      rw [he, Option.getD_some] at hnil
      have hmem := Json.mem_itemKeys_object.mpr ⟨_, hem⟩
      rw [hnil] at hmem
      exact absurd hmem List.not_mem_nil
    rw [hnil] at h
    cases h
    exact ⟨fun hdefault => absurd hdefault hno, fun _ => rfl⟩
  · exact validateComponents_recorded h hnil

/-- A record that is made stays. -/
theorem recorded_of_validateEntity {s : String} (h : validateEntity name tree = .ok () tree')
    (hs : recorded tree = some s) : recorded tree' = some s := by
  obtain ⟨hdef, hother⟩ := validateEntity_recorded h
  by_cases hdefault : HasDefault tree name
  · obtain ⟨hnew, hold⟩ := hdef hdefault
    rw [hs] at hold
    exact hnew.trans (hold.resolve_left (by simp)).symm
  · exact (hother hdefault).trans hs

/-- A record is not an entity. -/
theorem validateEntity_record_ne_ok {s : String} (hs : recorded tree = some s) :
    validateEntity ":default-netns" tree ≠ .ok () tree' := by
  intro h
  rw [validateEntity, get_bind_apply, recorded_eq_some_iff.mp hs] at h
  cases h

/-! ### Loading -/

/-- What a loop over the entries `keys` records: what was recorded stays, anything else is of an
entity with the parameter, and each of `keys` that has it is recorded in the end. -/
structure RecordsOf (keys : List String) (tree tree' : Object) : Prop where
  keeps : ∀ s, recorded tree = some s → recorded tree' = some s ∧ ":default-netns" ∉ keys
  only : ∀ s, recorded tree' = some s → recorded tree = some s ∨ HasDefault tree s
  all : ∀ k ∈ keys, k ≠ "!metadata" → HasDefault tree k → recorded tree' = some k

/-- An entry that the loop passes over. -/
theorem RecordsOf.skip {key : String} {keys : List String} (h : RecordsOf keys tree tree')
    (hskip : key = "!metadata" ∨ tree.find key = none) : RecordsOf (key :: keys) tree tree' := by
  refine ⟨fun s hs => ⟨(h.keeps s hs).1, ?_⟩, h.only, ?_⟩
  · rw [List.mem_cons, not_or]
    refine ⟨?_, (h.keeps s hs).2⟩
    rintro rfl
    rcases hskip with hmetadata | hnone
    · exact absurd hmetadata (by decide)
    · rw [recorded_eq_some_iff.mp hs] at hnone
      cases hnone
  · intro k hk hne hdefault
    rcases List.mem_cons.mp hk with rfl | hk
    · obtain ⟨e, he⟩ := hdefault.find
      rw [he] at hskip
      exact absurd (hskip.resolve_left hne) (by simp)
    · exact h.all k hk hne hdefault

/-- An entry that is validated. -/
theorem RecordsOf.turn {key : String} {keys : List String} {tree₁ : Object}
    (h : RecordsOf keys tree₁ tree') (hturn : validateEntity key tree = .ok () tree₁) :
    RecordsOf (key :: keys) tree tree' := by
  obtain ⟨hdef, hother⟩ := validateEntity_recorded hturn
  have hiff : ∀ {k}, HasDefault tree₁ k ↔ HasDefault tree k :=
    (validateEntity_spec hturn).1.hasDefault
  refine ⟨?_, ?_, ?_⟩
  · intro s hs
    obtain ⟨hlater, hnot⟩ := h.keeps s (recorded_of_validateEntity hturn hs)
    refine ⟨hlater, ?_⟩
    rw [List.mem_cons, not_or]
    refine ⟨?_, hnot⟩
    rintro rfl
    exact validateEntity_record_ne_ok hs hturn
  · intro s hs
    rcases h.only s hs with hs₁ | hdefault
    · by_cases hkey : HasDefault tree key
      · rw [(hdef hkey).1] at hs₁
        cases hs₁
        exact Or.inr hkey
      · exact Or.inl ((hother hkey).symm.trans hs₁)
    · exact Or.inr (hiff.mp hdefault)
  · intro k hk hne hdefault
    rcases List.mem_cons.mp hk with rfl | hk
    · exact (h.keeps k (hdef hdefault).1).1
    · exact h.all k hk hne (hiff.mpr hdefault)

/-- **The loop over the entries.** -/
theorem validateEntries_recorded {keys : List String}
    (h : validateEntries keys tree = .ok () tree') : RecordsOf keys tree tree' := by
  induction keys generalizing tree with
  | nil =>
    cases h
    exact ⟨fun s hs => ⟨hs, List.not_mem_nil⟩, fun s hs => Or.inl hs,
      fun k hk => absurd hk List.not_mem_nil⟩
  | cons key keys ih =>
    rcases validateEntries_cons_cases h with ⟨hskip, h⟩ | ⟨tree₁, -, h₁, h⟩
    · exact (ih h).skip hskip
    · exact (ih h).turn h₁

theorem validateEntries_hasDefault {keys : List String} {k : String}
    (h : validateEntries keys tree = .ok () tree') : HasDefault tree' k ↔ HasDefault tree k :=
  validateEntries_keeps (P := fun t => HasDefault t k ↔ HasDefault tree k) h Iff.rfl
    fun w ih => w.hasDefault.trans ih

/-- **What is loaded has a single default.** -/
theorem load_singleDefault {j : Json} {c : Config} (h : load j = .ok c) :
    SingleDefault c.configuration := by
  obtain ⟨file, rfl, hmeta, hrun⟩ := load_eq_ok h
  obtain ⟨hkeep, honly, hall⟩ := validateEntries_recorded hrun
  have hnone : recorded file = none := by
    cases hr : recorded file with
    | none => rfl
    | some s =>
      have hmem : ":default-netns" ∈ (file.insert ":default-netns" .null).keys :=
        OrdMap.mem_keys_insert.mpr (Or.inl rfl)
      exact absurd hmem (hkeep s hr).2
  intro name
  rw [validateEntries_hasDefault hrun]
  constructor
  · intro hdefault
    obtain ⟨e, he, hem⟩ := network_eq_some_iff.mp hdefault.choose_spec.1
    refine hall name ?_ ?_ hdefault
    · rw [OrdMap.mem_keys_insert, OrdMap.mem_keys_iff]
      exact Or.inr ⟨_, he⟩
    · rintro rfl
      obtain ⟨m', hm', hnet⟩ := validateMetadata_spec hmeta
      rw [Json.find_object, he] at hm'
      cases hm'
      rw [Json.find_object, hem] at hnet
      cases hnet
  · intro hs
    exact (honly name hs).resolve_left (by rw [hnone]; simp)

/-! ### Adding -/

variable {parse : String → Option Json} {c c' : Config} {params : List ParameterValue}
  {r : ConfigResult}

theorem place_object {value : Json} {last : String} : ∀ {path : List String} {seen : String}
    {j j' : Json}, place value last path seen j = .done j' → ∃ m, j' = .object m := by
  intro path
  cases path with
  | nil =>
    intro seen j j' h
    simp only [place] at h
    split at h
    · split at h
      · rename_i tree ha
        cases h
        unfold Json.assign at ha
        split at ha <;> cases ha <;> exact ⟨_, rfl⟩
      · cases h
    · cases h
  | cons subkey path =>
    intro seen j j' h
    simp only [place] at h
    split at h
    · split at h
      · cases h; exact ⟨_, rfl⟩
      · cases h
      · rename_i hdone _
        exact absurd h (hdone j')
    · cases h

/-- The parameters make an object. -/
theorem buildEntity_object : ∀ {ps : List ParameterValue} {m : Object} {e : Json},
    buildEntity parse name ps (.object m) = .done e → ∃ m', e = .object m' := by
  intro ps
  induction ps with
  | nil => intro m e h; cases h; exact ⟨m, rfl⟩
  | cons p ps ih =>
    intro m e h
    simp only [buildEntity] at h
    split at h
    · rename_i e₁ hp
      obtain ⟨m₁, rfl⟩ := place_object hp
      exact ih h
    · cases h
    · cases h
    · cases h

/-- **An `add` that succeeds keeps the default single.** -/
theorem add_singleDefault (hsingle : SingleDefault c.configuration)
    (h : add parse c name params = .returned r c') (hr : r.errorCode = 0) :
    SingleDefault c'.configuration := by
  obtain ⟨-, hname, entity, tree', hbuild, hval, rfl⟩ := add_eq_zero h hr
  obtain ⟨e, rfl⟩ := buildEntity_object hbuild
  let tree := c.configuration.insert name (.object e)
  have hrecorded : recorded tree = recorded c.configuration := by
    by_cases hd : name = ":default-netns"
    · subst hd
      rw [recorded, OrdMap.find_insert_self, recorded, hname]
    · exact recorded_insert_ne hd
  have hold : ∀ k, k ≠ name → (HasDefault tree k ↔ HasDefault c.configuration k) := by
    intro k hk
    unfold HasDefault
    rw [network_of_find_eq (OrdMap.find_insert_ne _ _ hk)]
  have hfresh : ¬ HasDefault c.configuration name := by
    intro hd
    obtain ⟨_, he⟩ := hd.find
    rw [hname] at he
    cases he
  obtain ⟨hdef, hother⟩ := validateEntity_recorded hval
  intro k
  rw [(validateEntity_spec hval).1.hasDefault]
  by_cases hdefault : HasDefault tree name
  · -- nothing was recorded before
    obtain ⟨hnew, hwas⟩ := hdef hdefault
    have hnone : recorded c.configuration = none := by
      rw [← hrecorded]
      refine hwas.resolve_right fun hs => hfresh ((hsingle name).mpr ?_)
      rwa [← hrecorded]
    show HasDefault tree k ↔ recorded tree' = some k
    rw [hnew, Option.some.injEq]
    by_cases hk : k = name
    · subst hk
      exact iff_of_true hdefault rfl
    · rw [hold k hk, hsingle k, hnone]
      exact iff_of_false (by simp) fun hc => hk hc.symm
  · show HasDefault tree k ↔ recorded tree' = some k
    rw [hother hdefault, hrecorded, ← hsingle k]
    by_cases hk : k = name
    · subst hk
      exact iff_of_false hdefault hfresh
    · exact hold k hk

end Config

end Nonsense
