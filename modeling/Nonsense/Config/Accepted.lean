import Nonsense.Config.Validate

/-!
# Accepted configurations are well formed

`load_wellFormed`: what the constructor from a file accepts is `WellFormed`.  The
loop may meet an uplink before it has validated it; what it checks of the uplink
then (`UplinkOk`) is kept by every later write, and the rest is checked when the
loop gets there.

`add_wellFormed`: an `add` that succeeds keeps it.  `add_find`: such an `add`
leaves every other entry as it was, except that it may record the default
namespace where none was recorded.
-/

namespace Nonsense

namespace Config

open EState

variable {name : String} {tree tree' : Object}

/-! ### Loading -/

theorem validateMetadataKeys_spec : ∀ {keys : List String},
    validateMetadataKeys keys = .ok () → ∀ key ∈ keys, key = "version" := by
  intro keys
  induction keys with
  | nil => intro _ key hk; exact absurd hk List.not_mem_nil
  | cons key keys ih =>
    intro h k hk
    rw [validateMetadataKeys] at h
    split at h
    · rename_i he
      rcases List.mem_cons.mp hk with rfl | hk
      · exact he
      · exact ih h k hk
    · cases h

theorem validateMetadata_spec {j : Json} (h : validateMetadata j = .ok ()) :
    ∃ m, j.find "!metadata" = some m ∧ m.find "network" = none := by
  unfold validateMetadata at h
  split at h
  · cases h
  · rename_i m hm
    refine ⟨.object m, hm, ?_⟩
    cases hk : validateMetadataKeys (OrdMap.keys m) with
    | error f => rw [hk] at h; cases h
    | ok _ =>
      rw [Json.find_object, OrdMap.find_eq_none_iff]
      intro hmem
      exact absurd (validateMetadataKeys_spec hk _ hmem) (by decide)
  · cases h

/-- A turn of the loop passes over an entry, or validates it. -/
theorem validateEntries_cons_cases {key : String} {keys : List String}
    (h : validateEntries (key :: keys) tree = .ok () tree') :
    ((key = "!metadata" ∨ tree.find key = none) ∧ validateEntries keys tree = .ok () tree') ∨
    ∃ tree₁, key ≠ "!metadata" ∧ validateEntity key tree = .ok () tree₁ ∧
      validateEntries keys tree₁ = .ok () tree' := by
  rw [validateEntries, get_bind_apply] at h
  split at h
  · rename_i hkey
    obtain ⟨_, tree₁, h₁, h⟩ := bind_eq_ok_iff.mp h
    exact Or.inr ⟨tree₁, hkey.1, h₁, h⟩
  · rename_i hskip
    refine Or.inl ⟨?_, h⟩
    rw [not_and_or, not_not] at hskip
    exact hskip.imp_right Option.not_isSome_iff_eq_none.mp

/-- **The loop over the entries.**  What it still has to do covers every entity
that is not as it should be yet. -/
theorem validateEntries_spec : ∀ {keys : List String} {tree : Object},
    (∃ j, tree.find "!metadata" = some j ∧ j.find "network" = none) →
    (∀ k, IsEntity tree k → k ∈ keys ∨ EntityOk tree k) →
    validateEntries keys tree = .ok () tree' → WellFormed tree' := by
  intro keys
  induction keys with
  | nil =>
    intro tree hmeta hrest h
    cases h
    exact ⟨hmeta, fun k hk => (hrest k hk).resolve_left List.not_mem_nil⟩
  | cons key keys ih =>
    intro tree hmeta hrest h
    rcases validateEntries_cons_cases h with ⟨hskip, h⟩ | ⟨tree₁, -, h₁, h⟩
    · refine ih hmeta (fun k hk => ?_) h
      rcases hrest k hk with hmem | hke
      · refine Or.inl ((List.mem_cons.mp hmem).resolve_left ?_)
        rintro rfl
        rcases hskip with hmetadata | hnone
        · exact hk.2.1 hmetadata
        · exact absurd hk.1 (by simp [hnone])
      · exact Or.inr hke
    · obtain ⟨hw, hok⟩ := validateEntity_spec h₁
      refine ih (hw.metadata hmeta) (fun k hk => ?_) h
      by_cases hkk : k = key
      · exact Or.inr (hkk ▸ hok (hkk ▸ hk))
      · rcases hrest k (hw.isEntity hk) with hmem | hke
        · exact Or.inl ((List.mem_cons.mp hmem).resolve_left hkk)
        · exact Or.inr (hke.writes hw hkk hk)

/-- The loop only writes what a validation writes. -/
theorem validateEntries_writes : ∀ {keys : List String} {tree : Object},
    validateEntries keys tree = .ok () tree' →
    Relation.ReflTransGen (fun t t' => ∃ name, Write name t t') tree tree' := by
  intro keys
  induction keys with
  | nil => intro tree h; cases h; exact .refl
  | cons key keys ih =>
    intro tree h
    rcases validateEntries_cons_cases h with ⟨-, h⟩ | ⟨tree₁, -, h₁, h⟩
    · exact ih h
    · have hw : Relation.ReflTransGen (fun t t' => ∃ name, Write name t t') tree tree₁ :=
        Relation.ReflTransGen.mono (fun _ _ w => ⟨key, w⟩) _ _ (validateEntity_spec h₁).1
      exact hw.trans (ih h)

/-- What every write keeps, the loop over the entries keeps. -/
theorem validateEntries_keeps {P : Object → Prop} {keys : List String}
    (h : validateEntries keys tree = .ok () tree') (h0 : P tree)
    (hwrite : ∀ {name : String} {t t' : Object}, Write name t t' → P t → P t') : P tree' := by
  have hw := validateEntries_writes h
  clear h
  induction hw with
  | refl => exact h0
  | tail _ hw ih =>
    obtain ⟨_, w⟩ := hw
    exact hwrite w ih

/-- What the constructor from a file goes through when it does not throw. -/
theorem load_eq_ok {j : Json} {c : Config} (h : load j = .ok c) :
    ∃ file : Object, j = .object file ∧ validateMetadata j = .ok () ∧
      validateEntries (file.insert ":default-netns" .null).keys file = .ok () c.configuration := by
  unfold load at h
  split at h
  · cases h
  · rename_i file hmeta
    split at h
    · rename_i tree' hrun
      cases h
      exact ⟨file, rfl, hmeta, hrun⟩
    · cases h
  · cases h

/-- **A configuration that is loaded is well formed.** -/
theorem load_wellFormed {j : Json} {c : Config} (h : load j = .ok c) :
    WellFormed c.configuration := by
  obtain ⟨file, rfl, hmeta, hrun⟩ := load_eq_ok h
  refine validateEntries_spec (validateMetadata_spec hmeta) (fun k hk => Or.inl ?_) hrun
  rw [OrdMap.mem_keys_insert, OrdMap.mem_keys_iff]
  exact Or.inr (Option.isSome_iff_exists.mp hk.1)

/-! ### Adding -/

/-- An entry that is not there does not matter to the others. -/
theorem EntityOk.insert {k : String} {e : Json} (hname : tree.find name = none) (hk : k ≠ name)
    (h : EntityOk tree k) : EntityOk (tree.insert name e) k := by
  have hfind : ∀ k, k ≠ name → (tree.insert name e).find k = tree.find k :=
    fun k hk => OrdMap.find_insert_ne tree e hk
  refine ⟨fun e' he' => h.types e' ((hfind k hk).symm.trans he'), ?_⟩
  intro e' j he' hj
  obtain ⟨m, hm, hok⟩ := h.network e' j ((hfind k hk).symm.trans he') hj
  refine ⟨m, hm, hok.mono ?_⟩
  rintro _ ⟨u, um, rfl, hum, hrole⟩
  have hu : u ≠ name := by
    rintro rfl
    obtain ⟨_, hue, -⟩ := network_eq_some_iff.mp hum
    rw [hname] at hue
    cases hue
  exact ⟨u, um, rfl, (network_of_find_eq (hfind u hu)).trans hum, hrole⟩

theorem IsEntity.of_insert {k : String} {e : Json} (hk : k ≠ name)
    (h : IsEntity (tree.insert name e) k) : IsEntity tree k := by
  unfold IsEntity at h ⊢
  rwa [OrdMap.find_insert_ne tree e hk] at h

variable {parse : String → Option Json} {c c' : Config} {params : List ParameterValue}
  {r : ConfigResult}

/-- A loop over the parameters that returns from `add` returns `-EINVAL`. -/
theorem buildEntity_errorCode {name : String} : ∀ {ps : List ParameterValue} {e : Json},
    (∃ e', buildEntity parse name ps e = .left r e') ∨ buildEntity parse name ps e = .erased r →
      r.errorCode = -EINVAL := by
  intro ps
  induction ps with
  | nil => rintro e (⟨e', h⟩ | h) <;> cases h
  | cons p ps ih =>
    intro e h
    simp only [buildEntity] at h
    cases hp : place (parameterValue parse p.value) (splitKey p.parameter).2
        (splitKey p.parameter).1 "" e with
    | done e₁ =>
      simp only [hp] at h
      exact ih h
    | blocked upTo e₁ =>
      simp only [hp, Built.left.injEq, reduceCtorEq, or_false] at h
      obtain ⟨_, rfl, -⟩ := h
      rfl
    | taken =>
      simp only [hp, Built.erased.injEq, reduceCtorEq, exists_false, false_or] at h
      rw [← h]
    | threw f => simp [hp] at h

/-- **How an `add` succeeds.** -/
theorem add_eq_zero (h : add parse c name params = .returned r c') (hr : r.errorCode = 0) :
    c.isMutable = true ∧ c.configuration.find name = none ∧
      ∃ entity tree', buildEntity parse name params (.object []) = .done entity ∧
        validateEntity name (c.configuration.insert name entity) = .ok () tree' ∧
        c' = { c with configuration := tree' } := by
  unfold add at h
  split at h
  · cases h; exact absurd hr (by decide)
  rename_i hmut
  split at h
  · cases h; exact absurd (show -EEXIST = 0 from hr) (by decide)
  rename_i hfind
  refine ⟨by simpa using hmut, by simpa using hfind, ?_⟩
  split at h
  · cases h
  · rename_i r' entity hbuild
    cases h
    rw [buildEntity_errorCode (Or.inl ⟨entity, hbuild⟩)] at hr
    exact absurd hr (by decide)
  · rename_i r' hbuild
    cases h
    rw [buildEntity_errorCode (Or.inr hbuild)] at hr
    exact absurd hr (by decide)
  · rename_i entity hbuild
    split at h
    · rename_i tree' hval
      cases h
      exact ⟨entity, tree', hbuild, hval, rfl⟩
    · cases h; exact absurd (show -EINVAL = 0 from hr) (by decide)
    · cases h

/-- **An `add` that succeeds keeps a configuration well formed.** -/
theorem add_wellFormed (hwf : WellFormed c.configuration)
    (h : add parse c name params = .returned r c') (hr : r.errorCode = 0) :
    WellFormed c'.configuration := by
  obtain ⟨-, hname, entity, tree', -, hval, rfl⟩ := add_eq_zero h hr
  obtain ⟨hw, hok⟩ := validateEntity_spec hval
  obtain ⟨j, hj, hjn⟩ := hwf.metadata
  refine ⟨hw.metadata ⟨j, ?_, hjn⟩, ?_⟩
  · rwa [OrdMap.find_insert_ne]
    rintro rfl
    rw [hname] at hj
    cases hj
  · intro k hk
    by_cases hkn : k = name
    · exact hkn ▸ hok (hkn ▸ hk)
    · have hk' := (hw.isEntity hk).of_insert hkn
      exact ((hwf.entity k hk').insert hname hkn).writes hw hkn hk

/-- The writes of a validation touch no other entry whose network has a role,
except to record the default. -/
theorem Writes.find_ne (w : Writes name tree tree')
    (h : ∀ k m, k ≠ name → network tree k = some m → ∃ v, m.find "role" = some v) :
    ∀ k, k ≠ name → tree'.find k = tree.find k ∨
      (k = ":default-netns" ∧ (tree.find k).getD .null = .null ∧
        tree'.find k = some (.string name)) := by
  induction w with
  | refl => exact fun k _ => Or.inl rfl
  | @tail tree₁ tree₂ _ w ih =>
    intro k hk
    have hnet : ∀ m, network tree₁ k = some m → network tree k = some m := by
      intro m hm
      rcases ih k hk with hf | ⟨-, -, hf⟩
      · exact (network_of_find_eq hf).symm.trans hm
      · obtain ⟨e, he, -⟩ := network_eq_some_iff.mp hm
        rw [hf] at he
        cases he
    cases w with
    | role r hm => rw [find_setNetwork_ne hk]; exact ih k hk
    | default hd =>
      by_cases hkd : k = ":default-netns"
      · subst hkd
        refine Or.inr ⟨rfl, ?_, OrdMap.find_insert_self tree₁ _ _⟩
        rcases ih _ hk with hf | ⟨-, hn, -⟩
        · rwa [← hf]
        · exact hn
      · rw [OrdMap.find_insert_ne tree₁ _ hkd]
        exact ih k hk
    | @uplinkRole m u hm hr =>
      by_cases hku : k = u
      · subst hku
        obtain ⟨v, hv⟩ := h k m hk (hnet m hm)
        rw [hr] at hv
        cases hv
      · rw [find_setNetwork_ne hku]
        exact ih k hk

/-- **What an `add` that succeeds leaves as it was.** -/
theorem add_find (hwf : WellFormed c.configuration)
    (h : add parse c name params = .returned r c') (hr : r.errorCode = 0) {k : String}
    (hk : k ≠ name) :
    c'.configuration.find k = c.configuration.find k ∨
      (k = ":default-netns" ∧ (c.configuration.find k).getD .null = .null ∧
        c'.configuration.find k = some (.string name)) := by
  obtain ⟨-, -, entity, tree', -, hval, rfl⟩ := add_eq_zero h hr
  have hins : ∀ k, k ≠ name →
      (c.configuration.insert name entity).find k = c.configuration.find k :=
    fun k hk => OrdMap.find_insert_ne _ entity hk
  have hroles : ∀ k m, k ≠ name → network (c.configuration.insert name entity) k = some m →
      ∃ v, m.find "role" = some v := by
    intro k m hk hm
    rw [network_of_find_eq (hins k hk)] at hm
    obtain ⟨role, _, hrole, -⟩ := (hwf.networkOk hm).role
    exact ⟨_, hrole⟩
  have hf := (validateEntity_spec hval).1.find_ne hroles k hk
  rwa [hins k hk] at hf

end Config

end Nonsense
