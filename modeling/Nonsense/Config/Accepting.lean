import Nonsense.Config.Escapes
import Nonsense.Config.Uplinks

/-!
# Which entities are accepted

In a well-formed configuration no entity delegates its network, so that parameters that
fit get an answer: they are accepted where validation returns (`add_zero_iff`).

The parameters of a list denote a tree by their dotted paths (`denoted`).  The loop of
`add` makes that tree, except of a key that begins with a dot, which it takes for one
segment; either way there is a component of no known type then (`denoted_cases`).

`Acceptable` is the condition of `add_zero_iff` on an entity by itself: what is recorded
as the default is not another one (`acceptable_iff`).
-/

namespace Nonsense

namespace Config

open EState Nested

variable {parse : String → Option Json} {ps : List ParameterValue} {c c' : Config}
  {name : String} {tree : Object} {r : ConfigResult}

theorem WellFormed.not_meetsDelegation {e : Object} (h : WellFormed tree) :
    ¬ MeetsDelegation (tree.insert name (.object e)) name e := by
  rintro ⟨m, types, before, after, -, ⟨n, -, -, hn, -⟩, -, -, uplink, -, u, e', s, -, he', hs⟩
  by_cases hu : u = name
  · rw [hu, OrdMap.find_insert_self] at he'
    cases he'
    rw [hn] at hs
    cases hs
  · rw [OrdMap.find_insert_ne _ _ hu] at he'
    have hent : IsEntity tree u := by
      refine ⟨by rw [he']; rfl, ?_, ?_⟩
      · rintro rfl
        obtain ⟨j, hj, hjn⟩ := h.metadata
        rw [he'] at hj
        cases hj
        rw [Json.find_object, hs] at hjn
        cases hjn
      · rintro ⟨-, s', hs'⟩
        rw [he'] at hs'
        cases hs'
    obtain ⟨m, hm, -⟩ := (h.entity u hent).network _ _ he' hs
    cases hm

/-- **When parameters that fit are accepted.** -/
theorem add_zero_iff (hwf : WellFormed c.configuration) (hmut : c.isMutable = true)
    (hnew : c.configuration.find name = none) (hfit : InTurn (Fits parse) ps) :
    ∃ r c', add parse c name ps = .returned r c' ∧ (r.errorCode = 0 ∨ r.errorCode < 0) ∧
      (r.errorCode = 0 ↔
        EntityValid (c.configuration.insert name (.object (entityOf parse ps)))
          (entityOf parse ps) ∧
        (HasDefault (c.configuration.insert name (.object (entityOf parse ps))) name →
          DefaultFree (c.configuration.insert name (.object (entityOf parse ps))) name)) := by
  have he : (c.configuration.insert name (.object (entityOf parse ps))).find name =
      some (.object (entityOf parse ps)) := OrdMap.find_insert_self _ _ _
  rw [add_of_fits hmut hnew hfit, ← validateEntity_ok_iff he]
  cases hval : validateEntity name (c.configuration.insert name (.object (entityOf parse ps))) with
  | ok _ tree' => exact ⟨_, _, rfl, Or.inl rfl, iff_of_true rfl ⟨tree', rfl⟩⟩
  | error f tree' =>
    cases f with
    | exception what =>
      refine ⟨_, _, rfl, Or.inr (show -EINVAL < 0 by decide), iff_of_false ?_ ?_⟩
      · exact show ¬ -EINVAL = 0 by decide
      · rintro ⟨_, hc⟩
        cases hc
    | assertion text =>
      exact absurd ((validateEntity_asserts_iff he).mp ⟨text, tree', hval⟩)
        hwf.not_meetsDelegation

/-- What is accepted is the tree with the new entity, validated. -/
theorem add_eq_validated (h : add parse c name ps = .returned r c') (hr : r.errorCode = 0) :
    c.configuration.find name = none ∧ InTurn (Fits parse) ps ∧ ∃ tree',
      validateEntity name (c.configuration.insert name (.object (entityOf parse ps))) =
        .ok () tree' ∧ c' = { c with configuration := tree' } := by
  obtain ⟨-, hnew, entity, tree', hbuild, hval, rfl⟩ := add_eq_zero h hr
  obtain ⟨hfit, rfl⟩ := buildEntity_eq_done_iff.mp hbuild
  rw [assembled_eq] at hval
  exact ⟨hnew, hfit, tree', hval, rfl⟩

/-! ### What the parameters denote -/

/-- The tree that the parameters denote by their dotted paths. -/
def denoted (parse : String → Option Json) (ps : List ParameterValue) : Json :=
  ps.foldl (fun tree p => put (parameterValue parse p.value) (dottedPath p.parameter) tree)
    (.object [])

theorem denoted_eq_assembled (h : ∀ p ∈ ps, p.parameter.toList.head? ≠ some '.') :
    denoted parse ps = assembled parse ps := by
  refine List.foldl_ext _ _ _ fun tree p hp => ?_
  rw [keyPath_eq_dottedPath (h p hp)]

/-- Behind a leading dot there is an empty segment, and another one. -/
theorem dottedPath_of_dot {key : String} (h : key.toList.head? = some '.') :
    ∃ path, dottedPath key = "" :: path := by
  cases hkey : key.toList with
  | nil =>
    rw [hkey] at h
    cases h
  | cons c cs =>
    rw [hkey] at h
    obtain rfl := Option.some.inj h
    refine ⟨(cs.splitOn '.').map String.ofList, ?_⟩
    rw [dottedPath, hkey, List.splitOn_eq_splitOnP, List.splitOnP_cons_eq_if_modifyHead,
      List.splitOn_eq_splitOnP]
    rfl

/-- Without one the first segment does not begin with a dot. -/
theorem dottedPath_of_not_dot {key : String} (h : key.toList.head? ≠ some '.') :
    ∃ segment path, dottedPath key = segment :: path ∧ segment.toList.head? ≠ some '.' := by
  cases hkey : key.toList with
  | nil => exact ⟨"", [], by rw [dottedPath, hkey]; rfl, by decide⟩
  | cons c cs =>
    rw [hkey] at h
    have hc : (c == '.') = false := by simpa using h
    obtain ⟨first, rest, hsplit⟩ :=
      List.exists_cons_of_ne_nil (List.splitOnP_ne_nil (fun x => x == '.') cs)
    refine ⟨String.ofList (c :: first), rest.map String.ofList, ?_, ?_⟩
    · rw [dottedPath, hkey, List.splitOn_eq_splitOnP, List.splitOnP_cons_eq_if_modifyHead,
        if_neg (by simp [hc]), hsplit]
      rfl
    · simpa using h

theorem keyPath_of_dot {key : String} (h : key.toList.head? = some '.') : keyPath key = [key] := by
  rw [keyPath, splitKey, if_pos h]
  rfl

/-- Keys whose dotted paths are apart lead apart. -/
theorem apart_keyPath {key key' : String} (h : Apart (dottedPath key) (dottedPath key')) :
    Apart (keyPath key) (keyPath key') := by
  have hmixed : ∀ {k k' : String}, k.toList.head? = some '.' → k'.toList.head? ≠ some '.' →
      Apart (keyPath k) (keyPath k') := by
    intro k k' hk hk'
    obtain ⟨segment, path, hpath, hsegment⟩ := dottedPath_of_not_dot hk'
    rw [keyPath_of_dot hk, keyPath_eq_dottedPath hk', hpath]
    refine apart_cons_of_ne ?_
    rintro rfl
    exact hsegment hk
  by_cases hk : key.toList.head? = some '.'
  · by_cases hk' : key'.toList.head? = some '.'
    · rw [keyPath_of_dot hk, keyPath_of_dot hk']
      refine apart_cons_of_ne ?_
      rintro rfl
      exact not_apart_self h
    · exact hmixed hk hk'
  · by_cases hk' : key'.toList.head? = some '.'
    · exact (hmixed hk' hk).symm
    · rwa [keyPath_eq_dottedPath hk, keyPath_eq_dottedPath hk']

/-- The first segment of a path is a key of the tree. -/
theorem mem_keys_foldl_put (path : ParameterValue → List String) {p : ParameterValue} {k : String}
    {rest : List String} (hne : ∀ p ∈ ps, path p ≠ []) (hp : p ∈ ps) (hk : path p = k :: rest)
    (tree : Json) :
    k ∈ (members (ps.foldl (fun tree p => put (parameterValue parse p.value) (path p) tree)
      tree)).keys := by
  induction ps using List.reverseRecOn with
  | nil => cases hp
  | append_singleton ps p' ih =>
    rw [List.foldl_append, List.foldl_cons, List.foldl_nil]
    obtain ⟨l, rest', hl⟩ := List.exists_cons_of_ne_nil
      (hne p' (List.mem_append_right _ (List.mem_singleton_self p')))
    rw [hl, put_cons, members_branch, OrdMap.mem_keys_insert]
    rcases List.mem_append.mp hp with hp | hp
    · exact Or.inr (ih (fun q hq => hne q (List.mem_append_left _ hq)) hp)
    · obtain rfl := List.mem_singleton.mp hp
      rw [hk] at hl
      exact Or.inl (List.cons.inj hl).1

theorem dottedPath_ne_nil (key : String) : dottedPath key ≠ [] := by
  rw [dottedPath, Ne, List.map_eq_nil_iff]
  exact List.splitOn_ne_nil _ _

theorem denoted_eq : ∃ e : Object, denoted parse ps = .object e := by
  induction ps using List.reverseRecOn with
  | nil => exact ⟨[], rfl⟩
  | append_singleton ps p ih =>
    obtain ⟨k, path, hpath⟩ := List.exists_cons_of_ne_nil (dottedPath_ne_nil p.parameter)
    rw [denoted, List.foldl_append, List.foldl_cons, List.foldl_nil, hpath, put_cons]
    exact ⟨_, rfl⟩

/-- **What the loop builds is valid where what the parameters denote is.** -/
theorem denoted_cases {e : Object} (he : denoted parse ps = .object e) :
    e = entityOf parse ps ∨
      ((∀ tree, ¬ EntityValid tree e) ∧ ∀ tree, ¬ EntityValid tree (entityOf parse ps)) := by
  by_cases h : ∀ p ∈ ps, p.parameter.toList.head? ≠ some '.'
  · rw [denoted_eq_assembled h, assembled_eq] at he
    exact Or.inl (Json.object.inj he).symm
  · push Not at h
    obtain ⟨p, hp, hdot⟩ := h
    -- either tree has a component that is not a network
    refine Or.inr ⟨fun tree hvalid => ?_, fun tree hvalid => ?_⟩
    · obtain ⟨path, hpath⟩ := dottedPath_of_dot hdot
      have hk : "" ∈ (members (denoted parse ps)).keys :=
        mem_keys_foldl_put (fun p => dottedPath p.parameter)
          (fun p _ => dottedPath_ne_nil p.parameter) hp hpath _
      rw [he] at hk
      exact absurd (hvalid.types _ hk) (by decide)
    · have hk : p.parameter ∈ (entityOf parse ps).keys :=
        mem_keys_foldl_put (fun p => keyPath p.parameter)
          (fun p _ => keyPath_ne_nil p.parameter) hp (keyPath_of_dot hdot) _
      rw [hvalid.types _ hk] at hdot
      exact absurd hdot (by decide)

/-! ### What is acceptable -/

/-- What `add` asks of a new entity. -/
structure Acceptable (tree : Object) (name : String) (entity : Object) : Prop where
  valid : EntityValid (tree.insert name (.object entity)) entity
  default : ∀ m : Object, entity.find "network" = some (.object m) → "default" ∈ m.keys →
    ∀ s, recorded tree = some s → s = name

theorem hasDefault_insert_self {e : Object} : HasDefault (tree.insert name (.object e)) name ↔
    ∃ m : Object, e.find "network" = some (.object m) ∧ "default" ∈ m.keys :=
  hasDefault_iff_of_object (OrdMap.find_insert_self _ _ _)

/-- Where nothing but a record is called `:default-netns`, the record is free for `name`
if it is not of another entity. -/
theorem defaultFree_insert_iff {j : Json} (hd : ¬ IsEntity tree ":default-netns")
    (hname : name ≠ ":default-netns") :
    DefaultFree (tree.insert name j) name ↔ ∀ s, recorded tree = some s → s = name := by
  unfold DefaultFree
  rw [OrdMap.find_insert_ne _ _ hname.symm]
  cases hf : OrdMap.find tree ":default-netns" with
  | none =>
    refine iff_of_true (Or.inl rfl) fun s hs => ?_
    rw [recorded_eq_some_iff, hf] at hs
    cases hs
  | some v =>
    have hrecord : ∃ s, v = .string s := by
      by_contra hno
      refine hd ⟨by rw [hf]; rfl, by decide, ?_⟩
      rintro ⟨-, s, hs⟩
      rw [hf] at hs
      exact hno ⟨s, Option.some.inj hs⟩
    obtain ⟨s, rfl⟩ := hrecord
    rw [recorded_eq_some_iff.mpr hf]
    simp

theorem acceptable_iff {e : Object} (hd : ¬ IsEntity tree ":default-netns")
    (hname : name ≠ ":default-netns") :
    Acceptable tree name e ↔ EntityValid (tree.insert name (.object e)) e ∧
      (HasDefault (tree.insert name (.object e)) name →
        DefaultFree (tree.insert name (.object e)) name) := by
  rw [hasDefault_insert_self, defaultFree_insert_iff hd hname]
  exact ⟨fun h => ⟨h.valid, fun ⟨m, hm, hk⟩ => h.default m hm hk⟩,
    fun ⟨hvalid, hdefault⟩ => ⟨hvalid, fun m hm hk => hdefault ⟨m, hm, hk⟩⟩⟩

end Config

end Nonsense
