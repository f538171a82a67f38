import Nonsense.Config.Parameters
import Nonsense.Config.Accepted
import Mathlib.Data.List.Pairwise

/-!
# The order of the parameters

Parameters whose paths are apart fit in any order and make the same tree
(`buildEntity_apart`).  Beyond that the loop goes by what it finds at the end of a
path: only a null is written over.  An object that is given may so be extended, and a
null replaced, by a later parameter but not by an earlier one; `add_perm_iff` says
which lists do not depend on the order.
-/

namespace Nonsense

namespace Config

open Nested

variable {parse : String → Option Json} {ps ps' before after : List ParameterValue}
  {p p' : ParameterValue} {q : List String} {name : String}

/-! ### What the loop has built -/

/-- Every node is at or below the end of a path, or above it, or it is the root. -/
theorem nodeAt_assembled_cases {w : Json} (h : nodeAt (assembled parse ps) q = some w) :
    (∃ p ∈ ps, keyPath p.parameter <+: q) ∨
      (∃ p ∈ ps, q <+: keyPath p.parameter ∧ q ≠ keyPath p.parameter) ∨ q = [] := by
  induction ps using List.reverseRecOn generalizing w with
  | nil =>
    cases q with
    | nil => exact Or.inr (Or.inr rfl)
    | cons k q => cases h
  | append_singleton ps p ih =>
    have hmem : p ∈ ps ++ [p] := List.mem_append_right _ (List.mem_singleton_self p)
    rw [assembled_append_singleton] at h
    rcases apart_or (keyPath p.parameter) q with hapart | ⟨r, rfl⟩ | ⟨hpre, hne⟩
    · rw [nodeAt_put_apart hapart] at h
      rcases ih h with ⟨p', hp', hq⟩ | ⟨p', hp', hq⟩ | hq
      · exact Or.inl ⟨p', List.mem_append_left _ hp', hq⟩
      · exact Or.inr (Or.inl ⟨p', List.mem_append_left _ hp', hq⟩)
      · exact Or.inr (Or.inr hq)
    · exact Or.inl ⟨p, hmem, List.prefix_append _ _⟩
    · exact Or.inr (Or.inl ⟨p, hmem, hpre, hne⟩)

/-- The parameters make an object. -/
theorem assembled_eq_object (parse : String → Option Json) (ps : List ParameterValue) :
    ∃ m : Object, assembled parse ps = .object m := by
  induction ps using List.reverseRecOn with
  | nil => exact ⟨[], rfl⟩
  | append_singleton ps p ih =>
    obtain ⟨m, hm⟩ := nodeAt_put_above (v := parameterValue parse p.value)
      (t := assembled parse ps) (List.nil_prefix (l := keyPath p.parameter))
      (keyPath_ne_nil p.parameter).symm
    rw [assembled_append_singleton]
    exact ⟨m, Option.some.inj hm⟩

/-! ### Paths that are apart -/

theorem fits_of_apart (h : ∀ p' ∈ before, Apart (keyPath p'.parameter) (keyPath p.parameter)) :
    Fits parse before p := by
  constructor
  · rintro q hq ⟨p', hp', r, w, rfl, -⟩
    exact (h p' hp').1 (((List.prefix_append _ r).trans hq).trans (walk_isPrefix _))
  · rintro ⟨p', hp', htakes⟩
    exact not_takes_of_apart (h p' hp') htakes

theorem inTurn_fits_of_apart
    (h : ps.Pairwise fun p p' => Apart (keyPath p.parameter) (keyPath p'.parameter)) :
    InTurn (Fits parse) ps := by
  rintro before p after rfl
  exact fits_of_apart fun p' hp' => (List.pairwise_append.mp h).2.2 p' hp' p List.mem_cons_self

theorem nodeAt_assembled_of_apart
    (h : ps.Pairwise fun p p' => Apart (keyPath p.parameter) (keyPath p'.parameter)) (hp : p ∈ ps) :
    nodeAt (assembled parse ps) (keyPath p.parameter) = some (parameterValue parse p.value) := by
  induction ps using List.reverseRecOn with
  | nil => cases hp
  | append_singleton ps p' ih =>
    obtain ⟨hps, -, hapart⟩ := List.pairwise_append.mp h
    rw [assembled_append_singleton]
    rcases List.mem_append.mp hp with hp | hp
    · rw [nodeAt_put_apart (hapart p hp p' (List.mem_singleton_self p')).symm, ih hps hp]
    · obtain rfl := List.mem_singleton.mp hp
      exact nodeAt_put_self

/-! ### Any order -/

/-- The parameters may change places: their paths are apart, or both put the same null. -/
def Interchange (parse : String → Option Json) (p p' : ParameterValue) : Prop :=
  Apart (keyPath p.parameter) (keyPath p'.parameter) ∨
    (keyPath p.parameter = keyPath p'.parameter ∧ parameterValue parse p.value = .null ∧
      parameterValue parse p'.value = .null)

theorem Interchange.symm (h : Interchange parse p p') : Interchange parse p' p :=
  h.imp Apart.symm fun ⟨hpath, hp, hp'⟩ => ⟨hpath.symm, hp', hp⟩

theorem nodeAt_null {r : List String} {w : Json} (h : nodeAt Json.null r = some w) : w = .null := by
  cases r with
  | nil => exact (Option.some.inj h).symm
  | cons k r => cases h

theorem inTurn_fits_of_interchange (h : ps.Pairwise (Interchange parse)) :
    InTurn (Fits parse) ps := by
  rintro before p after rfl
  have hbefore : ∀ p' ∈ before, Interchange parse p' p :=
    fun p' hp' => (List.pairwise_append.mp h).2.2 p' hp' p List.mem_cons_self
  constructor
  · rintro q hq ⟨p', hp', r, w, rfl, hw, hv⟩
    rcases hbefore p' hp' with hapart | ⟨-, hnull, -⟩
    · exact hapart.1 (((List.prefix_append _ r).trans hq).trans (walk_isPrefix _))
    · rw [hnull] at hw
      rw [nodeAt_null hw] at hv
      cases hv
  · rintro ⟨p', hp', htakes⟩
    rcases hbefore p' hp' with hapart | ⟨hpath, hnull, -⟩
    · exact not_takes_of_apart hapart htakes
    · rcases htakes with ⟨-, hne⟩ | ⟨r, w, -, hw, hn⟩
      · exact hne hpath.symm
      · rw [hnull] at hw
        rw [nodeAt_null hw] at hn
        cases hn

/-- **What may change places makes the same tree in any order.** -/
theorem assembled_perm (h : ps.Pairwise (Interchange parse)) (hperm : ps.Perm ps') :
    assembled parse ps = assembled parse ps' := by
  have : Std.Symm (Interchange parse) := ⟨fun _ _ => Interchange.symm⟩
  refine hperm.foldl_eq' (fun p hp p' hp' tree => ?_) _
  by_cases hne : p = p'
  · rw [hne]
  · rcases h.forall hp hp' hne with hapart | ⟨hpath, hnull, hnull'⟩
    · exact put_comm hapart.symm
    · rw [hpath, hnull, hnull']

/-! ### Dotted paths -/

/-- A key at its dots. -/
def dottedPath (key : String) : List String := (key.toList.splitOn '.').map String.ofList

theorem keyPath_eq_dottedPath {key : String} (h : key.toList.head? ≠ some '.') :
    keyPath key = dottedPath key := by
  have hne : dottedPath key ≠ [] := by
    rw [dottedPath, Ne, List.map_eq_nil_iff]
    exact List.splitOn_ne_nil _ _
  have hsplit : splitKey key = ((dottedPath key).dropLast, (dottedPath key).getLastD "") := by
    rw [splitKey, if_neg h]
    rfl
  rw [keyPath, hsplit, List.getLastD_eq_getLast?, List.getLast?_eq_some_getLast hne,
    Option.getD_some, List.dropLast_concat_getLast hne]

theorem pairwise_keyPath (hdot : ∀ p ∈ ps, p.parameter.toList.head? ≠ some '.')
    (h : ps.Pairwise fun p p' => Apart (dottedPath p.parameter) (dottedPath p'.parameter)) :
    ps.Pairwise fun p p' => Apart (keyPath p.parameter) (keyPath p'.parameter) := by
  refine h.imp_of_mem fun hp hp' hapart => ?_
  rwa [keyPath_eq_dottedPath (hdot _ hp), keyPath_eq_dottedPath (hdot _ hp')]

/-- **Parameters whose dotted paths are apart make the tree that has their values at the
ends of the paths**, and no other leaf; the order does not matter. -/
theorem buildEntity_apart (parse : String → Option Json) (name : String) (ps : List ParameterValue)
    (hdot : ∀ p ∈ ps, p.parameter.toList.head? ≠ some '.')
    (hapart : ps.Pairwise fun p p' => Apart (dottedPath p.parameter) (dottedPath p'.parameter)) :
    ∃ m : Object,
      buildEntity parse name ps (.object []) = .done (.object m) ∧
      (∀ p ∈ ps, nodeAt (Json.object m) (dottedPath p.parameter) =
        some (parameterValue parse p.value)) ∧
      (∀ q leaf, nodeAt (Json.object m) q = some leaf → members leaf = [] →
        (∃ p ∈ ps, dottedPath p.parameter <+: q) ∨ (q = [] ∧ ps = [])) ∧
      ∀ ps', ps.Perm ps' → buildEntity parse name ps' (.object []) = .done (.object m) := by
  have hkey := pairwise_keyPath hdot hapart
  have hinter : ps.Pairwise (Interchange parse) := hkey.imp Or.inl
  obtain ⟨m, hm⟩ := assembled_eq_object parse ps
  have hdone : ∀ ps', ps.Perm ps' → buildEntity parse name ps' (.object []) = .done (.object m) := by
    intro ps' hperm
    rw [buildEntity_eq_done_iff, ← hm, ← assembled_perm hinter hperm]
    exact ⟨inTurn_fits_of_interchange ((hperm.pairwise_iff Interchange.symm).mp hinter), rfl⟩
  refine ⟨m, hdone ps (List.Perm.refl ps), ?_, ?_, hdone⟩
  · intro p hp
    rw [← hm, ← keyPath_eq_dottedPath (hdot p hp)]
    exact nodeAt_assembled_of_apart hkey hp
  · intro q leaf hleaf hmembers
    -- a node above the end of a path has a member on the way there
    have habove : ∀ p ∈ ps, q <+: keyPath p.parameter → q ≠ keyPath p.parameter → False := by
      rintro p hp ⟨r, hr⟩ hne
      have hend : nodeAt (assembled parse ps) (keyPath p.parameter) = _ :=
        nodeAt_assembled_of_apart hkey hp
      rw [hm, ← hr, nodeAt_append, hleaf, Option.bind_some] at hend
      cases r with
      | nil => exact hne (by rw [← hr, List.append_nil])
      | cons k r =>
        obtain ⟨t, ht, -⟩ := nodeAt_cons_eq_some_iff.mp hend
        rw [hmembers] at ht
        cases ht
    rw [← hm] at hleaf
    rcases nodeAt_assembled_cases hleaf with ⟨p, hp, hq⟩ | ⟨p, hp, hq, hne⟩ | rfl
    · exact Or.inl ⟨p, hp, keyPath_eq_dottedPath (hdot p hp) ▸ hq⟩
    · exact absurd hne fun hne => habove p hp hq hne
    · refine Or.inr ⟨rfl, List.eq_nil_iff_forall_not_mem.mpr fun p hp => ?_⟩
      exact habove p hp List.nil_prefix (keyPath_ne_nil _).symm

/-- An empty segment is a segment. -/
theorem buildEntity_apart_emptySegment : ∃ m : Object,
    buildEntity (fun _ => none) "a" [⟨"x..y", "1"⟩, ⟨"x.z.", "2"⟩] (.object []) = .done (.object m) ∧
      nodeAt (Json.object m) (dottedPath "x..y") = some (.string "1") := by
  obtain ⟨m, hdone, hnode, -⟩ := buildEntity_apart (fun _ => none) "a"
    [⟨"x..y", "1"⟩, ⟨"x.z.", "2"⟩] (by decide) (by decide)
  exact ⟨m, hdone, hnode _ List.mem_cons_self⟩

/-! ### Which lists do not depend on the order -/

variable {c c' : Config} {r : ConfigResult}

/-- The error code that `add` returns, if it returns. -/
def Added.errorCode : Added → Option Int
  | .returned r _ => some r.errorCode
  | .terminated _ => none

theorem Added.errorCode_eq_some_iff {a : Added} {n : Int} :
    a.errorCode = some n ↔ ∃ r c', a = .returned r c' ∧ r.errorCode = n := by
  cases a <;> simp [Added.errorCode]

/-- What fits behind `p`, and may not change places with it, is in the way of `p`. -/
theorem not_fits_of_not_interchange (hp : p ∈ before) (hfits : Fits parse before p')
    (h : ¬ Interchange parse p p') : ¬ Fits parse [p'] p := by
  rw [Interchange, not_or] at h
  intro hfits'
  refine hfits'.free ⟨p', List.mem_singleton_self p', ?_⟩
  rcases apart_or (keyPath p.parameter) (keyPath p'.parameter) with hapart | ⟨t, ht⟩ | ⟨hpre, hne⟩
  · exact absurd hapart h.1
  · cases t with
    | nil =>
      -- one path: `p'` has replaced a null, and is none itself
      rw [List.append_nil] at ht
      have hnull : parameterValue parse p.value = .null := by
        by_contra hc
        refine hfits.free ⟨p, hp, Or.inr ⟨[], _, by rw [List.append_nil, ht], rfl, ?_⟩⟩
        cases hv : parameterValue parse p.value <;> first | rfl | exact absurd hv hc
      have hnull' : parameterValue parse p'.value ≠ .null := fun hc => h.2 ⟨ht.symm, hnull, hc⟩
      refine Or.inr ⟨[], _, by rw [List.append_nil, ht], rfl, ?_⟩
      cases hv : parameterValue parse p'.value <;> first | rfl | exact absurd hv hnull'
    | cons k t => exact Or.inl ⟨⟨_, ht.symm⟩, by simp [ht]⟩
  · exact absurd ⟨p, hp, Or.inl ⟨hpre, hne⟩⟩ hfits.free

/-- **When the order of the parameters does not matter.** -/
theorem add_perm_iff (h : add parse c name ps = .returned r c') (hr : r.errorCode = 0) :
    (∀ ps', ps.Perm ps' → ∃ r' c'', add parse c name ps' = .returned r' c'' ∧ r'.errorCode = 0 ∧
      c''.configuration.find name = c'.configuration.find name) ↔
      ps.Pairwise (Interchange parse) := by
  obtain ⟨-, -, entity, -, hbuild, -, -⟩ := add_eq_zero h hr
  obtain ⟨hfits, rfl⟩ := buildEntity_eq_done_iff.mp hbuild
  constructor
  · intro hall
    rw [List.pairwise_iff_forall_sublist]
    intro p p' hsub
    by_contra hno
    obtain ⟨before, hp, hp'⟩ := InTurn.of_sublist hfits hsub
    obtain ⟨rest, hrest⟩ := hsub.exists_perm_append
    -- the two in the other order, in front of the rest
    obtain ⟨r', c'', hadd, hr', -⟩ := hall (p' :: p :: rest) (hrest.trans (List.Perm.swap ..))
    obtain ⟨-, -, e, -, hbuild', -, -⟩ := add_eq_zero hadd hr'
    have hfits' := (buildEntity_eq_done_iff.mp hbuild').1
    exact not_fits_of_not_interchange hp hp' hno (hfits' [p'] p rest rfl)
  · intro hinter ps' hperm
    have hfits' : InTurn (Fits parse) ps' :=
      inTurn_fits_of_interchange ((hperm.pairwise_iff Interchange.symm).mp hinter)
    have hbuild' : buildEntity parse name ps' (.object []) = .done (assembled parse ps) :=
      buildEntity_eq_done_iff.mpr ⟨hfits', assembled_perm hinter hperm⟩
    refine ⟨r, c', ?_, hr, rfl⟩
    rw [← h]
    simp only [add, hbuild, hbuild']

/-- `add` has returned, and `p` holds of what it has. -/
def Added.any (a : Added) (p : ConfigResult → Config → Bool) : Bool :=
  match a with
  | .returned r c => p r c
  | .terminated _ => false

theorem Added.any_eq_true_iff {a : Added} {p : ConfigResult → Config → Bool} :
    a.any p = true ↔ ∃ r c', a = .returned r c' ∧ p r c' = true := by
  cases a <;> simp [Added.any]

/-- A configuration without entities, to be added to. -/
def noEntities : Config := ⟨true, [("!metadata", .object [("version", .integer 1)])]⟩

theorem add_perm_iff_external :
    ∃ r c', add (fun _ => none) noEntities "a" [⟨"network.role", "root"⟩, ⟨"network.external", "no"⟩] =
        .returned r c' ∧ r.errorCode = 0 ∧
      ∃ r' c'', add (fun _ => none) noEntities "a"
          [⟨"network.external", "no"⟩, ⟨"network.role", "root"⟩] = .returned r' c'' ∧
        r'.errorCode = 0 ∧ c''.configuration.find "a" = c'.configuration.find "a" := by
  have hcode : (add (fun _ => none) noEntities "a"
      [⟨"network.role", "root"⟩, ⟨"network.external", "no"⟩]).errorCode = some 0 := by decide +kernel
  obtain ⟨r, c', hadd, hr⟩ := Added.errorCode_eq_some_iff.mp hcode
  exact ⟨r, c', hadd, hr, (add_perm_iff hadd hr).mpr
    (List.pairwise_pair.mpr (Or.inl (by decide))) _ (List.Perm.swap ..)⟩

/-- An object may be given before one of its members, but not behind it. -/
theorem add_order_matters :
    ¬ ∀ (parse : String → Option Json) (c c' : Config) (name : String)
      (ps ps' : List ParameterValue) (r : ConfigResult),
      add parse c name ps = .returned r c' → r.errorCode = 0 → ps.Perm ps' →
        ∃ r' c'', add parse c name ps' = .returned r' c'' ∧ r'.errorCode = 0 ∧
          c''.configuration.find name = c'.configuration.find name := by
  intro h
  let parse : String → Option Json := fun s => if s = "{}" then some (.object []) else none
  have hcode : (add parse noEntities "a"
      [⟨"network", "{}"⟩, ⟨"network.role", "root"⟩]).errorCode = some 0 := by decide +kernel
  have hcode' : (add parse noEntities "a"
      [⟨"network.role", "root"⟩, ⟨"network", "{}"⟩]).errorCode = some (-EINVAL) := by decide +kernel
  obtain ⟨r, c', hadd, hr⟩ := Added.errorCode_eq_some_iff.mp hcode
  obtain ⟨r', c'', hadd', hr', -⟩ := h _ _ _ _ _ _ _ hadd hr (List.Perm.swap ..)
  rw [Added.errorCode_eq_some_iff.mpr ⟨r', c'', hadd', hr'⟩] at hcode'
  exact absurd hcode' (by decide)

end Config

end Nonsense
