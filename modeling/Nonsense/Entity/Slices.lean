import Mathlib.Data.List.Forall2
import Nonsense.Entity.Basic

/-!
# The slices of the entities

An entity is started in a slice of its own, called after it with dashes for the dots.  For
systemd the dashes in the name of a slice are the levels of a tree: `p-q.slice` lies inside
`p.slice`, and goes when that is stopped.

A dash that is in the name of an entity already is read as such a level too, and is the
same as a dot; `keptApart_iff` says for which names it matters.
-/

namespace Nonsense

namespace Entity

variable {a b : String}

/-- The slice `unit` lies inside the slice `unit'`. -/
def LiesInside (unit unit' : String) : Prop :=
  ∃ p q, unit = p ++ "-" ++ q ++ ".slice" ∧ unit' = p ++ ".slice"

/-- Stopping the slice of `b` stops that of `a`. -/
def StoppedWith (a b : String) : Prop :=
  sliceName a = sliceName b ∨ LiesInside (sliceName a) (sliceName b)

/-- `a` is `b`, followed by a dot and more. -/
def Descends (a b : String) : Prop := ∃ more, a = b ++ "." ++ more

/-- What the slices of different entities should be to each other. -/
structure KeptApart (a b : String) : Prop where
  distinct : sliceName a ≠ sliceName b
  inside : (LiesInside (sliceName a) (sliceName b) → Descends a b) ∧
    (LiesInside (sliceName b) (sliceName a) → Descends b a)
  stopped : (StoppedWith a b → Descends a b) ∧ (StoppedWith b a → Descends b a)

/-! ### Names with the same dashes -/

def IsSeparator (c : Char) : Prop := c = '.' ∨ c = '-'

/-- The same but for dots and dashes. -/
def Alike (s t : List Char) : Prop :=
  List.Forall₂ (fun c d => c = d ∨ IsSeparator c ∧ IsSeparator d) s t

/-- `a` is alike `b`, or it is up to a dot or a dash, and not by being `b` and a dot. -/
def Confused (a b : String) : Prop :=
  Alike a.toList b.toList ∨ ∃ s c t, a.toList = s ++ c :: t ∧ IsSeparator c ∧ Alike s b.toList ∧
    ¬ (s = b.toList ∧ c = '.')

/-- The character in the name of the slice. -/
def dashed (c : Char) : Char := if c = '.' then '-' else c

theorem toList_dashedName : (dashedName a).toList = a.toList.map dashed := by
  rw [dashedName, String.toList_ofList]
  rfl

theorem dashed_eq_dash_iff {c : Char} : dashed c = '-' ↔ IsSeparator c := by
  unfold dashed IsSeparator
  split_ifs with h
  · exact iff_of_true rfl (Or.inl h)
  · exact (or_iff_right h).symm

theorem dashed_eq_iff {c d : Char} : dashed c = dashed d ↔ c = d ∨ IsSeparator c ∧ IsSeparator d := by
  constructor
  · intro h
    by_cases hc : IsSeparator c
    · rw [dashed_eq_dash_iff.mpr hc, eq_comm, dashed_eq_dash_iff] at h
      exact Or.inr ⟨hc, h⟩
    · have hd : ¬ IsSeparator d := by rwa [← dashed_eq_dash_iff, ← h, dashed_eq_dash_iff]
      have hdot : ∀ {e}, ¬ IsSeparator e → dashed e = e := fun he => if_neg fun h => he (Or.inl h)
      rw [hdot hc, hdot hd] at h
      exact Or.inl h
  · rintro (rfl | ⟨hc, hd⟩)
    · rfl
    · rw [dashed_eq_dash_iff.mpr hc, dashed_eq_dash_iff.mpr hd]

theorem map_dashed_eq_iff {s t : List Char} : s.map dashed = t.map dashed ↔ Alike s t := by
  rw [← List.forall₂_eq_eq_eq, List.forall₂_map_left_iff, List.forall₂_map_right_iff]
  simp only [dashed_eq_iff]
  rfl

/-! ### Their slices -/

theorem sliceName_eq_iff : sliceName a = sliceName b ↔ Alike a.toList b.toList := by
  rw [← map_dashed_eq_iff, ← toList_dashedName, ← toList_dashedName, String.toList_inj]
  simp [sliceName]

theorem liesInside_iff : LiesInside (sliceName a) (sliceName b) ↔
    ∃ s c t, a.toList = s ++ c :: t ∧ IsSeparator c ∧ Alike s b.toList := by
  have hlists : LiesInside (sliceName a) (sliceName b) ↔
      ∃ t, a.toList.map dashed = b.toList.map dashed ++ '-' :: t := by
    simp only [LiesInside, sliceName, ← String.toList_inj, String.toList_append, ← toList_dashedName]
    constructor
    · rintro ⟨p, q, ha, hb⟩
      rw [List.append_cancel_right_eq] at ha hb
      refine ⟨q.toList, ?_⟩
      rw [← hb] at ha
      simpa using ha
    · rintro ⟨t, ht⟩
      refine ⟨"nonsense-" ++ dashedName b, String.ofList t, ?_, by simp⟩
      simp [ht]
  rw [hlists]
  constructor
  · rintro ⟨t, ht⟩
    obtain ⟨s, _, hs, hsb, hrest⟩ := List.map_eq_append_iff.mp ht
    obtain ⟨c, t', rfl, hc, -⟩ := List.map_eq_cons_iff.mp hrest
    exact ⟨s, c, t', hs, dashed_eq_dash_iff.mp hc, map_dashed_eq_iff.mp hsb⟩
  · rintro ⟨s, c, t, hs, hc, hsb⟩
    refine ⟨t.map dashed, ?_⟩
    rw [hs, List.map_append, map_dashed_eq_iff.mpr hsb, List.map_cons, dashed_eq_dash_iff.mpr hc]

theorem descends_iff : Descends a b ↔ ∃ t, a.toList = b.toList ++ '.' :: t := by
  constructor
  · rintro ⟨more, rfl⟩
    exact ⟨more.toList, by simp⟩
  · rintro ⟨t, ht⟩
    refine ⟨String.ofList t, ?_⟩
    rw [← String.toList_inj, ht]
    simp

/-- The slice of `a` is not inside that of `b` for nothing. -/
theorem inside_iff : ¬ Confused a b ↔ sliceName a ≠ sliceName b ∧
    (LiesInside (sliceName a) (sliceName b) → Descends a b) := by
  rw [Confused, not_or, Ne, sliceName_eq_iff, liesInside_iff, descends_iff]
  refine and_congr_right fun hne => ⟨?_, ?_⟩
  · rintro hno ⟨s, c, t, hs, hc, hsb⟩
    by_contra hdesc
    refine hno ⟨s, c, t, hs, hc, hsb, ?_⟩
    rintro ⟨rfl, rfl⟩
    exact hdesc ⟨t, hs⟩
  · rintro h ⟨s, c, t, hs, hc, hsb, hno⟩
    obtain ⟨t', ht'⟩ := h ⟨s, c, t, hs, hc, hsb⟩
    -- both are as long as `b`
    have hlength : s.length = b.toList.length := List.Forall₂.length_eq hsb
    rw [hs] at ht'
    obtain ⟨rfl, hrest⟩ := List.append_inj ht' hlength
    exact hno ⟨rfl, (List.cons.inj hrest).1⟩

/-- **Which names are kept apart.** -/
theorem keptApart_iff : KeptApart a b ↔ ¬ Confused a b ∧ ¬ Confused b a := by
  rw [inside_iff, inside_iff]
  constructor
  · intro h
    exact ⟨⟨h.distinct, h.inside.1⟩, h.distinct.symm, h.inside.2⟩
  · rintro ⟨⟨hne, hab⟩, -, hba⟩
    exact ⟨hne, ⟨hab, hba⟩, fun h => hab (h.resolve_left hne), fun h => hba (h.resolve_left hne.symm)⟩

/-- **A dot and a dash make the same slice.** -/
theorem slices_shared : ¬ ∀ a b : String, a ≠ b → KeptApart a b := by
  intro h
  exact (h "a.b" "a-b" (by decide)).distinct (by decide +kernel)

end Entity

end Nonsense
