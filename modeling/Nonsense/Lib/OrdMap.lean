import Mathlib.Data.List.Basic
import Mathlib.Data.List.Induction
import Mathlib.Data.String.Basic
import Mathlib.Order.Basic

/-!
# Ordered maps as lists of pairs

`OrdMap κ α` is a map written as the list of its entries, smallest key first,
the order in which an ordered map is iterated.  `find` reads the first entry of
a key, `insert` overwrites it or puts a new entry at its place in the order,
`erase` drops it.

The facts about `find` hold of every list of pairs: `find_insert_self`,
`find_insert_ne`, `find_erase_self`, `find_erase_ne`.  Where the keys are in order
(`Ordered`, which every operation keeps), each key has one entry, and what `sum`
adds up over the values changes by the value that is changed.
-/

namespace Nonsense

/-- A map from `κ` to `α` as the list of its entries. -/
abbrev OrdMap (κ α : Type*) := List (κ × α)

namespace OrdMap

variable {κ α : Type*}

/-- The keys, in order. -/
def keys (m : OrdMap κ α) : List κ := m.map Prod.fst

@[simp] theorem keys_nil : keys ([] : OrdMap κ α) = [] := rfl

@[simp] theorem keys_cons (e : κ × α) (m : OrdMap κ α) : keys (e :: m) = e.1 :: keys m := rfl

variable [DecidableEq κ]

/-- The value of a key. -/
def find : OrdMap κ α → κ → Option α
  | [], _ => none
  | e :: m, k => if k = e.1 then some e.2 else find m k

/-- Every entry but those of `k`. -/
def erase (m : OrdMap κ α) (k : κ) : OrdMap κ α := m.filter fun e => e.1 ≠ k

/-- Set the value of `k`. -/
def insert [LT κ] [DecidableLT κ] : OrdMap κ α → κ → α → OrdMap κ α
  | [], k, v => [(k, v)]
  | e :: m, k, v =>
    if k = e.1 then (k, v) :: m
    else if k < e.1 then (k, v) :: e :: m
    else e :: insert m k v

@[simp] theorem find_nil (k : κ) : find ([] : OrdMap κ α) k = none := rfl

theorem find_cons (e : κ × α) (m : OrdMap κ α) (k : κ) :
    find (e :: m) k = if k = e.1 then some e.2 else find m k := rfl

theorem find_eq_none_iff {m : OrdMap κ α} {k : κ} : m.find k = none ↔ k ∉ m.keys := by
  induction m with
  | nil => simp
  | cons e m ih =>
    rw [find_cons, keys_cons, List.mem_cons, not_or]
    by_cases h : k = e.1
    · simp [h]
    · simp [h, ih]

theorem mem_keys_iff {m : OrdMap κ α} {k : κ} : k ∈ m.keys ↔ ∃ v, m.find k = some v := by
  rw [← not_iff_not, ← find_eq_none_iff]
  cases m.find k <;> simp

theorem mem_of_find {m : OrdMap κ α} {k : κ} {v : α} (h : m.find k = some v) : (k, v) ∈ m := by
  induction m with
  | nil => cases h
  | cons e m ih =>
    rw [find_cons] at h
    split_ifs at h with hk
    · cases h
      exact hk ▸ List.mem_cons_self
    · exact List.mem_cons_of_mem _ (ih h)

section Insert

variable [LT κ] [DecidableLT κ]

theorem insert_cons (e : κ × α) (m : OrdMap κ α) (k : κ) (v : α) :
    insert (e :: m) k v =
      if k = e.1 then (k, v) :: m
      else if k < e.1 then (k, v) :: e :: m
      else e :: insert m k v := rfl

@[simp] theorem find_insert_self (m : OrdMap κ α) (k : κ) (v : α) :
    (m.insert k v).find k = some v := by
  induction m with
  | nil => simp [insert, find_cons]
  | cons e m ih =>
    rw [insert_cons]
    split_ifs with h h'
    · simp [find_cons]
    · simp [find_cons]
    · rw [find_cons, if_neg h, ih]

theorem find_insert_ne (m : OrdMap κ α) {k k' : κ} (v : α) (h : k' ≠ k) :
    (m.insert k v).find k' = m.find k' := by
  induction m with
  | nil => simp [insert, find_cons, h]
  | cons e m ih =>
    rw [insert_cons]
    split_ifs with he hlt
    · rw [find_cons, find_cons, if_neg h, if_neg (he ▸ h)]
    · rw [find_cons, if_neg h]
    · rw [find_cons, find_cons, ih]

theorem find_insert (m : OrdMap κ α) (k k' : κ) (v : α) :
    (m.insert k v).find k' = if k' = k then some v else m.find k' := by
  by_cases h : k' = k
  · subst h; simp
  · rw [if_neg h, find_insert_ne m v h]

theorem mem_keys_insert {m : OrdMap κ α} {k k' : κ} {v : α} :
    k' ∈ (m.insert k v).keys ↔ k' = k ∨ k' ∈ m.keys := by
  rw [mem_keys_iff, mem_keys_iff, find_insert]
  by_cases h : k' = k <;> simp [h]

theorem mem_insert {m : OrdMap κ α} {k : κ} {v : α} {e : κ × α} (h : e ∈ m.insert k v) :
    e = (k, v) ∨ e ∈ m := by
  induction m with
  | nil => exact Or.inl (List.mem_singleton.mp h)
  | cons e' m ih =>
    rw [insert_cons] at h
    split_ifs at h
    · exact (List.mem_cons.mp h).imp_right (List.mem_cons_of_mem _)
    · exact List.mem_cons.mp h
    · obtain rfl | h := List.mem_cons.mp h
      · exact Or.inr List.mem_cons_self
      · exact (ih h).imp_right (List.mem_cons_of_mem _)

theorem insert_insert_self (m : OrdMap κ α) (k : κ) (v v' : α) :
    (m.insert k v).insert k v' = m.insert k v' := by
  induction m with
  | nil => simp [insert]
  | cons e m ih =>
    rw [insert_cons, insert_cons]
    split_ifs with h hlt
    · simp [insert]
    · simp [insert]
    · rw [insert_cons, if_neg h, if_neg hlt, ih]

/-- What holds of the new entry, and of each that was there, holds of each behind `insert`. -/
theorem forall_find_insert {P : κ → α → Prop} {m : OrdMap κ α} {k : κ} {v : α} (hnew : P k v)
    (hold : ∀ k' v', m.find k' = some v' → P k' v') :
    ∀ k' v', (m.insert k v).find k' = some v' → P k' v' := by
  intro k' v' h
  rw [find_insert] at h
  split_ifs at h with hk
  · subst hk
    exact Option.some.inj h ▸ hnew
  · exact hold k' v' h

end Insert

@[simp] theorem find_erase_self (m : OrdMap κ α) (k : κ) : (m.erase k).find k = none := by
  rw [find_eq_none_iff, keys, erase, List.mem_map]
  rintro ⟨e, he, rfl⟩
  simpa using (List.mem_filter.mp he).2

theorem find_erase_ne (m : OrdMap κ α) {k k' : κ} (h : k' ≠ k) :
    (m.erase k).find k' = m.find k' := by
  induction m with
  | nil => rfl
  | cons e m ih =>
    by_cases he : e.1 = k
    · have hk : k' ≠ e.1 := fun hc => h (hc.trans he)
      rw [find_cons, if_neg hk, ← ih]
      simp [erase, he]
    · have hcons : erase (e :: m) k = e :: erase m k := by simp [erase, he]
      rw [hcons, find_cons, find_cons, ih]

theorem find_erase (m : OrdMap κ α) (k k' : κ) :
    (m.erase k).find k' = if k' = k then none else m.find k' := by
  split_ifs with h
  · rw [h, find_erase_self]
  · exact find_erase_ne m h

theorem find_of_find_erase {m : OrdMap κ α} {k k' : κ} {v : α}
    (h : (m.erase k).find k' = some v) : m.find k' = some v := by
  rw [find_erase] at h
  split_ifs at h
  exact h

/-- Erasing takes a new entry out again. -/
theorem erase_insert_of_none [LT κ] [DecidableLT κ] {m : OrdMap κ α} {k : κ} (v : α)
    (h : m.find k = none) : (m.insert k v).erase k = m := by
  rw [find_eq_none_iff] at h
  induction m with
  | nil => simp [insert, erase]
  | cons e m ih =>
    rw [keys_cons, List.mem_cons, not_or] at h
    have hne : e.1 ≠ k := fun hc => h.1 hc.symm
    have hm : OrdMap.erase m k = m := by
      rw [erase, List.filter_eq_self]
      intro e' he'
      have hne' : e'.1 ≠ k := fun hc => h.2 (hc ▸ List.mem_map_of_mem he')
      simpa using hne'
    rw [insert_cons, if_neg h.1]
    split_ifs
    · rw [erase, List.filter_cons_of_neg (by simp), List.filter_cons_of_pos (by simpa using hne)]
      exact congrArg _ hm
    · rw [erase, List.filter_cons_of_pos (by simpa using hne)]
      exact congrArg _ (ih h.2)

/-- What is put in under a key goes with the key. -/
theorem erase_insert_self [LT κ] [DecidableLT κ] (m : OrdMap κ α) (k : κ) (v : α) :
    (m.insert k v).erase k = m.erase k := by
  induction m with
  | nil => simp [insert, erase]
  | cons e m ih =>
    rw [insert_cons]
    split_ifs with h
    · simp [erase, h]
    · simp [erase]
    · have hne : e.1 ≠ k := fun hc => h hc.symm
      have hcons : ∀ l : OrdMap κ α, erase (e :: l) k = e :: erase l k := fun l => by
        simp [erase, hne]
      rw [hcons, hcons, ih]

/-- Put in entries, one after the other. -/
def insertAll [LT κ] [DecidableLT κ] (m l : OrdMap κ α) : OrdMap κ α :=
  l.foldl (fun m e => m.insert e.1 e.2) m

section InsertComm

variable [LinearOrder κ]

theorem insert_comm_of_lt (m : OrdMap κ α) {k k' : κ} (v v' : α) (h : k < k') :
    (m.insert k v).insert k' v' = (m.insert k' v').insert k v := by
  induction m with
  | nil => simp [insert, h, h.ne, h.ne', h.asymm]
  | cons e m ih =>
    rcases lt_trichotomy k e.1 with hlt | heq | hgt
    · -- `k` goes to the front, whatever `k'` does behind it
      have hfront : insert (e :: m) k v = (k, v) :: e :: m := by
        rw [insert_cons, if_neg hlt.ne, if_pos hlt]
      rw [hfront, insert_cons, if_neg h.ne', if_neg h.asymm, insert_cons]
      split_ifs
      · rw [insert_cons, if_neg h.ne, if_pos h]
      · rw [insert_cons, if_neg h.ne, if_pos h]
      · rw [insert_cons, if_neg hlt.ne, if_pos hlt]
    · have hne : k' ≠ e.1 := heq ▸ h.ne'
      have hnlt : ¬ k' < e.1 := heq ▸ h.asymm
      rw [insert_cons, if_pos heq, insert_cons, if_neg h.ne', if_neg h.asymm, insert_cons,
        if_neg hne, if_neg hnlt, insert_cons, if_pos heq]
    · have hgt' : e.1 < k' := hgt.trans h
      rw [insert_cons, if_neg hgt.ne', if_neg hgt.asymm, insert_cons, if_neg hgt'.ne',
        if_neg hgt'.asymm, insert_cons, if_neg hgt'.ne', if_neg hgt'.asymm, insert_cons,
        if_neg hgt.ne', if_neg hgt.asymm, ih]

/-- Entries of different keys may be put in in either order. -/
theorem insert_comm (m : OrdMap κ α) {k k' : κ} (v v' : α) (h : k ≠ k') :
    (m.insert k v).insert k' v' = (m.insert k' v').insert k v := by
  rcases lt_or_gt_of_ne h with hlt | hlt
  · exact insert_comm_of_lt m v v' hlt
  · exact (insert_comm_of_lt m v' v hlt).symm

variable {m l l' : OrdMap κ α} {k : κ} {v : α}

theorem insertAll_cons {e : κ × α} : m.insertAll (e :: l) = (m.insert e.1 e.2).insertAll l := rfl

theorem insertAll_append : m.insertAll (l ++ l') = (m.insertAll l).insertAll l' :=
  List.foldl_append

theorem insertAll_singleton {e : κ × α} : m.insertAll [e] = m.insert e.1 e.2 := rfl

theorem find_insertAll_of_not_mem (h : k ∉ l.keys) : (m.insertAll l).find k = m.find k := by
  induction l generalizing m with
  | nil => rfl
  | cons e l ih =>
    rw [keys_cons, List.mem_cons, not_or] at h
    rw [insertAll_cons, ih h.2, find_insert_ne _ _ h.1]

/-- What is put in is there, with a value of its own. -/
theorem find_insertAll_of_mem (h : k ∈ l.keys) :
    ∃ v, (k, v) ∈ l ∧ (m.insertAll l).find k = some v := by
  induction l using List.reverseRecOn with
  | nil => exact absurd h List.not_mem_nil
  | append_singleton l e ih =>
    rw [insertAll_append, insertAll_singleton, find_insert]
    split_ifs with hk
    · subst hk
      exact ⟨e.2, List.mem_append_right _ (List.mem_singleton_self _), rfl⟩
    · have hl : k ∈ keys l := by simpa [keys, hk] using h
      obtain ⟨v, hv, hf⟩ := ih hl
      exact ⟨v, List.mem_append_left _ hv, hf⟩

theorem insertAll_insert (h : k ∉ l.keys) :
    (m.insert k v).insertAll l = (m.insertAll l).insert k v := by
  induction l generalizing m with
  | nil => rfl
  | cons e l ih =>
    rw [keys_cons, List.mem_cons, not_or] at h
    rw [insertAll_cons, insertAll_cons, insert_comm m v e.2 h.1, ih h.2]

/-- **Entries of different keys may be put in in either order.** -/
theorem insertAll_comm (h : ∀ k ∈ l.keys, k ∉ l'.keys) :
    (m.insertAll l).insertAll l' = (m.insertAll l').insertAll l := by
  induction l generalizing m with
  | nil => rfl
  | cons e l ih =>
    rw [keys_cons, List.forall_mem_cons] at h
    rw [insertAll_cons, insertAll_cons, ih h.2, insertAll_insert h.1]

end InsertComm

/-! ### Sums over the values -/

section Sum

/-- The sum of `g` over the values. -/
def sum (m : OrdMap κ α) (g : α → ℕ) : ℕ := m.foldr (fun e n => g e.2 + n) 0

variable {g : α → ℕ} {m : OrdMap κ α} {k k' : κ} {v v' : α}

omit [DecidableEq κ] in
@[simp] theorem sum_nil : sum ([] : OrdMap κ α) g = 0 := rfl

omit [DecidableEq κ] in
@[simp] theorem sum_cons (e : κ × α) : sum (e :: m) g = g e.2 + sum m g := rfl

theorem le_sum (h : m.find k = some v) : g v ≤ m.sum g := by
  induction m with
  | nil => cases h
  | cons e m ih =>
    rw [find_cons] at h
    rw [sum_cons]
    split_ifs at h with hk
    · cases h
      omega
    · have hle := ih h
      omega

/-- Two entries count twice. -/
theorem add_le_sum (hne : k ≠ k') (h : m.find k = some v) (h' : m.find k' = some v') :
    g v + g v' ≤ m.sum g := by
  induction m with
  | nil => cases h
  | cons e m ih =>
    rw [find_cons] at h h'
    rw [sum_cons]
    split_ifs at h h' with hk hk'
    · exact absurd (hk.trans hk'.symm) hne
    · cases h
      have hle : g v' ≤ sum m g := le_sum h'
      omega
    · cases h'
      have hle : g v ≤ sum m g := le_sum h
      omega
    · have hle := ih h h'
      omega

variable [LinearOrder κ]

theorem sum_insert_of_none (h : m.find k = none) : (m.insert k v).sum g = m.sum g + g v := by
  induction m with
  | nil => simp [insert]
  | cons e m ih =>
    rw [find_cons] at h
    rw [insert_cons]
    split_ifs at h ⊢ with hk hlt
    · simp only [sum_cons]
      omega
    · rw [sum_cons, sum_cons, ih h]
      omega

/-- Smallest key first, and each key once. -/
def Ordered (m : OrdMap κ α) : Prop := m.keys.Pairwise (· < ·)

omit [DecidableEq κ] in
theorem ordered_cons {e : κ × α} : Ordered (e :: m) ↔ (∀ k ∈ m.keys, e.1 < k) ∧ m.Ordered :=
  List.pairwise_cons

theorem find_of_lt (h : ∀ k' ∈ m.keys, k < k') : m.find k = none := by
  rw [find_eq_none_iff]
  intro hk
  exact absurd (h k hk) (lt_irrefl k)

/-- In order, an entry is the one its key finds. -/
theorem Ordered.find_of_mem (h : m.Ordered) (he : (k, v) ∈ m) : m.find k = some v := by
  induction m with
  | nil => cases he
  | cons e m ih =>
    obtain ⟨hlt, hm⟩ := ordered_cons.mp h
    rw [find_cons]
    rcases List.mem_cons.mp he with rfl | he
    · rw [if_pos rfl]
    · rw [if_neg (hlt k (List.mem_map_of_mem he)).ne', ih hm he]

/-- A sum that is not zero has something in it. -/
theorem exists_of_sum_pos (h : m.Ordered) (hpos : 0 < m.sum g) :
    ∃ k v, m.find k = some v ∧ 0 < g v := by
  induction m with
  | nil => exact absurd hpos (lt_irrefl 0)
  | cons e m ih =>
    obtain ⟨hlt, hm⟩ := ordered_cons.mp h
    rw [sum_cons] at hpos
    by_cases he : 0 < g e.2
    · exact ⟨e.1, e.2, by rw [find_cons, if_pos rfl], he⟩
    · obtain ⟨k, v, hk, hv⟩ := ih hm (by omega)
      have hmem : k ∈ OrdMap.keys m := mem_keys_iff.mpr ⟨v, hk⟩
      exact ⟨k, v, by rw [find_cons, if_neg (hlt k hmem).ne', hk], hv⟩

omit [DecidableEq κ] in
theorem ordered_of_append {m' : OrdMap κ α} (h : Ordered (m ++ m')) : m.Ordered := by
  rw [Ordered, keys, List.map_append] at h
  exact (List.pairwise_append.mp h).1

omit [DecidableEq κ] in
theorem lt_of_ordered_append (h : Ordered (m ++ [(k, v)])) : ∀ k' ∈ m.keys, k' < k := by
  rw [Ordered, keys, List.map_append] at h
  exact fun k' hk' => (List.pairwise_append.mp h).2.2 k' hk' k List.mem_cons_self

/-- A key above all others comes last. -/
theorem insert_eq_append (h : ∀ k' ∈ m.keys, k' < k) : m.insert k v = m ++ [(k, v)] := by
  induction m with
  | nil => rfl
  | cons e m ih =>
    have hlt : e.1 < k := h e.1 List.mem_cons_self
    rw [insert_cons, if_neg (ne_of_gt hlt), if_neg (lt_asymm hlt),
      ih fun k' hk' => h k' (List.mem_cons_of_mem _ hk')]
    rfl

theorem Ordered.insert (h : m.Ordered) : (m.insert k v).Ordered := by
  induction m with
  | nil => exact List.pairwise_singleton _ _
  | cons e m ih =>
    obtain ⟨hlt, hm⟩ := ordered_cons.mp h
    rw [insert_cons]
    split_ifs with hk hke
    · subst hk
      exact ordered_cons.mpr ⟨hlt, hm⟩
    · refine ordered_cons.mpr ⟨fun k' hk' => ?_, h⟩
      rcases List.mem_cons.mp hk' with rfl | hk'
      · exact hke
      · exact hke.trans (hlt k' hk')
    · refine ordered_cons.mpr ⟨fun k' hk' => ?_, ih hm⟩
      rcases mem_keys_insert.mp hk' with rfl | hk'
      · exact lt_of_le_of_ne (not_lt.mp hke) fun he => hk he.symm
      · exact hlt k' hk'

theorem Ordered.erase (h : m.Ordered) : (m.erase k).Ordered :=
  h.sublist (List.filter_sublist.map Prod.fst)

theorem sum_insert_of_some (h : m.Ordered) (hk : m.find k = some v) :
    (m.insert k v').sum g + g v = m.sum g + g v' := by
  induction m with
  | nil => cases hk
  | cons e m ih =>
    obtain ⟨hlt, hm⟩ := ordered_cons.mp h
    rw [find_cons] at hk
    rw [insert_cons]
    split_ifs at hk ⊢ with he hke
    · cases hk
      simp only [sum_cons]
      omega
    · -- a key below the first is not there
      have hnone : find m k = none := find_of_lt fun k' hk' => hke.trans (hlt k' hk')
      rw [hnone] at hk
      cases hk
    · have hsum := ih hm hk
      simp only [sum_cons]
      omega

theorem sum_erase (h : m.Ordered) (hk : m.find k = some v) :
    (m.erase k).sum g + g v = m.sum g := by
  induction m with
  | nil => cases hk
  | cons e m ih =>
    obtain ⟨hlt, hm⟩ := ordered_cons.mp h
    rw [find_cons] at hk
    split_ifs at hk with he
    · subst he
      cases hk
      have hsame : OrdMap.erase (e :: m) e.1 = m := by
        rw [OrdMap.erase, List.filter_cons_of_neg (by simp), List.filter_eq_self]
        intro e' he'
        have hlt' := hlt e'.1 (List.mem_map_of_mem he')
        simpa using hlt'.ne'
      rw [hsame, sum_cons]
      omega
    · have hcons : OrdMap.erase (e :: m) k = e :: OrdMap.erase m k := by
        have hne : e.1 ≠ k := fun hc => he hc.symm
        simp [OrdMap.erase, hne]
      have hsum := ih hm hk
      rw [hcons, sum_cons, sum_cons]
      omega

end Sum

end OrdMap

end Nonsense
