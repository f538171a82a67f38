import Mathlib.Data.List.Basic
import Mathlib.Data.List.TakeWhile

/-!
# The words of a shell command

A command that has no operator, no expansion, no quote and no comment in it is split by
a POSIX shell at its blanks, and what is between them are its words.  `shellWords` is
that, and `none` where there is more to the command.  It is given as C gives it: up to
the first NUL.

A string is `Plain` where it may stand in the middle of a word, `Leading` where it may also
begin one, and `Inert` where it is one.  A command that is put together from words, with a
space between two, is split into just these if each of them is inert, and not if one of
them is not (`shellWords_intercalate_iff`).
-/

namespace Nonsense

namespace Shell

/-! ### Characters and patterns -/

def isBlank (c : Char) : Bool := c = ' ' || c = '\t'

def nul : Char := Char.ofNat 0

/-- The operators, the expansions, the quotes, the end of a line, and the patterns of
one character. -/
def specials : List Char := "|&;<>()$`\\\"'\n*?".toList

/-- A character that stands for itself. -/
def isOrdinary (c : Char) : Bool := !isBlank c && c ≠ nul && !specials.contains c

/-- A bracket that was opened in front of `l` is closed, with something in it. -/
def closes (l : List Char) : Bool := ((l.takeWhile fun c => c ≠ '/').drop 1).contains ']'

/-- What is behind the mark that negates a bracket. -/
def behindMark : List Char → List Char
  | '!' :: l => l
  | l => l

/-- There is a bracket that is a pattern. -/
def hasBracket : List Char → Bool
  | [] => false
  | c :: l => (c == '[' && closes (behindMark l)) || hasBracket l

variable {l l' : List Char}

theorem hasBracket_of_notMem_open (h : '[' ∉ l) : hasBracket (l ++ l') = hasBracket l' := by
  induction l with
  | nil => rfl
  | cons c l ih =>
    obtain ⟨hc, hl⟩ := not_or.mp (mt List.mem_cons.mpr h)
    rw [List.cons_append, hasBracket, ih hl, beq_eq_false_iff_ne.mpr (Ne.symm hc), Bool.false_and,
      Bool.false_or]

theorem closes_of_notMem_close (h : ']' ∉ l) : closes l = false := by
  rw [closes, List.contains_eq_mem, decide_eq_false_iff_not]
  intro hmem
  exact h ((List.takeWhile_sublist _).subset (List.mem_of_mem_drop hmem))

theorem closes_append (h : ']' ∉ l') : closes (l ++ l') = closes l := by
  have htake : ']' ∉ l'.takeWhile fun c => c ≠ '/' := fun hmem =>
    h ((List.takeWhile_sublist _).subset hmem)
  unfold closes
  rw [List.takeWhile_append]
  split
  · rename_i hall
    have hself : l.takeWhile (fun c => c ≠ '/') = l :=
      (List.takeWhile_prefix _).eq_of_length hall
    have hdrop : ']' ∉ (l'.takeWhile fun c => c ≠ '/').drop (1 - l.length) := fun hmem =>
      htake (List.mem_of_mem_drop hmem)
    rw [hself, List.drop_append, List.contains_eq_mem, List.contains_eq_mem, decide_eq_decide,
      List.mem_append, or_iff_left hdrop]
  · rfl

theorem closes_behindMark_append (h : ']' ∉ l') :
    closes (behindMark (l ++ l')) = closes (behindMark l) := by
  have hmark : ∀ l : List Char, behindMark l = l ∨ l = '!' :: behindMark l := by
    intro l
    unfold behindMark
    split
    · exact Or.inr rfl
    · exact Or.inl rfl
  cases l with
  | nil =>
    have hno : ']' ∉ behindMark l' := by
      rcases hmark l' with hsame | hcons
      · rwa [hsame]
      · intro hmem
        rw [hcons] at h
        exact h (List.mem_cons_of_mem _ hmem)
    exact closes_of_notMem_close hno
  | cons c l =>
    by_cases hc : c = '!'
    · subst hc
      exact closes_append h
    · have hsame : ∀ l, behindMark (c :: l) = c :: l := by
        intro l
        rcases hmark (c :: l) with hsame | hcons
        · exact hsame
        · injection hcons with hhead
          exact absurd hhead hc
      rw [List.cons_append, hsame, hsame, ← List.cons_append, closes_append h]

theorem hasBracket_of_notMem_close (h : ']' ∉ l) : hasBracket l = false := by
  induction l with
  | nil => rfl
  | cons c l ih =>
    have hl : ']' ∉ l := fun hmem => h (List.mem_cons_of_mem _ hmem)
    have hclose : closes (behindMark l) = false := closes_behindMark_append (l := []) hl
    rw [hasBracket, ih hl, hclose, Bool.and_false, Bool.or_false]

theorem hasBracket_append (h : ']' ∉ l') : hasBracket (l ++ l') = hasBracket l := by
  induction l with
  | nil => exact hasBracket_of_notMem_close h
  | cons c l ih => rw [List.cons_append, hasBracket, ih, closes_behindMark_append h, hasBracket]

/-! ### Words -/

/-- It may stand in the middle of a word. -/
def Plain (s : String) : Prop := s.toList.all isOrdinary = true ∧ hasBracket s.toList = false

/-- It may stand at the beginning of a word: that is no comment and no home directory. -/
def Leading (s : String) : Prop := Plain s ∧ s.toList.head? ≠ some '#' ∧ s.toList.head? ≠ some '~'

/-- It is a word. -/
def Inert (w : String) : Prop := Leading w ∧ w ≠ ""

instance (s : String) : Decidable (Plain s) := inferInstanceAs (Decidable (_ ∧ _))

instance (s : String) : Decidable (Leading s) := inferInstanceAs (Decidable (_ ∧ _))

instance (w : String) : Decidable (Inert w) := inferInstanceAs (Decidable (_ ∧ _))

variable {s t w : String}

theorem plain_append_of_open (h : '[' ∉ s.toList) : Plain (s ++ t) ↔ Plain s ∧ Plain t := by
  have hs : hasBracket s.toList = false := by
    rw [← List.append_nil s.toList, hasBracket_of_notMem_open h]
    rfl
  unfold Plain
  rw [String.toList_append, hasBracket_of_notMem_open h]
  simp only [List.all_append, Bool.and_eq_true, hs, and_true]
  exact and_assoc

theorem plain_append_of_close (h : ']' ∉ t.toList) : Plain (s ++ t) ↔ Plain s ∧ Plain t := by
  unfold Plain
  rw [String.toList_append, hasBracket_append h]
  simp only [List.all_append, Bool.and_eq_true, hasBracket_of_notMem_close h, and_true]
  exact and_right_comm

/-- **Behind a literal beginning** a word may go on with what is plain. -/
theorem inert_append_left (hs : Inert s) (hopen : '[' ∉ s.toList) : Inert (s ++ t) ↔ Plain t := by
  obtain ⟨⟨hplain, hhash, htilde⟩, hne⟩ := hs
  have hlist : s.toList ≠ [] := fun h => hne (String.toList_eq_nil_iff.mp h)
  have hhead : (s ++ t).toList.head? = s.toList.head? := by
    rw [String.toList_append, List.head?_append_of_ne_nil _ hlist]
  constructor
  · rintro ⟨⟨h, -⟩, -⟩
    exact ((plain_append_of_open hopen).mp h).2
  · intro h
    refine ⟨⟨(plain_append_of_open hopen).mpr ⟨hplain, h⟩, ?_, ?_⟩, ?_⟩
    · rwa [hhead]
    · rwa [hhead]
    · intro hempty
      rw [← String.toList_eq_nil_iff, String.toList_append] at hempty
      exact hlist (List.append_eq_nil_iff.mp hempty).1

/-- **In front of a literal end** a word may begin with what may begin one. -/
theorem inert_append_right (ht : Inert t) (hclose : ']' ∉ t.toList) : Inert (s ++ t) ↔ Leading s := by
  obtain ⟨⟨hplain, hhash, htilde⟩, hne⟩ := ht
  have hlist : t.toList ≠ [] := fun h => hne (String.toList_eq_nil_iff.mp h)
  have happend : s ++ t ≠ "" := by
    intro hempty
    rw [← String.toList_eq_nil_iff, String.toList_append] at hempty
    exact hlist (List.append_eq_nil_iff.mp hempty).2
  unfold Inert Leading
  rw [plain_append_of_close hclose, String.toList_append]
  cases hs : s.toList with
  | nil => simp [hplain, hhash, htilde, happend]
  | cons c l => simp [hplain, happend]

/-! ### Commands -/

/-- What is between the blanks. -/
def fields (text : String) : List String :=
  (((text.toList.takeWhile fun c => c ≠ nul).splitOnP isBlank).filter fun l => !l.isEmpty).map
    String.ofList

/-- The words of a command, where it is nothing but words. -/
def shellWords (text : String) : Option (List String) :=
  if ∀ w ∈ fields text, Inert w then some (fields text) else none

theorem Inert.notBlank (h : Inert w) : ∀ c ∈ w.toList, isBlank c = false := by
  intro c hc
  have hordinary := List.all_eq_true.mp h.1.1.1 c hc
  simp only [isOrdinary, Bool.and_eq_true, Bool.not_eq_true'] at hordinary
  exact hordinary.1.1

theorem Inert.notNul (h : Inert w) : ∀ c ∈ w.toList, (decide (c ≠ nul)) = true := by
  intro c hc
  have hordinary := List.all_eq_true.mp h.1.1.1 c hc
  simp only [isOrdinary, Bool.and_eq_true] at hordinary
  exact hordinary.1.2

theorem Inert.notEmpty (h : Inert w) : (!w.toList.isEmpty) = true := by
  have hlist : w.toList ≠ [] := fun hnil => h.2 (String.toList_eq_nil_iff.mp hnil)
  simpa using hlist

theorem fields_word (h : Inert w) : fields w = [w] := by
  have htake : w.toList.takeWhile (fun c => c ≠ nul) = w.toList :=
    List.takeWhile_eq_self_iff.mpr h.notNul
  rw [fields, htake, List.splitOnP_eq_singleton h.notBlank, List.filter_cons, if_pos h.notEmpty,
    List.filter_nil, List.map_singleton, String.ofList_toList]

theorem fields_cons (h : Inert w) : fields (w ++ " " ++ t) = w :: fields t := by
  have hlist : (w ++ " " ++ t).toList = w.toList ++ ' ' :: t.toList := by simp
  rw [fields, hlist, List.takeWhile_append_of_pos h.notNul,
    List.takeWhile_cons_of_pos (by decide), List.splitOnP_append_cons_of_forall_mem h.notBlank _ rfl,
    List.filter_cons, if_pos h.notEmpty, List.map_cons, String.ofList_toList, fields]

theorem fields_intercalate {ws : List String} (h : ∀ w ∈ ws, Inert w) :
    fields (" ".intercalate ws) = ws := by
  induction ws with
  | nil =>
    rw [String.intercalate_nil]
    rfl
  | cons w ws ih =>
    have hw := h w List.mem_cons_self
    cases ws with
    | nil => rw [String.intercalate_singleton, fields_word hw]
    | cons w' ws =>
      rw [String.intercalate_cons_cons, fields_cons hw,
        ih fun v hv => h v (List.mem_cons_of_mem _ hv)]

/-- **A command that is put together from words** is split into them just if each of
them is inert. -/
theorem shellWords_intercalate_iff {ws : List String} :
    shellWords (" ".intercalate ws) = some ws ↔ ∀ w ∈ ws, Inert w := by
  unfold shellWords
  constructor
  · intro h
    split at h
    · rename_i hinert
      rwa [Option.some.inj h] at hinert
    · cases h
  · intro h
    rw [fields_intercalate h, if_pos h]

end Shell

end Nonsense
