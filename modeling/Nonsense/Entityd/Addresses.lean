import Nonsense.Entityd.Basic
import Mathlib.Data.List.TakeWhile
import Std.Data.String.ToNat

/-!
# Addresses in a /24

`nth_address_in_subnet` cuts the text of an address at the last dot before the
slash.  `subnet` is what is left, where the mask is `24`, and `host p n` is the
`n`-th address under it: the function is `host`, or it fails whatever the `n`
(`nthAddressInSubnet_of_subnet`, `nthAddressInSubnet_of_none`).

What such a text means is up to `ip`; `reading octet` is what it means if `octet` says
what each part between two dots does, and the `n`-th address is then read as the reading of
the rest with `n` behind it (`address_host`).
-/

namespace Nonsense

namespace Entityd

/-- The part before the last dot, where the mask is `24`. -/
def subnet (netValue : String) : Option String :=
  match netValue.toList.dropWhile fun c => c ≠ '/' with
  | [] => none
  | _ :: mask =>
    if mask = ['2', '4'] then
      some (String.ofList (beforeLastDot (netValue.toList.takeWhile fun c => c ≠ '/')))
    else none

/-- The `n`-th address. -/
def host (p : String) (n : ℕ) : String := p ++ "." ++ toString n

section

variable {net p : String}

theorem nthAddressInSubnet_of_subnet (h : subnet net = some p) (n : ℕ) (includeMask : Bool) :
    nthAddressInSubnet net n includeMask = .ok (host p n ++ if includeMask then "/24" else "") := by
  unfold subnet at h
  unfold nthAddressInSubnet
  generalize net.toList.dropWhile (fun c => c ≠ '/') = behind at h ⊢
  cases behind with
  | nil => cases h
  | cons slash mask =>
    dsimp only at h ⊢
    split at h
    · rename_i h24
      cases h
      rw [if_pos h24, host]
    · cases h

theorem nthAddressInSubnet_masked (h : subnet net = some p) (n : ℕ) :
    nthAddressInSubnet net n true = .ok (host p n ++ "/24") :=
  nthAddressInSubnet_of_subnet h n true

theorem nthAddressInSubnet_bare (h : subnet net = some p) (n : ℕ) :
    nthAddressInSubnet net n false = .ok (host p n) := by
  rw [nthAddressInSubnet_of_subnet h, if_neg (by decide), String.append_empty]

theorem nthAddressInSubnet_of_none (h : subnet net = none) :
    ∃ f, ∀ n includeMask, nthAddressInSubnet net n includeMask = .error f := by
  unfold subnet at h
  unfold nthAddressInSubnet
  generalize net.toList.dropWhile (fun c => c ≠ '/') = behind at h ⊢
  cases behind with
  | nil => exact ⟨_, fun _ _ => rfl⟩
  | cons slash mask =>
    dsimp only at h ⊢
    split at h
    · cases h
    · rename_i h24
      exact ⟨_, fun _ _ => if_neg h24⟩

/-- **An address is cut in front of its last part.** -/
theorem beforeLastDot_append {l last : List Char} (h : '.' ∉ last) :
    beforeLastDot (l ++ '.' :: last) = l := by
  have hdrop : (last.reverse ++ '.' :: l.reverse).dropWhile (fun c => c ≠ '.') =
      '.' :: l.reverse := by
    rw [List.dropWhile_append_of_pos]
    · rw [List.dropWhile_cons_of_neg (by simp)]
    · intro c hc
      have hne : c ≠ '.' := fun he => h (he ▸ List.mem_reverse.mp hc)
      simpa using hne
  rw [beforeLastDot, if_pos (by simp), List.reverse_append, List.reverse_cons, List.append_assoc,
    List.singleton_append, hdrop, List.drop_succ_cons, List.drop_zero, List.reverse_reverse]

/-- What is before the slash, and the mask behind it. -/
theorem subnet_append {network : String} (h : '/' ∉ network.toList) :
    subnet (network ++ "/24") = some (String.ofList (beforeLastDot network.toList)) := by
  have hpos : ∀ c ∈ network.toList, (decide (c ≠ '/')) = true := by
    intro c hc
    have hne : c ≠ '/' := fun he => h (he ▸ hc)
    simpa using hne
  have hlist : (network ++ "/24").toList = network.toList ++ ['/', '2', '4'] := by
    rw [String.toList_append]
    rfl
  rw [subnet, hlist, List.dropWhile_append_of_pos hpos, List.takeWhile_append_of_pos hpos]
  simp

/-- No slash is left. -/
theorem notMem_of_subnet (h : subnet net = some p) : '/' ∉ p.toList := by
  have hlast : ∀ l : List Char, beforeLastDot l ⊆ l := by
    intro l c hc
    unfold beforeLastDot at hc
    split at hc
    · rw [List.mem_reverse] at hc
      exact List.mem_reverse.mp ((List.dropWhile_sublist _).subset (List.mem_of_mem_drop hc))
    · exact hc
  unfold subnet at h
  split at h
  · cases h
  · split at h
    · cases h
      rw [String.toList_ofList]
      intro hmem
      have hslash := List.mem_takeWhile_imp (hlast _ hmem)
      simp at hslash
    · cases h

theorem isDigit_of_mem_toString {n : ℕ} {c : Char} (h : c ∈ (toString n).toList) : c.isDigit := by
  rw [Nat.toString_eq_repr, Nat.repr_eq_ofList_toDigits, String.toList_ofList] at h
  exact Nat.isDigit_of_mem_toDigits (by decide) (by decide) h

theorem toList_host (p : String) (n : ℕ) :
    (host p n).toList = p.toList ++ '.' :: (toString n).toList := by
  simp [host]

/-- **Hosts are told apart** by their networks and their numbers. -/
theorem host_inj {q : String} {n k : ℕ} (h : host p n = host q k) : p = q ∧ n = k := by
  have hdot : ∀ n : ℕ, '.' ∉ (toString n).toList := by
    intro n hmem
    cases isDigit_of_mem_toString hmem
  have hp : p = q := by
    have hcut := congrArg (fun s => beforeLastDot s.toList) h
    simp only [toList_host, beforeLastDot_append (hdot _)] at hcut
    exact String.toList_injective hcut
  subst hp
  exact ⟨rfl, Nat.repr_injective (String.append_right_inj _ |>.mp h)⟩

/-- And so are addresses, whatever the mask. -/
theorem host_mask_inj {q mask : String} {n k : ℕ} (hq : '/' ∉ q.toList)
    (h : host q k ++ "/24" = host p n ++ "/" ++ mask) : q = p ∧ k = n := by
  have hhost : '/' ∉ (host q k).toList := by
    rw [toList_host, List.mem_append, List.mem_cons]
    rintro (hmem | hmem | hmem)
    · exact hq hmem
    · cases hmem
    · cases isDigit_of_mem_toString hmem
  have hlist : (host q k).toList ++ '/' :: ['2', '4'] = (host p n).toList ++ '/' :: mask.toList := by
    have hsame := congrArg String.toList h
    simpa using hsame
  exact host_inj (String.toList_injective
    ((List.append_cons_inj_of_notMem hhost (by decide)).mp hlist).1)

/-! ### What the texts mean -/

/-- What the parts between the dots mean. -/
def reading (octet : String → Option ℕ) (network : String) : Option (List ℕ) :=
  (network.toList.splitOn '.').mapM fun part => octet (String.ofList part)

/-- What an address with a mask means. -/
def address (octet : String → Option ℕ) (text : String) : Option (List ℕ) :=
  reading octet (String.ofList (text.toList.takeWhile fun c => c ≠ '/'))

theorem address_host {octet : String → Option ℕ} {v : List ℕ} {n : ℕ}
    (hn : n ∈ [1, 2, 3]) (hoctet : octet (toString n) = some n) (hp : '/' ∉ p.toList)
    (hv : reading octet p = some v) : address octet (host p n ++ "/24") = some (v ++ [n]) := by
  have hdigits : ∀ n ∈ [1, 2, 3], '/' ∉ (toString n).toList ∧ '.' ∉ (toString n).toList := by
    decide
  obtain ⟨hslash, hdot⟩ := hdigits n hn
  have hnetwork : (host p n ++ "/24").toList.takeWhile (fun c => c ≠ '/') =
      p.toList ++ '.' :: (toString n).toList := by
    have hpos : ∀ c ∈ p.toList ++ '.' :: (toString n).toList, (decide (c ≠ '/')) = true := by
      intro c hc
      rcases List.mem_append.mp hc with hc | hc
      · exact decide_eq_true fun he => hp (he ▸ hc)
      · rcases List.mem_cons.mp hc with rfl | hc
        · rfl
        · exact decide_eq_true fun he => hslash (he ▸ hc)
    have hlist : (host p n ++ "/24").toList =
        (p.toList ++ '.' :: (toString n).toList) ++ ['/', '2', '4'] := by
      simp [host]
    rw [hlist, List.takeWhile_append_of_pos hpos]
    simp
  have hsplit : (p.toList ++ '.' :: (toString n).toList).splitOn '.' =
      p.toList.splitOn '.' ++ [(toString n).toList] := by
    have hlast : ∀ c ∈ (toString n).toList, (c == '.') = false := by
      intro c hc
      exact beq_eq_false_iff_ne.mpr fun he => hdot (he ▸ hc)
    rw [List.splitOn_eq_splitOnP, List.splitOn_eq_splitOnP, List.splitOnP_append_cons _ _ rfl,
      List.splitOnP_eq_singleton hlast]
  have hlast : [(toString n).toList].mapM (fun part => octet (String.ofList part)) = some [n] := by
    rw [List.mapM_cons, String.ofList_toList, hoctet]
    rfl
  rw [reading] at hv
  rw [address, hnetwork, reading, String.toList_ofList, hsplit, List.mapM_append, hv, hlast]
  rfl

end

/-- An address `x.y.z.w/24`. -/
structure Slash24 where
  x : String
  y : String
  z : String
  w : String
  plain : ∀ part ∈ [x, y, z, w], '.' ∉ part.toList ∧ '/' ∉ part.toList

namespace Slash24

/-- The part before the last dot. -/
def net (a : Slash24) : String := a.x ++ "." ++ a.y ++ "." ++ a.z

def text (a : Slash24) : String := a.net ++ "." ++ a.w ++ "/24"

theorem subnet_text (a : Slash24) : subnet a.text = some a.net := by
  have hx := a.plain a.x (by simp)
  have hy := a.plain a.y (by simp)
  have hz := a.plain a.z (by simp)
  have hw := a.plain a.w (by simp)
  have hslash : '/' ∉ (a.net ++ "." ++ a.w).toList := by
    simp [net, hx.2, hy.2, hz.2, hw.2]
  have hlist : (a.net ++ "." ++ a.w).toList = a.net.toList ++ '.' :: a.w.toList := by simp
  rw [text, subnet_append hslash, hlist, beforeLastDot_append hw.1, String.ofList_toList]

end Slash24

end Entityd

end Nonsense
