import Nonsense.Entityd.Accepted

/-!
# Failing midway

A command of `add_network` that fails throws, and the handler asserts: the process is
gone, with all that it would have undone.  By then it has mounted its namespace at
least, so there is always something left (`failure_not_undone`).
-/

namespace Nonsense

namespace Entityd

variable {parse : String → Option Json} {j component : Json} {calls : List Call} {s : Ledger}
  {name : String} {m : Object} {ok : ℕ → Bool} {i : ℕ} {c : Command}

/-- An action that is seen outside of the own namespace. -/
def Action.outside : Action → Bool
  | .mount _ => true
  | .system ⟨some _, _⟩ => true
  | .system ⟨none, .linkSetNetns _ _⟩ => true
  | _ => false

/-- Where the action at `i` has failed: what was done outside before it is undone
behind it, in reverse order. -/
def UndoneFrom (name : String) (actions : List Action) (i : ℕ) : Prop :=
  (((actions.take i).filter Action.outside).filterMap (Action.undo name)).reverse.Sublist
    (actions.drop (i + 1))

instance (name : String) (actions : List Action) (i : ℕ) : Decidable (UndoneFrom name actions i) :=
  inferInstanceAs (Decidable (List.Sublist _ _))

/-- No command comes before the mount. -/
theorem Given.mounted {tree : Object} {ms : List Object} {r : NetworkRole}
    (h : Given tree name m ms r component)
    (hc : (finalState (addNetwork allOk name component .initial)).actions[i]? = some (.system c)) :
    .mount (netnsPath (netnsName name)) ∈
      (finalState (addNetwork allOk name component .initial)).actions.take i := by
  rw [h.actions, preparing, List.append_assoc] at hc ⊢
  have hle : (entering name m ++ mounting name).length ≤ i := by
    by_contra hlt
    rw [List.getElem?_append_left (by omega)] at hc
    exact system_notMem_before (List.mem_of_getElem? hc)
  rw [List.take_append, List.take_of_length_le hle]
  simp [mounting]

/-- **Nothing is undone**: wherever a command fails. -/
theorem failure_not_undone (h : Ledger.loadAndRun parse j calls = some s)
    (hsent : s.Sends name m component) (hok : ok i = false)
    (hc : (finalState (addNetwork ok name component .initial)).actions[i]? = some (.system c)) :
    ¬ UndoneFrom name (lifetime ok name component).actions i := by
  obtain ⟨ms, r, hgiven⟩ := exists_given h hsent
  obtain ⟨what, t, hrun, ht⟩ := addNetwork_failed hok (show State.initial.actions.length ≤ i from Nat.zero_le i) hc
  obtain ⟨rest, hrest⟩ := addNetwork_cut ok name component .initial
  rw [hrun] at hc hrest
  have hc : t.actions[i]? = some (.system c) := hc
  have hrest : t.actions ++ rest =
    (finalState (addNetwork allOk name component .initial)).actions := hrest
  rw [lifetime_eq, hrun]
  show ¬ UndoneFrom name t.actions i
  -- the mount is there, and nothing comes behind the command
  have hmount : .mount (netnsPath (netnsName name)) ∈ t.actions.take i := by
    have hall := hgiven.mounted (i := i) (c := c)
      (by rw [← hrest, List.getElem?_append_left (by omega), hc])
    rwa [← hrest, List.take_append_of_le_length (by omega)] at hall
  have hundo : .umount (netnsPath (netnsName name)) ∈
      (((t.actions.take i).filter Action.outside).filterMap (Action.undo name)).reverse := by
    rw [List.mem_reverse, List.mem_filterMap]
    exact ⟨_, List.mem_filter.mpr ⟨hmount, rfl⟩, rfl⟩
  intro hsub
  have hmem := hsub.subset hundo
  rw [List.drop_of_length_le (by omega)] at hmem
  exact absurd hmem List.not_mem_nil

/-- Everything succeeds but the action at `i`. -/
def failsAt (i : ℕ) : ℕ → Bool := fun n => n ≠ i

/-- The command behind the move of the link, as the one that fails. -/
theorem exists_failure : ∃ s m component c,
    Ledger.loadAndRun (fun _ => none) uplinksFile [] = some s ∧ s.Sends "a" m component ∧
      c = inside "b" (.addrAdd "10.0.1.1/24" "nd-a") ∧
      (finalState (addNetwork (failsAt 11) "a" component .initial)).actions[11]? = some (.system c) ∧
      ¬ UndoneFrom "a" (lifetime (failsAt 11) "a" component).actions 11 := by
  obtain ⟨s, m, component, hs, hsent, hp⟩ := exists_sends (fun _ => none) uplinksFile [] "a"
    (fun _ p => (finalState (addNetwork (failsAt 11) "a" p.2 .initial)).actions[11]? =
        some (.system (inside "b" (.addrAdd "10.0.1.1/24" "nd-a"))) ∧
      ¬ UndoneFrom "a" (lifetime (failsAt 11) "a" p.2).actions 11) (by decide +kernel)
  obtain ⟨hc, hleft⟩ := of_decide_eq_true hp
  exact ⟨s, m, component, _, hs, hsent, rfl, hc, hleft⟩

theorem failure_not_undone_uplinksFile :
    ∃ s m component, Ledger.loadAndRun (fun _ => none) uplinksFile [] = some s ∧
      s.Sends "a" m component ∧
      ¬ UndoneFrom "a" (lifetime (failsAt 11) "a" component).actions 11 := by
  obtain ⟨s, m, component, c, hs, hsent, -, hc, -⟩ := exists_failure
  exact ⟨s, m, component, hs, hsent, failure_not_undone hs hsent (by decide) hc⟩

/-- **Where the command behind the move of the link fails**, the link stays in the
namespace of the uplink, and the mount stays. -/
theorem link_left_behind :
    ¬ ∀ (parse : String → Option Json) (j : Json) (calls : List Call) (s : Ledger) (name : String)
      (m : Object) (component : Json) (ok : ℕ → Bool) (i : ℕ) (c : Command),
      Ledger.loadAndRun parse j calls = some s → s.Sends name m component → ok i = false →
        (finalState (addNetwork ok name component .initial)).actions[i]? = some (.system c) →
          UndoneFrom name (lifetime ok name component).actions i := by
  intro h
  obtain ⟨s, m, component, c, hs, hsent, -, hc, hleft⟩ := exists_failure
  exact hleft (h _ _ _ _ _ _ _ _ _ _ hs hsent (by decide) hc)

end Entityd

end Nonsense
