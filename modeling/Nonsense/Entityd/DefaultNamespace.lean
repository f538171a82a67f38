import Nonsense.Entityd.Accepted
import Nonsense.Transactions.Extends

/-!
# The default namespace

The daemon records the entity that has the parameter `default`, whatever its value
is; the process stays in the namespace it was started in if the value is `true`.  So
the two agree where the parameter is missing or `true`, and nowhere else
(`default_agrees`).
-/

namespace Nonsense

namespace Entityd

variable {parse : String → Option Json} {j component : Json} {calls : List Call} {s : Ledger}
  {name : String} {m : Object}

theorem isBoolean_eqBoolean {o : Option Json} {b : Bool} :
    ((o.getD .null).isBoolean && (o.getD .null).eqBoolean b) = true ↔ o = some (.boolean b) := by
  cases o with
  | none => simp [Json.isBoolean]
  | some v => cases v <;> simp [Json.isBoolean, Json.eqBoolean]

/-- The entity that is the default stays where it is. -/
theorem entering_of_default (h : m.find "external" ≠ some (.boolean true))
    (hdefault : m.find "default" = some (.boolean true)) : entering name m = [] := by
  rw [entering]
  rw [if_neg fun hc => h (isBoolean_eqBoolean.mp hc), hdefault]
  rfl

/-- Any other gets a namespace of its own. -/
theorem entering_of_not_default (h : m.find "external" ≠ some (.boolean true))
    (hdefault : m.find "default" ≠ some (.boolean true)) : entering name m = [.unshare] := by
  rw [entering]
  rw [if_neg fun hc => h (isBoolean_eqBoolean.mp hc)]
  apply if_pos
  cases hd : OrdMap.find m "default" with
  | none => rfl
  | some v =>
    cases v with
    | boolean b =>
      cases b with
      | true => exact absurd hd hdefault
      | false => rfl
    | _ => rfl

/-- Nothing but the way into the namespace makes a new one. -/
theorem unshare_mem_iff {ms : List Object} {r : NetworkRole} :
    .unshare ∈ preparing name m r ++ (connecting name m ms r).1 ↔ .unshare ∈ entering name m := by
  unfold preparing
  constructor
  · intro h
    rcases List.mem_append.mp h with h | h
    · rcases List.mem_append.mp h with h | h
      · rcases List.mem_append.mp h with h | h
        · exact h
        · simp [mounting] at h
      · obtain ⟨_, hc⟩ := linking_system h
        cases hc
    · obtain ⟨_, hc⟩ := connecting_system h
      cases hc
  · intro h
    exact List.mem_append_left _ (List.mem_append_left _ (List.mem_append_left _ h))

/-- **The process stays where it was started** for the value `true` alone, whatever
fails. -/
theorem unshare_notMem_iff (h : Ledger.loadAndRun parse j calls = some s)
    (hsent : s.Sends name m component) (hexternal : m.find "external" ≠ some (.boolean true))
    (ok : ℕ → Bool) :
    .unshare ∉ (finalState (addNetwork ok name component .initial)).actions ↔
      m.find "default" = some (.boolean true) := by
  obtain ⟨ms, r, hgiven⟩ := exists_given h hsent
  by_cases hdefault : m.find "default" = some (.boolean true)
  · refine iff_of_true ?_ hdefault
    intro hmem
    have hall := (addNetwork_cut ok name component .initial).subset hmem
    rw [hgiven.actions, unshare_mem_iff, entering_of_default hexternal hdefault] at hall
    cases hall
  · refine iff_of_false ?_ hdefault
    intro hmem
    apply hmem
    apply addNetwork_starts ok
    rw [hgiven.actions, preparing, entering_of_not_default hexternal hdefault]
    rfl

/-- **When the daemon and the process agree** on the default namespace. -/
theorem default_agrees (h : Ledger.loadAndRun parse j calls = some s)
    (hsent : s.Sends name m component) (hexternal : m.find "external" ≠ some (.boolean true))
    (ok : ℕ → Bool) :
    (.unshare ∉ (finalState (addNetwork ok name component .initial)).actions ↔
      s.manager.running.configuration.find ":default-netns" = some (.string name)) ↔
    (m.find "default" = none ∨ m.find "default" = some (.boolean true)) := by
  obtain ⟨c, hload, hrun⟩ := Ledger.loadAndRun_eq_some_iff.mp h
  have hrecorded : s.manager.running.configuration.find ":default-netns" = some (.string name) ↔
      m.find "default" ≠ none := by
    rw [← Config.recorded_eq_some_iff, ← Ledger.running_singleDefault hload hrun name,
      Config.HasDefault]
    simp only [hsent.network, Option.some.injEq, exists_eq_left', ne_eq, OrdMap.find_eq_none_iff,
      not_not]
  rw [unshare_notMem_iff h hsent hexternal ok, hrecorded]
  cases m.find "default" with
  | none => simp
  | some v => simp

/-- An entity that says that it is not the default. -/
def notDefaultFile : Json :=
  .object [("!metadata", .object [("version", .integer 1)]),
    ("a", .object [("network", .object [("default", .boolean false), ("role", .string "root")])])]

theorem default_agrees_defaultFile :
    ∃ s m component, Ledger.loadAndRun (fun _ => none) Ledger.defaultFile
        (Ledger.addSwitch "b" "a") = some s ∧
      s.Sends "a" m component ∧ m.find "default" = some (.boolean true) ∧
      (.unshare ∉ (finalState (addNetwork allOk "a" component .initial)).actions ↔
        s.manager.running.configuration.find ":default-netns" = some (.string "a")) := by
  obtain ⟨s, m, component, hs, hsent, hp⟩ := exists_sends (fun _ => none) Ledger.defaultFile
    (Ledger.addSwitch "b" "a") "a"
    (fun _ p => (p.1.find "external").isNone ∧ ((p.1.find "default").getD .null).isBoolean &&
      ((p.1.find "default").getD .null).eqBoolean true) (by decide +kernel)
  obtain ⟨hexternal, hdefault⟩ := of_decide_eq_true hp
  have hdefault : m.find "default" = some (.boolean true) := isBoolean_eqBoolean.mp hdefault
  have hno : m.find "external" ≠ some (.boolean true) := by
    rw [Option.isNone_iff_eq_none.mp hexternal]
    simp
  exact ⟨s, m, component, hs, hsent, hdefault,
    (default_agrees hs hsent hno allOk).mpr (Or.inr hdefault)⟩

/-- **An entity with `default` set to `false`** is recorded, and gets a namespace of
its own. -/
theorem default_false_recorded :
    ¬ ∀ (parse : String → Option Json) (j : Json) (calls : List Call) (s : Ledger) (name : String)
      (m : Object) (component : Json) (ok : ℕ → Bool),
      Ledger.loadAndRun parse j calls = some s → s.Sends name m component →
        m.find "external" ≠ some (.boolean true) →
          (.unshare ∉ (finalState (addNetwork ok name component .initial)).actions ↔
            s.manager.running.configuration.find ":default-netns" = some (.string name)) := by
  intro h
  obtain ⟨s, m, component, hs, hsent, hp⟩ := exists_sends (fun _ => none) notDefaultFile [] "a"
    (fun s p => (p.1.find "external").isNone ∧
      .unshare ∈ (finalState (addNetwork allOk "a" p.2 .initial)).actions ∧
      Config.recorded s.manager.running.configuration = some "a") (by decide +kernel)
  obtain ⟨hexternal, hunshare, hrecorded⟩ := of_decide_eq_true hp
  refine (h _ _ _ _ _ _ _ allOk hs hsent ?_).mpr (Config.recorded_eq_some_iff.mp hrecorded) hunshare
  rw [Option.isNone_iff_eq_none.mp hexternal]
  simp

end Entityd

end Nonsense
