import Nonsense.Config.Defaults
import Nonsense.Config.Grows
import Nonsense.Transactions.Commits

/-!
# What a commit adds

`Extends tree tree' names`: every entry of `tree` is in `tree'` with the same
value, the entries of `names` are new, and nothing else is, except that the
default namespace may now be recorded.  An `add` that succeeds does so for its own
name, though it validates through references into the whole tree: what it would
write elsewhere is there already, because the configuration is well formed
(`Config.add_find`).

The record itself follows the one entity that has the parameter `default`, if
there is one (`single_default`).
-/

namespace Nonsense

/-- The entity that an operation adds. -/
def Operation.addedName : Operation → Option String
  | .add name _ => some name
  | _ => none

namespace Config

/-- `tree'` is `tree` and the entries of `names`. -/
structure Extends (tree tree' : Object) (names : List String) : Prop where
  kept : ∀ k v, tree.find k = some v → (k = ":default-netns" → v.isNull = false) →
    tree'.find k = some v
  stays : ∀ k, (tree.find k).isSome → (tree'.find k).isSome
  added : ∀ k ∈ names, tree.find k = none ∧ (tree'.find k).isSome
  only : ∀ k, tree.find k = none → (tree'.find k).isSome → k ∈ names ∨ k = ":default-netns"

variable {tree tree' tree'' : Object} {names names' : List String}

theorem Extends.refl (tree : Object) : Extends tree tree [] := by
  refine ⟨fun k v hk _ => hk, fun k hk => hk, fun k hk => absurd hk List.not_mem_nil, ?_⟩
  intro k hnone hsome
  rw [hnone] at hsome
  cases hsome

theorem Extends.trans (h : Extends tree tree' names) (h' : Extends tree' tree'' names') :
    Extends tree tree'' (names ++ names') := by
  refine ⟨?_, fun k hk => h'.stays k (h.stays k hk), ?_, ?_⟩
  · intro k v hk hnull
    exact h'.kept k v (h.kept k v hk hnull) hnull
  · intro k hk
    rcases List.mem_append.mp hk with hk | hk
    · exact ⟨(h.added k hk).1, h'.stays k (h.added k hk).2⟩
    · obtain ⟨hnone, hsome⟩ := h'.added k hk
      refine ⟨?_, hsome⟩
      cases hf : tree.find k with
      | none => rfl
      | some v =>
        have hstays := h.stays k (by rw [hf]; rfl)
        rw [hnone] at hstays
        cases hstays
  · intro k hnone hsome
    rw [List.mem_append]
    cases hf : tree'.find k with
    | none => exact (h'.only k hf hsome).imp_left Or.inr
    | some v => exact (h.only k hnone (by rw [hf]; rfl)).imp_left Or.inl

variable {parse : String → Option Json} {c c' : Config} {name : String}
  {params : List ParameterValue} {r : ConfigResult}

/-- **What an `add` that succeeds does to the tree as a whole.** -/
theorem add_extends (hwf : WellFormed c.configuration)
    (h : add parse c name params = .returned r c') (hr : r.errorCode = 0) :
    Extends c.configuration c'.configuration [name] := by
  have hname : c.configuration.find name = none := (add_eq_zero h hr).2.1
  have hgrown : (c'.configuration.find name).isSome := by
    obtain ⟨-, -, entity, tree', -, hval, rfl⟩ := add_eq_zero h hr
    apply (validateEntity_spec hval).1.grows.find
    rw [OrdMap.find_insert_self]
    rfl
  have hne : ∀ k, (c.configuration.find k).isSome → k ≠ name := by
    rintro k hk rfl
    rw [hname] at hk
    cases hk
  refine ⟨?_, (add_grows h hr).find, ?_, ?_⟩
  · intro k v hk hnull
    rcases add_find hwf h hr (hne k (by rw [hk]; rfl)) with hf | ⟨hkd, hv, -⟩
    · exact hf.trans hk
    · -- it is the record of the default, and would be null
      have hnotnull := hnull hkd
      rw [hk, Option.getD_some] at hv
      rw [hv] at hnotnull
      cases hnotnull
  · intro k hk
    obtain rfl := List.mem_singleton.mp hk
    exact ⟨hname, hgrown⟩
  · intro k hnone hsome
    by_cases hk : k = name
    · exact Or.inl (List.mem_singleton.mpr hk)
    · rcases add_find hwf h hr hk with hf | ⟨hkd, -, -⟩
      · rw [hf, hnone] at hsome
        cases hsome
      · exact Or.inr hkd

end Config

namespace Ledger

open Machine Transactions

variable {parse : String → Option Json} {c : Config} {s s' : Ledger} {calls : List Call}
  {parsed : Except Failure UInt64} {creds : Creds}

theorem foldlM_extends {operations : List Operation} {c c' : Config}
    (hwf : Config.WellFormed c.configuration)
    (h : operations.foldlM (addOperation parse) c = some c') :
    Config.Extends c.configuration c'.configuration (operations.filterMap Operation.addedName) := by
  induction operations generalizing c with
  | nil => cases h; exact Config.Extends.refl _
  | cons operation operations ih =>
    obtain ⟨name, _, _, c₁, rfl, hadd, hr, h⟩ := foldlM_cons_eq_some_iff.mp h
    exact (Config.add_extends hwf hadd hr).trans (ih (Config.add_wellFormed hwf hadd hr) h)

/-- **Commits only extend.**  After any run a commit keeps every entry there is, and
one that succeeds puts in what its operations add and nothing else, except that it
may record the default namespace. -/
theorem commit_extends {j : Json} (hload : Config.load j = .ok c)
    (h : (machine parse).run (start c) calls = some s)
    (hstep : (machine parse).step s (.commit parsed creds) = some s') :
    (∀ k v, s.manager.running.configuration.find k = some v →
      (k = ":default-netns" → v.isNull = false) →
      s'.manager.running.configuration.find k = some v) ∧
    ∀ id transaction, parsed = .ok id → s.manager.transactions.find id = some transaction →
      s'.history = ⟨.commit parsed creds, [.methodReturn []]⟩ :: s.history →
      (∀ name ∈ transaction.operations.filterMap Operation.addedName,
        s.manager.running.configuration.find name = none ∧
          (s'.manager.running.configuration.find name).isSome) ∧
      ∀ k, s.manager.running.configuration.find k = none →
        (s'.manager.running.configuration.find k).isSome →
        k ∈ transaction.operations.filterMap Operation.addedName ∨ k = ":default-netns" := by
  have hwf := (running_wellFormed hload h).1
  obtain ⟨replies, heff, hhist⟩ := step_effect hstep
  have hsame : ∀ {reply more}, replies = reply :: more → reply.isError = true →
      s'.history ≠ ⟨.commit parsed creds, [.methodReturn []]⟩ :: s.history := by
    rintro reply more rfl herr hsuccess
    rw [hhist] at hsuccess
    cases hsuccess
    cases herr
  generalize s'.manager = t' at heff ⊢
  cases heff with
  | refused herr => exact ⟨fun k v hk _ => hk, fun _ _ _ _ hok => absurd hok (hsame rfl herr)⟩
  | notCommitted _ _ _ => exact ⟨fun k v hk _ => hk, fun _ _ _ _ hok => absurd hok (hsame rfl rfl)⟩
  | @commit id' owner transaction' c' hfind hown hfold =>
    have hcopy : Config.WellFormed s.manager.running.copy.configuration := hwf
    have hext := foldlM_extends hcopy hfold
    refine ⟨hext.kept, ?_⟩
    rintro id transaction hid hfind' -
    cases hid
    rw [hfind] at hfind'
    cases hfind'
    exact ⟨hext.added, hext.only⟩

theorem commit_extends_addSwitch :
    ∃ s s' v, loadAndRun (fun _ => none) (.object bareFile) ((addSwitch "a" "a").take 2) = some s ∧
      (machine fun _ => none).step s (.commit (.ok 1) (.uid 0)) = some s' ∧
      s.manager.running.configuration.find "!metadata" = some v ∧
      s'.manager.running.configuration.find "!metadata" = some v := by
  have hrun : (loadAndRun (fun _ => none) (.object bareFile) ((addSwitch "a" "a").take 2)).any
      (fun s => ((machine fun _ => none).step s (.commit (.ok 1) (.uid 0))).isSome ∧
        (s.manager.running.configuration.find "!metadata").isSome) = true := by decide +kernel
  obtain ⟨s, hs, hlast⟩ := (Option.any_eq_true ..).mp hrun
  obtain ⟨hstep, hfind⟩ := of_decide_eq_true hlast
  obtain ⟨s', hstep⟩ := Option.isSome_iff_exists.mp hstep
  obtain ⟨v, hfind⟩ := Option.isSome_iff_exists.mp hfind
  obtain ⟨c, hload, hinputs⟩ := loadAndRun_eq_some_iff.mp hs
  have hkept := (commit_extends hload hinputs hstep).1
  exact ⟨s, s', v, hs, hstep, hfind, hkept _ _ hfind fun hd => absurd hd (by decide)⟩

/-! ### The default namespace -/

theorem running_singleDefault {j : Json} (hload : Config.load j = .ok c)
    (h : (machine parse).run (start c) calls = some s) :
    Config.SingleDefault s.manager.running.configuration :=
  running_keeps Config.add_singleDefault (Config.load_singleDefault hload) h

/-- **There is a single default.**  After any run one entity at most has the
parameter `default`, and `:default-netns` is a string exactly when there is one, and
then is its name. -/
theorem single_default {j : Json} (hload : Config.load j = .ok c)
    (h : (machine parse).run (start c) calls = some s) :
    (∀ a b, Config.HasDefault s.manager.running.configuration a →
      Config.HasDefault s.manager.running.configuration b → a = b) ∧
    ((∃ v, s.manager.running.configuration.find ":default-netns" = some (.string v)) ↔
      ∃ a, Config.IsEntity s.manager.running.configuration a ∧
        Config.HasDefault s.manager.running.configuration a) ∧
    ∀ a v, Config.HasDefault s.manager.running.configuration a →
      s.manager.running.configuration.find ":default-netns" = some (.string v) → v = a := by
  have hsingle := running_singleDefault hload h
  have hwf := (running_wellFormed hload h).1
  have hrecord : ∀ a v, Config.HasDefault s.manager.running.configuration a →
      s.manager.running.configuration.find ":default-netns" = some (.string v) → v = a := by
    intro a v ha hv
    have hrecorded := (hsingle a).mp ha
    rw [Config.recorded_eq_some_iff, hv] at hrecorded
    cases hrecorded
    rfl
  refine ⟨?_, ⟨?_, ?_⟩, hrecord⟩
  · intro a b ha hb
    exact hrecord b a hb (Config.recorded_eq_some_iff.mp ((hsingle a).mp ha))
  · rintro ⟨v, hv⟩
    obtain ⟨m, hm, hmem⟩ := (hsingle v).mpr (Config.recorded_eq_some_iff.mpr hv)
    exact ⟨v, hwf.isEntity_of_network hm, m, hm, hmem⟩
  · rintro ⟨a, -, ha⟩
    exact ⟨a, Config.recorded_eq_some_iff.mp ((hsingle a).mp ha)⟩

/-- A file with a root that is the default namespace. -/
def defaultFile : Json :=
  .object [("!metadata", .object [("version", .integer 1)]),
    ("a", .object [("network", .object [("default", .boolean true), ("role", .string "root")])])]

theorem single_default_defaultFile :
    ∃ s, loadAndRun (fun _ => none) defaultFile (addSwitch "b" "a") = some s ∧
      ∃ v, s.manager.running.configuration.find ":default-netns" = some (.string v) := by
  have hrun : (loadAndRun (fun _ => none) defaultFile (addSwitch "b" "a")).any (fun s =>
      (Config.network s.manager.running.configuration "a").any fun m => "default" ∈ m.keys) =
      true := by decide +kernel
  obtain ⟨s, hs, hany⟩ := (Option.any_eq_true ..).mp hrun
  obtain ⟨m, hm, hdefault⟩ := (Option.any_eq_true ..).mp hany
  obtain ⟨c, hload, hinputs⟩ := loadAndRun_eq_some_iff.mp hs
  have hentity := (running_wellFormed hload hinputs).1.isEntity_of_network hm
  exact ⟨s, hs, (single_default hload hinputs).2.1.mpr
    ⟨"a", hentity, m, hm, of_decide_eq_true hdefault⟩⟩

end Ledger

end Nonsense
