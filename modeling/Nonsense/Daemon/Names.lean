import Nonsense.Config.Loading
import Nonsense.Daemon.Chains
import Nonsense.Transactions.Extends

/-!
# Names of entities, and keys that only look like them

The entities stand in one map with the metadata of the file and the record of the default
namespace, and `try_get` finds either of them: it makes an entity of whatever is there
(`names_unmixed_iff`).  An entity may even be added under the key of the record, while
there is none.

The daemon takes the calls to the transaction manager as the `Ledger` does (`run_ledger`),
so that what was committed can be read off its history.
-/

namespace Nonsense

namespace Config

variable {tree tree' : Object} {name k : String}

/-- The key is not for an entity: it has the metadata, or a record. -/
def Bookkeeping (tree : Object) (name : String) : Prop :=
  name = "!metadata" ∨ name = ":default-netns" ∧ ∃ s, recorded tree = some s

theorem isEntity_iff_not_bookkeeping :
    IsEntity tree name ↔ (tree.find name).isSome ∧ ¬ Bookkeeping tree name := by
  unfold IsEntity Bookkeeping
  rw [not_or, not_and, not_and]
  refine and_congr_right fun _ => and_congr_right fun _ => forall_congr' ?_
  rintro rfl
  simp only [recorded_eq_some_iff]

theorem WellFormed.isSome_of_bookkeeping (h : WellFormed tree) (hb : Bookkeeping tree name) :
    (tree.find name).isSome := by
  rcases hb with rfl | ⟨rfl, s, hs⟩
  · obtain ⟨j, hj, -⟩ := h.metadata
    rw [hj]
    rfl
  · rw [recorded_eq_some_iff.mp hs]
    rfl

/-! ### Where entities come from -/

theorem validateEntries_isEntity {keys : List String}
    (h : validateEntries keys tree = .ok () tree') :
    (IsEntity tree' name → IsEntity tree name) ∧
      ((tree.find name).isSome → (tree'.find name).isSome) := by
  refine validateEntries_keeps
    (P := fun t => (IsEntity t name → IsEntity tree name) ∧
      ((tree.find name).isSome → (t.find name).isSome)) h ⟨id, id⟩ fun w ih => ?_
  exact ⟨fun hent => ih.1 (w.isEntity hent), fun hsome => w.grows.find name (ih.2 hsome)⟩

/-- A file is loaded with the entities it has. -/
theorem load_isEntity {file : Object} {c : Config} (h : load (.object file) = .ok c) :
    (IsEntity c.configuration name → name ∈ file.keys) ∧
      (name ∈ file.keys → (c.configuration.find name).isSome) := by
  obtain ⟨_, hj, -, hrun⟩ := load_eq_ok h
  cases hj
  rw [OrdMap.mem_keys_iff, ← Option.isSome_iff_exists]
  exact ⟨fun hent => ((validateEntries_isEntity hrun).1 hent).1, (validateEntries_isEntity hrun).2⟩

variable {parse : String → Option Json} {c c' : Config} {ps : List ParameterValue}
  {r : ConfigResult}

theorem add_isEntity (h : add parse c name ps = .returned r c') (hr : r.errorCode = 0)
    (hk : IsEntity c'.configuration k) : IsEntity c.configuration k ∨ k = name := by
  obtain ⟨-, -, entity, tree', -, hval, rfl⟩ := add_eq_zero h hr
  by_cases hkn : k = name
  · exact Or.inr hkn
  · exact Or.inl (((validateEntity_spec hval).1.isEntity hk).of_insert hkn)

/-- **Which `add` makes an entity of the record's key.** -/
theorem add_occupies_iff (h : add parse c name ps = .returned r c') (hr : r.errorCode = 0) :
    IsEntity c'.configuration ":default-netns" ∧ ¬ IsEntity c.configuration ":default-netns" ↔
      name = ":default-netns" := by
  constructor
  · rintro ⟨hent, hno⟩
    exact ((add_isEntity h hr hent).resolve_left hno).symm
  · rintro rfl
    obtain ⟨-, hnew, entity, tree', hbuild, hval, rfl⟩ := add_eq_zero h hr
    obtain ⟨e, rfl⟩ := buildEntity_object hbuild
    obtain ⟨e', he'⟩ := (validateEntity_spec hval).1.find_object (OrdMap.find_insert_self _ _ _)
    refine ⟨⟨by rw [he']; rfl, by decide, ?_⟩, ?_⟩
    · rintro ⟨-, s, hs⟩
      rw [he'] at hs
      cases hs
    · rintro ⟨hsome, -⟩
      rw [hnew] at hsome
      cases hsome

end Config

namespace Ledger

open Machine Transactions

variable {parse : String → Option Json} {c : Config} {s : Ledger} {calls : List Call}
  {name : String} {file : Object}

theorem foldlM_isEntity {operations : List Operation} {c c' : Config}
    (h : operations.foldlM (addOperation parse) c = some c')
    (hk : Config.IsEntity c'.configuration name) :
    Config.IsEntity c.configuration name ∨ name ∈ operations.filterMap Operation.addedName := by
  induction operations generalizing c with
  | nil => cases h; exact Or.inl hk
  | cons operation operations ih =>
    obtain ⟨name₁, _, _, c₁, rfl, hadd, hr, h⟩ := foldlM_cons_eq_some_iff.mp h
    rw [List.filterMap_cons_some (show Operation.addedName _ = some name₁ from rfl), List.mem_cons]
    rcases ih h with hent | hmem
    · exact (Config.add_isEntity hadd hr hent).imp_right Or.inl
    · exact Or.inr (Or.inr hmem)

/-- The file has an entity of this name, or a commit has added one. -/
def Defined (file : Object) (history : List Event) (name : String) : Prop :=
  name ≠ "!metadata" ∧
    (name ∈ file.keys ∨ name ∈ (committed history).flatten.filterMap Operation.addedName)

/-- **Where the entities of the running configuration come from.** -/
theorem running_isEntity_iff (hload : Config.load (.object file) = .ok c)
    (h : (machine parse).run (start c) calls = some s) :
    Config.IsEntity s.manager.running.configuration name ↔
      Defined file s.history name ∧
        ¬ Config.Bookkeeping s.manager.running.configuration name := by
  have hfold := running_eq (reaches_of_run h)
  have hcopy : Config.WellFormed c.copy.configuration :=
    show Config.WellFormed c.configuration from Config.load_wellFormed hload
  have hext : Config.Extends c.copy.configuration s.manager.running.copy.configuration
      ((committed s.history).flatten.filterMap Operation.addedName) := foldlM_extends hcopy hfold
  have hfile : (Config.IsEntity c.configuration name → name ∈ file.keys) ∧
      (name ∈ file.keys → (c.configuration.find name).isSome) := Config.load_isEntity hload
  constructor
  · intro hent
    refine ⟨⟨hent.2.1, ?_⟩, (Config.isEntity_iff_not_bookkeeping.mp hent).2⟩
    exact (foldlM_isEntity hfold hent).imp_left hfile.1
  · rintro ⟨⟨-, hdefined⟩, hbook⟩
    refine Config.isEntity_iff_not_bookkeeping.mpr ⟨?_, hbook⟩
    rcases hdefined with hmem | hadded
    · exact hext.stays name (hfile.2 hmem)
    · exact (hext.added name hadded).2

end Ledger

namespace Daemon

open Machine

variable {parse : String → Option Json} {c : Config} {d d' : Daemon} {inputs : List Input}
  {name : String} {file : Object}

/-! ### The calls of a run -/

/-- The call to the transaction manager that comes in, if it is one. -/
def servedCall : Input → Option Call
  | .call call => some call
  | _ => none

/-- **A run of the daemon serves its calls one after the other.** -/
theorem run_ledger {s : Ledger} (hs : s.manager = d.world.manager)
    (h : (machine parse).run d inputs = some d') :
    ∃ s', (Ledger.machine parse).run s (inputs.filterMap servedCall) = some s' ∧
      s'.manager = d'.world.manager := by
  induction inputs generalizing d s with
  | nil => cases h; exact ⟨s, rfl, hs⟩
  | cons i inputs ih =>
    obtain ⟨d₁, hstep, hrest⟩ := run_cons_eq_some.mp h
    cases i with
    | call call =>
      cases step_cases hstep with
      | @call _ manager replies _ hserve =>
        have hserved : (Ledger.machine parse).step s call =
            some { manager := manager, history := ⟨call, replies⟩ :: s.history } := by
          show Ledger.serve parse s call = _
          rw [Ledger.serve, hs, hserve]
        obtain ⟨s', hs', hmanager⟩ := ih (s := ⟨manager, ⟨call, replies⟩ :: s.history⟩) rfl hrest
        exact ⟨s', run_cons_eq_some.mpr ⟨_, hserved, hs'⟩, hmanager⟩
      | turn hturns _ _ => cases hturns
    | _ =>
      rcases step_manager hstep with hsame | ⟨_, _, hcall, -⟩
      · exact ih (hsame ▸ hs) hrest
      · cases hcall

/-! ### Requests -/

/-- What is asked of a name: `try_get` has an entity for it where one was defined, and none
for the keys of the bookkeeping, and a request for anything else is refused. -/
structure Unmixed (parse : String → Option Json) (file : Object) (history : List Event)
    (d : Daemon) (name : String) : Prop where
  defined : (d.world.manager.running.tryGet name).isSome ↔ Ledger.Defined file history name
  apart : Config.Bookkeeping d.world.manager.running.configuration name →
    d.world.manager.running.tryGet name = none
  refused : ¬ Ledger.Defined file history name → ∀ method d',
    (machine parse).step d (.request method (.ok name)) = some d' →
    d'.sent = ⟨d.nextId, some (method, name),
      .methodErrno (-ENOENT) (some (noSuchEntity method name)), d.world⟩ :: d.sent

theorem sent_of_request {method : Method} (hnone : d.world.manager.running.tryGet name = none)
    (h : (machine parse).step d (.request method (.ok name)) = some d') :
    d'.sent = ⟨d.nextId, some (method, name),
      .methodErrno (-ENOENT) (some (noSuchEntity method name)), d.world⟩ :: d.sent := by
  cases step_cases h with
  | request _ =>
    have hget : d.world.tryGet name = none := by rw [World.tryGet, hnone]; rfl
    rw [request, hget, replyStatus_of_neg (by decide)]
    rfl
  | turn hturns _ _ => cases hturns

/-- **Which names are not mixed up.**  After any run it is those that are not the
bookkeeping's; and the one `add` that puts an entity in the place of the record is that of
`:default-netns`. -/
theorem names_unmixed_iff (hload : Config.load (.object file) = .ok c)
    (hrun : (machine parse).run (start c) inputs = some d) :
    ∃ s, (Ledger.machine parse).run (Ledger.start c) (inputs.filterMap servedCall) = some s ∧
      s.manager = d.world.manager ∧
      (∀ name, Unmixed parse file s.history d name ↔
        ¬ Config.Bookkeeping d.world.manager.running.configuration name) ∧
      ∀ c₁ name ps r c₂, Config.add parse c₁ name ps = .returned r c₂ → r.errorCode = 0 →
        (¬ (Config.IsEntity c₂.configuration ":default-netns" ∧
          ¬ Config.IsEntity c₁.configuration ":default-netns") ↔ name ≠ ":default-netns") := by
  obtain ⟨s, hs, hmanager⟩ := run_ledger (s := Ledger.start c) rfl hrun
  refine ⟨s, hs, hmanager, fun name => ?_, ?_⟩
  · have hwf := (Ledger.running_wellFormed hload hs).1
    have hentity : Config.IsEntity s.manager.running.configuration name ↔
        Ledger.Defined file s.history name ∧
          ¬ Config.Bookkeeping s.manager.running.configuration name :=
      Ledger.running_isEntity_iff hload hs
    rw [hmanager] at hwf hentity
    constructor
    · intro h hbook
      have hsome := hwf.isSome_of_bookkeeping hbook
      rw [show OrdMap.find _ name = none from h.apart hbook] at hsome
      cases hsome
    · intro hbook
      have hdefined : (d.world.manager.running.tryGet name).isSome ↔
          Ledger.Defined file s.history name := by
        rw [Config.isEntity_iff_not_bookkeeping, and_iff_left hbook, and_iff_left hbook] at hentity
        exact hentity
      refine ⟨hdefined, fun hc => absurd hc hbook, fun hno method d' hstep => ?_⟩
      exact sent_of_request (Option.not_isSome_iff_eq_none.mp (hdefined.not.mpr hno)) hstep
  · intro c₁ name ps r c₂ hadd hr
    rw [Config.add_occupies_iff hadd hr]

/-- `b` is added below the default namespace `a`: it is found, and the record is kept out. -/
theorem names_unmixed_iff_defaultFile :
    ∃ (file : Object) (d : Daemon) (s : Ledger), Ledger.defaultFile = .object file ∧
      loadAndRun (fun _ => none) Ledger.defaultFile
        ((Ledger.addSwitch "b" "a").map Input.call) = some d ∧
      Ledger.loadAndRun (fun _ => none) Ledger.defaultFile (Ledger.addSwitch "b" "a") = some s ∧
      (d.world.manager.running.tryGet "b").isSome ∧ Ledger.Defined file s.history "b" ∧
      d.world.manager.running.configuration.find ":default-netns" = some (.string "a") ∧
      ¬ Unmixed (fun _ => none) file s.history d ":default-netns" := by
  have hrun : (loadAndRun (fun _ => none) Ledger.defaultFile
      ((Ledger.addSwitch "b" "a").map Input.call)).any (fun d =>
        (d.world.manager.running.tryGet "b").isSome ∧
        Config.recorded d.world.manager.running.configuration = some "a") = true := by
    decide +kernel
  obtain ⟨d, hd, hlast⟩ := (Option.any_eq_true ..).mp hrun
  obtain ⟨hfound, hrecorded⟩ := of_decide_eq_true hlast
  obtain ⟨c, hload, hinputs⟩ := loadAndRun_eq_some_iff.mp hd
  obtain ⟨file, hfile⟩ : ∃ file, Ledger.defaultFile = .object file := ⟨_, rfl⟩
  obtain ⟨s, hs, -, hiff, -⟩ := names_unmixed_iff (hfile ▸ hload) hinputs
  have hb : Unmixed (fun _ => none) file s.history d "b" := by
    refine (hiff "b").mpr ?_
    rintro (hc | ⟨hc, -⟩) <;> exact absurd hc (by decide)
  refine ⟨file, d, s, hfile, hd, Ledger.loadAndRun_eq_some_iff.mpr ⟨c, hload, hs⟩, hfound, hb.defined.mp hfound,
    Config.recorded_eq_some_iff.mp hrecorded, fun hno => ?_⟩
  exact (hiff ":default-netns").mp hno (Or.inr ⟨rfl, "a", hrecorded⟩)

/-- **The metadata is taken for an entity.** -/
theorem metadata_found :
    ¬ ∀ (file : Object) (c : Config) (inputs : List Input) (d : Daemon) (s : Ledger),
      Config.load (.object file) = .ok c → (machine fun _ => none).run (start c) inputs = some d →
      (Ledger.machine fun _ => none).run (Ledger.start c) (inputs.filterMap servedCall) = some s →
      ∀ name, Unmixed (fun _ => none) file s.history d name := by
  intro h
  have hmixed := h Ledger.bareFile ⟨false, Ledger.bareFile⟩ [] _ _ rfl rfl rfl "!metadata"
  exact (hmixed.defined.mp rfl).1 rfl

end Daemon

end Nonsense
