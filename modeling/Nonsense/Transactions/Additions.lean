import Nonsense.Config.Accepting
import Nonsense.Transactions.Commits

/-!
# What can be added

A commit adds to a copy of the running configuration.  `Copied` says of a configuration
that a commit can come to it; such a one may be changed and is well formed.

`add_accepts_iff`: an `add` to it accepts exactly the valid entities.
`add_refers_iff`: an entity is found under its name as an uplink unless the name is JSON
text for something else.
-/

namespace Nonsense

namespace Ledger

open Machine Transactions Config Nested

variable {parse : String → Option Json} {c : Config} {name : String} {ps : List ParameterValue}

/-- A copy of the running configuration in the middle of a commit: after some of the
operations. -/
def Copied (parse : String → Option Json) (c : Config) : Prop :=
  ∃ (j : Json) (c₀ : Config) (calls : List Call) (s : Ledger) (operations : List Operation),
    Config.load j = .ok c₀ ∧ (machine parse).run (start c₀) calls = some s ∧
    operations.foldlM (addOperation parse) s.manager.running.copy = some c

/-- A commit starts with the copy of what is loaded. -/
theorem copied_of_load {j : Json} {c₀ : Config} (h : Config.load j = .ok c₀) :
    Copied parse c₀.copy := ⟨j, c₀, [], start c₀, [], h, rfl, rfl⟩

theorem Copied.isMutable (h : Copied parse c) : c.isMutable = true := by
  obtain ⟨_, _, _, _, _, -, -, hops⟩ := h
  exact foldlM_isMutable hops

theorem Copied.wellFormed (h : Copied parse c) : WellFormed c.configuration := by
  obtain ⟨_, _, _, s, _, hload, hrun, hops⟩ := h
  have hwf : WellFormed s.manager.running.copy.configuration := (running_wellFormed hload hrun).1
  exact foldlM_keeps (I := fun c => WellFormed c.configuration) add_wellFormed hwf hops

/-! ### Valid entities -/

/-- **`add` accepts exactly the valid entities.** -/
theorem add_accepts_iff (h : Copied parse c) (hd : ¬ IsEntity c.configuration ":default-netns")
    (hname : name ≠ ":default-netns")
    (hapart : ps.Pairwise fun p p' => Apart (dottedPath p.parameter) (dottedPath p'.parameter)) :
    ∃ e r c', denoted parse ps = .object e ∧ c.add parse name ps = .returned r c' ∧
      (r.errorCode = 0 ↔ c.configuration.find name = none ∧ Acceptable c.configuration name e) ∧
      (r.errorCode ≠ 0 → r.errorCode < 0) := by
  obtain ⟨e, he⟩ : ∃ e : Object, denoted parse ps = .object e := denoted_eq
  cases hnew : c.configuration.find name with
  | some j =>
    have hadd : ∃ text, c.add parse name ps = .returned ⟨-EEXIST, text⟩ c := by
      rw [Config.add, h.isMutable, hnew]
      exact ⟨_, rfl⟩
    obtain ⟨text, hadd⟩ := hadd
    have hneg : -EEXIST < 0 := by decide
    refine ⟨e, _, c, he, hadd, iff_of_false hneg.ne ?_, fun _ => hneg⟩
    rintro ⟨hc, -⟩
    cases hc
  | none =>
    have hfit : InTurn (Fits parse) ps :=
      inTurn_fits_of_apart (hapart.imp fun hpaths => apart_keyPath hpaths)
    obtain ⟨r, c', hadd, hcode, hiff⟩ := add_zero_iff h.wellFormed h.isMutable hnew hfit
    refine ⟨e, r, c', he, hadd, ?_, hcode.resolve_left⟩
    rw [hiff, eq_self_iff_true, true_and, acceptable_iff hd hname]
    rcases denoted_cases he with rfl | ⟨hno, hno'⟩
    · exact Iff.rfl
    · exact iff_of_false (fun hc => hno' _ hc.1) fun hc => hno _ hc.1

/-- A file with one entity, a root called `name`. -/
def rootFile (name : String) : Object :=
  [("!metadata", .object [("version", .integer 1)]),
    (name, .object [("network", .object [("role", .string "root")])])]

/-- The network component of a root, as validation leaves it. -/
def rootNetwork : Object := [(":role", .integer 0), ("role", .string "root")]

/-- What is made of the file when it is loaded. -/
def rootTree (name : String) : Object :=
  [("!metadata", .object [("version", .integer 1)]),
    (name, .object [("network", .object rootNetwork)])]

/-- A switch with the address `address` and the uplink `uplink`. -/
def switchWith (address uplink : String) : List ParameterValue :=
  [⟨"network.role", "switch"⟩, ⟨"network.address", address⟩, ⟨"network.uplink", uplink⟩]

theorem switchWith_apart (address uplink : String) : (switchWith address uplink).Pairwise
    fun p p' => Apart (dottedPath p.parameter) (dottedPath p'.parameter) := by
  have hmap : ((switchWith address uplink).map ParameterValue.parameter).Pairwise
      fun key key' => Apart (dottedPath key) (dottedPath key') := by
    show ["network.role", "network.address", "network.uplink"].Pairwise _
    unfold Apart
    decide +kernel
  rwa [List.pairwise_map] at hmap

theorem add_accepts_iff_switchWith :
    ∃ e : Object, denoted (fun _ => none) (switchWith "10.0.0.0/24" "a") = .object e ∧
      Acceptable (rootTree "a") "b" e := by
  have hload : Config.load (.object (rootFile "a")) = .ok ⟨false, rootTree "a"⟩ := rfl
  have hnone : OrdMap.find (rootTree "a") ":default-netns" = none := by decide +kernel
  have hd : ¬ IsEntity (rootTree "a") ":default-netns" := by
    rintro ⟨hc, -⟩
    rw [hnone] at hc
    cases hc
  have hname : "b" ≠ ":default-netns" := by decide
  obtain ⟨e, r, c', he, hadd, hiff, -⟩ :=
    @add_accepts_iff (fun _ => none) ⟨true, rootTree "a"⟩ "b" (switchWith "10.0.0.0/24" "a")
      (copied_of_load hload) hd hname (switchWith_apart _ _)
  have hcode : (Config.add (fun _ => none) ⟨true, rootTree "a"⟩ "b"
      (switchWith "10.0.0.0/24" "a")).errorCode = some 0 := by decide +kernel
  rw [hadd] at hcode
  exact ⟨e, he, (hiff.mp (Option.some.inj hcode)).2⟩

/-! ### Referring to an entity -/

/-- Its network component. -/
def switchNetwork (parse : String → Option Json) (address uplink : String) : Object :=
  OrdMap.insert (OrdMap.insert (OrdMap.insert [] "role" (parameterValue parse "switch")) "address"
    (parameterValue parse address)) "uplink" (parameterValue parse uplink)

theorem entityOf_switchWith (address uplink : String) :
    entityOf parse (switchWith address uplink) =
      [("network", .object (switchNetwork parse address uplink))] := by
  have hrole : keyPath "network.role" = ["network", "role"] := by decide +kernel
  have haddress : keyPath "network.address" = ["network", "address"] := by decide +kernel
  have huplink : keyPath "network.uplink" = ["network", "uplink"] := by decide +kernel
  have hempty : members (Json.object []) = ([] : OrdMap String Json) := rfl
  simp only [entityOf, assembled, switchWith, List.foldl_cons, List.foldl_nil, hrole, haddress,
    huplink, put_cons, put_nil, members_branch, hempty, OrdMap.find_insert_self, OrdMap.find_nil,
    Option.getD_some, Option.getD_none, OrdMap.insert_insert_self]
  rfl

section Switch

variable {address text b : String} {tree : Object}

theorem switchNetwork_uplink :
    (switchNetwork parse address text).find "uplink" = some (parameterValue parse text) :=
  OrdMap.find_insert_self _ _ _

theorem switchNetwork_role (hswitch : parse "switch" = none) :
    (switchNetwork parse address text).find "role" = some (.string "switch") := by
  have hvalue : parameterValue parse "switch" = .string "switch" := by
    rw [parameterValue, hswitch]
    rfl
  rw [switchNetwork, OrdMap.find_insert_ne _ _ (by decide), OrdMap.find_insert_ne _ _ (by decide),
    OrdMap.find_insert_self, hvalue]

theorem mem_keys_switchNetwork {key : String} :
    key ∈ (switchNetwork parse address text).keys ↔
      key = "uplink" ∨ key = "address" ∨ key = "role" := by
  simp [switchNetwork, OrdMap.mem_keys_insert]

theorem entityValid_switchWith (hswitch : parse "switch" = none)
    (huplink : UplinkOk tree (parameterValue parse text)) :
    EntityValid tree [("network", .object (switchNetwork parse address text))] := by
  have hrole : (switchNetwork parse address text).find "role" = some (.string "switch") :=
    switchNetwork_role hswitch
  refine ⟨fun type ht => List.mem_singleton.mp ht, fun j hj => ?_⟩
  cases hj
  refine ⟨_, rfl, ⟨_, .switch, hrole, rfl⟩, fun key hk => Or.inr ?_, fun _ => hrole, ?_⟩
  · rcases mem_keys_switchNetwork.mp hk with rfl | rfl | rfl <;> simp
  · intro uplink hu
    rw [switchNetwork_uplink] at hu
    cases hu
    exact huplink

/-- **When a new switch has `b` as its uplink**: where the text it is given is read as the
string `b`. -/
theorem add_switchWith_iff {m : Object} (h : Copied parse c) (hswitch : parse "switch" = none)
    (hb : network c.configuration b = some m) (hrole : m.find "role" ≠ some (.string "client"))
    (hnew : c.configuration.find name = none) (address : String) :
    (∃ r c', c.add parse name (switchWith address text) = .returned r c' ∧ r.errorCode = 0 ∧
      uplinkOf c'.configuration name = some b) ↔ parameterValue parse text = .string b := by
  let tree := c.configuration.insert name (.object (entityOf parse (switchWith address text)))
  have hself : network tree name = some (switchNetwork parse address text) := by
    refine network_eq_some_iff.mpr ⟨_, OrdMap.find_insert_self _ _ _, ?_⟩
    rw [entityOf_switchWith]
    rfl
  have huplink : uplinkOf tree name = some b ↔ parameterValue parse text = .string b := by
    rw [uplinkOf_iff_of_network hself, switchNetwork_uplink, Option.some.injEq]
  -- validation does not change the uplink
  have hkept : ∀ {r c'}, c.add parse name (switchWith address text) = .returned r c' →
      r.errorCode = 0 → uplinkOf c'.configuration name = uplinkOf tree name := by
    intro r c' hadd hr
    obtain ⟨-, -, tree', hval, rfl⟩ := add_eq_validated hadd hr
    exact congrFun (validateEntity_spec hval).1.uplinkOf name
  constructor
  · rintro ⟨r, c', hadd, hr, hu⟩
    rwa [hkept hadd hr, huplink] at hu
  · intro hvalue
    have hbname : b ≠ name := by
      rintro rfl
      obtain ⟨e, he, -⟩ := network_eq_some_iff.mp hb
      rw [hnew] at he
      cases he
    have hfit : InTurn (Fits parse) (switchWith address text) :=
      inTurn_fits_of_apart ((switchWith_apart address text).imp fun hpaths => apart_keyPath hpaths)
    obtain ⟨r, c', hadd, -, hiff⟩ := add_zero_iff h.wellFormed h.isMutable hnew hfit
    have hr : r.errorCode = 0 := by
      refine hiff.mpr ⟨?_, fun ⟨m', hm', hdefault⟩ => ?_⟩
      · rw [entityOf_switchWith]
        refine entityValid_switchWith hswitch ⟨b, m, hvalue, ?_, hrole⟩
        rw [network_of_find_eq (OrdMap.find_insert_ne _ _ hbname), hb]
      · -- a switch made like this has no default
        rw [hself] at hm'
        cases hm'
        exact absurd (mem_keys_switchNetwork.mp hdefault) (by decide)
    exact ⟨r, c', hadd, hr, (hkept hadd hr).trans (huplink.mpr hvalue)⟩

end Switch

/-- **An entity is found under its name as an uplink** unless the name is JSON text for
something else; and then it is found under the text of its name as a JSON string. -/
theorem add_refers_iff {b : String} {m : Object} (h : Copied parse c)
    (hswitch : parse "switch" = none) (hb : network c.configuration b = some m)
    (hrole : m.find "role" ≠ some (.string "client")) (hnew : c.configuration.find name = none)
    (address : String) :
    ((∃ r c', c.add parse name (switchWith address b) = .returned r c' ∧ r.errorCode = 0 ∧
      uplinkOf c'.configuration name = some b) ↔ parse b = none ∨ parse b = some (.string b)) ∧
    ∀ text, parse text = some (.string b) →
      ∃ r c', c.add parse name (switchWith address text) = .returned r c' ∧ r.errorCode = 0 ∧
        uplinkOf c'.configuration name = some b := by
  refine ⟨?_, fun text htext => ?_⟩
  · rw [add_switchWith_iff h hswitch hb hrole hnew, parameterValue]
    cases parse b <;> simp
  · rw [add_switchWith_iff h hswitch hb hrole hnew, parameterValue, htext]
    rfl

/-- The value of a parameter that is `1`, and of one that is no JSON text. -/
def parseOne (text : String) : Option Json := if text = "1" then some (.integer 1) else none

theorem rootNetwork_role : rootNetwork.find "role" ≠ some (.string "client") := by
  have hrole : rootNetwork.find "role" = some (.string "root") := rfl
  rw [hrole]
  simp

theorem add_refers_iff_root :
    ∃ r c', Config.add parseOne ⟨true, rootTree "a"⟩ "b" (switchWith "x" "a") = .returned r c' ∧
      r.errorCode = 0 ∧ uplinkOf c'.configuration "b" = some "a" := by
  have hload : Config.load (.object (rootFile "a")) = .ok ⟨false, rootTree "a"⟩ := rfl
  have hnew : OrdMap.find (rootTree "a") "b" = none := by decide +kernel
  have hnone : parseOne "a" = none := by decide
  exact (add_refers_iff (copied_of_load hload) (by decide) rfl rootNetwork_role hnew "x").1.mpr
    (Or.inl hnone)

/-- **A name that is a number names nothing.** -/
theorem add_misreads_name :
    ¬ ∀ (c : Config) (name b address : String) (m : Object), Copied parseOne c →
      network c.configuration b = some m → m.find "role" ≠ some (.string "client") →
      c.configuration.find name = none →
      ∃ r c', c.add parseOne name (switchWith address b) = .returned r c' ∧ r.errorCode = 0 ∧
        uplinkOf c'.configuration name = some b := by
  intro h
  have hload : Config.load (.object (rootFile "1")) = .ok ⟨false, rootTree "1"⟩ := rfl
  have hnew : OrdMap.find (rootTree "1") "b" = none := by decide +kernel
  obtain ⟨r, c', hadd, hr, -⟩ := h ⟨true, rootTree "1"⟩ "b" "1" "x" _ (copied_of_load hload) rfl
    rootNetwork_role hnew
  have hcode : (Config.add parseOne ⟨true, rootTree "1"⟩ "b" (switchWith "x" "1")).errorCode =
      some (-EINVAL) := by decide +kernel
  rw [hadd, Added.errorCode, hr] at hcode
  exact absurd hcode (by decide)

end Ledger

end Nonsense
