import Nonsense.Config.Escapes
import Nonsense.Daemon.Names
import Nonsense.Entity.Component

/-!
# What a start reads is there

A start reads its entity through a reference, looks for its uplink, and builds what it
sends of each component; where one of these fails, the process ends.  None of them fails
where the uplinks of the running configuration have no cycle (`reaches_able`): what the
reference was made to is still an entry (`reaches_standing`), the running configuration is
well formed, and in a well-formed configuration the uplink of an entity is a name, and of
an entity with a network (`able_of_standing`).
-/

namespace Nonsense

namespace Config

/-- The members of each entry are in order, as those of a map are. -/
def EntriesOrdered (tree : Object) : Prop :=
  ∀ k (e : Object), tree.find k = some (.object e) → e.Ordered

variable {tree tree' : Object} {name : String} {parse : String → Option Json} {c c' : Config}
  {ps : List ParameterValue} {r : ConfigResult}

theorem Write.entriesOrdered (w : Write name tree tree') (h : EntriesOrdered tree) :
    EntriesOrdered tree' := by
  intro k e he
  rcases w.find k with hf | ⟨-, -, hf⟩ | ⟨e₀, m, m', he₀, -, hf⟩
  · exact h k e (hf ▸ he)
  · rw [hf] at he
    cases he
  · rw [hf] at he
    cases he
    exact OrdMap.Ordered.insert (h k e₀ he₀)

theorem Writes.entriesOrdered (w : Writes name tree tree') (h : EntriesOrdered tree) :
    EntriesOrdered tree' := by
  induction w with
  | refl => exact h
  | tail _ w ih => exact w.entriesOrdered ih

theorem load_entriesOrdered {file : Object} (h : load (.object file) = .ok c)
    (hfile : EntriesOrdered file) : EntriesOrdered c.configuration := by
  obtain ⟨_, hj, -, hrun⟩ := load_eq_ok h
  cases hj
  exact validateEntries_keeps (P := EntriesOrdered) hrun hfile fun w ih => w.entriesOrdered ih

theorem add_entriesOrdered (hc : EntriesOrdered c.configuration)
    (h : add parse c name ps = .returned r c') (hr : r.errorCode = 0) :
    EntriesOrdered c'.configuration := by
  obtain ⟨-, -, entity, tree', hbuild, hval, rfl⟩ := add_eq_zero h hr
  obtain ⟨-, rfl⟩ := buildEntity_eq_done_iff.mp hbuild
  refine (validateEntity_spec hval).1.entriesOrdered fun k e he => ?_
  rw [OrdMap.find_insert] at he
  split_ifs at he
  · rw [assembled_eq] at he
    cases he
    exact entityOf_ordered
  · exact hc k e he

end Config

/-- What is left to be sent. -/
def Pc.rest : Pc → List (String × Json)
  | start (.components _ rest) | start (.added _ _ rest) => rest
  | _ => []

namespace Entity

/-- What the reference was made to is an entry still; of the null that stands for the
record of the default there is nothing to read. -/
def Standing (tree : Object) (e : Entity) : Prop :=
  tree.find e.name = some e.self ∨ e.self = .null

/-- What `start` reads is there. -/
structure Able (tree : Object) (e : Entity) : Prop where
  uplink : ∀ j, e.uplink = some j → ∃ u, j = .string u ∧ (tree.find u).isSome
  sent : ∀ x ∈ e.self.items, ∃ json, Entity.sent tree x.1 x.2 = .ok json

variable {tree tree' : Object} {e : Entity} {names : List String}

theorem Standing.extends (h : e.Standing tree) (hext : Config.Extends tree tree' names) :
    e.Standing tree' := by
  rcases h with h | h
  · cases hself : e.self.isNull with
    | true =>
      right
      cases hj : e.self with
      | null => rfl
      | _ => rw [hj] at hself; cases hself
    | false => exact Or.inl (hext.kept _ _ h fun _ => hself)
  · exact Or.inr h

/-- The components of an entry are those that its keys find. -/
theorem find_network_of_mem {j v : Json} (hordered : ∀ e : Object, j = .object e → e.Ordered)
    (h : ("network", v) ∈ j.items) : j.find "network" = some v := by
  cases j with
  | object m => exact OrdMap.Ordered.find_of_mem (hordered m rfl) h
  | array l =>
    -- an element has a number for its key
    obtain ⟨k, -, hk⟩ := List.mem_map.mp (List.of_mem_zip h).1
    have hn : 'n' ∈ Nat.toDigits 10 k := by
      have hlist : (toString k).toList = Nat.toDigits 10 k := by simp
      rw [← hlist, hk]
      decide
    exact absurd (Nat.isDigit_of_mem_toDigits (by decide) (by decide) hn) (by decide)
  | null => cases h
  | _ => exact absurd (congrArg Prod.fst (List.mem_singleton.mp h)) (by decide : "network" ≠ "")

/-- The network component of an entry is its network. -/
theorem network_of_mem (hwf : Config.WellFormed tree) (hordered : Config.EntriesOrdered tree)
    {name : String} {self component : Json} (hself : tree.find name = some self)
    (h : ("network", component) ∈ self.items) :
    ∃ m, component = .object m ∧ Config.network tree name = some m := by
  have hfind := find_network_of_mem (fun em hem => hordered name em (hem ▸ hself)) h
  obtain ⟨em, hem, henet⟩ := Json.eq_object_of_find hfind
  have hent : Config.IsEntity tree name := by
    refine ⟨by rw [hself]; rfl, ?_, ?_⟩
    · rintro rfl
      obtain ⟨metadata, hmetadata, hnone⟩ := hwf.metadata
      rw [hmetadata] at hself
      cases hself
      rw [hnone] at hfind
      cases hfind
    · rintro ⟨-, s, hs⟩
      rw [hself, hem] at hs
      cases hs
  obtain ⟨m, rfl, -⟩ := (hwf.entity _ hent).network _ _ hself hfind
  exact ⟨m, rfl, Config.network_eq_some_iff.mpr ⟨em, hem ▸ hself, henet⟩⟩

/-- **What a start reads is there**, where the uplinks have no cycle. -/
theorem able_of_standing (hwf : Config.WellFormed tree) (hordered : Config.EntriesOrdered tree)
    (hac : Acyclic (Config.uplinkOf tree)) (h : e.Standing tree) : e.Able tree := by
  rcases h with hself | hself
  · constructor
    · intro j hj
      obtain ⟨network, hnetwork, hup⟩ := Option.bind_eq_some_iff.mp hj
      obtain ⟨em, hem, henet⟩ := Json.eq_object_of_find hnetwork
      obtain ⟨m, rfl, hmup⟩ := Json.eq_object_of_find hup
      have hm : Config.network tree e.name = some m :=
        Config.network_eq_some_iff.mpr ⟨em, hem ▸ hself, henet⟩
      obtain ⟨u, um, rfl, hum, -⟩ := (hwf.networkOk hm).uplink _ hmup
      obtain ⟨ue, hue, -⟩ := Config.network_eq_some_iff.mp hum
      exact ⟨u, rfl, by rw [hue]; rfl⟩
    · rintro ⟨type, component⟩ hx
      by_cases htype : type = "network"
      · subst htype
        obtain ⟨m, rfl, hm⟩ := network_of_mem hwf hordered hself hx
        obtain ⟨ms, hms⟩ := hwf.exists_chain (hac e.name) hm
        exact ⟨_, sent_chain hms⟩
      · exact ⟨component, by rw [Entity.sent, if_neg htype]⟩
  · refine ⟨fun j hj => ?_, fun x hx => ?_⟩
    · rw [Entity.uplink, hself] at hj
      cases hj
    · rw [hself] at hx
      cases hx

end Entity

namespace Transactions

variable {parse : String → Option Json} {t t' : Transactions} {call : Call} {replies : List Reply}

/-- **What every addition keeps**, every call keeps. -/
theorem serve_keeps {I : Object → Prop}
    (hadd : ∀ {name params r} {c c' : Config}, I c.configuration →
      c.add parse name params = .returned r c' → r.errorCode = 0 → I c'.configuration)
    (hI : I t.running.configuration) (h : serve parse t call = some (.replied t' replies)) :
    I t'.running.configuration := by
  cases serve_effect h with
  | @commit _ _ _ c _ _ hfold =>
    have hcopy : I t.running.copy.configuration := hI
    have hlast : I c.configuration := foldlM_keeps (I := fun c => I c.configuration) hadd hcopy hfold
    exact hlast
  | _ => exact hI

theorem serve_extends (hwf : Config.WellFormed t.running.configuration)
    (h : serve parse t call = some (.replied t' replies)) :
    ∃ names, Config.Extends t.running.configuration t'.running.configuration names := by
  cases serve_effect h with
  | @commit _ _ _ c _ _ hfold =>
    have hcopy : Config.WellFormed t.running.copy.configuration := hwf
    have hext : Config.Extends t.running.copy.configuration c.configuration _ :=
      Ledger.foldlM_extends hcopy hfold
    exact ⟨_, hext⟩
  | _ => exact ⟨[], Config.Extends.refl _⟩

end Transactions

namespace Daemon

open Machine

variable {parse : String → Option Json} {d d' : Daemon} {i : Input} {id : Nat} {c : Config}
  {file : Object} {chain chain' : Chain} {w w' : World} {control : Control} {o : Outcome} {e : Entity}

/-- **What the loaded file has and every addition keeps**, the running configuration has
in every reachable state. -/
theorem reaches_keeps {I : Object → Prop}
    (hadd : ∀ {name params r} {c c' : Config}, I c.configuration →
      c.add parse name params = .returned r c' → r.errorCode = 0 → I c'.configuration)
    (hI : I c.configuration) (h : (machine parse).Reaches Always (start c) d) :
    I d.world.manager.running.configuration := by
  refine h.invariant (I := fun d => I d.world.manager.running.configuration) hI ?_
  intro d i d' ih _ hstep
  rcases step_manager hstep with hsame | ⟨call, replies, -, hserve⟩
  · rw [hsame]
    exact ih
  · exact Transactions.serve_keeps hadd ih hserve

theorem reaches_wellFormed (hload : Config.load (.object file) = .ok c)
    (h : (machine parse).Reaches Always (start c) d) :
    Config.WellFormed d.world.manager.running.configuration :=
  reaches_keeps Config.add_wellFormed (Config.load_wellFormed hload) h

/-! ### The references -/

/-- The frames after a turn are of the entities before it, and of one that was looked up. -/
theorem mem_entities_settled (ht : Turn d.world id chain.frame o w control)
    (hs : chain.settled control = some chain') (he : e ∈ chain'.entities) :
    e ∈ chain.entities ∨ ∃ u, d.world.tryGet u = some e := by
  unfold Chain.settled at hs
  split at hs
  · cases hs
    exact Or.inl he
  · cases hs
    exact Or.inl he
  · cases hs
    obtain ⟨u, -, -, -, hget⟩ := turn_call ht
    rcases List.mem_cons.mp he with rfl | he
    · exact Or.inr ⟨u, hget⟩
    · exact Or.inl he
  · split at hs
    · cases hs
    · rename_i hawaiting
      cases hs
      rw [Chain.entities, hawaiting]
      exact Or.inl (List.mem_cons_of_mem _ he)
  · cases hs

theorem standing_of_tryGet {u : String} (h : d.world.tryGet u = some e) :
    e.Standing d.world.manager.running.configuration := by
  obtain ⟨rfl, hself, -⟩ := tryGet_eq_some h
  exact Or.inl hself

/-- **What a frame's reference was made to** is an entry still. -/
theorem reaches_standing (hload : Config.load (.object file) = .ok c)
    (h : (machine parse).Reaches Always (start c) d) (hchain : d.chains.find id = some chain)
    (he : e ∈ chain.entities) : e.Standing d.world.manager.running.configuration := by
  have hall : ∀ id chain, d.chains.find id = some chain → ∀ e ∈ chain.entities,
      e.Standing d.world.manager.running.configuration := by
    refine h.invariant_of_reaches (I := fun d => ∀ id chain, d.chains.find id = some chain →
      ∀ e ∈ chain.entities, e.Standing d.world.manager.running.configuration)
      (fun _ _ h => nomatch h) ?_
    intro d i d' hd ih _ hstep id chain hchain e he
    have hold : e.Standing d.world.manager.running.configuration := by
      cases step_became hstep hchain with
      | opened _ _ hget =>
        rcases List.mem_singleton.mp he with rfl
        exact standing_of_tryGet hget
      | kept hfind => exact ih id chain hfind e he
      | turned _ hfind ht hs =>
        rcases mem_entities_settled ht hs he with he | ⟨u, hget⟩
        · exact ih id _ hfind e he
        · exact standing_of_tryGet hget
      | resumed hfind _ => exact ih id _ hfind e he
    rcases step_manager hstep with hsame | ⟨call, replies, -, hserve⟩
    · rw [hsame]
      exact hold
    · obtain ⟨names, hext⟩ := Transactions.serve_extends (reaches_wellFormed hload hd) hserve
      exact hold.extends hext
  exact hall id chain hchain e he

theorem reaches_able (hload : Config.load (.object file) = .ok c)
    (hfile : Config.EntriesOrdered file) (h : (machine parse).Reaches Always (start c) d)
    (hac : Acyclic (Config.uplinkOf d.world.manager.running.configuration))
    (hchain : d.chains.find id = some chain) (he : e ∈ chain.entities) :
    e.Able d.world.manager.running.configuration := by
  have hordered : Config.EntriesOrdered d.world.manager.running.configuration :=
    reaches_keeps Config.add_entriesOrdered (Config.load_entriesOrdered hload hfile) h
  exact Entity.able_of_standing (reaches_wellFormed hload h) hordered hac
    (reaches_standing hload h hchain he)

/-! ### What is left to be sent -/

theorem start_rest {e : Entity} {pc : StartPc} {pc' : Pc} (h : Entity.StartStep w e pc o w' control)
    (hc : control = .goto pc' ∨ control = .suspend pc') :
    pc'.rest <:+ (Pc.start pc).rest ∨ pc'.rest <:+ e.self.items := by
  have hsetup : ∀ {pid : Nat} {pc' : StartPc}, Entity.SettingUp pid pc' →
      (Pc.start pc').rest <:+ e.self.items := by
    intro pid pc' h
    refine Entity.settingUp_cases (P := fun pc' => (Pc.start pc').rest <:+ e.self.items) h ?_ ?_ ?_ ?_
    all_goals exact fun _ => List.nil_suffix
  rcases hc with rfl | rfl
  · cases h with
    | goto _ hpc' _ => exact Or.inr (hsetup hpc')
    | components => exact Or.inr (List.suffix_refl _)
    | acknowledged => exact Or.inl (List.suffix_refl _)
    | _ => exact Or.inr List.nil_suffix
  · cases h with
    | suspend _ hpc' => exact Or.inr (hsetup hpc')
    | send _ => exact Or.inl (List.suffix_cons _ _)

theorem stop_rest {e : Entity} {pc : StopPc} {pc' : Pc} (h : Entity.StopStep w e pc o w' control)
    (hc : control = .goto pc' ∨ control = .suspend pc') : pc'.rest = [] := by
  rcases hc with rfl | rfl <;> cases h <;> rfl

theorem settled_rest (ht : Turn w id chain.frame o w' control)
    (h : chain.frame.pc.rest <:+ chain.frame.entity.self.items)
    (hs : chain.settled control = some chain') :
    chain'.frame.pc.rest <:+ chain'.frame.entity.self.items := by
  have hgoes : ∀ pc, control = .goto pc ∨ control = .suspend pc →
      pc.rest <:+ chain.frame.entity.self.items := by
    intro pc hc
    cases ht with
    | taken _ _ =>
      rcases hc with hc | hc
      · cases hc
        cases chain.frame.method <;> exact List.nil_suffix
      · cases hc
    | queued _ _ =>
      rcases hc with hc | hc
      · cases hc
      · cases hc
        exact List.nil_suffix
    | start hpc hstep =>
      rcases start_rest hstep hc with hrest | hrest
      · exact hrest.trans (hpc ▸ h)
      · exact hrest
    | stop _ hstep =>
      rw [stop_rest hstep hc]
      exact List.nil_suffix
  unfold Chain.settled at hs
  split at hs
  · cases hs
    exact hgoes _ (Or.inl rfl)
  · cases hs
    exact hgoes _ (Or.inr rfl)
  · cases hs
    exact List.nil_suffix
  · split at hs
    · cases hs
    · cases hs
      exact List.nil_suffix
  · cases hs

/-- **What is left to be sent** is the end of what the entity has. -/
theorem reaches_rest (h : (machine parse).Reaches Always (start c) d)
    (hchain : d.chains.find id = some chain) :
    chain.frame.pc.rest <:+ chain.frame.entity.self.items := by
  have hall : ∀ id chain, d.chains.find id = some chain →
      chain.frame.pc.rest <:+ chain.frame.entity.self.items := by
    refine h.invariant (I := fun d => ∀ id chain, d.chains.find id = some chain →
      chain.frame.pc.rest <:+ chain.frame.entity.self.items) (fun _ _ h => nomatch h) ?_
    intro d i d' ih _ hstep id chain hchain
    cases step_became hstep hchain with
    | opened _ _ _ => exact List.nil_suffix
    | kept h => exact ih id chain h
    | turned _ h ht hs => exact settled_rest ht (ih id _ h) hs
    | @resumed chain _ _ =>
      show chain.frame.method.entry.rest <:+ _
      cases chain.frame.method <;> exact List.nil_suffix
  exact hall id chain hchain

theorem entriesOrdered_switchFile :
    ∃ file, switchFile = .object file ∧ Config.EntriesOrdered file := by
  refine ⟨_, rfl, fun k e h => ?_⟩
  rw [OrdMap.find_cons, OrdMap.find_cons, OrdMap.find_nil] at h
  split_ifs at h
  · cases h
    exact List.pairwise_singleton _ _
  · cases h
    exact List.pairwise_singleton _ _

end Daemon

end Nonsense
