import Nonsense.Daemon.AllOrNothing
import Nonsense.Daemon.Readable
import Nonsense.Daemon.Work
import Mathlib.Data.List.Nodup
import Std.Data.String.ToNat

/-!
# What a process is told

The daemon sends the components of an entity to its process one after the other, each once
it has acknowledged the one before (`Guard.orderly`), and nothing once it has sent
`Shutdown`.  What it has sent it would send again: a commit adds entities, and changes
none that is there nor any above it (`Entity.Says.extends`).

So whatever has been started, stopped, committed or gone wrong, a process of an entity has
been sent nothing, or the networks from its own upwards as the configuration has them now
(`process_told`).

The rules for a run (`reaches_says`, `received_network`) are stated for any run, and take a
read through a reference to a tree that is gone to give that tree, as `Entity.start` has it.
`process_told` is what they come to without that convention: no commit succeeds while a start
is under way.
-/

namespace Nonsense

/-! ### The order of the components -/

namespace Process

/-- The types of the components that were sent. -/
def types (p : Process) : List String := p.received.map Prod.fst

/-- No component was sent twice, and all but the last one at most are acknowledged. -/
structure Orderly (p : Process) : Prop where
  nodup : p.types.Nodup
  acknowledged : p.types = p.acknowledged ∨ ∃ type, p.types = p.acknowledged ++ [type]

end Process

def World.Orderly (w : World) (n : String) : Prop :=
  ∀ pid p, w.processes.find pid = some p → p.name = n → p.Orderly

/-- What is known at a point of a start of the conversation with the process. -/
def StartPc.Tells (w : World) (e : Entity) : StartPc → Prop
  | check | socketpair | fork => True
  | busNew pid | setup pid _ | startUnit pid _ | unitReply pid _ | unitJob pid _ =>
    w.processes.find pid = some ⟨e.name, [], [], false⟩
  | components pid rest => ∃ p, w.processes.find pid = some p ∧ p.name = e.name ∧
      p.shutdown = false ∧ p.types = p.acknowledged ∧ p.types ++ rest.map Prod.fst = e.self.itemKeys
  | added pid type rest => ∃ p, w.processes.find pid = some p ∧ p.name = e.name ∧
      p.shutdown = false ∧ p.types = p.acknowledged ++ [type] ∧
      p.types ++ rest.map Prod.fst = e.self.itemKeys

def Pc.Tells (w : World) (e : Entity) : Pc → Prop
  | start pc => pc.Tells w e
  | _ => True

def Guard.orderly : Guard where
  frame w e pc := w.Orderly e.name ∧ pc.Tells w e
  caller := World.Orderly
  free := World.Orderly

variable {w w' : World} {e : Entity} {o : Outcome} {control : Control} {n : String} {pid : Nat}
  {f : Process → Process}

theorem World.Orderly.same (hs : w.Same n w') (h : w.Orderly n) : w'.Orderly n :=
  fun pid p hp hn => h pid p ((hs.processes pid p hn).mp hp) hn

theorem Pc.Tells.same {pc : Pc} (hs : w.Same e.name w') (h : pc.Tells w e) : pc.Tells w' e := by
  cases pc with
  | start pc =>
    cases pc with
    | check | socketpair | fork => trivial
    | components pid rest | added pid type rest =>
      obtain ⟨p, hp, hn, hrest⟩ := h
      exact ⟨p, (hs.processes pid p hn).mpr hp, hn, hrest⟩
    | _ => exact (hs.processes _ _ rfl).mpr h
  | _ => trivial

theorem orderly_lawful : Guard.orderly.Lawful where
  frame hs _ h := ⟨h.1.same hs, h.2.same hs⟩
  caller hs _ h := World.Orderly.same hs h
  free hs _ h := World.Orderly.same hs h
  entry method h := by cases method <;> exact ⟨h, trivial⟩
  back h := ⟨h, trivial⟩
  drop h := h

theorem World.Orderly.update {p : Process} (h : w.Orderly n) (hp : w.processes.find pid = some p)
    (hf : (f p).Orderly) : (w.update pid f).Orderly n := by
  intro k q hq hn
  rw [World.find_update] at hq
  split_ifs at hq with hk
  · rw [hp] at hq
    cases hq
    exact hf
  · exact h k q hq hn

theorem tells_settingUp {pc : StartPc} (h : Entity.SettingUp pid pc) :
    pc.Tells w e ↔ w.processes.find pid = some ⟨e.name, [], [], false⟩ := by
  refine Entity.settingUp_cases (P := fun pc => pc.Tells w e ↔
    w.processes.find pid = some ⟨e.name, [], [], false⟩) h ?_ ?_ ?_ ?_
  all_goals exact fun _ => Iff.rfl

/-- **A turn of `start` keeps the conversation in order.** -/
theorem start_orderly {pc : StartPc} (h : Entity.StartStep w e pc o w' control)
    (hkeys : e.self.itemKeys.Nodup) (hw : w.Orderly e.name) (hpc : pc.Tells w e) :
    Guard.orderly.after w' e control := by
  cases h with
  | live _ | uplink _ _ _ | noSocketpair | noFork | noBus | notSetUp _ _ _ | notAdded | finish =>
    exact hw
  | noUplink _ _ | socketpair => exact ⟨hw, trivial⟩
  | @fork pid hpid =>
    refine ⟨?_, by rw [Pc.Tells, StartPc.Tells, World.find_fork, if_pos rfl]⟩
    intro k p hk hn
    rw [World.find_fork] at hk
    split_ifs at hk
    · cases hk
      exact ⟨List.nodup_nil, Or.inl rfl⟩
    · exact hw k p hk hn
  | emplace =>
    refine ⟨?_, ?_⟩
    · intro k p hk hn
      rw [World.emplace_processes] at hk
      exact hw k p hk hn
    · show (World.emplace _ _ _).processes.find _ = _
      rw [World.emplace_processes]
      exact hpc
  | goto hpc₁ hpc₂ _ | suspend hpc₁ hpc₂ =>
    exact ⟨hw, (tells_settingUp hpc₂).mpr ((tells_settingUp hpc₁).mp hpc)⟩
  | components => exact ⟨hw, _, hpc, rfl, rfl, rfl, Json.map_fst_items e.self⟩
  | @send pid type component json rest _ =>
    obtain ⟨p, hp, hn, hshutdown, hacked, hrest⟩ := hpc
    have htypes : ({ p with received := p.received ++ [(type, json)] } : Process).types =
        p.types ++ [type] := List.map_append
    have hnew : p.types ++ [type] ++ rest.map Prod.fst = e.self.itemKeys := by
      rw [List.append_assoc]
      exact hrest
    have horder : ({ p with received := p.received ++ [(type, json)] } : Process).Orderly := by
      refine ⟨?_, Or.inr ⟨type, ?_⟩⟩
      · rw [htypes]
        rw [← hnew] at hkeys
        exact (List.nodup_append.mp hkeys).1
      · rw [htypes, hacked]
    refine ⟨hw.update hp horder, _, World.find_update_self hp, hn, hshutdown, ?_, ?_⟩
    · rw [htypes, hacked]
    · rw [htypes, hnew]
  | @acknowledged pid type rest =>
    obtain ⟨p, hp, hn, hshutdown, hacked, hrest⟩ := hpc
    have horder : ({ p with acknowledged := p.acknowledged ++ [type] } : Process).Orderly :=
      ⟨(hw pid p hp hn).nodup, Or.inl hacked⟩
    exact ⟨hw.update hp horder, _, World.find_update_self hp, hn, hshutdown, hacked, hrest⟩

theorem stop_orderly {pc : StopPc} (h : Entity.StopStep w e pc o w' control)
    (hpc : pc.Live w e.name) (hw : w.Orderly e.name) : Guard.orderly.after w' e control := by
  cases h with
  | shutdown hlive =>
    obtain ⟨p, hp, hn⟩ := hpc _ hlive
    have hold := hw _ p hp hn
    have horder : ({ p with shutdown := true } : Process).Orderly := ⟨hold.nodup, hold.acknowledged⟩
    exact ⟨hw.update hp horder, trivial⟩
  | reap =>
    refine ⟨fun k p hk hn => ?_, trivial⟩
    rw [World.find_reap] at hk
    split_ifs at hk
    exact hw k p hk hn
  | notStarted _ | notShutdown | notStopped _ _ _ | finish => exact hw
  | _ => exact ⟨hw, trivial⟩

/-! ### What is said -/

namespace Entity

/-- `x` is a component of the entity `name`, as it is sent. -/
def Says (tree : Object) (name : String) (x : String × Json) : Prop :=
  ∃ self component, tree.find name = some self ∧ (x.1, component) ∈ self.items ∧
    Entity.sent tree x.1 component = .ok x.2

variable {tree tree' : Object} {names : List String} {name : String} {x : String × Json}
  {m : Object} {ms : List Object}

theorem network_extends (hext : Config.Extends tree tree' names)
    (h : Config.network tree name = some m) : Config.network tree' name = some m := by
  obtain ⟨e, he, hem⟩ := Config.network_eq_some_iff.mp h
  exact Config.network_eq_some_iff.mpr ⟨e, hext.kept _ _ he fun _ => rfl, hem⟩

/-- The networks above an entity stay. -/
theorem ascent_extends (hext : Config.Extends tree tree' names)
    (h : Config.Ascent tree name ms) : Config.Ascent tree' name ms := by
  induction h with
  | last hm hup => exact .last (network_extends hext hm) hup
  | link hm hup _ ih => exact .link (network_extends hext hm) hup ih

/-- **What was said is still what there is to say**, after a commit. -/
theorem Says.extends (hwf : Config.WellFormed tree) (hordered : Config.EntriesOrdered tree)
    (hext : Config.Extends tree tree' names) (h : Says tree name x) : Says tree' name x := by
  obtain ⟨self, component, hself, hmem, hsent⟩ := h
  have hnull : self.isNull = false := by
    cases self with
    | null => cases hmem
    | _ => rfl
  refine ⟨self, component, hext.kept _ _ hself fun _ => hnull, hmem, ?_⟩
  by_cases htype : x.1 = "network"
  · rw [htype] at hmem hsent ⊢
    obtain ⟨m, rfl, hm⟩ := network_of_mem hwf hordered hself hmem
    obtain ⟨ms, hms, hx⟩ := (sent_eq_ok_iff hwf hm).mp hsent
    rw [hx]
    exact sent_chain (ascent_extends hext hms)
  · rwa [Entity.sent, if_neg htype] at hsent ⊢

end Entity

namespace Json

/-- **The keys of `items()` are all different.** -/
theorem nodup_itemKeys {j : Json} (hordered : ∀ e : Object, j = .object e → e.Ordered) :
    j.itemKeys.Nodup := by
  cases j with
  | object m => exact (hordered m rfl).imp fun hlt => hlt.ne
  | array l =>
    exact List.nodup_range.map fun a b hab => Nat.repr_injective hab
  | null => exact List.nodup_nil
  | _ => exact List.nodup_singleton _

end Json

namespace Daemon

open Machine

variable {parse : String → Option Json} {d d' : Daemon} {i : Input} {id pid : Nat} {chain : Chain}
  {c : Config} {file : Object} {p p' : Process}

theorem reaches_entriesOrdered (hload : Config.load (.object file) = .ok c)
    (hfile : Config.EntriesOrdered file) (h : (machine parse).Reaches Always (start c) d) :
    Config.EntriesOrdered d.running :=
  reaches_keeps Config.add_entriesOrdered (Config.load_entriesOrdered hload hfile) h

theorem reaches_nodup_itemKeys (hload : Config.load (.object file) = .ok c)
    (hfile : Config.EntriesOrdered file) (hd : (machine parse).Reaches Always (start c) d)
    (hchain : d.chains.find id = some chain) : chain.frame.entity.self.itemKeys.Nodup := by
  rcases reaches_standing hload hd hchain (e := chain.frame.entity) List.mem_cons_self with
    hself | hnull
  · refine Json.nodup_itemKeys fun em hem => ?_
    exact reaches_entriesOrdered hload hfile hd chain.frame.entity.name em (hem ▸ hself)
  · rw [hnull]
    exact List.nodup_nil

theorem reaches_orderly (hload : Config.load (.object file) = .ok c)
    (hfile : Config.EntriesOrdered file) (h : (machine parse).Reaches Always (start c) d) :
    Guard.orderly.Kept d := by
  refine reaches_kept orderly_lawful (fun n pid p hp => nomatch hp) ?_ h
  intro d i id o stack chain w control hd hkept _ _ hchain htok ht
  have hlive := (reaches_live hd).frame id chain hchain htok
  obtain ⟨hw, htells⟩ := hkept.frame id chain hchain htok
  refine ⟨(turn_live ht htok hlive).1, ?_⟩
  rcases ht.of_hasToken htok with ⟨pc, he, hs⟩ | ⟨pc, he, hs⟩
  · rw [he] at htells
    exact start_orderly hs (reaches_nodup_itemKeys hload hfile hd hchain) hw htells
  · rw [he] at hlive
    exact stop_orderly hs hlive hw

/-- Whatever has become of its entity, the conversation with a process is in order. -/
theorem process_orderly (hload : Config.load (.object file) = .ok c)
    (hfile : Config.EntriesOrdered file) (h : (machine parse).Reaches Always (start c) d)
    (hp : d.world.processes.find pid = some p) : p.Orderly := by
  have hkept := reaches_orderly hload hfile h
  rcases token_cases d p.name with ⟨id, chain, hchain, htok, hn⟩ | ⟨id, chain, e, hchain, he, hn⟩ | hno
  · exact (hkept.frame id chain hchain htok).1 pid p hp hn.symm
  · exact hkept.caller id chain hchain e he pid p hp hn.symm
  · exact hkept.free p.name hno pid p hp rfl

/-! ### One step -/

/-- What a turn of `frame` does to the process `pid`, where it is there before and after. -/
inductive Handled (w : World) (frame : Frame) (o : Outcome) (pid : Nat) (p : Process) :
    Process → Prop
  | kept : Handled w frame o pid p p
  | sent {type : String} {component json : Json} {rest : List (String × Json)} :
      frame.pc = .start (.components pid ((type, component) :: rest)) →
      Entity.sent w.manager.running.configuration type component = .ok json →
      Handled w frame o pid p { p with received := p.received ++ [(type, json)] }
  | acknowledged {type : String} {rest : List (String × Json)} :
      frame.pc = .start (.added pid type rest) → o = .value true →
      Handled w frame o pid p { p with acknowledged := p.acknowledged ++ [type] }
  | shutdown : frame.pc = .stop .find → Handled w frame o pid p { p with shutdown := true }

variable {w w' : World} {frame : Frame} {o : Outcome} {control : Control} {stack : List Activity}
  {x : String × Json}

theorem handled_of_update {P : Process → Process → Prop} {k : Nat} {f : Process → Process}
    (hp : w.processes.find pid = some p) (hp' : (w.update k f).processes.find pid = some p')
    (hsame : P p p) (hf : pid = k → P p (f p)) : P p p' := by
  rw [World.find_update] at hp'
  split_ifs at hp' with hk
  · rw [← hk, hp] at hp'
    cases hp'
    exact hf hk
  · rw [hp] at hp'
    cases hp'
    exact hsame

/-- **What a turn does to a process.** -/
theorem turn_handled (ht : Turn w id frame o w' control) (hp : w.processes.find pid = some p)
    (hp' : w'.processes.find pid = some p') : Handled w frame o pid p p' := by
  have hsame : w'.processes = w.processes → Handled w frame o pid p p' := by
    intro heq
    rw [heq, hp] at hp'
    cases hp'
    exact .kept
  cases ht with
  | taken _ _ | queued _ _ => exact hsame rfl
  | start hpc hs =>
    cases hs with
    | @fork k hk =>
      rw [World.find_fork] at hp'
      split_ifs at hp' with hkp
      · rw [hkp, hk] at hp
        cases hp
      · rw [hp] at hp'
        cases hp'
        exact .kept
    | emplace => exact hsame World.emplace_processes
    | send hsent =>
      refine handled_of_update hp hp' .kept fun hk => ?_
      subst hk
      exact .sent hpc hsent
    | acknowledged => exact handled_of_update hp hp' .kept fun hk => .acknowledged (hk ▸ hpc) rfl
    | _ => exact hsame rfl
  | stop hpc hs =>
    cases hs with
    | shutdown _ => exact handled_of_update hp hp' .kept fun _ => .shutdown hpc
    | reap =>
      rw [World.find_reap] at hp'
      split_ifs at hp'
      rw [hp] at hp'
      cases hp'
      exact .kept
    | _ => exact hsame rfl

/-- **What a step does to a process.** -/
theorem step_handled (hstep : (machine parse).step d i = some d')
    (hp : d.world.processes.find pid = some p) (hp' : d'.world.processes.find pid = some p') :
    p' = p ∨ ∃ id o stack chain, Turns d i id o stack ∧ d.chains.find id = some chain ∧
      chain.frame.pc.hasToken = true ∧ Handled d.world chain.frame o pid p p' := by
  have hsame : d'.world.processes = d.world.processes → p' = p := by
    intro heq
    rw [heq, hp] at hp'
    exact (Option.some.inj hp').symm
  cases step_cases hstep with
  | request _ => exact Or.inl (hsame (by rw [request_world]))
  | call _ _ => exact Or.inl (hsame rfl)
  | @turn _ id o stack chain _ _ hturns hchain hframe =>
    rw [settle_world] at hp' hsame
    have ht := turn_cases hframe
    have hhandled := turn_handled ht hp hp'
    cases ht with
    | taken _ _ | queued _ _ => exact Or.inl (hsame rfl)
    | start hpc _ | stop hpc _ =>
      exact Or.inr ⟨id, o, stack, chain, hturns, hchain, by rw [hpc]; rfl, hhandled⟩
  | drop _ hdrop =>
    cases drop_cases hdrop with
    | freed _ _ => exact Or.inl (hsame rfl)
    | handed _ _ _ _ => exact Or.inl (hsame rfl)

/-- A start that sends to a process has it as its own, and it is the one that is live. -/
theorem runs_of_components {type : String} {component : Json} {rest : List (String × Json)}
    (hd : (machine parse).Reaches Always (start c) d) (hchain : d.chains.find id = some chain)
    (hpc : chain.frame.pc = .start (.components pid ((type, component) :: rest)))
    (hp : d.world.processes.find pid = some p) :
    p.name = chain.frame.entity.name ∧ d.world.live.find p.name = some pid := by
  have hlive : Pc.Live d.world chain.frame.entity.name chain.frame.pc :=
    (reaches_live hd).frame id chain hchain (by rw [hpc]; rfl)
  rw [hpc] at hlive
  obtain ⟨hfind, q, hq, hname⟩ := hlive
  rw [hp] at hq
  cases hq
  exact ⟨hname, hname ▸ hfind⟩

/-- A process that is new has been told nothing. -/
theorem step_forks (hstep : (machine parse).step d i = some d')
    (hp : d.world.processes.find pid = none) (hp' : d'.world.processes.find pid = some p') :
    p' = ⟨p'.name, [], [], false⟩ := by
  have hsame : d'.world.processes = d.world.processes → p' = ⟨p'.name, [], [], false⟩ := by
    intro heq
    rw [heq, hp] at hp'
    cases hp'
  have hupdate : ∀ {k : Nat} {f : Process → Process},
      (d.world.update k f).processes.find pid = some p' → p' = ⟨p'.name, [], [], false⟩ := by
    intro k f hfind
    rw [World.find_update] at hfind
    split_ifs at hfind with hk
    · rw [← hk, hp] at hfind
      cases hfind
    · rw [hp] at hfind
      cases hfind
  cases step_cases hstep with
  | request _ => exact hsame (by rw [request_world])
  | call _ _ => exact hsame rfl
  | turn hturns hchain hframe =>
    rw [settle_world] at hp' hsame
    cases turn_cases hframe with
    | taken _ _ | queued _ _ => exact hsame rfl
    | start hpc hs =>
      cases hs with
      | fork hk =>
        rw [World.find_fork] at hp'
        split_ifs at hp'
        · cases hp'
          rfl
        · rw [hp] at hp'
          cases hp'
      | emplace => exact hsame World.emplace_processes
      | send _ | acknowledged => exact hupdate hp'
      | _ => exact hsame rfl
    | stop hpc hs =>
      cases hs with
      | shutdown _ => exact hupdate hp'
      | reap =>
        rw [World.find_reap] at hp'
        split_ifs at hp'
        rw [hp] at hp'
        cases hp'
      | _ => exact hsame rfl
  | drop _ hdrop =>
    cases drop_cases hdrop with
    | freed _ _ => exact hsame rfl
    | handed _ _ _ _ => exact hsame rfl

/-- **What has been sent is what the configuration says.** -/
theorem reaches_says (hload : Config.load (.object file) = .ok c)
    (hfile : Config.EntriesOrdered file) (h : (machine parse).Reaches Always (start c) d)
    (hp : d.world.processes.find pid = some p) (hx : x ∈ p.received) :
    Entity.Says d.running p.name x := by
  have hall : ∀ pid p, d.world.processes.find pid = some p → ∀ x ∈ p.received,
      Entity.Says d.running p.name x := by
    refine h.invariant_of_reaches (I := fun d => ∀ pid p, d.world.processes.find pid = some p →
      ∀ x ∈ p.received, Entity.Says d.running p.name x) (fun _ _ hp => nomatch hp) ?_
    intro d i d' hd ih _ hstep pid p' hp' x hx
    have hextends : ∀ n y, Entity.Says d.running n y → Entity.Says d'.running n y := by
      intro n y hy
      rcases step_manager hstep with hsame | ⟨call, replies, -, hserve⟩
      · rw [running, hsame]
        exact hy
      · obtain ⟨names, hext⟩ := Transactions.serve_extends (reaches_wellFormed hload hd) hserve
        exact hy.extends (reaches_wellFormed hload hd) (reaches_entriesOrdered hload hfile hd) hext
    apply hextends
    cases hp : d.world.processes.find pid with
    | none =>
      rw [step_forks hstep hp hp'] at hx
      cases hx
    | some p =>
      rcases step_handled hstep hp hp' with
        rfl | ⟨id, o, stack, chain, hturns, hchain, htok, hhandled⟩
      · exact ih pid _ hp x hx
      · cases hhandled with
        | kept | acknowledged | shutdown => exact ih pid _ hp x hx
        | @sent type component json rest hpc hsent =>
          rcases List.mem_append.mp hx with hx | hx
          · exact ih pid p hp x hx
          · rw [List.mem_singleton.mp hx]
            have hmem : (type, component) ∈ chain.frame.entity.self.items := by
              have hrest := reaches_rest hd hchain
              rw [hpc] at hrest
              exact hrest.subset List.mem_cons_self
            obtain ⟨hname, -⟩ := runs_of_components hd hchain hpc hp
            rcases reaches_standing hload hd hchain (e := chain.frame.entity) List.mem_cons_self with
              hself | hnull
            · exact ⟨_, component, hname ▸ hself, hmem, hsent⟩
            · rw [hnull] at hmem
              cases hmem
  exact hall pid p hp x hx

/-- The components of an entity are its network, or none. -/
theorem items_of_isEntity {tree : Object} {name : String} {self : Json}
    (hwf : Config.WellFormed tree) (hordered : Config.EntriesOrdered tree)
    (hent : Config.IsEntity tree name) (hself : tree.find name = some self)
    {x : String × Json} (hx : x ∈ self.items) :
    x.1 = "network" ∧ ∃ m, x.2 = .object m ∧ Config.network tree name = some m := by
  have hmem : x.1 ∈ self.itemKeys := by
    rw [← Json.map_fst_items]
    exact List.mem_map_of_mem hx
  have htype : x.1 = "network" := by
    have hknown := (hwf.entity name hent).types self hself _ hmem
    unfold knownComponents at hknown
    split at hknown
    · assumption
    · cases hknown
  refine ⟨htype, Entity.network_of_mem hwf hordered hself ?_⟩
  rw [← htype]
  exact hx

/-- A process of an entity has been sent nothing, or the networks from its own upwards. -/
theorem received_network (hload : Config.load (.object file) = .ok c)
    (hfile : Config.EntriesOrdered file) (hd : (machine parse).Reaches Always (start c) d)
    (hp : d.world.processes.find pid = some p) (hent : Config.IsEntity d.running p.name) :
    p.received = [] ∨ ∃ m ms, Config.Ascent d.running p.name (m :: ms) ∧
      p.received = [("network", .object (Entity.nest (m :: ms)))] := by
  have hwf : Config.WellFormed d.running := reaches_wellFormed hload hd
  have hordered := reaches_entriesOrdered hload hfile hd
  have hnetwork : ∀ x ∈ p.received, x.1 = "network" ∧
      ∃ m ms, Config.Ascent d.running p.name (m :: ms) ∧
        x = ("network", .object (Entity.nest (m :: ms))) := by
    rintro ⟨type, json⟩ hx
    obtain ⟨self, component, hself, hmem, hsent⟩ := reaches_says hload hfile hd hp hx
    obtain ⟨rfl, m, rfl, hm⟩ := items_of_isEntity hwf hordered hent hself hmem
    obtain ⟨ms, hms, rfl⟩ := (Entity.sent_eq_ok_iff hwf hm).mp hsent
    exact ⟨rfl, m, ms, hms, rfl⟩
  have hnodup := (process_orderly hload hfile hd hp).nodup
  rw [Process.types] at hnodup
  cases hreceived : p.received with
  | nil => exact Or.inl rfl
  | cons x l =>
    right
    rw [hreceived] at hnetwork hnodup
    obtain ⟨htype, m, ms, hms, hx⟩ := hnetwork x List.mem_cons_self
    -- a second one would be another network
    have hl : l = [] := by
      cases l with
      | nil => rfl
      | cons y l =>
        have hy := (hnetwork y (List.mem_cons_of_mem _ List.mem_cons_self)).1
        rw [List.map_cons, List.map_cons, htype, hy] at hnodup
        exact absurd List.mem_cons_self (List.nodup_cons.mp hnodup).1
    exact ⟨m, ms, hms, by rw [hl, hx]⟩

/-- What is known of a process where a component is sent to it. -/
theorem ready_of_components {type : String} {component : Json} {rest : List (String × Json)}
    (hload : Config.load (.object file) = .ok c) (hfile : Config.EntriesOrdered file)
    (hd : (machine parse).Reaches Always (start c) d) (hchain : d.chains.find id = some chain)
    (hpc : chain.frame.pc = .start (.components pid ((type, component) :: rest)))
    (hp : d.world.processes.find pid = some p) :
    d.world.live.find p.name = some pid ∧ p.shutdown = false ∧ p.types = p.acknowledged := by
  obtain ⟨-, hlive⟩ := runs_of_components hd hchain hpc hp
  have htells := ((reaches_orderly hload hfile hd).frame id chain hchain (by rw [hpc]; rfl)).2
  rw [hpc] at htells
  obtain ⟨q, hq, -, hshutdown, hacked, -⟩ := htells
  rw [hp] at hq
  cases hq
  exact ⟨hlive, hshutdown, hacked⟩

/-- **What a process has been told**, after any run in which no commit succeeds while a
start is under way.  Each component was sent once, and with what would be sent for it now;
all but the last are acknowledged.  A process of an entity has been sent nothing, or the
networks from its own upwards.  Where a step sends to a process, it is the live one of its
entity, it has acknowledged everything so far, and it has not been asked to shut down. -/
theorem process_told (hload : Config.load (.object file) = .ok c)
    (hfile : Config.EntriesOrdered file)
    (h : (machine parse).Reaches (fun d i => ¬ Replaces parse d i) (start c) d)
    (hp : d.world.processes.find pid = some p) :
    p.Orderly ∧
    (∀ x ∈ p.received, Entity.Says d.running p.name x) ∧
    (Config.IsEntity d.running p.name → p.received = [] ∨
      ∃ m ms, Config.Ascent d.running p.name (m :: ms) ∧
        p.received = [("network", .object (Entity.nest (m :: ms)))]) ∧
    ∀ i d' p', (machine parse).step d i = some d' → d'.world.processes.find pid = some p' →
      p'.received ≠ p.received → d.world.live.find p.name = some pid ∧ p.shutdown = false ∧
        p.types = p.acknowledged ∧ ∃ x, p'.received = p.received ++ [x] := by
  have hd : (machine parse).Reaches Always (start c) d := h.mono fun _ _ _ => trivial
  refine ⟨process_orderly hload hfile hd hp, fun x hx => reaches_says hload hfile hd hp hx,
    received_network hload hfile hd hp, fun i d' p' hstep hp' hne => ?_⟩
  rcases step_handled hstep hp hp' with
    rfl | ⟨id, o, stack, chain, hturns, hchain, htok, hhandled⟩
  · exact absurd rfl hne
  · cases hhandled with
    | kept | acknowledged | shutdown => exact absurd rfl hne
    | sent hpc hsent =>
      obtain ⟨hlive, hshutdown, hacked⟩ := ready_of_components hload hfile hd hchain hpc hp
      exact ⟨hlive, hshutdown, hacked, _, rfl⟩

/-- `b` is added, and started up to its components, of which the first is sent. -/
def tellB : List Input :=
  addB ++ .request .start (.ok "b") :: launch 1 ++ units 3 ++ [.tick .ok]

theorem process_told_tellB :
    ∃ d p, loadAndCheck (fun _ => none) calm switchFile tellB = some d ∧
      d.world.manager.generation = 1 ∧ d.world.processes.find 1 = some p ∧ p.name = "b" ∧
      ∃ m ms, Config.Ascent d.running "b" (m :: ms) ∧
        p.received = [("network", .object (Entity.nest (m :: ms)))] := by
  have hrun : (loadAndCheck (fun _ => none) calm switchFile tellB).any (fun d =>
      d.world.manager.generation = 1 ∧ (d.running.find "b").isSome ∧
        (d.world.processes.find 1).any fun p => p.name = "b" ∧ p.received.length = 1) = true := by
    decide +kernel
  obtain ⟨d, hd, hlast⟩ := (Option.any_eq_true ..).mp hrun
  obtain ⟨hgen, hfind, hprocess⟩ := of_decide_eq_true hlast
  obtain ⟨p, hp, hp'⟩ := (Option.any_eq_true ..).mp hprocess
  obtain ⟨hname, hlength⟩ := of_decide_eq_true hp'
  obtain ⟨c, hload, hinputs⟩ := loadAndCheck_eq_some_iff.mp hd
  obtain ⟨file, hfile, hordered⟩ := entriesOrdered_switchFile
  rw [hfile] at hload
  have hreaches := (reaches_of_runChecked hinputs).mono fun _ _ => not_replaces_of_calm fun _ => none
  have htold := (process_told hload hordered hreaches hp).2.2.1
  rw [hname] at htold
  rcases htold ⟨hfind, by decide, fun h => absurd h.1 (by decide)⟩ with hnil | hnetwork
  · rw [hnil] at hlength
    cases hlength
  · exact ⟨d, p, hd, hgen, hp, hname, hnetwork⟩

end Daemon

end Nonsense
