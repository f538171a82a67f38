import Nonsense.Daemon.Guard

/-!
# Live entities and their processes

`live` is the guard that says which entities are in `_live_entities` and that the
process recorded there is one of theirs; it holds in every run.  `only` says that
there is no other process of the name.  That fails where `sd_bus_new` fails, for the
child is forked by then and nobody waits for it, and where `waitpid` fails.

`one_process` puts the two together.
-/

namespace Nonsense

namespace World

/-- `pid` is a process of `n`. -/
def Owns (w : World) (n : String) (pid : Nat) : Prop :=
  ∃ p, w.processes.find pid = some p ∧ p.name = n

/-- What is recorded for `n` is a process of `n`. -/
def Settled (w : World) (n : String) : Prop := ∀ pid, w.live.find n = some pid → w.Owns n pid

/-- `n` is live, with the process `pid`. -/
def Runs (w : World) (n : String) (pid : Nat) : Prop := w.live.find n = some pid ∧ w.Owns n pid

/-- The only process that `n` can have is this one. -/
def Only (w : World) (n : String) (pid : Option Nat) : Prop :=
  ∀ k p, w.processes.find k = some p → p.name = n → pid = some k

variable {w w' : World} {n m : String} {pid k : Nat} {f : Process → Process}

theorem Same.owns (h : w.Same n w') : w'.Owns n pid ↔ w.Owns n pid :=
  exists_congr fun p => and_congr_left fun hp => h.processes pid p hp

theorem Same.settled (h : w.Same n w') : w'.Settled n ↔ w.Settled n := by
  unfold Settled
  rw [h.live]
  exact forall_congr' fun pid => imp_congr_right fun _ => h.owns

theorem Same.runs (h : w.Same n w') : w'.Runs n pid ↔ w.Runs n pid := by
  rw [Runs, h.live, h.owns, Runs]

theorem Same.only {l : Option Nat} (h : w.Same n w') (ho : w.Only n l) : w'.Only n l :=
  fun k p hk hp => ho k p ((h.processes k p hp).mp hk) hp

theorem Settled.of_none (h : w.live.find n = none) : w.Settled n := by
  intro pid hpid
  rw [h] at hpid
  cases hpid

theorem Runs.settled (h : w.Runs n pid) : w.Settled n := by
  intro k hk
  rw [h.1] at hk
  cases hk
  exact h.2

theorem Runs.only (h : w.Runs n pid) (ho : w.Only n (some pid)) : w.Only n (w.live.find n) := by
  rw [h.1]
  exact ho

theorem Only.of_none {l : Option Nat} (h : w.Only n none) : w.Only n l :=
  fun k p hk hp => nomatch h k p hk hp

/-! ### What the updates touch -/

theorem same_fork (hm : m ≠ n) (hpid : w.processes.find pid = none) : w.Same m (w.fork pid n) := by
  refine ⟨rfl, ?_⟩
  intro k p hp
  rw [find_fork]
  split_ifs with hk
  · rw [hk, hpid]
    refine iff_of_false (fun he => ?_) (by simp)
    cases he
    exact hm hp.symm
  · exact Iff.rfl

theorem same_emplace (hm : m ≠ n) (hn : w.live.find n = none) : w.Same m (w.emplace n pid) :=
  ⟨by rw [find_emplace hn, if_neg hm], fun _ _ _ => by rw [emplace_processes]⟩

theorem same_update (hm : m ≠ n) (h : w.Owns n pid) (hf : ∀ p, (f p).name = p.name) :
    w.Same m (w.update pid f) := by
  obtain ⟨p₀, hp₀, rfl⟩ := h
  refine ⟨by rw [update_live], ?_⟩
  intro k p hp
  rw [find_update]
  split_ifs with hk
  · rw [hk, hp₀]
    refine iff_of_false (fun he => ?_) (fun he => ?_)
    · cases he
      exact hm (hp.symm.trans (hf p₀))
    · cases he
      exact hm hp.symm
  · exact Iff.rfl

theorem same_reap (hm : m ≠ n) (h : w.Owns n pid) : w.Same m (w.reap pid) := by
  obtain ⟨p₀, hp₀, rfl⟩ := h
  refine ⟨rfl, ?_⟩
  intro k p hp
  rw [find_reap]
  split_ifs with hk
  · rw [hk, hp₀]
    refine iff_of_false (by simp) (fun he => ?_)
    cases he
    exact hm hp.symm
  · exact Iff.rfl

theorem same_forget (hm : m ≠ n) : w.Same m (w.forget n) :=
  ⟨by rw [find_forget, if_neg hm], fun _ _ _ => Iff.rfl⟩

theorem Owns.update (h : w.Owns n k) (hf : ∀ p, (f p).name = p.name) :
    (w.update pid f).Owns n k := by
  obtain ⟨p, hp, hn⟩ := h
  by_cases hk : k = pid
  · subst hk
    exact ⟨f p, by rw [find_update, if_pos rfl, hp]; rfl, (hf p).trans hn⟩
  · exact ⟨p, by rw [find_update, if_neg hk, hp], hn⟩

theorem Runs.update (h : w.Runs n k) (hf : ∀ p, (f p).name = p.name) :
    (w.update pid f).Runs n k := ⟨by rw [update_live]; exact h.1, h.2.update hf⟩

theorem Only.update {l : Option Nat} (h : w.Only n l) (hf : ∀ p, (f p).name = p.name) :
    (w.update pid f).Only n l := by
  intro k p hk hp
  rw [find_update] at hk
  split_ifs at hk with hkp
  · obtain ⟨p', hp', rfl⟩ := Option.map_eq_some_iff.mp hk
    exact h k p' (hkp ▸ hp') ((hf p').symm.trans hp)
  · exact h k p hk hp

end World

/-! ### Which entities are live -/

def StartPc.Live (w : World) (n : String) : StartPc → Prop
  | check => w.Settled n
  | socketpair | fork => w.live.find n = none
  | busNew pid => w.live.find n = none ∧ w.Owns n pid
  | setup pid _ | startUnit pid _ | unitReply pid _ | unitJob pid _ | components pid _
  | added pid _ _ => w.Runs n pid

def StopPc.Live (w : World) (n : String) : StopPc → Prop
  | find => w.Settled n
  | shutdown pid | waitpid pid => w.Runs n pid
  | erase => True
  | stopUnit | stopReply | stopJob => w.live.find n = none

/-- What is known of the entity `n` at a point past the queue. -/
def Pc.Live (w : World) (n : String) : Pc → Prop
  | start pc => pc.Live w n
  | stop pc => pc.Live w n
  | _ => True

namespace Guard

def live : Guard where
  frame w e pc := pc.Live w e.name
  caller w n := w.live.find n = none
  free := World.Settled

end Guard

variable {w w' : World} {e : Entity} {o : Outcome} {control : Control} {n : String} {pid : Nat}

theorem StartPc.Live.same {pc : StartPc} (hs : w.Same n w') (h : pc.Live w n) : pc.Live w' n := by
  cases pc with
  | check => exact hs.settled.mpr h
  | socketpair | fork => exact hs.live.trans h
  | busNew pid => exact ⟨hs.live.trans h.1, hs.owns.mpr h.2⟩
  | _ => exact hs.runs.mpr h

theorem StopPc.Live.same {pc : StopPc} (hs : w.Same n w') (h : pc.Live w n) : pc.Live w' n := by
  cases pc with
  | find => exact hs.settled.mpr h
  | shutdown pid | waitpid pid => exact hs.runs.mpr h
  | erase => trivial
  | _ => exact hs.live.trans h

theorem live_lawful : Guard.live.Lawful where
  frame {w w' e pc} hs _ h := by
    cases pc with
    | start pc => exact StartPc.Live.same hs h
    | stop pc => exact StopPc.Live.same hs h
    | _ => trivial
  caller hs _ h := hs.live.trans h
  free hs _ h := hs.settled.mpr h
  entry method h := by cases method <;> exact h
  back h := h
  drop h := .of_none h

theorem live_settingUp {pc : StartPc} (h : Entity.SettingUp pid pc) :
    pc.Live w n ↔ w.Runs n pid := by
  refine Entity.settingUp_cases (P := fun pc => pc.Live w n ↔ w.Runs n pid) h ?_ ?_ ?_ ?_
  all_goals exact fun _ => Iff.rfl

/-- **A turn of `start`** touches its own entity only, and keeps what is known of it. -/
theorem start_live {pc : StartPc} (h : Entity.StartStep w e pc o w' control)
    (hpc : pc.Live w e.name) :
    (∀ n, n ≠ e.name → w.Same n w') ∧ Guard.live.after w' e control := by
  have hsame : ∀ n, n ≠ e.name → w.Same n w := fun n _ => .refl n w
  cases h with
  | live _ => exact ⟨hsame, hpc⟩
  | noUplink hnone _ => exact ⟨hsame, hnone⟩
  | uplink hnone _ _ => exact ⟨hsame, hnone⟩
  | socketpair => exact ⟨hsame, hpc⟩
  | noSocketpair => exact ⟨hsame, .of_none hpc⟩
  | @fork pid hpid =>
    refine ⟨fun n hn => World.same_fork hn hpid, hpc, ?_⟩
    exact ⟨_, by rw [World.find_fork, if_pos rfl], rfl⟩
  | noFork => exact ⟨hsame, .of_none hpc⟩
  | @emplace pid =>
    refine ⟨fun n hn => World.same_emplace hn hpc.1, ?_, ?_⟩
    · rw [World.find_emplace hpc.1, if_pos rfl]
    · unfold World.Owns
      rw [World.emplace_processes]
      exact hpc.2
  | noBus => exact ⟨hsame, .of_none hpc.1⟩
  | goto hpc₁ hpc₂ _ => exact ⟨hsame, (live_settingUp hpc₂).mpr ((live_settingUp hpc₁).mp hpc)⟩
  | suspend hpc₁ hpc₂ => exact ⟨hsame, (live_settingUp hpc₂).mpr ((live_settingUp hpc₁).mp hpc)⟩
  | notSetUp hpc₁ _ _ => exact ⟨hsame, ((live_settingUp hpc₁).mp hpc).settled⟩
  | components => exact ⟨hsame, hpc⟩
  | send _ =>
    exact ⟨fun n hn => World.same_update hn hpc.2 fun _ => rfl, hpc.update fun _ => rfl⟩
  | acknowledged =>
    exact ⟨fun n hn => World.same_update hn hpc.2 fun _ => rfl, hpc.update fun _ => rfl⟩
  | notAdded => exact ⟨hsame, hpc.settled⟩
  | finish => exact ⟨hsame, hpc.settled⟩

/-- **A turn of `stop`** touches its own entity only, and keeps what is known of it. -/
theorem stop_live {pc : StopPc} (h : Entity.StopStep w e pc o w' control)
    (hpc : pc.Live w e.name) :
    (∀ n, n ≠ e.name → w.Same n w') ∧ Guard.live.after w' e control := by
  have hsame : ∀ n, n ≠ e.name → w.Same n w := fun n _ => .refl n w
  cases h with
  | notStarted hnone => exact ⟨hsame, .of_none hnone⟩
  | @shutdown pid hlive =>
    have hruns : w.Runs e.name pid := ⟨hlive, hpc pid hlive⟩
    exact ⟨fun n hn => World.same_update hn hruns.2 fun _ => rfl, hruns.update fun _ => rfl⟩
  | notShutdown => exact ⟨hsame, hpc.settled⟩
  | acknowledged => exact ⟨hsame, hpc⟩
  | reap => exact ⟨fun n hn => World.same_reap hn hpc.2, trivial⟩
  | notReaped => exact ⟨hsame, trivial⟩
  | erase =>
    have hnone : (w.forget e.name).live.find e.name = none := by
      rw [World.find_forget, if_pos rfl]
    exact ⟨fun n hn => World.same_forget hn, hnone⟩
  | stopUnit => exact ⟨hsame, hpc⟩
  | stopReply => exact ⟨hsame, hpc⟩
  | notStopped hat _ _ =>
    refine ⟨hsame, ?_⟩
    rcases hat with rfl | rfl
    · exact .of_none hpc
    · exact .of_none hpc
  | finish => exact ⟨hsame, .of_none hpc⟩

theorem turn_live {id : Nat} {frame : Frame} (h : Daemon.Turn w id frame o w' control)
    (htok : frame.pc.hasToken = true) (hpc : frame.pc.Live w frame.entity.name) :
    (∀ n, n ≠ frame.entity.name → w.Same n w') ∧ Guard.live.after w' frame.entity control := by
  rcases h.of_hasToken htok with ⟨pc, he, hs⟩ | ⟨pc, he, hs⟩
  · rw [he] at hpc
    exact start_live hs hpc
  · rw [he] at hpc
    exact stop_live hs hpc

/-! ### Which processes there are -/

/-- The process that the entity `n` has at a point past the queue. -/
def Pc.child (w : World) (n : String) : Pc → Option Nat
  | start .check | stop .find => w.live.find n
  | start (.busNew pid) | start (.setup pid _) | start (.startUnit pid _)
  | start (.unitReply pid _) | start (.unitJob pid _) | start (.components pid _)
  | start (.added pid _ _) | stop (.shutdown pid) | stop (.waitpid pid) => some pid
  | _ => none

/-- Between `fork` and `emplace`, or between `waitpid` and `erase`. -/
def Pc.between : Pc → Bool
  | start (.busNew _) | stop .erase => true
  | _ => false

/-- `sd_bus_new` or `waitpid` fails. -/
def Pc.Abandons (pc : Pc) (o : Outcome) : Prop :=
  o.fails = true ∧ ((∃ pid, pc = start (.busNew pid)) ∨ ∃ pid, pc = stop (.waitpid pid))

def Guard.only : Guard where
  frame w e pc := w.Only e.name (pc.child w e.name)
  caller w n := w.Only n none
  free w n := w.Only n (w.live.find n)

theorem Pc.child_same {pc : Pc} (h : w.Same n w') : pc.child w' n = pc.child w n := by
  unfold Pc.child
  split
  · exact h.live
  · exact h.live
  all_goals rfl

theorem only_lawful : Guard.only.Lawful where
  frame {w w' e pc} hs _ h := by
    show w'.Only e.name (pc.child w' e.name)
    rw [Pc.child_same hs]
    exact hs.only h
  caller hs _ h := hs.only h
  free {w w' n} hs _ h := by
    show w'.Only n (w'.live.find n)
    rw [hs.live]
    exact hs.only h
  entry method h := by cases method <;> exact h
  back h := h
  drop h := h.of_none

theorem child_settingUp {pc : StartPc} (h : Entity.SettingUp pid pc) :
    (Pc.start pc).child w n = some pid := by
  refine Entity.settingUp_cases (P := fun pc => (Pc.start pc).child w n = some pid) h ?_ ?_ ?_ ?_
  all_goals exact fun _ => rfl

theorem start_only {pc : StartPc} (h : Entity.StartStep w e pc o w' control)
    (hpc : pc.Live w e.name) (honly : w.Only e.name ((Pc.start pc).child w e.name))
    (hno : ¬ (Pc.start pc).Abandons o) : Guard.only.after w' e control := by
  cases h with
  | live _ => exact honly
  | noUplink hnone _ =>
    change w.Only e.name (w.live.find e.name) at honly
    rwa [hnone] at honly
  | uplink hnone _ _ =>
    change w.Only e.name (w.live.find e.name) at honly
    rwa [hnone] at honly
  | socketpair => exact honly
  | noSocketpair => exact honly.of_none
  | @fork pid hpid =>
    intro k p hk hp
    rw [World.find_fork] at hk
    split_ifs at hk with hkp
    · rw [hkp]
      rfl
    · have hnone : none = some k := honly k p hk hp
      cases hnone
  | noFork => exact honly.of_none
  | emplace =>
    intro k p hk hp
    rw [World.emplace_processes] at hk
    exact honly k p hk hp
  | noBus => exact absurd ⟨rfl, Or.inl ⟨_, rfl⟩⟩ hno
  | goto hpc₁ hpc₂ _ | suspend hpc₁ hpc₂ =>
    rw [child_settingUp hpc₁, ← child_settingUp (w := w) (n := e.name) hpc₂] at honly
    exact honly
  | notSetUp hpc₁ _ _ =>
    rw [child_settingUp hpc₁] at honly
    exact ((live_settingUp hpc₁).mp hpc).only honly
  | components => exact honly
  | send _ => exact honly.update fun _ => rfl
  | acknowledged => exact honly.update fun _ => rfl
  | notAdded => exact World.Runs.only hpc honly
  | finish => exact World.Runs.only hpc honly

theorem stop_only {pc : StopPc} (h : Entity.StopStep w e pc o w' control)
    (hpc : pc.Live w e.name) (honly : w.Only e.name ((Pc.stop pc).child w e.name))
    (hno : ¬ (Pc.stop pc).Abandons o) : Guard.only.after w' e control := by
  cases h with
  | notStarted _ => exact honly
  | shutdown hlive =>
    change w.Only e.name (w.live.find e.name) at honly
    rw [hlive] at honly
    exact honly.update fun _ => rfl
  | notShutdown => exact World.Runs.only hpc honly
  | acknowledged => exact honly
  | reap =>
    intro k p hk hp
    rw [World.find_reap] at hk
    split_ifs at hk with hkp
    exact absurd (Option.some.inj (honly k p hk hp)).symm hkp
  | notReaped => exact absurd ⟨rfl, Or.inr ⟨_, rfl⟩⟩ hno
  | erase => exact honly
  | stopUnit => exact honly
  | stopReply => exact honly
  | notStopped hat _ _ =>
    rcases hat with rfl | rfl
    · exact World.Only.of_none honly
    · exact World.Only.of_none honly
  | finish => exact honly.of_none

theorem turn_only {id : Nat} {frame : Frame} (h : Daemon.Turn w id frame o w' control)
    (htok : frame.pc.hasToken = true) (hpc : frame.pc.Live w frame.entity.name)
    (honly : Guard.only.frame w frame.entity frame.pc) (hno : ¬ frame.pc.Abandons o) :
    Guard.only.after w' frame.entity control := by
  rcases h.of_hasToken htok with ⟨pc, he, hs⟩ | ⟨pc, he, hs⟩
  · rw [he] at hpc honly hno
    exact start_only hs hpc honly hno
  · rw [he] at hpc honly hno
    exact stop_only hs hpc honly hno

/-- Outside these points an entity is live exactly when it has a process. -/
theorem settled_and_only {pc : Pc} (htok : pc.hasToken = true) (hpc : pc.Live w n)
    (honly : w.Only n (pc.child w n)) (hout : pc.between = false) :
    w.Settled n ∧ w.Only n (w.live.find n) := by
  have hnone : w.live.find n = none → w.Only n none → w.Settled n ∧ w.Only n (w.live.find n) :=
    fun h ho => ⟨.of_none h, ho.of_none⟩
  have hruns : ∀ {pid}, w.Runs n pid → w.Only n (some pid) →
      w.Settled n ∧ w.Only n (w.live.find n) := fun h ho => ⟨h.settled, h.only ho⟩
  cases pc with
  | enqueue => cases htok
  | waiting => cases htok
  | start pc =>
    cases pc with
    | check => exact ⟨hpc, honly⟩
    | socketpair => exact hnone hpc honly
    | fork => exact hnone hpc honly
    | busNew pid => cases hout
    | _ => exact hruns hpc honly
  | stop pc =>
    cases pc with
    | find => exact ⟨hpc, honly⟩
    | shutdown pid => exact hruns hpc honly
    | waitpid pid => exact hruns hpc honly
    | erase => cases hout
    | _ => exact hnone hpc honly

namespace Daemon

open Machine

variable {parse : String → Option Json} {d : Daemon} {c : Config}

/-- **Which entities are live**, in every run. -/
theorem reaches_live (h : (machine parse).Reaches Always (start c) d) : Guard.live.Kept d := by
  refine reaches_kept live_lawful (fun n => World.Settled.of_none rfl) ?_ h
  intro d i id o stack chain w control _ hkept _ _ hchain htok ht
  exact turn_live ht htok (hkept.frame id chain hchain htok)

/-- `sd_bus_new` and `waitpid` succeed. -/
def Keeps (d : Daemon) (i : Input) : Prop := ¬ d.TurnAt i Pc.Abandons

theorem reaches_only (h : (machine parse).Reaches Keeps (start c) d) : Guard.only.Kept d := by
  refine reaches_kept only_lawful (fun n k p hk => nomatch hk) ?_ h
  intro d i id o stack chain w control hd hkept hi hturns hchain htok ht
  have hlive := (reaches_live (hd.mono fun _ _ _ => trivial)).frame id chain hchain htok
  refine ⟨(turn_live ht htok hlive).1, ?_⟩
  apply turn_only ht htok hlive (hkept.frame id chain hchain htok)
  intro hbad
  exact hi ⟨id, o, stack, chain, hturns, hchain, hbad⟩

/-- There is one process at most that an entity can have. -/
theorem exists_only (honly : Guard.only.Kept d) (n : String) : ∃ l, d.world.Only n l := by
  rcases token_cases d n with ⟨id, chain, hchain, htok, rfl⟩ | ⟨id, chain, e, hchain, he, rfl⟩ | hno
  · exact ⟨_, honly.frame id chain hchain htok⟩
  · exact ⟨_, honly.caller id chain hchain e he⟩
  · exact ⟨_, honly.free n hno⟩

/-- An entity that no coroutine has half forked or half reaped. -/
theorem settled_and_only_of_kept (hlive : Guard.live.Kept d) (honly : Guard.only.Kept d) {n : String}
    (hout : ∀ id chain, d.chains.find id = some chain → chain.frame.entity.name = n →
      chain.frame.pc.between = false) :
    d.world.Settled n ∧ d.world.Only n (d.world.live.find n) := by
  rcases token_cases d n with ⟨id, chain, hchain, htok, rfl⟩ | ⟨id, chain, e, hchain, he, rfl⟩ | hno
  · exact settled_and_only htok (hlive.frame id chain hchain htok)
      (honly.frame id chain hchain htok) (hout id chain hchain rfl)
  · exact ⟨.of_none (hlive.caller id chain hchain e he),
      (honly.caller id chain hchain e he).of_none⟩
  · exact ⟨hlive.free n hno, honly.free n hno⟩

/-- **At most one process.**  An entity has no more than one process that is not
reaped, one is forked only for an entity that is not live, and outside the code
between `fork` and `emplace` and between `waitpid` and `erase` an entity has a
process exactly when it is live. -/
theorem one_process (h : (machine parse).Reaches Keeps (start c) d) :
    (∀ n pid pid', d.world.Owns n pid → d.world.Owns n pid' → pid = pid') ∧
    (∀ i id o stack chain d', Turns d i id o stack → d.chains.find id = some chain →
      chain.frame.pc = .start .fork → (machine parse).step d i = some d' →
      d.world.live.find chain.frame.entity.name = none) ∧
    ∀ n, (∀ id chain, d.chains.find id = some chain → chain.frame.entity.name = n →
      chain.frame.pc.between = false) →
      ((∃ pid, d.world.Owns n pid) ↔ (d.world.live.find n).isSome = true) := by
  have hlive := reaches_live (h.mono fun _ _ _ => trivial)
  have honly := reaches_only h
  refine ⟨?_, ?_, ?_⟩
  · intro n pid pid' hpid hpid'
    obtain ⟨l, hl⟩ := exists_only honly n
    obtain ⟨p, hp, hn⟩ := hpid
    obtain ⟨p', hp', hn'⟩ := hpid'
    exact Option.some.inj ((hl pid p hp hn).symm.trans (hl pid' p' hp' hn'))
  · intro i id o stack chain d' _ hchain hpc _
    have hfork := hlive.frame id chain hchain (by rw [hpc]; rfl)
    rw [hpc] at hfork
    exact hfork
  · intro n hout
    obtain ⟨hsettled, hn⟩ := settled_and_only_of_kept hlive honly hout
    constructor
    · rintro ⟨pid, p, hp, hpn⟩
      rw [hn pid p hp hpn]
      rfl
    · intro hsome
      obtain ⟨pid, hpid⟩ := Option.isSome_iff_exists.mp hsome
      exact ⟨pid, hsettled pid hpid⟩

/-- A turn whose outcome is no failure abandons nothing. -/
theorem keeps_of_outcome {i : Input} (hi : i.outcome.fails = false) : Keeps d i := by
  rintro ⟨id, o, stack, chain, hturns, -, hfails, -⟩
  rw [← hturns.outcome, hi] at hfails
  cases hfails

theorem one_process_launch :
    ∃ d, loadAndRun (fun _ => none) switchFile (.request .start (.ok "a") :: launch 1) = some d ∧
      d.world.live.find "a" = some 1 ∧ ∃ pid, d.world.Owns "a" pid := by
  have hrun : (loadAndRun (fun _ => none) switchFile
      (.request .start (.ok "a") :: launch 1)).any (fun d =>
        d.world.live.find "a" = some 1 ∧ d.chains.keys = [0] ∧ (d.chains.find 0).all fun chain =>
          !chain.frame.pc.between) = true := by decide +kernel
  obtain ⟨d, hd, hlast⟩ := (Option.any_eq_true ..).mp hrun
  obtain ⟨hlive, hkeys, hat⟩ := of_decide_eq_true hlast
  obtain ⟨c, -, hinputs⟩ := loadAndRun_eq_some_iff.mp hd
  have hkeeps : ∀ i ∈ (.request .start (.ok "a") :: launch 1 : List Input),
      i.outcome.fails = false := by decide
  have hout : ∀ id chain, d.chains.find id = some chain → chain.frame.entity.name = "a" →
      chain.frame.pc.between = false := by
    intro id chain hchain _
    have hid : id = 0 := by
      have hmem := OrdMap.mem_keys_iff.mpr ⟨chain, hchain⟩
      rw [hkeys] at hmem
      exact List.mem_singleton.mp hmem
    rw [← hid, hchain] at hat
    simpa using hat
  refine ⟨d, hd, hlive, ((one_process (reaches_of_run_of_forall hinputs
    fun i hi s => keeps_of_outcome (hkeeps i hi))).2.2 "a" hout).mpr ?_⟩
  rw [hlive]
  rfl

end Daemon

end Nonsense
