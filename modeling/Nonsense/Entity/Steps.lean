import Nonsense.Entity.Basic

/-!
# What one turn of a coroutine can do

`start_step` and `stop_step` take a turn of `entity::start` and `entity::stop`
apart, with what is known of the world before it.  The calls between `emplace`
and the first component leave the world as it is, so that one case stands for
all of them.
-/

namespace Nonsense

namespace World

variable {w : World} {n m : String} {q : Queue Nat}

@[simp] theorem setQueue_self : (w.setQueue n q).queues n = q := Function.update_self ..

theorem setQueue_ne (h : m ≠ n) : (w.setQueue n q).queues m = w.queues m :=
  Function.update_of_ne h ..

@[simp] theorem setQueue_manager : (w.setQueue n q).manager = w.manager := rfl

@[simp] theorem setQueue_live : (w.setQueue n q).live = w.live := rfl

@[simp] theorem setQueue_processes : (w.setQueue n q).processes = w.processes := rfl

variable {pid k : Nat} {f : Process → Process}

theorem find_fork : (w.fork pid n).processes.find k =
    if k = pid then some ⟨n, [], [], false⟩ else w.processes.find k := OrdMap.find_insert ..

@[simp] theorem emplace_processes : (w.emplace n pid).processes = w.processes := by
  unfold emplace
  split <;> rfl

theorem find_emplace (h : w.live.find n = none) :
    (w.emplace n pid).live.find m = if m = n then some pid else w.live.find m := by
  unfold emplace
  rw [h]
  exact OrdMap.find_insert ..

@[simp] theorem update_live : (w.update pid f).live = w.live := by
  unfold update
  split <;> rfl

theorem find_update : (w.update pid f).processes.find k =
    if k = pid then (w.processes.find pid).map f else w.processes.find k := by
  unfold update
  cases hp : w.processes.find pid with
  | none =>
    split_ifs with hk
    · rw [hk, hp]
      rfl
    · rfl
  | some p => exact OrdMap.find_insert ..

theorem find_reap : (w.reap pid).processes.find k =
    if k = pid then none else w.processes.find k := OrdMap.find_erase ..

theorem find_forget : (w.forget n).live.find m = if m = n then none else w.live.find m :=
  OrdMap.find_erase ..

end World

namespace Entity

/-- The coroutine is between `emplace` and the components. -/
def SettingUp (pid : Nat) : StartPc → Prop
  | .setup p _ | .startUnit p _ | .unitReply p _ | .unitJob p _ => p = pid
  | _ => False

/-- A turn of `start`. -/
inductive StartStep (w : World) (e : Entity) : StartPc → Outcome → World → Control → Prop
  | live : (w.live.find e.name).isSome → StartStep w e .check .ok w .done
  | noUplink : w.live.find e.name = none → e.uplink = none →
      StartStep w e .check .ok w (.goto (.start .socketpair))
  | uplink {name : String} {child : Entity} : w.live.find e.name = none →
      e.uplink = some (.string name) → w.tryGet name = some child →
      StartStep w e .check .ok w (.call child)
  | socketpair : StartStep w e .socketpair .ok w (.goto (.start .fork))
  | noSocketpair {code : { n : Int // 0 < n }} :
      StartStep w e .socketpair (.errno code) w (.fail [])
  | fork {pid : Nat} : w.processes.find pid = none →
      StartStep w e .fork (.forked pid) (w.fork pid e.name) (.goto (.start (.busNew pid)))
  | noFork {code : { n : Int // 0 < n }} : StartStep w e .fork (.errno code) w (.fail [])
  | emplace {pid : Nat} :
      StartStep w e (.busNew pid) .ok (w.emplace e.name pid) (.goto (.start (.setup pid .setFd)))
  | noBus {pid : Nat} {code : Failure} {error : Option BusError} :
      StartStep w e (.busNew pid) (.failed code error) w (.fail [.methodErrno code none])
  | goto {pid : Nat} {pc pc' : StartPc} {o : Outcome} : SettingUp pid pc → SettingUp pid pc' →
      o.fails = false → StartStep w e pc o w (.goto (.start pc'))
  | suspend {pid : Nat} {pc pc' : StartPc} : SettingUp pid pc → SettingUp pid pc' →
      StartStep w e pc .ok w (.suspend (.start pc'))
  | notSetUp {pid : Nat} {pc : StartPc} {o : Outcome} {reply : Reply} : SettingUp pid pc →
      o.fails = true → reply.isError = true → StartStep w e pc o w (.fail [reply])
  | components {pid : Nat} : StartStep w e (.unitJob pid .scope) (.result "done") w
      (.goto (.start (.components pid e.self.items)))
  | send {pid : Nat} {type : String} {component json : Json} {rest : List (String × Json)} :
      sent w.manager.running.configuration type component = .ok json →
      StartStep w e (.components pid ((type, component) :: rest)) .ok
        (w.update pid fun p => { p with received := p.received ++ [(type, json)] })
        (.suspend (.start (.added pid type rest)))
  | acknowledged {pid : Nat} {type : String} {rest : List (String × Json)} :
      StartStep w e (.added pid type rest) (.value true)
        (w.update pid fun p => { p with acknowledged := p.acknowledged ++ [type] })
        (.goto (.start (.components pid rest)))
  | notAdded {pid : Nat} {type : String} {rest : List (String × Json)} {code : Failure}
      {error : Option BusError} : StartStep w e (.added pid type rest) (.failed code error) w
        (.fail [.methodErrno code error])
  | finish {pid : Nat} : StartStep w e (.components pid []) .ok w .done

/-- A turn of `stop`. -/
inductive StopStep (w : World) (e : Entity) : StopPc → Outcome → World → Control → Prop
  | notStarted : w.live.find e.name = none →
      StopStep w e .find .ok w (.fail [.methodError (entityNotStarted e.name)])
  | shutdown {pid : Nat} : w.live.find e.name = some pid →
      StopStep w e .find .ok (w.update pid fun p => { p with shutdown := true })
        (.suspend (.stop (.shutdown pid)))
  | notShutdown {pid : Nat} {code : Failure} {error : Option BusError} :
      StopStep w e (.shutdown pid) (.failed code error) w (.fail [.methodErrno code error])
  | acknowledged {pid : Nat} :
      StopStep w e (.shutdown pid) .ok w (.goto (.stop (.waitpid pid)))
  | reap {pid : Nat} : StopStep w e (.waitpid pid) .ok (w.reap pid) (.goto (.stop .erase))
  | notReaped {pid : Nat} {code : { n : Int // 0 < n }} :
      StopStep w e (.waitpid pid) (.errno code) w (.goto (.stop .erase))
  | erase : StopStep w e .erase .ok (w.forget e.name) (.goto (.stop .stopUnit))
  | stopUnit : StopStep w e .stopUnit .ok w (.suspend (.stop .stopReply))
  | stopReply : StopStep w e .stopReply .ok w (.suspend (.stop .stopJob))
  | notStopped {pc : StopPc} {o : Outcome} {reply : Reply} : pc = .stopReply ∨ pc = .stopJob →
      o.fails = true → reply.isError = true → StopStep w e pc o w (.fail [reply])
  | finish : StopStep w e .stopJob (.result "done") w .done

variable {w w' : World} {e : Entity} {o : Outcome} {control : Control}

theorem settingUp_afterSetup {pid : Nat} {call : Setup} :
    SettingUp pid (afterSetup pid call) := by
  cases call <;> rfl

theorem replyStatus_errno {code : { n : Int // 0 < n }} : replyStatus code none = [] :=
  replyStatus_of_nonneg (le_of_lt code.2)

theorem replyStatus_failure {code : Failure} {error : Option BusError} :
    replyStatus code error = [.methodErrno code error] := replyStatus_of_neg code.2

theorem settingUp_cases {P : StartPc → Prop} {pid : Nat} {pc : StartPc} (h : SettingUp pid pc)
    (setup : ∀ call, P (.setup pid call)) (startUnit : ∀ unit, P (.startUnit pid unit))
    (unitReply : ∀ unit, P (.unitReply pid unit)) (unitJob : ∀ unit, P (.unitJob pid unit)) :
    P pc := by
  unfold SettingUp at h
  split at h
  · subst h; exact setup _
  · subst h; exact startUnit _
  · subst h; exact unitReply _
  · subst h; exact unitJob _
  · exact h.elim

/-- **What a turn of `start` does.** -/
theorem start_step {pc : StartPc} (h : start w e pc o = some (w', control)) :
    StartStep w e pc o w' control := by
  unfold start at h
  split at h
  · -- the check
    split at h
    · rename_i hlive
      cases h
      exact .live hlive
    · rename_i hlive
      have hnone : w.live.find e.name = none := by simpa using hlive
      split at h
      · rename_i hup
        cases h
        exact .noUplink hnone hup
      · rename_i name hup
        obtain ⟨child, hchild, he⟩ := Option.map_eq_some_iff.mp h
        cases he
        exact .uplink hnone hup hchild
      · cases h
  · cases h; exact .socketpair
  · cases h; rw [replyStatus_errno]; exact .noSocketpair
  · -- the fork
    split at h
    · cases h
    · rename_i hpid
      cases h
      exact .fork (by simpa using hpid)
  · cases h; rw [replyStatus_errno]; exact .noFork
  · cases h; exact .emplace
  · cases h; rw [replyStatus_failure]; exact .noBus
  · cases h; exact .goto rfl settingUp_afterSetup rfl
  · cases h; exact .goto rfl rfl rfl
  · cases h
  · cases h; rw [replyStatus_failure]; exact .notSetUp rfl rfl rfl
  · cases h; exact .suspend rfl rfl
  · cases h; exact .suspend rfl rfl
  · cases h; rw [replyStatus_failure]; exact .notSetUp rfl rfl rfl
  · -- a unit's job
    rename_i pid unit text
    split at h
    · rename_i htext
      cases h
      subst htext
      cases unit with
      | slice => exact .goto rfl rfl (by decide)
      | scope => exact .components
    · rename_i htext
      cases h
      exact .notSetUp rfl (by simpa [Outcome.fails] using htext) rfl
  · cases h; rw [replyStatus_failure]; exact .notSetUp rfl rfl rfl
  · cases h; exact .finish
  · -- a component is sent
    split at h
    · cases h
    · rename_i json hjson
      cases h
      exact .send hjson
  · cases h; exact .acknowledged
  · cases h; rw [replyStatus_failure]; exact .notAdded
  · cases h

/-- **What a turn of `stop` does.** -/
theorem stop_step {pc : StopPc} (h : stop w e pc o = some (w', control)) :
    StopStep w e pc o w' control := by
  unfold stop at h
  split at h
  · -- the lookup
    split at h
    · rename_i hlive
      cases h
      exact .notStarted hlive
    · rename_i pid hlive
      cases h
      exact .shutdown hlive
  · cases h; exact .acknowledged
  · cases h; rw [replyStatus_failure]; exact .notShutdown
  · cases h; exact .reap
  · cases h; exact .notReaped
  · cases h; exact .erase
  · cases h; exact .stopUnit
  · cases h; exact .stopReply
  · cases h; rw [replyStatus_failure]; exact .notStopped (Or.inl rfl) rfl rfl
  · -- the unit's job
    rename_i text
    split at h
    · rename_i htext
      cases h
      subst htext
      exact .finish
    · rename_i htext
      cases h
      exact .notStopped (Or.inr rfl) (by simpa [Outcome.fails] using htext) rfl
  · cases h; rw [replyStatus_failure]; exact .notStopped (Or.inr rfl) rfl rfl
  · cases h

end Entity

end Nonsense
