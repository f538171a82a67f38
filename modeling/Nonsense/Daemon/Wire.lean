import Nonsense.Config.Textual
import Nonsense.Daemon.Conversation

/-!
# What is sent arrives

`entity::start` sends a component as `component.dump().c_str()`, an argument of type `s`, and
`AddComponent` reads it with `json::parse`.  The running configuration is one that a text can
say, in every reachable state (`reaches_textual`), and so is what `deep_uplink_info` makes of
it.  So whatever has been started, stopped, committed or gone wrong, `dump` has thrown for none
of the components, no text ended early or was refused by the bus, and each was read as the
component it was made of (`reaches_arrives`), if no commit succeeded while a start was under
way: what is read then is left open.
-/

namespace Nonsense

open Serializer (dump)

namespace Entity

variable {F : Floats} {tree : Object} {self component j : Json} {type : String}

theorem textual_items (h : self.Textual F) (hx : (type, component) ∈ self.items) :
    component.Textual F := by
  cases self with
  | null => cases hx
  | object m => exact h.mem hx
  | array l =>
    cases h with
    | array hl => exact hl component (List.of_mem_zip hx).2
  | _ =>
    cases List.mem_singleton.mp hx
    exact h

theorem textual_subscript {key : String} (h : self.Textual F) (hrun : self.subscript key = .ok j) :
    j.Textual F := by
  cases self with
  | null =>
    cases hrun
    exact .null
  | object m =>
    cases hrun
    cases hkey : OrdMap.find m key with
    | none => exact .null
    | some v => exact h.find hkey
  | _ => cases hrun

/-- **What is nested can be said.** -/
theorem textual_deepUplinkInfo (h : (Json.object tree).Textual F) {fuel : ℕ}
    (hcomponent : component.Textual F) (hrun : deepUplinkInfo tree fuel component = .ok j) :
    j.Textual F := by
  induction fuel generalizing component j with
  | zero => cases hrun
  | succ fuel ih =>
    rw [deepUplinkInfo] at hrun
    split at hrun
    · cases hrun
      exact hcomponent
    · next name hname =>
      obtain ⟨m, rfl, hm⟩ := Json.eq_object_of_find hname
      obtain ⟨u, hu, hrun⟩ := EState.except_bind_eq_ok_iff.mp hrun
      split at hrun
      · cases hrun
      · next entity hentity =>
        obtain ⟨network, hnetwork, hrun⟩ := EState.except_bind_eq_ok_iff.mp hrun
        split at hrun
        · cases hrun
        · obtain ⟨uplink, huplink, hrun⟩ := EState.except_bind_eq_ok_iff.mp hrun
          obtain ⟨named, hnamed, hrun⟩ := EState.except_bind_eq_ok_iff.mp hrun
          have htextual : uplink.Textual F := ih (textual_subscript (h.find hentity) hnetwork) huplink
          exact (hcomponent.assign (hcomponent.find hm) hnamed).assign htextual hrun

theorem textual_sent (h : (Json.object tree).Textual F) (hcomponent : component.Textual F)
    (hrun : sent tree type component = .ok j) : j.Textual F := by
  rw [sent] at hrun
  split_ifs at hrun
  · exact textual_deepUplinkInfo h hcomponent hrun
  · cases hrun
    exact hcomponent

end Entity

namespace Daemon

open Machine

variable {F : Floats} {file : Object} {c : Config} {d : Daemon} {pid : ℕ} {p : Process}
  {x : String × Json}

theorem reaches_textual (hfile : (Json.object file).Textual F)
    (hload : Config.load (.object file) = .ok c)
    (h : (machine (parseString F)).Reaches Always (start c) d) :
    (Json.object d.running).Textual F :=
  reaches_keeps (I := fun tree => (Json.object tree).Textual F) Config.add_textual
    (Config.load_textual hfile hload) h

/-- **Every component arrives as it was**, after any run of the daemon on a file in which
no commit succeeds while a start is under way. -/
theorem reaches_arrives {text : Bytes} (hF : F.Lawful)
    (hfile : parseText F text = some (.object file)) (hload : Config.load (.object file) = .ok c)
    (h : (machine (parseString F)).Reaches (fun d i => ¬ Replaces (parseString F) d i) (start c) d)
    (hp : d.world.processes.find pid = some p) (hx : x ∈ p.received) :
    ∃ sent, dump F x.2 = .ok sent ∧ IsBusString sent ∧ parseText F sent = some x.2 := by
  have hfileTextual : (Json.object file).Textual F := textual_of_parseText hfile
  have hordered : Config.EntriesOrdered file := fun k e he => (hfileTextual.find he).ordered
  have hd : (machine (parseString F)).Reaches Always (start c) d := h.mono fun _ _ _ => trivial
  have htree : (Json.object d.running).Textual F := reaches_textual hfileTextual hload hd
  obtain ⟨self, component, hself, hmem, hsent⟩ := reaches_says hload hordered hd hp hx
  have hcomponent : component.Textual F := Entity.textual_items (htree.find hself) hmem
  obtain ⟨sent, ts, hwritten⟩ := exists_written hF (Entity.textual_sent htree hcomponent hsent)
  exact ⟨sent, hwritten.dumps, hwritten.busString, hwritten.parse⟩

theorem textual_switchFile (F : Floats) : switchFile.Textual F := by
  have hversion : (Json.object [("version", .integer 1)]).Textual F :=
    Json.textual_empty.insert (k := "version") (.integer (by decide) (by decide))
  have hentity : (Json.object [("network", .object [("role", .string "switch")])]).Textual F :=
    Json.textual_empty.insert (k := "network")
      (Json.textual_empty.insert (k := "role") (.string "switch"))
  exact (Json.textual_empty.insert (k := "!metadata") hversion).insert (k := "a") hentity

theorem reaches_arrives_tellB : ∃ text d p x,
    parseText threeHalves text = some switchFile ∧
      loadAndCheck (parseString threeHalves) calm switchFile tellB = some d ∧
      d.world.manager.generation = 1 ∧ d.world.processes.find 1 = some p ∧ p.name = "b" ∧
      p.received = [x] ∧
      ∃ sent, dump threeHalves x.2 = .ok sent ∧ IsBusString sent ∧
        parseText threeHalves sent = some x.2 := by
  have hrun : (loadAndCheck (parseString threeHalves) calm switchFile tellB).any (fun d =>
      d.world.manager.generation = 1 ∧ (d.world.processes.find 1).any fun p =>
        p.name = "b" ∧ p.received.length = 1) = true := by decide +kernel
  obtain ⟨d, hd, hlast⟩ := (Option.any_eq_true ..).mp hrun
  obtain ⟨hgen, hprocess⟩ := of_decide_eq_true hlast
  obtain ⟨p, hp, hlast⟩ := (Option.any_eq_true ..).mp hprocess
  obtain ⟨hname, hlength⟩ := of_decide_eq_true hlast
  obtain ⟨x, hx⟩ := List.length_eq_one_iff.mp hlength
  obtain ⟨text, ts, hwritten⟩ :=
    exists_written lawful_threeHalves (textual_switchFile threeHalves)
  obtain ⟨c, hload, hinputs⟩ := loadAndCheck_eq_some_iff.mp hd
  have hreaches := (reaches_of_runChecked hinputs).mono fun _ _ =>
    not_replaces_of_calm (parseString threeHalves)
  exact ⟨text, d, p, x, hwritten.parse, hd, hgen, hp, hname, hx,
    reaches_arrives lawful_threeHalves hwritten.parse hload hreaches hp
      (hx ▸ List.mem_cons_self)⟩

end Daemon

end Nonsense
