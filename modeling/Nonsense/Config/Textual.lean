import Nonsense.Config.Escapes
import Nonsense.Text.Accepted

/-!
# Configurations that a text can say

A file is read with `json::parse`, and so are the values of parameters.  Validation puts in
names, numbers of roles and nulls, and `add` builds objects around the values: what comes of
it a text can say (`load_textual`, `add_textual`).
-/

namespace Nonsense

open EState

/-- `json::parse` of a string. -/
def parseString (F : Floats) (s : String) : Option Json := parseText F (Utf8.bytes s)

namespace Config

variable {F : Floats} {tree tree' : Object} {name : String} {c c' : Config}
  {ps : List ParameterValue} {r : ConfigResult} {v t : Json}

theorem textual_members (h : t.Textual F) : (Json.object (Nested.members t)).Textual F := by
  cases t with
  | object m => exact h
  | _ => exact Json.textual_empty

theorem textual_put {path : List String} (ht : t.Textual F) (hv : v.Textual F) :
    (Nested.put v path t).Textual F := by
  induction path generalizing t with
  | nil => exact hv
  | cons k path ih =>
    rw [Nested.put_cons]
    refine (textual_members ht).insert (ih ?_)
    cases hk : (Nested.members t).find k with
    | none => exact Json.textual_empty
    | some t' => exact (textual_members ht).find hk

/-- The value of a parameter, JSON or not. -/
theorem textual_parameterValue (text : String) :
    (parameterValue (parseString F) text).Textual F := by
  rw [parameterValue]
  cases htext : parseString F text with
  | none => exact .string text
  | some j => exact textual_of_parseText htext

theorem textual_assembled (ps : List ParameterValue) :
    (assembled (parseString F) ps).Textual F := by
  rw [assembled]
  generalize hempty : Json.object [] = t
  have ht : t.Textual F := hempty ▸ Json.textual_empty
  clear hempty
  induction ps generalizing t with
  | nil => exact ht
  | cons p ps ih => exact ih _ (textual_put ht (textual_parameterValue p.value))

/-! ### Validation -/

theorem textual_setComponent {type : String} (h : (Json.object tree).Textual F)
    (hv : v.Textual F) : (Json.object (setComponent tree name type v)).Textual F := by
  rw [setComponent]
  split
  · next e he => exact h.insert ((h.find he).insert hv)
  · exact h

theorem textual_component (h : (Json.object tree).Textual F) (name type : String) :
    (component tree name type).Textual F := by
  rw [component]
  cases he : tree.find name with
  | none => exact .null
  | some e =>
    cases hj : e.find type with
    | none =>
      rw [Option.bind_some, hj]
      exact .null
    | some j =>
      obtain ⟨m, rfl, hm⟩ := Json.eq_object_of_find hj
      rw [Option.bind_some, hj]
      exact (h.find he).find hm

theorem textual_subscript {type key : String} (h : (Json.object tree).Textual F)
    (hrun : subscript name type key tree = .ok v tree') : (Json.object tree').Textual F := by
  rw [subscript_apply] at hrun
  cases hfind : (component tree name type).find key with
  | some w =>
    rw [hfind] at hrun
    cases hrun
    exact h
  | none =>
    rw [hfind] at hrun
    cases hassign : (component tree name type).assign key .null with
    | error f =>
      rw [hassign] at hrun
      cases hrun
    | ok j =>
      rw [hassign] at hrun
      cases hrun
      exact textual_setComponent h ((textual_component h name type).assign .null hassign)

theorem textual_validateParameter {key : String} (h : (Json.object tree).Textual F)
    (hrun : validateParameter name key tree = .ok () tree') : (Json.object tree').Textual F := by
  cases validateParameter_cases hrun with
  | colon _ | role | external => exact h
  | default hrun =>
    rcases validateDefault_cases hrun with ⟨-, rfl⟩ | ⟨-, rfl⟩
    · exact h.insert (.string name)
    · exact h
  | address hrun =>
    obtain ⟨role, hrole, -⟩ := validateAddress_cases hrun
    exact textual_subscript h hrole
  | uplink hrun =>
    obtain ⟨u, tree₁, m, role, huplink, -, hrole, -⟩ := validateUplink_cases hrun
    exact textual_subscript (textual_subscript h huplink) hrole

theorem textual_validateParameters {keys : List String} (h : (Json.object tree).Textual F)
    (hrun : validateParameters name keys tree = .ok () tree') : (Json.object tree').Textual F := by
  induction keys generalizing tree with
  | nil =>
    cases hrun
    exact h
  | cons key keys ih =>
    obtain ⟨_, tree₁, hkey, hrest⟩ := bind_eq_ok_iff.mp hrun
    exact ih (textual_validateParameter h hkey) hrest

theorem textual_toInt (r : NetworkRole) : (Json.integer r.toInt).Textual F := by
  cases r
  all_goals
    exact .integer (by decide) (by decide)

theorem textual_validateNetwork (h : (Json.object tree).Textual F)
    (hrun : validateNetwork name tree = .ok () tree') : (Json.object tree').Textual F := by
  obtain ⟨m, role, r, hm, -, -, hparameters⟩ := validateNetwork_loop hrun
  obtain ⟨e, he, hem⟩ := network_eq_some_iff.mp hm
  have hnetwork : (Json.object m).Textual F := (h.find he).find hem
  exact textual_validateParameters
    (textual_setComponent h (hnetwork.insert (textual_toInt r))) hparameters

theorem textual_validateComponents {types : List String} (h : (Json.object tree).Textual F)
    (hrun : validateComponents name types tree = .ok () tree') : (Json.object tree').Textual F := by
  induction types generalizing tree with
  | nil =>
    cases hrun
    exact h
  | cons type types ih =>
    obtain ⟨-, tree₁, hnetwork, hrest⟩ := validateComponents_cons_cases hrun
    exact ih (textual_validateNetwork h hnetwork) hrest

theorem textual_validateEntity (h : (Json.object tree).Textual F)
    (hrun : validateEntity name tree = .ok () tree') : (Json.object tree').Textual F := by
  rw [validateEntity, get_bind_apply] at hrun
  exact textual_validateComponents h hrun

theorem textual_validateEntries {keys : List String} (h : (Json.object tree).Textual F)
    (hrun : validateEntries keys tree = .ok () tree') : (Json.object tree').Textual F := by
  induction keys generalizing tree with
  | nil =>
    cases hrun
    exact h
  | cons key keys ih =>
    rcases validateEntries_cons_cases hrun with ⟨-, hrest⟩ | ⟨tree₁, -, hentity, hrest⟩
    · exact ih h hrest
    · exact ih (textual_validateEntity h hentity) hrest

/-- **What is loaded from a text can be said.** -/
theorem load_textual {file : Json} (hfile : file.Textual F) (h : load file = .ok c) :
    (Json.object c.configuration).Textual F := by
  obtain ⟨tree, rfl, -, hrun⟩ := load_eq_ok h
  exact textual_validateEntries hfile hrun

/-- **What an addition leaves can be said.** -/
theorem add_textual (hc : (Json.object c.configuration).Textual F)
    (h : add (parseString F) c name ps = .returned r c') (hr : r.errorCode = 0) :
    (Json.object c'.configuration).Textual F := by
  obtain ⟨-, -, entity, tree', hbuild, hval, rfl⟩ := add_eq_zero h hr
  obtain ⟨-, rfl⟩ := buildEntity_eq_done_iff.mp hbuild
  exact textual_validateEntity (hc.insert (textual_assembled ps)) hval

end Config

end Nonsense
