import Nonsense.Lib.OrdMap
import Mathlib.Data.Rat.Init

/-!
# JSON values

The part of `nlohmann::json` that the daemon uses.  An object is a
`std::map` from strings, so its members are an `OrdMap`; a number is kept as the
integer or the finite float it holds, which has a sign even where it is zero.

Accessors that throw return `Except Fault`; the texts are those of the library's
`type_error`s.  The non-constant `operator[]` turns a null into an empty object
and puts a null under a missing key: where the key is there it is `find`, and
where it is not it is `assign` of a null.
-/

namespace Nonsense

/-- What ends a computation early: an exception with its `what()`, or a failed
assertion (or `std::terminate`), which ends the process. -/
inductive Fault
  | exception (what : String)
  | assertion (text : String)
  deriving DecidableEq, Repr

/-- A finite number of type `double`. -/
structure Double where
  /-- `std::signbit` -/
  negative : Bool
  magnitude : ℚ≥0

def Double.value (x : Double) : ℚ := if x.negative then -x.magnitude else x.magnitude

/-- A JSON value. -/
inductive Json
  | null
  | boolean (b : Bool)
  | integer (n : Int)
  | float (x : Double)
  | string (s : String)
  | array (elements : List Json)
  | object (members : List (String × Json))

/-- The members of a JSON object. -/
abbrev Object := OrdMap String Json

namespace Json

def typeName : Json → String
  | null => "null"
  | boolean _ => "boolean"
  | integer _ => "number"
  | float _ => "number"
  | string _ => "string"
  | array _ => "array"
  | object _ => "object"

def isNull : Json → Bool
  | null => true
  | _ => false

def isBoolean : Json → Bool
  | boolean _ => true
  | _ => false

/-- `find`: only an object has members. -/
def find : Json → String → Option Json
  | object m, key => OrdMap.find m key
  | _, _ => none

/-- `operator==` with a string. -/
def eqString : Json → String → Bool
  | string s, t => s = t
  | _, _ => false

/-- `operator==` with a boolean. -/
def eqBoolean : Json → Bool → Bool
  | boolean b, c => b = c
  | _, _ => false

/-- `operator==` with an integer; a float with the same value is equal to it. -/
def eqInteger : Json → Int → Bool
  | integer n, k => n = k
  | float x, k => x.value = k
  | _, _ => false

/-- `get_ref<std::string &>()`. -/
def getRefString : Json → Except Fault String
  | string s => .ok s
  | j => .error (.exception ("[json.exception.type_error.303] "
      ++ "incompatible ReferenceType for get_ref, actual type is " ++ j.typeName))

/-- The conversion to `std::string`. -/
def toStdString : Json → Except Fault String
  | string s => .ok s
  | j => .error (.exception ("[json.exception.type_error.302] "
      ++ "type must be string, but is " ++ j.typeName))

/-- The container after `operator[](key) = v`. -/
def assign (j : Json) (key : String) (v : Json) : Except Fault Json :=
  match j with
  | null => .ok (object [(key, v)])
  | object m => .ok (object (OrdMap.insert m key v))
  | j => .error (.exception ("[json.exception.type_error.305] "
      ++ "cannot use operator[] with a string argument with " ++ j.typeName))

/-- What the non-constant `operator[](key)` refers to.  A null becomes an object
and a missing key a null. -/
def subscript (j : Json) (key : String) : Except Fault Json :=
  match j with
  | null => .ok null
  | object m => .ok ((OrdMap.find m key).getD null)
  | j => .error (.exception ("[json.exception.type_error.305] "
      ++ "cannot use operator[] with a string argument with " ++ j.typeName))

/-- The keys `items()` iterates over: an array counts its elements, and any
other value but null is one element with an empty key. -/
def itemKeys : Json → List String
  | null => []
  | object m => OrdMap.keys m
  | array l => (List.range l.length).map toString
  | _ => [""]

/-- The keys and the values of `items()`. -/
def items : Json → List (String × Json)
  | null => []
  | object m => m
  | array l => ((List.range l.length).map toString).zip l
  | j => [("", j)]

@[simp] theorem find_object (m : Object) (key : String) : (object m).find key = m.find key := rfl

theorem eq_object_of_find {j : Json} {key : String} {v : Json} (h : j.find key = some v) :
    ∃ m : Object, j = object m ∧ m.find key = some v := by
  cases j with
  | object m => exact ⟨m, rfl, h⟩
  | _ => simp [find] at h

/-- What is under a key is smaller than the object. -/
theorem sizeOf_find_lt {j v : Json} {key : String} (h : j.find key = some v) :
    sizeOf v < sizeOf j := by
  obtain ⟨m, rfl, hm⟩ := eq_object_of_find h
  rw [object.sizeOf_spec]
  clear h
  induction m with
  | nil => cases hm
  | cons e m ih =>
    rw [OrdMap.find_cons] at hm
    rw [List.cons.sizeOf_spec]
    split_ifs at hm
    · cases hm
      have he : sizeOf e = 1 + sizeOf e.1 + sizeOf e.2 := by cases e; rfl
      omega
    · have hlt := ih hm
      omega

theorem getRefString_eq_ok {j : Json} {s : String} (h : j.getRefString = .ok s) :
    j = string s := by
  cases j <;> simp [getRefString] at h
  rw [h]

theorem eqString_iff {j : Json} {s : String} : j.eqString s = true ↔ j = string s := by
  cases j <;> simp [eqString]

theorem map_fst_items (j : Json) : j.items.map Prod.fst = j.itemKeys := by
  cases j with
  | array l => exact List.map_fst_zip (by simp)
  | _ => rfl

theorem mem_itemKeys_object {m : Object} {key : String} :
    key ∈ (object m).itemKeys ↔ ∃ v, m.find key = some v := OrdMap.mem_keys_iff

end Json

end Nonsense
