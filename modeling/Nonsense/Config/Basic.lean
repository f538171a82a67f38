import Nonsense.Json
import Nonsense.Bus

/-!
# The configuration

`config.cpp` and `common_definitions.h`.  The running configuration is one JSON
object: its entries are the entities, `!metadata` from the file, and
`:default-netns`, which the validator fills with the name of the entity that is
the default network namespace.

Validation writes while it checks, and it may throw in the middle; so it is an
`Edit`, a computation on the tree that keeps what was written when it throws.
References into the tree are paths: the component that `_validate_network` is
given is the `network` member of an entity, and so is the uplink's.

`parse` is `nlohmann::json::parse` without exceptions: `none` where the result is
discarded.
-/

namespace Nonsense

/-! ### `common_definitions.h` -/

inductive ComponentType
  | network
  deriving DecidableEq, Repr

def knownComponents (type : String) : Option ComponentType :=
  if type = "network" then some .network else none

inductive NetworkRole
  | root
  | interface
  | router
  | switch
  | client
  deriving DecidableEq, Repr

/-- The value of the enumerator. -/
def NetworkRole.toInt : NetworkRole → Int
  | root => 0
  | interface => 1
  | router => 2
  | switch => 3
  | client => 4

def knownNetworkRoles (role : String) : Option NetworkRole :=
  if role = "root" then some .root
  else if role = "interface" then some .interface
  else if role = "router" then some .router
  else if role = "switch" then some .switch
  else if role = "client" then some .client
  else none

structure ParameterValue where
  parameter : String
  value : String
  deriving DecidableEq, Repr

/-! ### The tree -/

/-- A computation on the configuration tree. -/
abbrev Edit := EStateM Fault Object

structure ConfigResult where
  errorCode : Int
  errorMessage : String
  deriving DecidableEq, Repr

/-- A `config`: whether it may be changed, and the members of `_configuration`. -/
structure Config where
  isMutable : Bool
  configuration : Object

namespace Config

/-- What a reference to the component of type `type` of the entity `name` reads. -/
def component (tree : Object) (name type : String) : Json :=
  ((tree.find name).bind fun entity => entity.find type).getD .null

/-- Write through a reference to the component of type `type` of the entity `name`. -/
def setComponent (tree : Object) (name type : String) (j : Json) : Object :=
  match tree.find name with
  | some (.object entity) => tree.insert name (.object (OrdMap.insert entity type j))
  | _ => tree

/-- `component[key]` as a value; a missing key is put in with a null. -/
def subscript (name type key : String) : Edit Json := do
  let tree ← get
  match (component tree name type).find key with
  | some v => return v
  | none =>
    match (component tree name type).assign key .null with
    | .error f => throw f
    | .ok j =>
      set (setComponent tree name type j)
      return .null

/-- `component[key] = v`. -/
def assign (name type key : String) (v : Json) : Edit Unit := do
  let tree ← get
  match (component tree name type).assign key v with
  | .error f => throw f
  | .ok j => set (setComponent tree name type j)

/-- Throw what an accessor throws. -/
def lift {α : Type} : Except Fault α → Edit α
  | .ok a => pure a
  | .error f => throw f

/-! ### Validation -/

inductive NetworkParameter
  | role
  | external
  | default
  | address
  | uplink
  deriving DecidableEq, Repr

def knownParameters (key : String) : Option NetworkParameter :=
  if key = "role" then some .role
  else if key = "external" then some .external
  else if key = "default" then some .default
  else if key = "address" then some .address
  else if key = "uplink" then some .uplink
  else none

/-- `key.starts_with(':')` -/
def startsWithColon (key : String) : Bool := key.toList.head? = some ':'

/-- The `default` case: the first entity to come along is recorded. -/
def validateDefault (name : String) : Edit Unit := do
  let tree ← get
  match (tree.find ":default-netns").getD .null with
  | .null => set (tree.insert ":default-netns" (.string name))
  | defaultNetns =>
    if defaultNetns.eqString name then return
    else
      let other ← lift defaultNetns.toStdString
      throw (.exception ("Invalid configuration: multiple entities specified as having their network "
        ++ "components be the default netns: '" ++ name ++ "' and '" ++ other ++ "'."))

/-- The `address` case.  Whether the text is an address is not looked at. -/
def validateAddress (name : String) : Edit Unit := do
  let role ← subscript name "network" ":role"
  if role.eqInteger NetworkRole.switch.toInt then return
  else throw (.exception ("Invalid configuration: an address is specified for the network component of "
    ++ "entity '" ++ name ++ "', but the role of the network component role is not 'switch'."))

def unknownUplink (name : String) : Fault :=
  .exception ("Invalid configuration: unknown entity specified as the uplink of the network "
    ++ "component of entity '" ++ name ++ "'.")

/-- The `uplink` case.  Only a string is ever equal to a key, so `find` with any
other value is the end of the map. -/
def validateUplink (name : String) : Edit Unit := do
  let uplink ← subscript name "network" "uplink"
  let tree ← get
  match uplink with
  | .string uplinkName =>
    match tree.find uplinkName with
    | none => throw (unknownUplink name)
    | some (.object uplinkEntity) =>
      match OrdMap.find uplinkEntity "network" with
      | none => throw (.exception ("Invalid configuration: the entity '" ++ uplinkName
          ++ "', specified as the uplink of the network component of entity '" ++ name
          ++ "', does not have a network component."))
      | some (.string _) => throw (.assertion "component delegation not implemented yet")
      | some (.object _) =>
        -- reads `role`, and so puts a null there when it is missing
        let role ← subscript uplinkName "network" "role"
        if role.eqString "client" then
          throw (.exception ("Invalid configuration: the role of the network component of entity '"
            ++ uplinkName ++ "', specified as the uplink for the network component of entity '"
            ++ name ++ "', is 'client', which cannot be used as an uplink.'"))
      | some _ => throw (.exception ("Invalid configuration: the network component of entity '"
          ++ uplinkName ++ "' is not a JSON object."))
    | some _ =>
      throw (.exception ("Invalid configuration: the entity '" ++ uplinkName
        ++ "' is not a JSON object."))
  | _ => throw (unknownUplink name)

/-- One turn of the loop over the items of a network component. -/
def validateParameter (name key : String) : Edit Unit :=
  if startsWithColon key then pure ()
  else
    match knownParameters key with
    | none => throw (.exception ("Invalid configuration: uknown parameter '" ++ key
        ++ "' of the network component of entity '" ++ name ++ "'."))
    | some .role => pure ()
    | some .external => pure ()
    | some .default => validateDefault name
    | some .address => validateAddress name
    | some .uplink => validateUplink name

def validateParameters (name : String) : List String → Edit Unit
  | [] => pure ()
  | key :: keys => do
    validateParameter name key
    validateParameters name keys

/-- `_validate_network`; the loop puts in no key of its own component, so the
keys are those at its start. -/
def validateNetwork (name : String) : Edit Unit := do
  let role ← lift (← subscript name "network" "role").getRefString
  match knownNetworkRoles role with
  | none => throw (.exception ("Invalid configuration: unknown role '" ++ role
      ++ "' of the network component of entity '" ++ name ++ "'."))
  | some r =>
    assign name "network" ":role" (.integer r.toInt)
    let tree ← get
    validateParameters name (component tree name "network").itemKeys

def validateComponents (name : String) : List String → Edit Unit
  | [] => pure ()
  | type :: types => do
    match knownComponents type with
    | none => throw (.exception ("Invalid configuration for entity " ++ name
        ++ ": unknown component type '" ++ type ++ "'."))
    | some .network => validateNetwork name
    validateComponents name types

/-- `_validate_entity`, on the entity at `name`. -/
def validateEntity (name : String) : Edit Unit := do
  let tree ← get
  validateComponents name ((tree.find name).getD .null).itemKeys

/-! ### Loading a file -/

def validateMetadataKeys : List String → Except Fault Unit
  | [] => .ok ()
  | key :: keys =>
    if key = "version" then validateMetadataKeys keys
    else .error (.exception ("Invalid !metadata parameter: " ++ key ++ "."))

/-- `_validate_metadata` -/
def validateMetadata (configuration : Json) : Except Fault Unit :=
  match configuration.find "!metadata" with
  | none => .error (.exception "Invalid configuration file: no !metadata section.")
  | some (.object metadata) => do
    validateMetadataKeys (OrdMap.keys metadata)
    match OrdMap.find metadata "version" with
    | none => .error (.exception ("Invalid configuration file: the format version has not been "
        ++ "specified in the !metadata section."))
    | some version =>
      if version.eqInteger 1 then return
      else
        let text ← version.toStdString
        .error (.exception ("Invalid configuration file: unsupported configuration format version: "
          ++ text ++ "."))
  | some _ => .error (.exception ("Invalid configuration file: the !metadata section is not a JSON "
      ++ "object."))

/-- The loop over the entries of the file.  It walks the map that validation may
add `:default-netns` to, so it is given that key too and passes over it unless
it is there when the loop arrives. -/
def validateEntries : List String → Edit Unit
  | [] => pure ()
  | key :: keys => do
    let tree ← get
    if key ≠ "!metadata" ∧ (tree.find key).isSome then validateEntity key
    validateEntries keys

/-- The constructor from a file, on the JSON text it holds.  `_validate_metadata`
throws on anything but an object. -/
def load (configuration : Json) : Except Fault Config :=
  match validateMetadata configuration, configuration with
  | .error f, _ => .error f
  | .ok (), .object tree =>
    match validateEntries (OrdMap.insert tree ":default-netns" .null).keys tree with
    | .ok () tree' => .ok { isMutable := false, configuration := tree' }
    | .error f _ => .error f
  | .ok (), _ => .error (.exception "Invalid configuration file: no !metadata section.")

/-- The copy constructor: a copy may be changed. -/
def copy (other : Config) : Config := { isMutable := true, configuration := other.configuration }

/-- The node `try_get` makes an entity of. -/
def tryGet (c : Config) (name : String) : Option Json := c.configuration.find name

/-! ### `add` -/

/-- A parameter's path: the keys that are walked through, and the last one.  A
leading dot ends the search for dots at once. -/
def splitKey (key : String) : List String × String :=
  if key.toList.head? = some '.' then ([], key)
  else
    let segments := (key.toList.splitOn '.').map String.ofList
    (segments.dropLast, segments.getLastD "")

/-- How walking to a parameter's place and writing its value ends. -/
inductive Placed
  | done (tree : Json)
  /-- A value stands in the way; `upTo` is the part of the key that names it. -/
  | blocked (upTo : String) (tree : Json)
  /-- The place is taken. -/
  | taken
  | threw (f : Fault)

/-- Walk along `path` and write `value` under `last`; `seen` is the key up to here. -/
def place (value : Json) (last : String) : List String → String → Json → Placed
  | [], _, tree =>
    match (tree.find last).getD .null with
    | .null =>
      match tree.assign last value with
      | .ok tree => .done tree
      | .error f => .threw f
    | _ => .taken
  | subkey :: path, seen, tree =>
    match (if tree.isNull then .object [] else tree : Json) with
    | .object m =>
      match place value last path (seen ++ subkey ++ ".") ((OrdMap.find m subkey).getD .null) with
      | .done t => .done (.object (OrdMap.insert m subkey t))
      | .blocked upTo t => .blocked upTo (.object (OrdMap.insert m subkey t))
      | r => r
    | t => .blocked (seen ++ subkey) t

/-- How the loop over the parameters ends. -/
inductive Built
  | done (entity : Json)
  /-- `add` returns from inside the walk, and what it has built stays. -/
  | left (result : ConfigResult) (entity : Json)
  /-- `add` returns after erasing the new entity. -/
  | erased (result : ConfigResult)
  | threw (f : Fault)

variable (parse : String → Option Json)

/-- The value of a parameter: its text as JSON, or as a string if it is not JSON. -/
def parameterValue (text : String) : Json := (parse text).getD (.string text)

/-- The loop of `add` over the parameters. -/
def buildEntity (name : String) : List ParameterValue → Json → Built
  | [], entity => .done entity
  | p :: ps, entity =>
    let (path, last) := splitKey p.parameter
    match place (parameterValue parse p.value) last path "" entity with
    | .done entity => buildEntity name ps entity
    | .blocked upTo entity => .left ⟨-EINVAL, "Invalid entity configuration of '" ++ name
        ++ "': value specified for parameter " ++ p.parameter ++ ", but " ++ upTo
        ++ " is a value, not an object."⟩ entity
    | .taken => .erased ⟨-EINVAL, "Invalid entity configuration of '" ++ name
        ++ "': value for parameter " ++ p.parameter ++ " specified more than once."⟩
    | .threw f => .threw f

/-- How `add` ends: it is `noexcept`, so what escapes from it ends the process. -/
inductive Added
  | returned (result : ConfigResult) (c : Config)
  | terminated (f : Fault)

def add (c : Config) (name : String) (initialParameters : List ParameterValue) : Added :=
  if !c.isMutable then .returned ⟨-EROFS, "Cannot modify an immutable configuration."⟩ c
  else if (c.configuration.find name).isSome then
    .returned ⟨-EEXIST, "Cannot add entity " ++ name ++ ": entity already exists."⟩ c
  else
    match buildEntity parse name initialParameters (.object []) with
    | .threw f => .terminated f
    | .left result entity =>
      .returned result { c with configuration := c.configuration.insert name entity }
    | .erased result => .returned result c
    | .done entity =>
      match validateEntity name (c.configuration.insert name entity) with
      | .ok () tree => .returned ⟨0, ""⟩ { c with configuration := tree }
      | .error (.exception what) tree =>
        .returned ⟨-EINVAL, what⟩ { c with configuration := tree.erase name }
      | .error (.assertion text) _ => .terminated (.assertion text)

end Config

end Nonsense
