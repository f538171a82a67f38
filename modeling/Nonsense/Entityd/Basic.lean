import Nonsense.Config.Basic

/-!
# The daemon of one entity

`entityd/main.cpp` and `cleanup.h`.  The process of an entity is given a component
by `AddComponent`, and sets it up by commands that it hands to `system`, each of
them a call of `ip`; a `Command` is one such call, and `Command.text` is what the
shell is given.  `name` is the name of the entity, which is the argument the
process was started with.

Everything the process asks of the system is an `Action`, and `ok n` says whether
the one after `n` others succeeds.  A `cleanup` object is the list of the actions
that undo something, oldest first; one that is local to a function is a value, and
as its destructor does nothing it is gone when the function throws.

The reading of the component is that of the non-constant `operator[]`: what is
missing is null.  The nulls that it puts into the component are never looked at.
-/

namespace Nonsense

namespace Entityd

/-! ### Commands -/

/-- What `ip` is told to do. -/
inductive Ip
  | linkAddVeth (link peer : String)
  | linkAddBridge (link : String)
  | linkDel (link : String)
  | linkSetUp (link : String)
  | linkSetDown (link : String)
  | linkSetMaster (link bridge : String)
  /-- Move a link into the namespace of an entity. -/
  | linkSetNetns (link entity : String)
  | addrAdd (address link : String)
  | addrDel (address link : String)
  | routeAdd (network gateway : String)
  | routeDel (network : String)
  deriving DecidableEq, Repr

/-- A call of `ip`, in the namespace of the entity `netns` or in the own one. -/
structure Command where
  netns : Option String
  ip : Ip
  deriving DecidableEq, Repr

/-- The namespace of an entity, as `ip` knows it. -/
def netnsName (entity : String) : String := "nonsense:" ++ entity

def Ip.words : Ip → List String
  | linkAddVeth link peer => ["link", "add", link, "type", "veth", "peer", peer]
  | linkAddBridge link => ["link", "add", link, "type", "bridge"]
  | linkDel link => ["link", "del", link]
  | linkSetUp link => ["link", "set", link, "up"]
  | linkSetDown link => ["link", "set", link, "down"]
  | linkSetMaster link bridge => ["link", "set", link, "master", bridge]
  | linkSetNetns link entity => ["link", "set", link, "netns", netnsName entity]
  | addrAdd address link => ["addr", "add", address, "dev", link]
  | addrDel address link => ["addr", "del", address, "dev", link]
  | routeAdd network gateway => ["route", "add", network, "via", gateway]
  | routeDel network => ["route", "del", network]

namespace Command

/-- The words of the template. -/
def words (command : Command) : List String :=
  match command.netns with
  | none => "ip" :: command.ip.words
  | some entity => ["ip", "netns", "exec", netnsName entity] ++ "ip" :: command.ip.words

/-- The string that `system` is given. -/
def text (command : Command) : String := " ".intercalate command.words

end Command

/-- A command in the own namespace. -/
def here (ip : Ip) : Command := ⟨none, ip⟩

/-- A command in the namespace of `entity`. -/
def inside (entity : String) (ip : Ip) : Command := ⟨some entity, ip⟩

/-! ### The process -/

/-- What the process asks of the system. -/
inductive Action
  | system (command : Command)
  | createDirectories (path : String)
  | openFile (path : String)
  | setns
  | unshare
  /-- The own network namespace is mounted at `path`. -/
  | mount (path : String)
  | umount (path : String)
  deriving DecidableEq, Repr

structure State where
  /-- What has been done, oldest first. -/
  actions : List Action
  /-- `current_components`, with the one type there is. -/
  currentComponent : Option Json
  cleanups : List Action
  connectionCleanups : List Action

/-- The process when it starts. -/
def State.initial : State := ⟨[], none, [], []⟩

/-- A computation of the process. -/
abbrev Proc := EStateM Fault State

/-- Throw what an accessor throws. -/
def lift {α : Type} : Except Fault α → Proc α
  | .ok a => pure a
  | .error f => throw f

variable (ok : ℕ → Bool) (name : String)

/-- Ask the system for `action`: whether it has succeeded. -/
def perform (action : Action) : Proc Bool := do
  let s ← get
  set { s with actions := s.actions ++ [action] }
  return ok s.actions.length

/-- `annotated_system` -/
def annotatedSystem (command : Command) : Proc Unit := do
  if ← perform ok (.system command) then return
  else throw (.exception ("system(" ++ command.text ++ ") failed"))

/-- `cleanups.add(std::move(clean))` -/
def addCleanups (clean : List Action) : Proc Unit :=
  modify fun s => { s with cleanups := s.cleanups ++ clean }

/-- `connection_cleanups.add(std::move(clean))` -/
def addConnectionCleanups (clean : List Action) : Proc Unit :=
  modify fun s => { s with connectionCleanups := s.connectionCleanups ++ clean }

/-- The names of the links. -/
def nu (name : String) : String := "nu-" ++ name
def nd (name : String) : String := "nd-" ++ name
def nb (name : String) : String := "nb-" ++ name

/-! ### Links and bridges -/

def setupInterfaces : Proc Unit := do
  annotatedSystem ok (here (.linkAddVeth (nu name) (nd name)))
  let clean := [.system (here (.linkDel (nu name)))]
  annotatedSystem ok (here (.linkSetUp (nu name)))
  addCleanups clean

def setupBridge : Proc Unit := do
  annotatedSystem ok (here (.linkAddBridge (nb name)))
  let clean := [.system (here (.linkDel (nb name)))]
  annotatedSystem ok (here (.linkSetUp (nb name)))
  annotatedSystem ok (here (.linkSetMaster (nu name) (nb name)))
  addCleanups clean

def setupNft : Proc Unit := throw (.assertion "0")

/-! ### Addresses -/

/-- `network.substr(0, network.rfind('.'))`, the whole where there is no dot. -/
def beforeLastDot (network : List Char) : List Char :=
  if '.' ∈ network then ((network.reverse.dropWhile fun c => c ≠ '.').drop 1).reverse else network

def nthAddressInSubnet (netValue : String) (n : ℕ) (includeMask : Bool) : Except Fault String :=
  let network := netValue.toList.takeWhile fun c => c ≠ '/'
  match netValue.toList.dropWhile fun c => c ≠ '/' with
  | [] => .error (.assertion "sep != std::string_view::npos")
  | _ :: mask =>
    if mask = ['2', '4'] then
      .ok (String.ofList (beforeLastDot network) ++ "." ++ toString n
        ++ (if includeMask then "/24" else ""))
    else .error (.assertion ("mask == \"24\" && \"this logic needs updating when network addresses "
      ++ "other than /24 are supported\""))

/-! ### The connection to the uplink -/

/-- `get(component, key)` -/
def getText (component : Json) (key : String) : Except Fault String := do
  let value ← component.subscript key
  value.getRefString

/-- The loop over the uplinks that are switches: a route to `net` in the namespace
of the uplink of each. -/
def addRoutes (net : String) (uplink : Json) (clean : List Action) : Proc (List Action) :=
  if uplink.isNull then pure clean
  else do
    let role ← lift (uplink.subscript "role")
    if role.eqString "switch" then
      let uplinkName ← lift (getText uplink ":uplink-name")
      let uplinkNet ← lift (getText uplink "address")
      let uplinkUplinkAddress ← lift (nthAddressInSubnet uplinkNet 2 false)
      annotatedSystem ok (inside uplinkName (.routeAdd net uplinkUplinkAddress))
      let clean := clean ++ [.system (inside uplinkName (.routeDel net))]
      match _h : uplink.find "uplink" with
      | some next => addRoutes net next clean
      | none => pure clean
    else pure clean
termination_by sizeOf uplink
decreasing_by exact Json.sizeOf_find_lt ‹_›

/-- The part of `connect` for a switch. -/
def connectSwitch (component : Json) (uplinkName : String) (clean : List Action) :
    Proc (List Action) := do
  let net ← lift (getText component "address")
  let downlinkAddress ← lift (nthAddressInSubnet net 1 true)
  annotatedSystem ok (inside uplinkName (.addrAdd downlinkAddress (nd name)))
  let clean := clean ++ [.system (inside uplinkName (.addrDel downlinkAddress (nd name)))]
  let uplink ← lift (component.subscript "uplink")
  let clean ← addRoutes ok net uplink clean
  annotatedSystem ok (inside uplinkName (.linkSetUp (nd name)))
  let clean := clean ++ [.system (inside uplinkName (.linkSetDown (nd name)))]
  let gateway ← lift (nthAddressInSubnet net 1 false)
  let assignedAddress ← lift (nthAddressInSubnet net 2 true)
  annotatedSystem ok (here (.addrAdd assignedAddress (nb name)))
  let clean := clean ++ [.system (here (.addrDel assignedAddress (nb name)))]
  annotatedSystem ok (here (.routeAdd "default" gateway))
  return clean ++ [.system (here (.routeDel "default"))]

/-- The part of `connect` for anything else. -/
def connectClient (component : Json) (uplinkName : String) (clean : List Action) :
    Proc (List Action) := do
  annotatedSystem ok (inside uplinkName (.linkSetMaster (nd name) (nb uplinkName)))
  let uplink ← lift (component.subscript "uplink")
  let uplinkNet ← lift (getText uplink "address")
  let gateway ← lift (nthAddressInSubnet uplinkNet 1 false)
  let assignedAddress ← lift (nthAddressInSubnet uplinkNet 3 true)
  annotatedSystem ok (inside uplinkName (.linkSetUp (nd name)))
  let clean := clean ++ [.system (inside uplinkName (.linkSetDown (nd name)))]
  annotatedSystem ok (here (.addrAdd assignedAddress (nu name)))
  let clean := clean ++ [.system (here (.addrDel assignedAddress (nu name)))]
  annotatedSystem ok (here (.routeAdd "default" gateway))
  return clean ++ [.system (here (.routeDel "default"))]

/-- The `if` of `connect`. -/
def connectAs (component role : Json) (uplinkName : String) (clean : List Action) :
    Proc (List Action) :=
  if role.eqString "switch" then connectSwitch ok name component uplinkName clean
  else connectClient ok name component uplinkName clean

/-- `connect`; `component` is `current_components.at(network)`. -/
def connect (component : Json) : Proc Unit := do
  let uplinkName ← lift (getText component ":uplink-name")
  annotatedSystem ok (here (.linkSetNetns (nd name) uplinkName))
  let clean := [.system (inside uplinkName (.linkSetNetns (nd name) name))]
  let role ← lift (component.subscript "role")
  let clean ← connectAs ok name component role uplinkName clean
  addConnectionCleanups clean

/-! ### Adding a component -/

def netnsPath (name : String) : String := "/var/run/netns/" ++ name

/-- Ask the system for `action`, and throw `f` if it does not succeed. -/
def require (action : Action) (f : Fault) : Proc Unit := do
  if ← perform ok action then return
  else throw f

/-- `path`, which is not used; but a name that is not a string throws. -/
def externalPath (component : Json) : Except Fault String :=
  match component.find "external_name" with
  | none => .ok (netnsPath name)
  | some path => path.toStdString

/-- The namespace the component is set up in. -/
def enterNamespace (component : Json) : Proc Unit := do
  let external ← lift (component.subscript "external")
  let default ← lift (component.subscript "default")
  if external.isBoolean && external.eqBoolean true then
    let _ ← lift (externalPath name component)
    require ok (.openFile (netnsPath name)) (.assertion "fd != -1")
    discard (perform ok .setns)
  else if !default.isBoolean || default.eqBoolean false then
    require ok .unshare (.assertion "unshare(CLONE_NEWNET) == 0")
  else pure ()

/-- The own namespace is mounted where the others find it. -/
def mountNamespace : Proc Unit := do
  let fullPath := netnsPath (netnsName name)
  require ok (.createDirectories "/var/run/netns")
    (.exception "filesystem error: cannot create directories")
  discard (perform ok (.umount fullPath))
  require ok (.openFile fullPath) (.assertion "open(full_path.c_str(), O_CREAT) != -1")
  require ok (.mount fullPath) (.assertion "abort")
  addCleanups [.umount fullPath]

/-- The `switch` of `add_network`. -/
def setupRole (component : Json) : NetworkRole → Proc Unit
  | .root => pure ()
  | .interface => throw (.assertion "0")
  | .router => do
    setupInterfaces ok name
    setupNft
    connect ok name component
  | .switch => do
    setupInterfaces ok name
    setupBridge ok name
    connect ok name component
  | .client => do
    setupInterfaces ok name
    connect ok name component

/-- `current_components.emplace` -/
def emplaceComponent (component : Json) : Proc Unit :=
  modify fun s => { s with currentComponent := some component }

/-- `add_network`, up to its handler. -/
def addNetworkBody (component : Json) : Proc Unit := do
  let role ← lift (getText component "role")
  match knownNetworkRoles role with
  | none => throw (.exception "unordered_map::at")
  | some roleEnum => do
    emplaceComponent component
    enterNamespace ok name component
    mountNamespace ok name
    setupRole ok name component roleEnum

/-- `add_network`.  Its handler cannot reply, and ends the process. -/
def addNetwork (component : Json) : Proc Unit := fun s =>
  match addNetworkBody ok name component s with
  | .error (.exception _) s =>
    .error (.assertion "really need to reply to the message here...")
      { s with currentComponent := none }
  | r => r

def componentAlreadyActive : BusError :=
  ⟨"info.griwes.nonsense.ComponentAlreadyActive",
    "Tried to add an already active component to an entity"⟩

/-- `add_component`; it replies `true` where it does not reply an error. -/
def addComponent (type : String) (config : Json) : Proc (Option BusError) := do
  match knownComponents type with
  | none => throw (.assertion "it != known_components.end()")
  | some .network =>
    if (← get).currentComponent.isSome then return some componentAlreadyActive
    else
      addNetwork ok name config
      return none

/-! ### The end -/

/-- The body of `cleanup::run`: newest first, and whatever comes of it. -/
def runCleanup : List Action → Proc Unit
  | [] => pure ()
  | action :: clean => do
    runCleanup clean
    discard (perform ok action)

def shutdown : Proc Unit := do
  runCleanup ok (← get).connectionCleanups
  modify fun s => { s with connectionCleanups := [] }
  runCleanup ok (← get).cleanups
  modify fun s => { s with cleanups := [] }

/-- The state a computation ends in, however it ends. -/
def finalState {α : Type} : EStateM.Result Fault State α → State
  | .ok _ s => s
  | .error _ s => s

/-- The process that is sent its network component, and then asked to shut down if
it still runs: an exception ends in the handler of `main`, which shuts down too, and
a failed assertion ends it on the spot. -/
def lifetime (component : Json) : State :=
  match addComponent ok name "network" component State.initial with
  | .ok _ s => finalState (shutdown ok s)
  | .error (.exception _) s => finalState (shutdown ok s)
  | .error (.assertion _) s => s

end Entityd

end Nonsense
