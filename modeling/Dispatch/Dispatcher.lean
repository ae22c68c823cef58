import Dispatch.Memo
import Dispatch.Request
import Dispatch.Settings

/-!
# Dispatchers

A dispatcher joins a catalog, a host, an optional scanner and settings. Its operations work on a
`Dispatcher.State`: the registry, the remembered resolutions, the toggle for ranking decimals by
magnitude, and the state of the host. An operation that fails keeps the state it has reached.

Each operation first makes the receiver's type known. Without `Settings.requireImports` a type is
registered on first use; with it, a type that no import has registered is refused before anything
is asked or done.
-/

namespace Dispatch

/-- What dispatch works with. -/
structure Dispatcher (σ : Type) where
  catalog : Catalog
  host : Host σ
  scanner : Option Scanner := none
  settings : Settings := {}

/-- What dispatch changes. -/
structure Dispatcher.State (σ : Type) where
  registry : Registry := {}
  memo : Memo := .empty
  recast : Bool
  host : σ

/-- Computations of a dispatcher whose host has states in `σ`. -/
abbrev DispatchM (σ : Type) := ExceptT DispatchError (StateM (Dispatcher.State σ))

namespace DispatchM

variable {σ α : Type}

/-- A computation on the registry. -/
def onRegistry (run : RegistryM α) : DispatchM σ α := fun s =>
  let (a, registry) := run.run s.registry
  (.ok a, { s with registry })

/-- A computation on the registry that may fail. -/
def onResolution (run : ResolveM α) : DispatchM σ α := fun s =>
  let (result, registry) := StateT.run (ExceptT.run run) s.registry
  (result, { s with registry })

/-- A computation of the host on behalf of a member. -/
def onHost (member : Member) (run : HostM σ α) : DispatchM σ α := fun s =>
  let (result, host) := StateT.run (ExceptT.run run) s.host
  (result.mapError (.hostFailed member), { s with host })

end DispatchM

namespace Dispatcher

open DispatchM

variable {σ : Type} (d : Dispatcher σ)

/-- The state before the first operation. -/
def start (host : σ) : State σ := { recast := d.settings.recastDecimals, host }

/-- The settings in force in a state. -/
def currentSettings (s : State σ) : Settings := { d.settings with recastDecimals := s.recast }

/-- A rendering of the sizes of the tables and of the settings. -/
def inspect (s : State σ) : String :=
  "Binder \x7b registry: " ++ s.registry.inspect ++ ", config: " ++
    (d.currentSettings s).inspect ++ ", memoized: " ++ toString s.memo.size ++ ", .. \x7d"

/-! ### Receivers -/

/-- Makes sure that a type is registered, or refuses it. A type that the catalog does not describe
stays unregistered, and nothing will be found on it. -/
def ensureRegistered (t : TypeName) : DispatchM σ Unit := do
  if (← get).registry.isRegistered t then return
  if d.settings.requireImports then throw (.notImported t.full)
  let _ ← onRegistry (Registry.register d.catalog t)

/-- The receiver that a value makes, with its type registered. -/
def receiver (v : Value) (name : String) : DispatchM σ Receiver := do
  match Receiver.of? v with
  | none => throw (.nullReceiver name)
  | some r =>
    d.ensureRegistered r.type
    return r

/-! ### Bindings -/

/-- The binding of a called name, remembered or resolved. Only successes are remembered. -/
def bindCall (r : Receiver) (name : String) (args : List Value) : DispatchM σ Binding := do
  let recast := (← get).recast
  let shape := CallShape.of recast r name args
  if !d.settings.memoize then
    return ← onResolution (Resolution.resolve d.catalog recast r name args)
  match (← get).memo.find? shape with
  | some binding => return binding
  | none =>
    let binding ← onResolution (Resolution.resolve d.catalog recast r name args)
    modify fun s => { s with memo := s.memo.insert shape binding }
    return binding

/-- The instance that a member of instances works on. -/
def instanceOf (r : Receiver) (member : Member) : DispatchM σ Value :=
  match r.instance? with
  | some v => return v
  | none => throw (.needsInstance member)

/-- The receiver handed to the host for a member: none for a static one. -/
def targetOf (r : Receiver) (member : Member) (isStatic : Bool) : DispatchM σ (Option Value) :=
  if isStatic then return none else some <$> instanceOf r member

/-! ### Carrying out -/

/-- Has the host construct with prepared arguments. -/
def constructWith (o : Overload) (args : List Value) : DispatchM σ Value :=
  onHost (.overload o) do d.host.construct o (← d.host.prepare args o.params)

/-- Has the host read a field. A constant is read from its enumeration. -/
def readField (r : Receiver) (f : Field) : DispatchM σ Value := do
  if f.decl.isConstant then
    onHost (.field f) (d.host.constant f.owner f.decl.name)
  else
    let target ← targetOf r (.field f) f.decl.isStatic
    onHost (.field f) (d.host.readField target f)

/-- Carries out a binding. -/
def carryOut (r : Receiver) (binding : Binding) (args : List Value) : DispatchM σ Value :=
  match binding with
  | .constructor o => d.constructWith o args
  | .nestedConstructor nested o bindsEnclosing =>
    if bindsEnclosing then
      match r.instance? with
      | some outer => d.constructWith o (outer :: args)
      | none => throw (.ambiguousBinding r.type nested)
    else d.constructWith o args
  | .method o => do
    let target ← targetOf r (.overload o) o.isStatic
    onHost (.overload o) do d.host.invoke target o (← d.host.prepare args o.params)
  | .field f => d.readField r f

/-! ### Operations -/

/-- Calls what a name stands for on a receiver. -/
def call (v : Value) (name : String) (args : List Value) : DispatchM σ Value := do
  let r ← d.receiver v name
  let binding ← d.bindCall r name args
  d.carryOut r binding args

/-- Resolves a call without carrying it out. -/
def resolve (v : Value) (name : String) (args : List Value) : DispatchM σ Binding := do
  d.bindCall (← d.receiver v name) name args

/-- The method that a call selects. -/
def findMethod (v : Value) (name : String) (args : List Value) : DispatchM σ Overload := do
  let r ← d.receiver v name
  onResolution (Resolution.selectMethod d.catalog (← get).recast r.type name args)

/-- The constructor that a construction selects. -/
def findConstructor (t : TypeName) (args : List Value) : DispatchM σ Overload := do
  d.ensureRegistered t
  onResolution (Resolution.selectConstructor d.catalog (← get).recast t args)

/-- Constructs an instance of a type. -/
def construct (t : TypeName) (args : List Value) : DispatchM σ Value := do
  let o ← d.findConstructor t args
  d.carryOut (.static t) (.constructor o) args

/-- Constructs an instance of the type most recently imported under a simple name. -/
def constructNamed (simple : String) (args : List Value) : DispatchM σ Value := do
  let registry := (← get).registry
  match (registry.named? simple).filter registry.isRegistered with
  | some t => d.construct t args
  | none => throw (.notImported simple)

/-- The field of a name on a receiver. -/
def findField (v : Value) (name : String) : DispatchM σ Field := do
  let r ← d.receiver v name
  onResolution (Resolution.findField d.catalog r.type name)

/-- Reads a field. -/
def getField (v : Value) (name : String) : DispatchM σ Value := do
  let r ← d.receiver v name
  let f ← onResolution (Resolution.findField d.catalog r.type name)
  d.carryOut r (.field f) []

/-- Reads the nested type of a name or, if there is none, the field. -/
def getFieldOrNested (v : Value) (name : String) : DispatchM σ Value := do
  let r ← d.receiver v name
  match ← onRegistry (Registry.nestedNamed? d.catalog r.type name) with
  | some nested => return .type nested.name
  | none =>
    let f ← onResolution (Resolution.findField d.catalog r.type name)
    d.carryOut r (.field f) []

/-- Writes a field that accepts the value, in the representation that its type expects. -/
def setField (v : Value) (name : String) (value : Value) : DispatchM σ Unit := do
  let r ← d.receiver v name
  let f ← onResolution (Resolution.findField d.catalog r.type name)
  let score ← onRegistry
    (Registry.scoreArgument? d.catalog (← get).recast value f.decl.type)
  if score.isNone then throw (.noSuchOverload r.type name [value.type?])
  let target ← targetOf r (.field f) f.decl.isStatic
  onHost (.field f) (d.host.writeField target f (value.coerce f.decl.type))

/-- Carries out a request. Writing a field gives null. -/
def run : Request → DispatchM σ Value
  | .call v name args => d.call v name args
  | .construct simple args => d.constructNamed simple args
  | .getField v name => d.getField v name
  | .getFieldOrNested v name => d.getFieldOrNested v name
  | .setField v name value => do
    d.setField v name value
    return .null

/-- Imports what a text names. -/
def importText (text : String) : DispatchM σ Imported := do
  match d.scanner with
  | none => throw (.importFailed (.noScanner text))
  | some scanner =>
    match ← onRegistry (Registry.importText d.catalog scanner text) with
    | .ok imported => return imported
    | .error cause => throw (.importFailed cause)

/-- Turns the ranking of decimals by magnitude on or off. -/
def setRecast (on : Bool) : DispatchM σ Unit := modify fun s => { s with recast := on }

end Dispatcher

end Dispatch
