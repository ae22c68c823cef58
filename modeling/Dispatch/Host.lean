import Dispatch.Conversion
import Dispatch.Member

/-!
# Hosts

A host carries out what resolution has selected: it invokes, constructs, and reads and writes
fields. Its operations transform a state of its own and may fail. Arguments come to it already in
the representation that the parameters expect, and the receiver is absent for static members.

`Host.recorded` is a host that also keeps the list of the calls made to it, each entered before it
is answered.
-/

namespace Dispatch

/-! ### Failures -/

/-- Why a host failed. -/
inductive HostError
  /-- The member ran and raised. -/
  | raised (text : String)
  /-- The host does not offer the operation. -/
  | unsupported (operation : String)
  | other (text : String)
deriving DecidableEq

/-- The failure in words. -/
def HostError.message : HostError → String
  | raised text => text
  | unsupported operation => "host does not support " ++ operation
  | other text => text

/-! ### Operations -/

/-- Computations of a host with states in `σ`. A failure keeps the state reached. -/
abbrev HostM (σ : Type) := ExceptT HostError (StateM σ)

/-- The operations of a host with states in `σ`. Assigning fields and copying sequences are
optional. -/
structure Host (σ : Type) where
  invoke : Option Value → Overload → List Value → HostM σ Value
  construct : Overload → List Value → HostM σ Value
  readField : Option Value → Field → HostM σ Value
  writeField : Option Value → Field → Value → HostM σ Unit :=
    fun _ _ _ => throw (.unsupported "field assignment")
  /-- The constant of an enumeration. -/
  constant : TypeName → String → HostM σ Value
  /-- The elements of an instance that is a sequence, in order. -/
  elements : Instance → HostM σ (List Value) :=
    fun _ => throw (.unsupported "sequence snapshots")

/-! ### Recorded calls -/

/-- A call to a host. -/
inductive HostCall
  | invoke (receiver : Option Value) (method : Overload) (args : List Value)
  | construct (constructor : Overload) (args : List Value)
  | readField (receiver : Option Value) (field : Field)
  | writeField (receiver : Option Value) (field : Field) (value : Value)
  | constant (t : TypeName) (name : String)
  | elements (i : Instance)

/-- A computation that enters a call before it runs. -/
def HostM.record {σ α : Type} (call : HostCall) (run : HostM σ α) :
    HostM (σ × List HostCall) α := fun (s, calls) =>
  let (result, s) := StateT.run (ExceptT.run run) s
  (result, s, calls ++ [call])

/-- The host with a list of the calls made to it, oldest first. -/
def Host.recorded {σ : Type} (h : Host σ) : Host (σ × List HostCall) where
  invoke receiver method args :=
    .record (.invoke receiver method args) (h.invoke receiver method args)
  construct ctor args := .record (.construct ctor args) (h.construct ctor args)
  readField receiver field := .record (.readField receiver field) (h.readField receiver field)
  writeField receiver field v :=
    .record (.writeField receiver field v) (h.writeField receiver field v)
  constant t name := .record (.constant t name) (h.constant t name)
  elements i := .record (.elements i) (h.elements i)

/-! ### Arguments for the host -/

/-- One argument in the representation its parameter expects. An instance passed to an array
parameter is copied element by element. -/
def Host.prepareArgument {σ : Type} (h : Host σ) (v : Value) (param : Ty) : HostM σ Value :=
  match v, param with
  | .object i, .objectArray => .array <$> h.elements i
  | _, _ => pure (v.coerce param)

/-- Arguments in the representations their parameters expect, from left to right; the first
failure ends the preparation. -/
def Host.prepare {σ : Type} (h : Host σ) : List Value → List Ty → HostM σ (List Value)
  | v :: vs, param :: params => do
    let v ← h.prepareArgument v param
    return v :: (← h.prepare vs params)
  | _, _ => return []

end Dispatch
