import Dispatch.Error
import Dispatch.Scoring

/-!
# Resolution

A name is resolved on a receiver, which is a type or an instance of one. For a call the name is
taken, in this order, for

1. the simple name of the receiver's type, which selects one of its constructors,
2. the simple name of a type nested in it, which selects one of that type's constructors,
3. a method.

The first reading that applies decides, even if no overload accepts the arguments. A nested type
that needs an enclosing instance is constructed with the receiver as its first argument.

What is resolved is a `Binding`. It holds no values, so it can serve every later call whose
receiver and arguments have the same types.
-/

namespace Dispatch

/-! ### Receivers and bindings -/

/-- A receiver together with the type whose members are looked up. -/
inductive Receiver
  /-- A type, on which constructors and static members can be reached. -/
  | static (t : TypeName)
  /-- A value of the given type. -/
  | value (t : TypeName) (v : Value)

namespace Receiver

/-- The receiver that a value makes. Null makes none. -/
def of? : Value → Option Receiver
  | .type t => some (static t)
  | v => v.type?.map fun t => value t.typeName v

/-- The type whose members are looked up. -/
def type : Receiver → TypeName
  | static t | value t _ => t

/-- The instance, if the receiver is one. -/
def instance? : Receiver → Option Value
  | static _ => none
  | value _ v => some v

/-- Whether the receiver is a type. -/
def isStatic : Receiver → Bool
  | static _ => true
  | value _ _ => false

end Receiver

/-- What a name stands for on a receiver. -/
inductive Binding
  /-- A constructor of the receiver's own type. -/
  | constructor (o : Overload)
  /-- A constructor of a type nested in the receiver's type. The enclosing instance is its first
  argument if `bindsEnclosing`. -/
  | nestedConstructor (nested : TypeName) (o : Overload) (bindsEnclosing : Bool)
  | method (o : Overload)
  | field (f : Field)
deriving DecidableEq

namespace Binding

/-- The constructor or method selected. -/
def overload? : Binding → Option Overload
  | constructor o | nestedConstructor _ o _ | method o => some o
  | field _ => none

/-- A short description: the kind of binding and the member. -/
def describe : Binding → String
  | constructor o => "ctor:" ++ o.display
  | nestedConstructor _ o bindsEnclosing =>
    (if bindsEnclosing then "inner_ctor:" else "nested_ctor:") ++ o.display
  | method o => (if o.isStatic then "static:" else "method:") ++ o.display
  | field f => "field:" ++ f.display

end Binding

/-! ### Selection of overloads -/

/-- Computations on a registry that may fail. A failure keeps the registry reached. -/
abbrev ResolveM := ExceptT DispatchError RegistryM

namespace Resolution

variable (c : Catalog) (recast : Bool)

/-- The overload of `os` selected for the arguments, where `os` is what `name` stands for on `t`. -/
def select (t : TypeName) (name : String) (args : List Value) (os : List Overload) :
    ResolveM Overload := do
  if os.isEmpty then throw (.noSuchMember t name)
  match ← (Registry.select? c recast args os : RegistryM _) with
  | some best => return best.1
  | none => throw (.noSuchOverload t name (args.map Value.type?))

/-- The constructor of `t` selected for the arguments. -/
def selectConstructor (t : TypeName) (args : List Value) : ResolveM Overload := do
  select c recast t t.simple args (← (Registry.constructors c t : RegistryM _))

/-- The method of `t` selected for the arguments. -/
def selectMethod (t : TypeName) (name : String) (args : List Value) : ResolveM Overload := do
  select c recast t name args (← (Registry.methods c t name : RegistryM _))

/-- The field of `t` with the given name. -/
def findField (t : TypeName) (name : String) : ResolveM Field := do
  match ← (Registry.field? c t name : RegistryM _) with
  | some f => return f
  | none => throw (.noSuchMember t name)

/-! ### Names of calls -/

/-- The binding of a nested type's name. -/
def resolveNested (receiver : Receiver) (nested : NestedType) (args : List Value) :
    ResolveM Binding := do
  if !nested.needsEnclosing then
    return .nestedConstructor nested.name (← selectConstructor c recast nested.name args) false
  match receiver.instance? with
  | none => throw (.ambiguousBinding receiver.type nested.name)
  | some outer =>
    return .nestedConstructor nested.name
      (← selectConstructor c recast nested.name (outer :: args)) true

/-- The binding of a name that is called. -/
def resolve (receiver : Receiver) (name : String) (args : List Value) : ResolveM Binding := do
  if (← (Registry.simpleNameOf? c receiver.type : RegistryM _)) = some name then
    return .constructor (← selectConstructor c recast receiver.type args)
  match ← (Registry.nestedNamed? c receiver.type name : RegistryM _) with
  | some nested => resolveNested c recast receiver nested args
  | none => return .method (← selectMethod c recast receiver.type name args)

end Resolution

end Dispatch
