import Dispatch.Resolution

/-!
# Remembered resolutions

A resolution depends on the receiver's type, on whether the receiver is a type or an instance, on
the name, and of each argument only on its `ArgumentShape`: its runtime type, or its rank if it is
a decimal ranked by magnitude. `Memo` keeps bindings under these data.
-/

namespace Dispatch

/-- What resolution sees of an argument. -/
inductive ArgumentShape
  | null
  | typed (t : Ty)
  /-- A decimal ranked by magnitude. -/
  | decimal (r : Option Rank)
deriving DecidableEq

/-- The shape of an argument. -/
def Value.shape (recast : Bool) (v : Value) : ArgumentShape :=
  match v.type? with
  | none => .null
  | some t =>
    match v with
    | .decimal d => if recast then .decimal d.rank? else .typed t
    | _ => .typed t

/-- What a resolution is remembered under. -/
structure CallShape where
  type : TypeName
  isStatic : Bool
  name : String
  args : List ArgumentShape
deriving DecidableEq

/-- The shape of a call. -/
def CallShape.of (recast : Bool) (receiver : Receiver) (name : String) (args : List Value) :
    CallShape where
  type := receiver.type
  isStatic := receiver.isStatic
  name := name
  args := args.map (Value.shape recast)

/-- Bindings by the shape of the call they were resolved for. -/
abbrev Memo := Table CallShape Binding

end Dispatch
