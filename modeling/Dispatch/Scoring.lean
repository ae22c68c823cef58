import Dispatch.Conversion
import Dispatch.Registry.Basic

/-!
# Overload scoring

An overload accepts a list of arguments if it has as many parameters and each accepts its
argument. Its score is the sum over the arguments, from best to worst

* 6 for an argument of exactly the parameter's type,
* 5 for one of a subtype,
* 4 for a sequence passed to an array parameter, a boxed boolean passed to a raw one and a number
  of the same rank,
* 3 for a number of a lower rank,
* 2 for a number passed to a raw character and for null passed to the top type,
* 1 for null passed to any other type but a raw one, and for everything else passed to the top type,

and 1 for a call without arguments. The overload with the highest score is selected; of several
the first.
-/

namespace Dispatch

namespace Score

/-- An argument of the parameter's type. -/
def exact : Nat := 6

/-- An argument of a subtype of the parameter's type. -/
def subtype : Nat := 5

/-- A sequence for an array parameter. -/
def sequenceToArray : Nat := 4

/-- A boxed boolean for a raw one. -/
def unboxedBool : Nat := 4

/-- Null for the top type. -/
def nullToTop : Nat := 2

/-- Null for a reference type other than the top type. -/
def nullToReference : Nat := 1

/-- A value other than null for the top type. -/
def valueToTop : Nat := 1

/-- A call without arguments. -/
def noArguments : Nat := 1

end Score

/-! ### One argument -/

/-- The score of null for a parameter. -/
def nullScore? : Ty → Option Nat
  | .raw _ => none
  | .object => some Score.nullToTop
  | _ => some Score.nullToReference

/-- The score of an argument that is neither of the parameter's type nor accepted through the
hierarchy. -/
def primitiveScore? (recast : Bool) (v : Value) (t param : Ty) : Option Nat :=
  if t = .boxed .bool ∧ param = .raw .bool then some Score.unboxedBool
  else numericScore? recast v t param

namespace Registry

variable (c : Catalog)

/-- Whether values of a type count as sequences: the builtin sequence type and every type that has
it among its supertypes. -/
def isSequence (t : Ty) : RegistryM Bool :=
  if t = .sequence then pure true else isSubtype c t.typeName Ty.sequence.typeName

/-- Whether a parameter that is not raw takes a type as a subtype of its own. -/
def takesSubtype (t param : Ty) : RegistryM Bool :=
  if param.isRaw then pure false else isSubtype c t.typeName param.typeName

/-- Whether a parameter takes a type as a sequence to be copied into an array. -/
def takesSequence (t param : Ty) : RegistryM Bool :=
  if param = .objectArray then isSequence c t else pure false

/-- The score of passing one argument to one parameter, if the parameter accepts it. -/
def scoreArgument? (recast : Bool) (v : Value) (param : Ty) : RegistryM (Option Nat) :=
  match v.type? with
  | none => return nullScore? param
  | some t => do
    if param.isTop then return some Score.valueToTop
    if t = param then return some Score.exact
    if ← takesSubtype c t param then return some Score.subtype
    if ← takesSequence c t param then return some Score.sequenceToArray
    return primitiveScore? recast v t param

/-! ### Argument lists -/

/-- The sum of the scores position by position, if every parameter accepts its argument. -/
def scoreArguments? (recast : Bool) : List Ty → List Value → RegistryM (Option Nat)
  | param :: params, v :: vs => do
    match ← scoreArgument? c recast v param with
    | none => return none
    | some s => return (← scoreArguments? recast params vs).map (s + ·)
  | _, _ => return some 0

/-- The score of an overload for a list of arguments, if it accepts them. -/
def score? (recast : Bool) (args : List Value) (o : Overload) : RegistryM (Option Nat) :=
  if o.params.length ≠ args.length then return none
  else if o.params.isEmpty then return some Score.noArguments
  else scoreArguments? c recast o.params args

/-! ### Selection -/

/-- The overloads with their scores. -/
def scores (recast : Bool) (args : List Value) (os : List Overload) :
    RegistryM (List (Overload × Option Nat)) :=
  os.mapM fun o => return (o, ← score? c recast args o)

end Registry

/-- The first of the accepted overloads with the highest score. -/
def firstBest? : List (Overload × Option Nat) → Option (Overload × Nat)
  | [] => none
  | (_, none) :: rest => firstBest? rest
  | (o, some s) :: rest =>
    match firstBest? rest with
    | none => some (o, s)
    | some best => if s < best.2 then some best else some (o, s)

/-- Nothing is best only where no overload has a score. -/
theorem firstBest?_eq_none_iff {l : List (Overload × Option Nat)} :
    firstBest? l = none ↔ ∀ o ∈ l, o.2 = none := by
  fun_induction firstBest? l <;> simp_all

/-- The overload selected for a list of arguments, with its score. -/
def Registry.select? (c : Catalog) (recast : Bool) (args : List Value) (os : List Overload) :
    RegistryM (Option (Overload × Nat)) :=
  return firstBest? (← scores c recast args os)

end Dispatch
