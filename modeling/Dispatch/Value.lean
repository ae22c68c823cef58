import Dispatch.Number.Decimal
import Dispatch.Ty

/-!
# Runtime values

`Value` is what members are called with and what they return. A value other than null has a
runtime type, `Value.type?`; a primitive reports its boxed type, as it would inside a list of
mixed values.

`Value.equal` compares numbers by the number they denote, so it is coarser than equality of
representations on decimals and zeros, and `nan` makes it irreflexive. Instances are compared by
identity.
-/

namespace Dispatch

/-- An instance owned by the host: its type and its identity. The host alone knows what else
belongs to it. -/
structure Instance where
  type : TypeName
  identity : Nat
deriving DecidableEq, Inhabited

/-- A rendering that shows the type and conceals the identity. -/
def Instance.inspect (i : Instance) : String :=
  "ObjectRef \x7b ty: " ++ i.type.inspect ++ ", .. \x7d"

/-- A value passed to or returned from a member. -/
inductive Value
  | null
  | bool (b : Bool)
  | byte (n : Int8)
  | short (n : Int16)
  | char (c : Char)
  | int (n : Int32)
  | long (n : Int64)
  | float (x : Single)
  | double (x : Double)
  | decimal (d : Decimal)
  | string (s : String)
  /-- An ordered, growable sequence. -/
  | sequence (items : List Value)
  /-- An array of the top type. -/
  | array (items : List Value)
  /-- The name of a type as a value: a static receiver or an argument. -/
  | type (t : TypeName)
  | object (i : Instance)
deriving Inhabited

namespace Value

/-- Null alone. -/
def isNull : Value → Bool
  | null => true
  | _ => false

/-- The type of a value other than null. -/
def type? : Value → Option Ty
  | null => none
  | bool _ => some (.boxed .bool)
  | byte _ => some (.boxed .byte)
  | short _ => some (.boxed .short)
  | char _ => some (.boxed .char)
  | int _ => some (.boxed .int)
  | long _ => some (.boxed .long)
  | float _ => some (.boxed .float)
  | double _ => some (.boxed .double)
  | decimal _ => some .decimal
  | string _ => some .string
  | sequence _ => some .sequence
  | array _ => some .objectArray
  | type _ => some .type
  | object i => some (.named i.type)

/-- The instance behind a value, if it is one. -/
def instance? : Value → Option Instance
  | object i => some i
  | _ => none

/-- The name of a runtime type, or `null` for want of one. -/
def labelOf : Option Ty → String
  | none => "null"
  | some t => t.name

/-- The name of the runtime type, for messages. -/
def label (v : Value) : String := labelOf v.type?

/-! ### Equality -/

mutual

/-- Equality of values: numerical on numbers, by identity on instances, elementwise on sequences
and arrays. Values of different kinds differ. -/
def equal : Value → Value → Bool
  | null, null => true
  | bool a, bool b => a == b
  | byte m, byte n => m == n
  | short m, short n => m == n
  | char c, char d => c == d
  | int m, int n => m == n
  | long m, long n => m == n
  | float x, float y => x.equal y
  | double x, double y => x.equal y
  | decimal d, decimal e => d.equal e
  | string s, string t => s == t
  | sequence vs, sequence ws => allEqual vs ws
  | array vs, array ws => allEqual vs ws
  | type t, type u => t == u
  | object i, object j => i == j
  | _, _ => false

/-- Equality position by position. -/
def allEqual : List Value → List Value → Bool
  | [], [] => true
  | v :: vs, w :: ws => v.equal w && allEqual vs ws
  | _, _ => false

end

end Value

end Dispatch
