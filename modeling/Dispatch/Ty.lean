import Dispatch.Text.Blank
import Dispatch.TypeName

/-!
# Types of parameters, fields and values

`Ty` is the type of a parameter or field as declared, and of a value at run time. The builtin
types are the primitives, each in a raw form that never holds null and a boxed form that may, and
a few reference types; every other type is `Ty.named`.

`Ty.name` writes a type and `Ty.ofName` reads one: a text that names no builtin type is taken for
the name of a type of the host.
-/

namespace Dispatch

/-! ### Primitives -/

/-- The kinds of primitive value. -/
inductive Prim
  | bool | byte | short | char | int | long | float | double
deriving DecidableEq, Inhabited

namespace Prim

/-- The primitives in declaration order. -/
def all : List Prim := [bool, byte, short, char, int, long, float, double]

theorem mem_all (p : Prim) : p ∈ all := by cases p <;> decide

/-- The name of the raw form. -/
def rawName : Prim → String
  | bool => "boolean"
  | byte => "byte"
  | short => "short"
  | char => "char"
  | int => "int"
  | long => "long"
  | float => "float"
  | double => "double"

/-- The name of the boxed form. -/
def boxedName : Prim → String
  | bool => "Boolean"
  | byte => "Byte"
  | short => "Short"
  | char => "Character"
  | int => "Integer"
  | long => "Long"
  | float => "Float"
  | double => "Double"

/-- The name of the kind itself, independent of the form. -/
def kindName : Prim → String
  | bool => "Bool"
  | byte => "Byte"
  | short => "Short"
  | char => "Char"
  | int => "Int"
  | long => "Long"
  | float => "Float"
  | double => "Double"

end Prim

/-! ### Types -/

/-- The type of a parameter, a field or a value. -/
inductive Ty
  /-- A primitive that is never null. -/
  | raw (p : Prim)
  /-- A primitive or null. -/
  | boxed (p : Prim)
  /-- Decimal fractions. -/
  | decimal
  | string
  /-- Ordered containers. -/
  | sequence
  /-- The top type, which accepts every value. -/
  | object
  /-- Arrays of the top type. -/
  | objectArray
  /-- The type of type names used as values. -/
  | type
  /-- A reference type defined by the host. -/
  | named (t : TypeName)
deriving DecidableEq, Inhabited

namespace Ty

/-- The name of a type as declarations write it. -/
def name : Ty → String
  | raw p => p.rawName
  | boxed p => p.boxedName
  | decimal => "Decimal"
  | string => "String"
  | sequence => "List"
  | object => "Object"
  | objectArray => "Object[]"
  | type => "Type"
  | named t => t.full

/-- The types with a name of their own. -/
def builtins : List Ty :=
  Prim.all.map raw ++ Prim.all.map boxed ++
    [decimal, string, sequence, object, objectArray, type]

/-- The type that a declaration names. Blanks around the name do not count. -/
def ofName (s : String) : Ty :=
  let s := Text.trim s
  (builtins.find? (·.name == s)).getD (named ⟨s⟩)

/-- Reading the name of a builtin type gives the type back. -/
theorem ofName_name {t : Ty} (h : t ∈ builtins) : ofName t.name = t := by
  revert t
  decide +kernel

/-- The name under which a catalog describes the type. -/
def typeName (t : Ty) : TypeName := ⟨t.name⟩

@[simp]
theorem typeName_named (t : TypeName) : (named t).typeName = t := rfl

/-- The raw primitives, the only types without null. -/
def isRaw : Ty → Bool
  | raw _ => true
  | _ => false

/-- The types to which null belongs. -/
def isNullable (t : Ty) : Bool := !t.isRaw

/-- The top type alone. -/
def isTop : Ty → Bool
  | object => true
  | _ => false

/-- The primitive behind a raw or boxed type. -/
def prim? : Ty → Option Prim
  | raw p | boxed p => some p
  | _ => none

/-- A rendering that shows the form of the type as well as its name. -/
def inspect : Ty → String
  | raw p => "Raw(" ++ p.kindName ++ ")"
  | boxed p => "Boxed(" ++ p.kindName ++ ")"
  | decimal => "Decimal"
  | string => "String"
  | sequence => "Sequence"
  | object => "Object"
  | objectArray => "ObjectArray"
  | type => "Type"
  | named t => "Named(" ++ t.inspect ++ ")"

end Ty

end Dispatch
