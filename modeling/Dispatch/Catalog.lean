import Dispatch.Table
import Dispatch.Ty

/-!
# Catalogs

A catalog describes types without instantiating them. What it says of a type comes in two parts:
a `TypeInfo`, with names, kind, supertypes and nested types, and a `Listing` of the members
declared on the type itself. A catalog is a fixed function of type names, so it may describe more
types than can be listed; it only promises that the types above any one type lie within a finite
list, `Catalog.above`. Cycles among supertypes are allowed, and so are supertypes that the catalog
does not describe.

A `Scanner` finds types to import, by namespace or by exact name.
-/

namespace Dispatch

/-! ### Descriptions of types -/

/-- The kinds of type definition. An enumeration has constants and no constructors. -/
inductive TypeKind
  | ordinary | interface | enumeration
deriving DecidableEq, Inhabited

/-- A type declared inside another. -/
structure NestedType where
  /-- The name by which the enclosing type knows it. -/
  simple : String
  name : TypeName
  /-- Whether it is constructed from an instance of the enclosing type. -/
  needsEnclosing : Bool
deriving DecidableEq, Inhabited

/-- What a catalog says of a type apart from its members. -/
structure TypeInfo where
  name : TypeName
  simple : String
  kind : TypeKind := .ordinary
  isPublic : Bool := true
  /-- Whether a nested type is independent of instances of its enclosing type. -/
  isStatic : Bool := true
  enclosing : Option TypeName := none
  superclass : Option TypeName := none
  interfaces : List TypeName := []
  /-- The types nested in this one, in declaration order. -/
  nested : List NestedType := []
deriving DecidableEq, Inhabited

namespace TypeInfo

/-- A public class that is not nested. -/
def topLevel (t : TypeName) : TypeInfo := { name := t, simple := t.simple }

/-- Declared inside another type. -/
def isNested (info : TypeInfo) : Bool := info.enclosing.isSome

/-- An enumeration. -/
def isEnumeration (info : TypeInfo) : Bool := info.kind = .enumeration

/-- The direct supertypes: the superclass, then the interfaces in declaration order. -/
def supertypes (info : TypeInfo) : List TypeName := info.superclass.toList ++ info.interfaces

/-- The nested type known by a simple name. Of several the last one declared counts. -/
def nestedNamed? (info : TypeInfo) (simple : String) : Option NestedType :=
  info.nested.reverse.find? (·.simple == simple)

end TypeInfo

/-! ### Declared members -/

/-- A method as declared. -/
structure MethodDecl where
  name : String
  params : List Ty
  isStatic : Bool := false
  isPublic : Bool := true
  /-- The token by which the host knows the member. -/
  target : Nat
deriving DecidableEq, Inhabited

/-- A constructor as declared. If the type needs an enclosing instance, that is the first
parameter. -/
structure ConstructorDecl where
  params : List Ty
  isPublic : Bool := true
  target : Nat
deriving DecidableEq, Inhabited

/-- A field as declared. The constants of an enumeration are static fields of it. -/
structure FieldDecl where
  name : String
  type : Ty
  isStatic : Bool := false
  isPublic : Bool := true
  isConstant : Bool := false
  target : Nat
deriving DecidableEq, Inhabited

/-- The members declared on a type itself. -/
structure Listing where
  methods : List MethodDecl := []
  constructors : List ConstructorDecl := []
  fields : List FieldDecl := []
deriving DecidableEq, Inhabited

/-! ### Catalogs and scanners -/

/-- A source of descriptions in which finitely many types lie above each type. -/
structure Catalog where
  describe : TypeName → Option TypeInfo
  members : TypeName → Option Listing
  /-- A list that holds a type and everything above it. -/
  above : TypeName → List TypeName
  mem_above : ∀ t, t ∈ above t
  above_closed : ∀ {t u s : TypeName} {info : TypeInfo},
    u ∈ above t → describe u = some info → s ∈ info.supertypes → s ∈ above t

/-- A source of importable names. -/
structure Scanner where
  /-- The types directly in a namespace, nested ones included. -/
  typesIn : String → List TypeName
  /-- The type with exactly the given name. -/
  find? : String → Option TypeName

namespace Catalog

/-- What a finite catalog holds under one name. -/
structure Entry where
  info : TypeInfo
  listing : Option Listing
deriving DecidableEq, Inhabited

/-- The catalog of a table. -/
def ofTable (table : Table TypeName Entry) : Catalog where
  describe t := (table.find? t).map (·.info)
  members t := (table.find? t).bind (·.listing)
  above t := t :: table.values.flatMap (·.info.supertypes)
  mem_above t := List.mem_cons_self
  above_closed := by
    intro t u s info _ hu hs
    obtain ⟨entry, hentry, rfl⟩ := Option.map_eq_some_iff.mp hu
    refine List.mem_cons_of_mem _ (List.mem_flatMap.mpr ⟨entry, ?_, hs⟩)
    exact List.mem_map.mpr ⟨_, Table.mem_entries_of_find? hentry, rfl⟩

end Catalog

end Dispatch
