import Dispatch.Catalog

/-!
# Declared types

A host without introspection describes its types by declarations made up front. A `Declaration`
opens with the name of a type, top-level or nested in another, and goes on with clauses, each of
which states one thing about it. `Declarations.declare` records a declaration; the result can be
read as a catalog and scanned for imports.

Declaring a type again replaces what was recorded and keeps its place in the order. Every clause
that declares a member takes the next target number, and an abandoned declaration leaves its
numbers taken, so no two recorded members share one.
-/

namespace Dispatch

/-! ### The form of a declaration -/

/-- How a declaration names its type. -/
inductive Heading
  | topLevel (name : TypeName)
  | nested (outer : TypeName) (simple : String) (isStatic : Bool)
deriving DecidableEq

/-- One statement about the type being declared. -/
inductive Clause
  | interface
  | enumeration
  /-- The type is not public. -/
  | restricted
  | superclass (t : TypeName)
  | implements (t : TypeName)
  | constructor (params : List Ty) (isPublic : Bool)
  | method (name : String) (params : List Ty) (isStatic isPublic : Bool)
  | field (name : String) (ty : Ty) (isStatic : Bool)
  /-- A constant of an enumeration. -/
  | constant (name : String)
deriving DecidableEq

/-- The declaration of one type. An abandoned declaration records nothing. -/
structure Declaration where
  heading : Heading
  clauses : List Clause
  abandoned : Bool := false
deriving DecidableEq

/-! ### Types under declaration -/

/-- A type under declaration. -/
structure Draft where
  info : TypeInfo
  listing : Listing := {}
deriving DecidableEq, Inhabited

/-- The draft that a heading opens. -/
def Heading.draft : Heading → Draft
  | topLevel name => { info := .topLevel name }
  | nested outer simple isStatic =>
    { info :=
        { name := outer.nested simple
          simple := simple
          isStatic := isStatic
          enclosing := some outer } }

/-- Whether a clause declares a member and so takes a target number. -/
def Clause.declaresMember : Clause → Bool
  | constructor .. | method .. | field .. | constant .. => true
  | interface | enumeration | restricted | superclass _ | implements _ => false

namespace Draft

/-- The draft with a method at the end of its listing. -/
def addMethod (draft : Draft) (m : MethodDecl) : Draft :=
  { draft with listing := { draft.listing with methods := draft.listing.methods ++ [m] } }

/-- The draft with a constructor at the end of its listing. -/
def addConstructor (draft : Draft) (c : ConstructorDecl) : Draft :=
  { draft with listing := { draft.listing with constructors := draft.listing.constructors ++ [c] } }

/-- The draft with a field at the end of its listing. -/
def addField (draft : Draft) (f : FieldDecl) : Draft :=
  { draft with listing := { draft.listing with fields := draft.listing.fields ++ [f] } }

/-- The draft after one more clause. A member gets the given target number. -/
def add (draft : Draft) (target : Nat) : Clause → Draft
  | .interface => { draft with info := { draft.info with kind := .interface } }
  | .enumeration => { draft with info := { draft.info with kind := .enumeration } }
  | .restricted => { draft with info := { draft.info with isPublic := false } }
  | .superclass t => { draft with info := { draft.info with superclass := some t } }
  | .implements t =>
    { draft with info := { draft.info with interfaces := draft.info.interfaces ++ [t] } }
  | .constructor params isPublic => draft.addConstructor { params, isPublic, target }
  | .method name params isStatic isPublic =>
    draft.addMethod { name, params, isStatic, isPublic, target }
  | .field name ty isStatic => draft.addField { name, type := ty, isStatic, target }
  | .constant name =>
    draft.addField
      { name, type := .named draft.info.name, isStatic := true, isConstant := true, target }

/-- The constructors with an enclosing instance for their first parameter. -/
def bindEnclosing (outer : TypeName) (cs : List ConstructorDecl) : List ConstructorDecl :=
  cs.map fun c => { c with params := .named outer :: c.params }

/-- The draft as it is recorded: the constructors of a nested type that is not static take the
enclosing instance. -/
def finish (draft : Draft) : Draft :=
  match draft.info.enclosing with
  | some outer =>
    if draft.info.isStatic then draft
    else
      { draft with
        listing :=
          { draft.listing with
            constructors := bindEnclosing outer draft.listing.constructors } }
  | none => draft

end Draft

/-! ### Recorded declarations -/

/-- The types declared so far, in order, and the number of targets taken.

The one table stands for three stores: the list of the names in the order of their declaration, the
map from names to descriptions and the map from names to listings. They are only ever written
together, by `declare` and for one name, so the names in the list are those that have a description
and those that have a listing. The agreement of descriptions and listings that `Coherent` states
rests on this shape. -/
structure Declarations where
  types : Table TypeName Draft := .empty
  targets : Nat := 0

namespace Declarations

instance : Inhabited Declarations := ⟨{}⟩

/-- The draft after its clauses, and the number of targets taken then. -/
def addClauses : List Clause → Draft × Nat → Draft × Nat
  | [], state => state
  | clause :: rest, (draft, targets) =>
    addClauses rest
      (draft.add (targets + 1) clause, if clause.declaresMember then targets + 1 else targets)

/-- Records a declaration. -/
def declare (ds : Declarations) (d : Declaration) : Declarations :=
  let (draft, targets) := addClauses d.clauses (d.heading.draft, ds.targets)
  let draft := draft.finish
  { types := if d.abandoned then ds.types else ds.types.insert draft.info.name draft
    targets := targets }

/-- Declarations recorded one after another. -/
def ofList (ds : List Declaration) : Declarations := ds.foldl declare {}

/-! ### Reading declarations -/

/-- Whether a type is declared. -/
def contains (ds : Declarations) (t : TypeName) : Bool := ds.types.contains t

/-- The types declared to be nested in `t`, in declaration order. -/
def nestedIn (ds : Declarations) (t : TypeName) : List NestedType :=
  (ds.types.values.filter (·.info.enclosing == some t)).map fun draft =>
    { simple := draft.info.simple
      name := draft.info.name
      needsEnclosing := !draft.info.isStatic }

/-- The description of a declared type, with the nested types declared by now. -/
def describe (ds : Declarations) (t : TypeName) : Option TypeInfo :=
  (ds.types.find? t).map fun draft => { draft.info with nested := ds.nestedIn t }

/-- The members of a declared type. -/
def members (ds : Declarations) (t : TypeName) : Option Listing :=
  (ds.types.find? t).map (·.listing)

/-- The declared types directly in a namespace, in declaration order. -/
def typesIn (ds : Declarations) (ns : String) : List TypeName :=
  ds.types.keys.filter (·.namespace? == some ns)

/-- The declared type of a given name. -/
def findType? (ds : Declarations) (name : String) : Option TypeName :=
  if ds.contains ⟨name⟩ then some ⟨name⟩ else none

/-- The declarations as a table of descriptions and listings. -/
def entries (ds : Declarations) : Table TypeName Catalog.Entry where
  entries := ds.types.entries.map fun e =>
    (e.1, { info := { e.2.info with nested := ds.nestedIn e.1 }, listing := some e.2.listing })

/-- The declarations as a catalog. -/
def catalog (ds : Declarations) : Catalog := .ofTable ds.entries

/-- The declarations as a scanner. -/
def scanner (ds : Declarations) : Scanner where
  typesIn := ds.typesIn
  find? := ds.findType?

end Declarations

end Dispatch
