import Dispatch.Catalog

/-!
# Members

An `Overload` is a method or constructor that a call may select, and a `Field` one that may be
read or written; both know the type that declares them. `Members` holds what can be reached on a
type, inherited members included, and `Members.collect` computes it from the listings of the type
and of the types it inherits from, most derived first: of several methods with one signature, and
of several fields with one name, the first is kept.
-/

namespace Dispatch

/-! ### Overloads and fields -/

/-- One constructor or method among those a name may select. -/
structure Overload where
  /-- The type that declares it. -/
  owner : TypeName
  name : String
  params : List Ty
  isStatic : Bool
  target : Nat
deriving DecidableEq, Inhabited

namespace Overload

/-- A method of the type that declares it. -/
def ofMethod (owner : TypeName) (m : MethodDecl) : Overload :=
  { owner, name := m.name, params := m.params, isStatic := m.isStatic, target := m.target }

/-- A constructor. It goes by the simple name of its type and needs no receiver. -/
def ofConstructor (owner : TypeName) (c : ConstructorDecl) : Overload :=
  { owner, name := owner.simple, params := c.params, isStatic := true, target := c.target }

/-- Name and parameter types, as in `name(int, String)`. -/
def signature (o : Overload) : String :=
  o.name ++ "(" ++ ", ".intercalate (o.params.map Ty.name) ++ ")"

/-- The signature after the name of the owner. -/
def display (o : Overload) : String := o.owner.full ++ "." ++ o.signature

/-- Agreement in name and parameter types. -/
def sameSignature (o p : Overload) : Bool := o.name == p.name && o.params == p.params

end Overload

/-- A field, which may be a constant of an enumeration. -/
structure Field where
  /-- The type that declares it. -/
  owner : TypeName
  decl : FieldDecl
deriving DecidableEq, Inhabited

/-- The name of a field after the name of its owner. -/
def Field.display (f : Field) : String := f.owner.full ++ "." ++ f.decl.name

/-- What is handed to the host in the end. -/
inductive Member
  | overload (o : Overload)
  | field (f : Field)
deriving DecidableEq

/-- The name of a member as messages show it. -/
def Member.display : Member → String
  | overload o => o.display
  | field f => f.display

/-! ### The members of a type -/

/-- The elements that agree with no earlier one. -/
def keepFirst {α : Type} (agree : α → α → Bool) : List α → List α
  | [] => []
  | a :: rest => a :: (keepFirst agree rest).filter fun b => !agree a b

theorem keepFirst_sublist {α : Type} (agree : α → α → Bool) (l : List α) :
    (keepFirst agree l).Sublist l := by
  induction l with
  | nil => exact .slnil
  | cons a rest ih => exact (List.filter_sublist.trans ih).cons_cons a

/-- Of the elements kept none agrees with a later one. -/
theorem pairwise_keepFirst {α : Type} (agree : α → α → Bool) (l : List α) :
    (keepFirst agree l).Pairwise fun a b => agree a b = false := by
  induction l with
  | nil => exact .nil
  | cons a rest ih =>
    refine List.pairwise_cons.mpr ⟨fun b hb => ?_, ih.sublist List.filter_sublist⟩
    simpa using (List.mem_filter.mp hb).2

/-- What can be reached on a type. -/
structure Members where
  constructors : List Overload := []
  methods : List Overload := []
  fields : List Field := []
deriving DecidableEq, Inhabited

namespace Members

/-- A type on the way up, with its listing if the catalog gives one. -/
abbrev Level := TypeName × Option Listing

/-- The public methods of a level. -/
def publicMethods (level : Level) : List Overload :=
  match level.2 with
  | none => []
  | some listing => (listing.methods.filter (·.isPublic)).map (.ofMethod level.1)

/-- The public fields of a level. -/
def publicFields (level : Level) : List Field :=
  match level.2 with
  | none => []
  | some listing => (listing.fields.filter (·.isPublic)).map fun f => ⟨level.1, f⟩

/-- The public constructors of a level. -/
def publicConstructors (level : Level) : List Overload :=
  match level.2 with
  | none => []
  | some listing => (listing.constructors.filter (·.isPublic)).map (.ofConstructor level.1)

/-- The members of a type from the type itself and the levels of its hierarchy. Constructors come
from the type alone, and only if it is asked for them. -/
def collect (own : Option Level) (levels : List Level) : Members where
  constructors := own.elim [] publicConstructors
  methods := keepFirst Overload.sameSignature (levels.flatMap publicMethods)
  fields := keepFirst (fun f g => f.decl.name == g.decl.name) (levels.flatMap publicFields)

/-- The methods of a given name, in the order in which they were found. -/
def methodsNamed (m : Members) (name : String) : List Overload :=
  m.methods.filter (·.name == name)

/-- The field of a given name. -/
def fieldNamed? (m : Members) (name : String) : Option Field :=
  m.fields.find? (·.decl.name == name)

end Members

end Dispatch
