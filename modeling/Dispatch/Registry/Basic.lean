import Dispatch.Hierarchy
import Dispatch.Member

/-!
# The registry

The registry stands between dispatch and a catalog. It keeps every description, listing and
member table it has obtained, and also which types the catalog does not know, so that nothing is
asked twice; and it keeps the table of simple names through which imported types are found.

A type is *registered* once a simple name has been pointed to it, by an import or on first use,
and *loaded* once its members have been collected. Descriptions obtained for other reasons leave a
type unregistered. Nothing is ever removed.

Every question to the catalog or a scanner is logged in `Registry.asked` before it is answered.
-/

namespace Dispatch

/-- Something asked of a catalog or a scanner. -/
inductive Question
  | describe (t : TypeName)
  | members (t : TypeName)
  | typesIn (ns : String)
  | findType (name : String)
deriving DecidableEq

/-- A simple name that was pointed from one type to another. -/
structure Collision where
  simple : String
  replaced : TypeName
  winner : TypeName
deriving DecidableEq

/-- The collision in words. -/
def Collision.display (c : Collision) : String :=
  "simple name `" ++ c.simple ++ "` re-pointed from " ++ c.replaced.full ++ " to " ++ c.winner.full

/-- What the registry keeps of a type that the catalog describes. -/
structure Registry.Entry where
  info : TypeInfo
  /-- The answer to the question for a listing, once asked. -/
  listing : Option (Option Listing) := none
  /-- The members, once collected. -/
  members : Option Members := none
deriving DecidableEq

/-- The state of a registry. -/
structure Registry where
  entries : Table TypeName Registry.Entry := .empty
  /-- The types that the catalog turned out not to describe. -/
  unknown : List TypeName := []
  /-- The types registered so far, oldest first; a type stands here once for each registration. -/
  registrations : List TypeName := []
  /-- The type that each simple name points to. -/
  simpleNames : Table String TypeName := .empty
  /-- The collisions so far, oldest first. -/
  collisions : List Collision := []
  /-- The import texts processed so far. -/
  imports : List String := []
  /-- The questions asked so far, oldest first. -/
  asked : List Question := []

/-- Computations on a registry. -/
abbrev RegistryM := StateM Registry

namespace Registry

instance : Inhabited Registry := ⟨{}⟩

/-! ### What a state shows -/

/-- The entry of a type. -/
def find? (r : Registry) (t : TypeName) : Option Entry := r.entries.find? t

/-- Whether a type is registered. -/
def isRegistered (r : Registry) (t : TypeName) : Bool := t ∈ r.registrations

/-- Whether the members of a type have been collected. -/
def isLoaded (r : Registry) (t : TypeName) : Bool := (r.find? t).any (·.members.isSome)

/-- The type most recently registered under a simple name. -/
def named? (r : Registry) (simple : String) : Option TypeName := r.simpleNames.find? simple

/-- Whether a simple name points to a registered type. -/
def isImported (r : Registry) (simple : String) : Bool := (r.named? simple).any r.isRegistered

/-- Whether an import text has been processed. -/
def wasImported (r : Registry) (text : String) : Bool := text ∈ r.imports

/-- The number of registered types. -/
def size (r : Registry) : Nat := r.entries.keys.countP r.isRegistered

/-- The sizes of the tables, without their contents. -/
def inspect (r : Registry) : String :=
  "MemberRegistry \x7b types: " ++ toString r.entries.size ++ ", simple_names: " ++
    toString r.simpleNames.size ++ ", .. \x7d"

/-! ### Changes of state -/

/-- The registry with one more question in its log. -/
def log (q : Question) (r : Registry) : Registry := { r with asked := r.asked ++ [q] }

/-- The registry with the entry of a type changed, if it has one. -/
def update (t : TypeName) (f : Entry → Entry) (r : Registry) : Registry :=
  { r with entries := r.entries.modify t f }

/-- The registry after it has met a type: a new one is described by the catalog and kept, or kept
as unknown. -/
def learn (c : Catalog) (t : TypeName) (r : Registry) : Registry :=
  if r.entries.contains t || decide (t ∈ r.unknown) then r
  else
    let r := r.log (.describe t)
    match c.describe t with
    | some info => { r with entries := r.entries.insert t { info } }
    | none => { r with unknown := r.unknown ++ [t] }

/-- The registry after the listing of a type has been asked for, which happens once. -/
def learnListing (c : Catalog) (t : TypeName) (r : Registry) : Registry :=
  match r.find? t with
  | some { listing := none, .. } =>
    (r.log (.members t)).update t fun e => { e with listing := some (c.members t) }
  | _ => r

/-- The collision that arises when a simple name is pointed to a type, if any. -/
def collision? (simple : String) (t : TypeName) (r : Registry) : Option Collision :=
  match r.named? simple with
  | some previous => if previous = t then none else some ⟨simple, previous, t⟩
  | none => none

/-- The registry with one more registration, which points a simple name to the type. -/
def enroll (simple : String) (t : TypeName) (r : Registry) : Registry :=
  { r with
    registrations := r.registrations ++ [t]
    simpleNames := r.simpleNames.insert simple t
    collisions := r.collisions ++ (r.collision? simple t).toList }

@[simp]
theorem find?_log (q : Question) (r : Registry) (t : TypeName) :
    (r.log q).find? t = r.find? t := rfl

@[simp]
theorem find?_update (t u : TypeName) (f : Entry → Entry) (r : Registry) :
    (r.update t f).find? u = if u = t then (r.find? u).map f else r.find? u :=
  Table.find?_modify r.entries t u f

@[simp]
theorem isRegistered_enroll (simple : String) (t u : TypeName) (r : Registry) :
    (r.enroll simple t).isRegistered u = (r.isRegistered u || u == t) := by
  simp [isRegistered, enroll, Bool.beq_eq_decide_eq]

/-- The latest registration under a simple name wins. -/
@[simp]
theorem named?_enroll (simple s : String) (t : TypeName) (r : Registry) :
    (r.enroll simple t).named? s = if s = simple then some t else r.named? s :=
  Table.find?_insert r.simpleNames simple s t

/-! ### Descriptions -/

/-- The entry of a type, which the catalog describes on first sight. -/
def entryOf? (c : Catalog) (t : TypeName) : RegistryM (Option Entry) := do
  modify (learn c t)
  return (← get).find? t

/-- The description of a type. -/
def info? (c : Catalog) (t : TypeName) : RegistryM (Option TypeInfo) := do
  return (← entryOf? c t).map (·.info)

/-- The simple name by which the catalog knows a type. -/
def simpleNameOf? (c : Catalog) (t : TypeName) : RegistryM (Option String) := do
  return (← info? c t).map (·.simple)

/-- The type nested in `t` under a simple name. -/
def nestedNamed? (c : Catalog) (t : TypeName) (simple : String) :
    RegistryM (Option NestedType) := do
  return (← info? c t).bind (·.nestedNamed? simple)

/-- Whether `sup` is `sub` or one of the types above it. -/
def isSubtype (c : Catalog) (sub sup : TypeName) : RegistryM Bool :=
  Hierarchy.reaches (info? c) (c.above sub) sub sup

/-! ### Registration -/

/-- Registers a type that the catalog describes and points its simple name to it, each time anew,
so the latest registration wins. The answer is whether the catalog describes the type. -/
def register (c : Catalog) (t : TypeName) : RegistryM Bool := do
  match ← entryOf? c t with
  | none => return false
  | some e =>
    modify (enroll e.info.simple t)
    return true

/-! ### Members -/

/-- A type with its listing. The type is expected to have an entry. -/
def level (c : Catalog) (t : TypeName) : RegistryM Members.Level := do
  modify (learnListing c t)
  return (t, ((← get).find? t).bind fun e => e.listing.join)

/-- The members of a type, collected from its hierarchy. A type that is not public shows none, and
an enumeration shows no constructors. -/
def collect (c : Catalog) (t : TypeName) (info : TypeInfo) : RegistryM Members := do
  if !info.isPublic then return {}
  let own ← if info.isEnumeration then pure none else some <$> level c t
  let steps ← Hierarchy.levels (info? c) (c.above t) t
  let levels ← steps.mapM fun step => level c step.1
  return .collect own levels

/-- The members of a type that the catalog describes, collected on first use. -/
def members? (c : Catalog) (t : TypeName) : RegistryM (Option Members) := do
  match ← entryOf? c t with
  | none => return none
  | some e =>
    match e.members with
    | some found => return some found
    | none =>
      let found ← collect c t e.info
      modify (update t fun e => { e with members := some found })
      return some found

/-- Loads a type. The answer is whether the catalog describes it. -/
def load (c : Catalog) (t : TypeName) : RegistryM Bool := do
  return (← members? c t).isSome

/-- The methods of a given name on a type, inherited ones included. -/
def methods (c : Catalog) (t : TypeName) (name : String) : RegistryM (List Overload) := do
  return (← members? c t).elim [] (·.methodsNamed name)

/-- The constructors of a type. -/
def constructors (c : Catalog) (t : TypeName) : RegistryM (List Overload) := do
  return (← members? c t).elim [] (·.constructors)

/-- The field of a given name on a type, inherited ones included. -/
def field? (c : Catalog) (t : TypeName) (name : String) : RegistryM (Option Field) := do
  return (← members? c t).bind (·.fieldNamed? name)

/-- Whether a type has a method of a given name. -/
def hasMethod (c : Catalog) (t : TypeName) (name : String) : RegistryM Bool := do
  return !(← methods c t name).isEmpty

end Registry

end Dispatch
