import Dispatch.Registry.Basic

/-!
# Imports

An import text names a namespace, as `pkg` or `pkg.*`, or a type, as `pkg.Type`, possibly a nested
one written with dots. A scanner finds the types meant, and those of them that can stand on their
own are registered: a nested type that needs an instance of its enclosing type is reached through
that type instead.

A text is processed once; a text that finds nothing is an error and is not remembered.
-/

namespace Dispatch

/-- The outcome of an import that found something. -/
inductive Imported
  /-- The text had been processed before. -/
  | cached
  /-- The number of registrations made. -/
  | fresh (count : Nat)
deriving DecidableEq

/-- Why an import failed. -/
inductive ImportError
  | nothingFound (text : String)
  | noScanner (text : String)
deriving DecidableEq

/-- The failure in words. -/
def ImportError.message : ImportError → String
  | nothingFound text => "nothing to import for `" ++ text ++ "`"
  | noScanner text => "no namespace scanner configured; cannot import `" ++ text ++ "`"

/-- The namespace of an import text that ends in a wildcard. -/
def wildcardNamespace? (text : String) : Option String :=
  match text.toList.reverse with
  | '*' :: '.' :: ns => some (.ofList ns.reverse)
  | _ => none

namespace Registry

/-! ### Finding what a text names -/

/-- The types in a namespace. -/
def scan (scanner : Scanner) (ns : String) : RegistryM (List TypeName) := do
  modify (log (.typesIn ns))
  return scanner.typesIn ns

/-- The type of the first name in a list that the scanner knows. -/
def findFirst (scanner : Scanner) : List String → RegistryM (Option TypeName)
  | [] => return none
  | name :: rest => do
    modify (log (.findType name))
    match scanner.find? name with
    | some t => return some t
    | none => findFirst scanner rest

/-- The types that an import text names: those of the namespace, or else the one of the path. -/
def findNamed (scanner : Scanner) (text : String) : RegistryM (List TypeName) := do
  match wildcardNamespace? text with
  | some ns => scan scanner ns
  | none =>
    let found ← scan scanner text
    if found.isEmpty then return (← findFirst scanner (pathReadings text)).toList
    else return found

/-! ### Importing -/

/-- Whether an import registers a type: it has to be top-level or static. -/
def isImportable (info : TypeInfo) : Bool := !info.isNested || info.isStatic

/-- Registers a found type if the catalog describes it and it can stand on its own. -/
def importType (c : Catalog) (t : TypeName) : RegistryM Bool := do
  match ← info? c t with
  | none => return false
  | some info => if isImportable info then register c t else return false

/-- Imports found types one after another and counts the registrations. -/
def importAll (c : Catalog) : List TypeName → RegistryM Nat
  | [] => return 0
  | t :: rest => do
    let registered ← importType c t
    let count ← importAll c rest
    return (if registered then 1 else 0) + count

/-- Processes an import text. -/
def importText (c : Catalog) (scanner : Scanner) (text : String) :
    RegistryM (Except ImportError Imported) := do
  if (← get).wasImported text then return .ok .cached
  let found ← findNamed scanner text
  if found.isEmpty then return .error (.nothingFound text)
  let count ← importAll c found
  modify fun r => { r with imports := r.imports ++ [text] }
  return .ok (.fresh count)

end Registry

end Dispatch
