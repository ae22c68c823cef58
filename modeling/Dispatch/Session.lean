import Dispatch.Dispatcher

/-!
# Sessions

A session is a run of a dispatcher and of its registry, one `Step` after another. A step is an
operation as a value, and `Step.perform` carries it out and gives an `Answer`; so the states that
a dispatcher can reach are those after some list of steps, `Dispatcher.after`.

Steps on the registry serve those who look behind a dispatcher. They may ask the catalog and so
change what is known, but touch neither the host nor what has been remembered.
-/

namespace Dispatch

/-! ### Steps -/

/-- A step on the registry alone. -/
inductive RegistryStep
  | register (t : TypeName)
  | load (t : TypeName)
  | importText (scanner : Scanner) (text : String)
  | methods (t : TypeName) (name : String)
  | constructors (t : TypeName)
  | field (t : TypeName) (name : String)
  | hasMethod (t : TypeName) (name : String)
  | simpleNameOf (t : TypeName)
  | info (t : TypeName)
  | nestedNamed (t : TypeName) (simple : String)
  | isSubtype (sub sup : TypeName)
  | isSequence (t : Ty)
  /-- The score of every argument for every parameter. -/
  | scoreTable (recast : Bool) (args : List Value) (params : List Ty)
  /-- The scores of the methods of a name, or of the constructors. -/
  | scoreMembers (recast : Bool) (t : TypeName) (name : Option String) (args : List Value)

/-- A step of a session. -/
inductive Step
  | call (receiver : Value) (name : String) (args : List Value)
  | resolve (receiver : Value) (name : String) (args : List Value)
  | findMethod (receiver : Value) (name : String) (args : List Value)
  | findConstructor (t : TypeName) (args : List Value)
  | construct (t : TypeName) (args : List Value)
  | constructNamed (simple : String) (args : List Value)
  | findField (receiver : Value) (name : String)
  | getField (receiver : Value) (name : String)
  | getFieldOrNested (receiver : Value) (name : String)
  | setField (receiver : Value) (name : String) (value : Value)
  | run (request : Request)
  | importText (text : String)
  | setRecast (on : Bool)
  | registry (step : RegistryStep)

/-! ### Answers -/

/-- The answer to a step on the registry. -/
inductive RegistryAnswer
  | truth (b : Bool)
  | imported (outcome : Except ImportError Imported)
  | overloads (os : List Overload)
  | field (f : Option Field)
  | simpleName (simple : Option String)
  | info (info : Option TypeInfo)
  | nested (nested : Option NestedType)
  /-- One row for each argument. -/
  | scoreTable (rows : List (List (Option Nat)))
  | scores (scores : List (Overload × Option Nat)) (selected : Option (Overload × Nat))

/-- The answer to a step that succeeded. -/
inductive Answer
  | value (v : Value)
  | binding (b : Binding)
  | overload (o : Overload)
  | field (f : Field)
  | written
  | imported (outcome : Imported)
  | recastSet
  | registry (answer : RegistryAnswer)

/-! ### Running -/

/-- Carries out a step on the registry. -/
def RegistryStep.perform (c : Catalog) : RegistryStep → RegistryM RegistryAnswer
  | register t => .truth <$> Registry.register c t
  | load t => .truth <$> Registry.load c t
  | importText scanner text => .imported <$> Registry.importText c scanner text
  | methods t name => .overloads <$> Registry.methods c t name
  | constructors t => .overloads <$> Registry.constructors c t
  | field t name => .field <$> Registry.field? c t name
  | hasMethod t name => .truth <$> Registry.hasMethod c t name
  | simpleNameOf t => .simpleName <$> Registry.simpleNameOf? c t
  | info t => .info <$> Registry.info? c t
  | nestedNamed t simple => .nested <$> Registry.nestedNamed? c t simple
  | isSubtype sub sup => .truth <$> Registry.isSubtype c sub sup
  | isSequence t => .truth <$> Registry.isSequence c t
  | scoreTable recast args params =>
    .scoreTable <$> args.mapM fun v => params.mapM fun p => Registry.scoreArgument? c recast v p
  | scoreMembers recast t name args => do
    let os ← match name with
      | some name => Registry.methods c t name
      | none => Registry.constructors c t
    return .scores (← Registry.scores c recast args os) (← Registry.select? c recast args os)

/-- Carries out a step. -/
def Step.perform {σ : Type} (d : Dispatcher σ) : Step → DispatchM σ Answer
  | call v name args => .value <$> d.call v name args
  | resolve v name args => .binding <$> d.resolve v name args
  | findMethod v name args => .overload <$> d.findMethod v name args
  | findConstructor t args => .overload <$> d.findConstructor t args
  | construct t args => .value <$> d.construct t args
  | constructNamed simple args => .value <$> d.constructNamed simple args
  | findField v name => .field <$> d.findField v name
  | getField v name => .value <$> d.getField v name
  | getFieldOrNested v name => .value <$> d.getFieldOrNested v name
  | setField v name value => (fun _ => .written) <$> d.setField v name value
  | run request => .value <$> d.run request
  | importText text => .imported <$> d.importText text
  | setRecast on => (fun _ => .recastSet) <$> Dispatcher.setRecast on
  | registry step => .registry <$> .onRegistry (step.perform d.catalog)

namespace Dispatcher

variable {σ : Type} (d : Dispatcher σ)

/-- The answer to a step in a given state, and the state after it. -/
def answer (step : Step) (s : State σ) : Except DispatchError Answer × State σ :=
  StateT.run (ExceptT.run (step.perform d)) s

/-- The state after a list of steps, whether or not they succeed. -/
def after (steps : List Step) (s : State σ) : State σ :=
  steps.foldl (fun s step => (d.answer step s).2) s

end Dispatcher

end Dispatch
