import Dispatch.Proofs.Scoring.Meaning
import Dispatch.Resolution

/-!
# Resolution as a function of the catalog

What a name resolves to is given by the catalog, the receiver and the arguments. The functions
here say what it is, and the lemmas named `asks_…` and `yields_…` that resolution on a registry
computes it, failures included, whatever the registry knows. None of these failures comes from the
host (`Catalog.notFromHost_resolve`).
-/

namespace Dispatch

namespace Catalog

variable (c : Catalog) (recast : Bool)

/-- The overload of `os` selected for the arguments, where `os` is what `name` stands for on `t`. -/
def select (t : TypeName) (name : String) (args : List Value) (os : List Overload) :
    Except DispatchError Overload :=
  if os.isEmpty then .error (.noSuchMember t name)
  else
    match c.select? recast args os with
    | some best => .ok best.1
    | none => .error (.noSuchOverload t name (args.map Value.type?))

/-- The constructor of `t` selected for the arguments. -/
def selectConstructor (t : TypeName) (args : List Value) : Except DispatchError Overload :=
  c.select recast t t.simple args (c.constructors t)

/-- The method of `t` selected for the arguments. -/
def selectMethod (t : TypeName) (name : String) (args : List Value) :
    Except DispatchError Overload :=
  c.select recast t name args (c.methods t name)

/-- The field of `t` with the given name, or why there is none. -/
def findField (t : TypeName) (name : String) : Except DispatchError Field :=
  match c.field? t name with
  | some f => .ok f
  | none => .error (.noSuchMember t name)

/-- The binding of a nested type's name. -/
def resolveNested (receiver : Receiver) (nested : NestedType) (args : List Value) :
    Except DispatchError Binding :=
  if !nested.needsEnclosing then
    (c.selectConstructor recast nested.name args).map (.nestedConstructor nested.name · false)
  else
    match receiver.instance? with
    | none => .error (.ambiguousBinding receiver.type nested.name)
    | some outer =>
      (c.selectConstructor recast nested.name (outer :: args)).map
        (.nestedConstructor nested.name · true)

/-- The binding of a name that is called. -/
def resolve (receiver : Receiver) (name : String) (args : List Value) :
    Except DispatchError Binding :=
  if (c.describe receiver.type).map (·.simple) = some name then
    (c.selectConstructor recast receiver.type args).map .constructor
  else
    match (c.describe receiver.type).bind (·.nestedNamed? name) with
    | some nested => c.resolveNested recast receiver nested args
    | none => (c.selectMethod recast receiver.type name args).map .method

end Catalog

/-! ### Failures of a resolution -/

/-- Whether an error came from the host. -/
def DispatchError.isHostFailure : DispatchError → Bool
  | hostFailed .. => true
  | _ => false

/-- A failure, if there is one, did not come from the host. -/
def NotFromHost {α : Type} (x : Except DispatchError α) : Prop :=
  ∀ e, x = .error e → e.isHostFailure = false

section NotFromHost

variable {α β : Type}

theorem NotFromHost.ok (a : α) : NotFromHost (.ok a) := fun _ h => by cases h

theorem NotFromHost.error {e : DispatchError} (he : e.isHostFailure = false) :
    NotFromHost (.error e : Except DispatchError α) := by
  intro e' h
  rwa [← Except.error.inj h]

theorem NotFromHost.map {x : Except DispatchError α} (h : NotFromHost x) (f : α → β) :
    NotFromHost (x.map f) := by
  cases x with
  | error e => exact .error (h e rfl)
  | ok a => exact .ok (f a)

end NotFromHost

namespace Catalog

variable (c : Catalog) (recast : Bool)

/-- A selection fails for want of a member or of an overload. -/
theorem notFromHost_select (t : TypeName) (name : String) (args : List Value)
    (os : List Overload) : NotFromHost (c.select recast t name args os) := by
  unfold select
  split
  · exact .error rfl
  · split
    · exact .ok _
    · exact .error rfl

/-- A field that is missing fails as a member that is missing. -/
theorem notFromHost_findField (t : TypeName) (name : String) :
    NotFromHost (c.findField t name) := by
  unfold findField
  split
  · exact .ok _
  · exact .error rfl

/-- Whatever a name is taken for, the failure of a resolution is its own. -/
theorem notFromHost_resolve (r : Receiver) (name : String) (args : List Value) :
    NotFromHost (c.resolve recast r name args) := by
  have hselect : ∀ t args, NotFromHost (c.selectConstructor recast t args) := fun t args =>
    c.notFromHost_select recast t _ args _
  unfold resolve
  split
  · exact (hselect _ _).map _
  · split
    · unfold resolveNested
      split
      · exact (hselect _ _).map _
      · split
        · exact .error rfl
        · exact (hselect _ _).map _
    · exact (c.notFromHost_select recast _ _ _ _).map _

end Catalog

/-! ### Resolution on a registry -/

namespace ResolveM

variable {α β : Type} {c : Catalog}

/-- On every registry that agrees with the catalog, a computation that may fail gives `x`. -/
def Yields (c : Catalog) (run : ResolveM α) (x : Except DispatchError α) : Prop :=
  RegistryM.Yields c (ExceptT.run run) x

/-- A computation that may fail asks for descriptions and members of types, and gives `x` if they
are what the catalog says. -/
def Asks (c : Catalog) (run : ResolveM α) (x : Except DispatchError α) : Prop :=
  RegistryM.Asks c (ExceptT.run run) x

namespace Asks

theorem yields {run : ResolveM α} {x : Except DispatchError α} (h : Asks c run x) :
    Yields c run x := RegistryM.Asks.yields h

theorem pure (a : α) : Asks c (Pure.pure a) (.ok a) := RegistryM.Asks.pure _

theorem throw (e : DispatchError) : Asks c (throw e : ResolveM α) (.error e) :=
  RegistryM.Asks.pure _

/-- A computation that follows may assume what the first one gives. -/
theorem bind {run : ResolveM α} {x : Except DispatchError α} {f : α → ResolveM β}
    {g : α → Except DispatchError β} (hrun : Asks c run x)
    (hf : ∀ a, x = .ok a → Asks c (f a) (g a)) : Asks c (run >>= f) (x.bind g) := by
  unfold Asks
  rw [ExceptT.run_bind]
  refine RegistryM.Asks.bind hrun ?_
  cases x with
  | error e => exact RegistryM.Asks.pure _
  | ok a => exact hf a rfl

theorem map {run : ResolveM α} {x : Except DispatchError α} (hrun : Asks c run x) (g : α → β) :
    Asks c (run >>= fun a => Pure.pure (g a)) (x.map g) := by
  have h := hrun.bind fun a _ => Asks.pure (g a)
  cases x <;> exact h

/-- What follows a computation on the registry may assume its answer. -/
theorem after {run : RegistryM α} {a : α} {f : α → ResolveM β} {x : Except DispatchError β}
    (hrun : RegistryM.Asks c run a) (hf : Asks c (f a) x) :
    Asks c ((run : ResolveM α) >>= f) x := by
  have hlift : Asks c (run : ResolveM α) (.ok a) := hrun.map Except.ok
  have hnext : ∀ b, (.ok a : Except DispatchError α) = .ok b → Asks c (f b) x := by
    intro b hb
    rw [← Except.ok.inj hb]
    exact hf
  exact hlift.bind hnext

end Asks

end ResolveM

namespace Resolution

open ResolveM

variable {c : Catalog} {recast : Bool}

theorem asks_select (t : TypeName) (name : String) (args : List Value) (os : List Overload) :
    Asks c (select c recast t name args os) (c.select recast t name args os) := by
  unfold select Catalog.select
  cases os.isEmpty with
  | true => exact .throw _
  | false =>
    refine .after (Registry.asks_select? args os) ?_
    cases c.select? recast args os with
    | none => exact .throw _
    | some best => exact .pure best.1

/-- The constructor selected on a registry is the one selected on the catalog. -/
theorem asks_selectConstructor (t : TypeName) (args : List Value) :
    Asks c (selectConstructor c recast t args) (c.selectConstructor recast t args) :=
  .after (Registry.asks_constructors t) (asks_select _ _ _ _)

/-- The method selected on a registry is the one selected on the catalog. -/
theorem asks_selectMethod (t : TypeName) (name : String) (args : List Value) :
    Asks c (selectMethod c recast t name args) (c.selectMethod recast t name args) :=
  .after (Registry.asks_methods t name) (asks_select _ _ _ _)

theorem asks_findField (t : TypeName) (name : String) :
    Asks c (findField c t name) (c.findField t name) := by
  refine .after (Registry.asks_field? t name) ?_
  unfold Catalog.findField
  cases c.field? t name with
  | none => exact .throw _
  | some f => exact .pure f

/-- The binding of a nested type's name on a registry, with the receiver as the first argument where
one is needed. -/
theorem asks_resolveNested (receiver : Receiver) (nested : NestedType) (args : List Value) :
    Asks c (resolveNested c recast receiver nested args)
      (c.resolveNested recast receiver nested args) := by
  unfold resolveNested Catalog.resolveNested
  cases nested.needsEnclosing with
  | false => exact (asks_selectConstructor _ _).map _
  | true =>
    cases receiver.instance? with
    | none => exact .throw _
    | some outer => exact (asks_selectConstructor _ _).map _

/-- The name of a call is tried on a registry in the order of the catalog: the receiver's own simple
name, a nested type, a method. -/
theorem asks_resolve (receiver : Receiver) (name : String) (args : List Value) :
    Asks c (resolve c recast receiver name args) (c.resolve recast receiver name args) := by
  unfold resolve Catalog.resolve
  refine .after (Registry.asks_simpleNameOf? receiver.type) ?_
  split
  · exact (asks_selectConstructor _ _).map _
  · refine .after (Registry.asks_nestedNamed? receiver.type name) ?_
    cases (c.describe receiver.type).bind (·.nestedNamed? name) with
    | none => exact (asks_selectMethod _ _ _).map _
    | some nested => exact asks_resolveNested _ _ _

theorem yields_selectConstructor (t : TypeName) (args : List Value) :
    Yields c (selectConstructor c recast t args) (c.selectConstructor recast t args) :=
  (asks_selectConstructor t args).yields

theorem yields_selectMethod (t : TypeName) (name : String) (args : List Value) :
    Yields c (selectMethod c recast t name args) (c.selectMethod recast t name args) :=
  (asks_selectMethod t name args).yields

theorem yields_findField (t : TypeName) (name : String) :
    Yields c (findField c t name) (c.findField t name) := (asks_findField t name).yields

theorem yields_resolve (receiver : Receiver) (name : String) (args : List Value) :
    Yields c (resolve c recast receiver name args) (c.resolve recast receiver name args) :=
  (asks_resolve receiver name args).yields

end Resolution

end Dispatch
