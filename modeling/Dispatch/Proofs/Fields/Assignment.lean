import Dispatch.Proofs.Dispatcher.Moves

/-!
# Assigning a field and passing an argument

A field could be written by a method with one parameter of its type, and assigning it accepts the
same values as that method would. It also hands the host the same value, unless an instance is
assigned to a field of array type: an argument would be copied element by element, and the
assignment passes it on as it is.

* `Dispatcher.setField_eq_setThroughArgument_iff`: when the two ways of writing a field agree.
-/

namespace Dispatch

/-! ### One argument -/

/-- The method that would write a field through an argument. -/
def Field.setter (f : Field) : Overload where
  owner := f.owner
  name := f.decl.name
  params := [f.decl.type]
  isStatic := f.decl.isStatic
  target := f.decl.target

/-- With one parameter the score of an overload is that of its argument. -/
theorem Registry.score?_singleton (c : Catalog) (recast : Bool) (v : Value) {o : Overload}
    {param : Ty} (ho : o.params = [param]) :
    Registry.score? c recast [v] o = Registry.scoreArgument? c recast v param := by
  have hscore : Registry.score? c recast [v] o =
      Registry.scoreArguments? c recast [param] [v] := by
    simp [Registry.score?, ho]
  rw [hscore]
  refine (bind_congr fun score => ?_).trans (bind_pure _)
  cases score <;> rfl

theorem Host.prepare_singleton {σ : Type} (h : Host σ) (v : Value) (param : Ty) :
    h.prepare [v] [param] = (do return [← h.prepareArgument v param]) := by
  simp [Host.prepare]

/-- Only an instance for an array parameter is prepared by the host. -/
theorem Host.prepareArgument_eq_pure {σ : Type} (h : Host σ) {v : Value} {param : Ty}
    (hv : ¬ ((∃ i, v = .object i) ∧ param = .objectArray)) :
    h.prepareArgument v param = pure (v.coerce param) := by
  unfold prepareArgument
  split
  · exact absurd ⟨⟨_, rfl⟩, rfl⟩ hv
  · rfl

theorem Value.coerce_object (i : Instance) : (object i).coerce .objectArray = object i := rfl

namespace Dispatcher

open DispatchM Fallible

variable {σ : Type} (d : Dispatcher σ)

/-! ### Two ways to write a field -/

/-- Writes a field that accepts the value in the way that is given. -/
def setFieldWith (write : Option Value → Field → HostM σ Unit) (v : Value) (name : String)
    (value : Value) : DispatchM σ Unit := do
  let r ← d.receiver v name
  let f ← onResolution (Resolution.findField d.catalog r.type name)
  let score ← onRegistry (Registry.scoreArgument? d.catalog (← get).recast value f.decl.type)
  if score.isNone then throw (.noSuchOverload r.type name [value.type?])
  let target ← targetOf r (.field f) f.decl.isStatic
  onHost (.field f) (write target f)

/-- Writes a field as an argument of its setter would be passed: the setter accepts the value, and
the host prepares it and has the field written with what it has prepared. -/
def setThroughArgument (v : Value) (name : String) (value : Value) : DispatchM σ Unit := do
  let r ← d.receiver v name
  let f ← onResolution (Resolution.findField d.catalog r.type name)
  let score ← onRegistry (Registry.score? d.catalog (← get).recast [value] f.setter)
  if score.isNone then throw (.noSuchOverload r.type name [value.type?])
  let target ← targetOf r (.field f) f.decl.isStatic
  onHost (.field f) do
    let prepared ← d.host.prepare [value] f.setter.params
    prepared.forM (d.host.writeField target f)

theorem setField_eq_setFieldWith (v : Value) (name : String) (value : Value) :
    d.setField v name value =
      d.setFieldWith (fun target f => d.host.writeField target f (value.coerce f.decl.type))
        v name value := rfl

theorem setThroughArgument_eq_setFieldWith (v : Value) (name : String) (value : Value) :
    d.setThroughArgument v name value =
      d.setFieldWith (fun target f => do
        d.host.writeField target f (← d.host.prepareArgument value f.decl.type))
        v name value := by
  have hscore : ∀ recast (f : Field), Registry.score? d.catalog recast [value] f.setter =
      Registry.scoreArgument? d.catalog recast value f.decl.type := fun recast f =>
    Registry.score?_singleton d.catalog recast value rfl
  have hparams : ∀ f : Field, f.setter.params = [f.decl.type] := fun _ => rfl
  simp only [setThroughArgument, setFieldWith, hscore, hparams, Host.prepare_singleton]
  simp

variable {d} {s : State σ}

/-- A static member and a receiver with an instance both have a target, in every state. -/
theorem exists_targetOf {r : Receiver} {isStatic : Bool}
    (h : isStatic = true ∨ r.instance?.isSome = true) (member : Member) :
    ∃ target, ∀ s : State σ, targetOf r member isStatic s = (.ok target, s) := by
  cases isStatic with
  | true => exact ⟨none, fun s => by simp [targetOf]⟩
  | false =>
    obtain ⟨v, hv⟩ := Option.isSome_iff_exists.mp (h.resolve_left Bool.false_ne_true)
    exact ⟨some v, fun s => by simp [targetOf, instanceOf, hv, map_apply, Except.map]⟩

/-- A field that is found on a receiver leaves everything but the registry as it was. -/
theorem exists_found (hs : d.catalog.Agrees s.registry) {v : Value} {r : Receiver}
    (hr : Receiver.of? v = some r) {name : String} {f : Field}
    (hf : (d.findField v name s).1 = .ok f) :
    ∃ s₁ registry, d.receiver v name s = (.ok r, s₁) ∧ d.catalog.Agrees registry ∧
      onResolution (Resolution.findField d.catalog r.type name) s₁ =
        (.ok f, { s with registry }) := by
  obtain ⟨registry₁, hregistry₁, hstate₁⟩ := exists_receiver_snd hs v name
  rw [findField, bind_apply] at hf
  cases hreceiver : (d.receiver v name s).1 with
  | error e =>
    rw [hreceiver] at hf
    cases hf
  | ok r' =>
    obtain rfl := Option.some.inj (hr.symm.trans (of?_of_receiver hreceiver))
    rw [hreceiver, hstate₁] at hf
    have hyields : ResolveM.Yields d.catalog (Resolution.findField d.catalog r.type name) _ :=
      Resolution.yields_findField _ _
    refine ⟨_, _, Prod.ext hreceiver hstate₁, ?_, Prod.ext hf rfl⟩
    exact hregistry₁.moves (hyields registry₁ hregistry₁).moves

/-- Where a field is found on a receiver, the two ways differ only in what the host does. -/
theorem exists_setFieldWith (hs : d.catalog.Agrees s.registry) {v : Value} {r : Receiver}
    (hr : Receiver.of? v = some r) {name : String} {f : Field}
    (hf : (d.findField v name s).1 = .ok f)
    (hinstance : f.decl.isStatic = true ∨ r.instance?.isSome = true) (value : Value) :
    ∃ registry target, ∀ write,
      d.setFieldWith write v name value s =
        if (d.catalog.scoreArgument? s.recast value f.decl.type).isNone then
          (.error (.noSuchOverload r.type name [value.type?]), { s with registry })
        else onHost (.field f) (write target f) { s with registry } := by
  obtain ⟨s₁, registry, hreceiver, hregistry, hfield⟩ := exists_found hs hr hf
  have htargets : ∃ target, ∀ u : State σ,
      targetOf r (.field f) f.decl.isStatic u = (.ok target, u) := exists_targetOf hinstance _
  obtain ⟨target, htarget⟩ := htargets
  have hyields : RegistryM.Yields d.catalog
      (Registry.scoreArgument? d.catalog s.recast value f.decl.type) _ :=
    Registry.yields_scoreArgument? _ _
  -- scoring is the last change before the host is called
  let scored := (Registry.scoreArgument? d.catalog s.recast value f.decl.type registry).2
  have hscore : onRegistry (Registry.scoreArgument? d.catalog s.recast value f.decl.type)
      { s with registry } =
        (.ok (d.catalog.scoreArgument? s.recast value f.decl.type), { s with registry := scored }) :=
    Prod.ext (onRegistry_fst (s := { s with registry }) hyields hregistry) rfl
  refine ⟨scored, target, fun write => ?_⟩
  simp only [setFieldWith, bind_apply, hreceiver, hfield, get_apply]
  rw [hscore]
  cases d.catalog.scoreArgument? s.recast value f.decl.type with
  | none => simp
  | some score => simp [bind_apply, htarget]

/-! ### What the host is asked -/

theorem onHost_ne_noSuchOverload {member : Member} {run : HostM σ Unit} {t : TypeName}
    {name : String} {types : List (Option Ty)} :
    (onHost member run s).1 ≠ .error (.noSuchOverload t name types) := by
  have hfst : (onHost member run s).1 = (run s.host).1.mapError (.hostFailed member) := rfl
  rw [hfst]
  cases (run s.host).1 <;> simp [Except.mapError]

/-- Passed as an argument, an instance for a field of array type is copied before anything else. -/
theorem exists_calls_of_prepareArgument (h : Host σ) (i : Instance) (target : Option Value)
    (f : Field) (hs : σ × List HostCall) :
    ∃ rest, ((do
      h.recorded.writeField target f (← h.recorded.prepareArgument (.object i) .objectArray) :
        HostM (σ × List HostCall) Unit) hs).2.2 = hs.2 ++ .elements i :: rest := by
  have hprepare : h.recorded.prepareArgument (.object i) .objectArray =
      Value.array <$> h.recorded.elements i := rfl
  have hcalls : ((h.recorded.elements i) hs).2.2 = hs.2 ++ [.elements i] := rfl
  have hwrite : ∀ v (u : σ × List HostCall),
      ((h.recorded.writeField target f v) u).2.2 = u.2 ++ [.writeField target f v] :=
    fun _ _ => rfl
  rw [hprepare, bind_apply, map_apply]
  cases (h.recorded.elements i hs).1 with
  | error e => exact ⟨[], hcalls⟩
  | ok items =>
    refine ⟨[.writeField target f (.array items)], ?_⟩
    simp only [Except.map]
    rw [hwrite, hcalls, List.append_assoc]
    rfl

end Dispatcher

namespace Dispatcher

variable {σ : Type} {d : Dispatcher (σ × List HostCall)} {h : Host σ}
  {s : State (σ × List HostCall)}

/-- In every state that is reached, a field accepts a value exactly if its setter accepts it as an
argument, and the two ways to write the field have the same effects, calls to the host included,
exactly if the value is not an instance accepted for an array. -/
theorem setField_eq_setThroughArgument_iff (hd : d.host = h.recorded) (hs : d.Reached s)
    {v : Value} {r : Receiver} (hr : Receiver.of? v = some r) {name : String} {f : Field}
    (hf : (d.findField v name s).1 = .ok f)
    (hinstance : f.decl.isStatic = true ∨ r.instance?.isSome = true) (value : Value) :
    ((d.setField v name value s).1 = .error (.noSuchOverload r.type name [value.type?]) ↔
      (Registry.score? d.catalog s.recast [value] f.setter s.registry).1 = none) ∧
    (d.setField v name value s = d.setThroughArgument v name value s ↔
      ¬ (((Registry.score? d.catalog s.recast [value] f.setter s.registry).1.isSome = true ∧
        ∃ i, value = .object i) ∧ f.decl.type = .objectArray)) := by
  obtain ⟨registry, target, hwrite⟩ := exists_setFieldWith hs.agrees hr hf hinstance value
  have hscore : (Registry.score? d.catalog s.recast [value] f.setter s.registry).1 =
      d.catalog.scoreArgument? s.recast value f.decl.type := by
    rw [Registry.score?_singleton d.catalog s.recast value rfl]
    exact hs.answer_eq (Registry.yields_scoreArgument? value f.decl.type)
  rw [hscore, setField_eq_setFieldWith, setThroughArgument_eq_setFieldWith, hwrite, hwrite]
  cases d.catalog.scoreArgument? s.recast value f.decl.type with
  | none => simp
  | some score =>
    simp only [Option.isNone_some, Bool.false_eq_true, if_false, Option.isSome_some, true_and,
      reduceCtorEq, iff_false]
    refine ⟨onHost_ne_noSuchOverload, ?_, ?_⟩
    · rintro heq ⟨⟨i, rfl⟩, harray⟩
      rw [hd, harray, Value.coerce_object] at heq
      obtain ⟨rest, hrest⟩ := exists_calls_of_prepareArgument h i target f s.host
      -- the first call tells the two apart
      have hcalls : s.host.2 ++ [.writeField target f (.object i)] =
          s.host.2 ++ .elements i :: rest := by
        rw [← hrest]
        exact congrArg (fun outcome => outcome.2.host.2) heq
      cases List.append_cancel_left hcalls
    · intro hvalue
      rw [Host.prepareArgument_eq_pure d.host hvalue, pure_bind]

/-! ### A field of array type -/

/-- A host whose instances contain the number one and nothing else. -/
def ones : Host Unit :=
  { Host.idle with writeField := fun _ _ _ => pure (), elements := fun _ => pure [.int 1] }

/-- A type whose instances are sequences, and one with a field of array type. -/
def pen : Catalog := .ofTable ⟨[
  (⟨"List"⟩, ⟨{ TypeInfo.topLevel ⟨"List"⟩ with kind := .interface }, some {}⟩),
  (⟨"Herd"⟩, ⟨{ TypeInfo.topLevel ⟨"Herd"⟩ with interfaces := [⟨"List"⟩] }, some {}⟩),
  (⟨"Pen"⟩, ⟨.topLevel ⟨"Pen"⟩,
    some { fields := [{ name := "animals", type := .objectArray, target := 1 }] }⟩)]⟩

/-- The field of `pen`. -/
def animals : Field := ⟨⟨"Pen"⟩, { name := "animals", type := .objectArray, target := 1 }⟩

theorem setField_eq_setThroughArgument_pen :
    let d : Dispatcher (Unit × List HostCall) := { catalog := pen, host := ones.recorded }
    let s := d.after [.registry (.load ⟨"Pen"⟩)] (d.start ((), []))
    let v : Value := .object ⟨⟨"Pen"⟩, 1⟩
    (d.findField v "animals" s).1 = .ok animals ∧
      d.setField v "animals" (.sequence [.int 1]) s =
        d.setThroughArgument v "animals" (.sequence [.int 1]) s := by
  intro d s v
  have hf : (d.findField v "animals" s).1 = .ok animals := by with_unfolding_all rfl
  have hmain := setField_eq_setThroughArgument_iff (d := d) (h := ones) (s := s) rfl ⟨_, _, rfl⟩
    rfl hf (.inr rfl) (.sequence [.int 1])
  refine ⟨hf, hmain.2.mpr ?_⟩
  rintro ⟨⟨-, i, hi⟩, -⟩
  cases hi

/-- An instance that is a sequence is handed to a field of array type as it is, where an argument
would be copied into an array. -/
theorem setField_ne_setThroughArgument_pen :
    let d : Dispatcher (Unit × List HostCall) := { catalog := pen, host := ones.recorded }
    let s := d.start ((), [])
    let v : Value := .object ⟨⟨"Pen"⟩, 1⟩
    let herd : Instance := ⟨⟨"Herd"⟩, 2⟩
    (d.setField v "animals" (.object herd) s).1 = .ok () ∧
      (d.setField v "animals" (.object herd) s).2.host.2 =
        [.writeField (some v) animals (.object herd)] ∧
      (d.setThroughArgument v "animals" (.object herd) s).1 = .ok () ∧
      (d.setThroughArgument v "animals" (.object herd) s).2.host.2 =
        [.elements herd, .writeField (some v) animals (.array [.int 1])] := by
  refine ⟨?_, ?_, ?_, ?_⟩ <;> with_unfolding_all rfl

end Dispatcher

end Dispatch
