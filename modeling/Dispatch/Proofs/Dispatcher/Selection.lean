import Dispatch.Proofs.Host.Operations

/-!
# From steps to operations

A step that may call the host first selects an operation, which takes questions to the registry
alone, and then has the host perform it. `Dispatcher.Selects` says which operation a step selects
in a state, in terms of what the dispatcher answers when it is only asked to resolve.

* `Dispatcher.carries_answer`: such a step is refused before the host is called, or has the
  operation performed that it selects, unless it finds a nested type (`Dispatcher.answer_nested`).
* `Dispatcher.Carries.observed`: what is seen of this on an observed host.
-/

namespace Dispatch

/-! ### Operations of bindings -/

/-- The receiver handed to the host for a member, as far as there is one. -/
def Receiver.target (r : Receiver) (member : Member) (isStatic : Bool) :
    Except DispatchError (Option Value) :=
  if isStatic then .ok none
  else
    match r.instance? with
    | some v => .ok (some v)
    | none => .error (.needsInstance member)

/-- The operation that carries out a binding, if there is an instance where one is needed. -/
def Binding.operation (r : Receiver) (args : List Value) : Binding → Except DispatchError Operation
  | constructor o => .ok (.construct o args)
  | nestedConstructor nested o bindsEnclosing =>
    if bindsEnclosing then
      match r.instance? with
      | some outer => .ok (.construct o (outer :: args))
      | none => .error (.ambiguousBinding r.type nested)
    else .ok (.construct o args)
  | method o => (r.target (.overload o) o.isStatic).map (.invoke · o args)
  | field f =>
    if f.decl.isConstant then .ok (.constant f)
    else (r.target (.field f) f.decl.isStatic).map (.readField · f)

/-- What the operation of a binding can be. -/
inductive Binding.Becomes (r : Receiver) (args : List Value) : Binding → Operation → Prop
  | constructor (o : Overload) : Becomes r args (.constructor o) (.construct o args)
  | nested (nested : TypeName) (o : Overload) :
      Becomes r args (.nestedConstructor nested o false) (.construct o args)
  | enclosed (nested : TypeName) (o : Overload) {outer : Value} (h : r.instance? = some outer) :
      Becomes r args (.nestedConstructor nested o true) (.construct o (outer :: args))
  | method (o : Overload) {target : Option Value}
      (h : r.target (.overload o) o.isStatic = .ok target) :
      Becomes r args (.method o) (.invoke target o args)
  | constant (f : Field) (h : f.decl.isConstant = true) : Becomes r args (.field f) (.constant f)
  | field (f : Field) {target : Option Value}
      (h : r.target (.field f) f.decl.isStatic = .ok target) :
      Becomes r args (.field f) (.readField target f)

/-- The operation of a binding is one of the cases listed, and the arguments are as the case says.
-/
theorem Binding.becomes_of_operation {r : Receiver} {args : List Value} {b : Binding}
    {op : Operation} (h : b.operation r args = .ok op) : b.Becomes r args op := by
  cases b with
  | constructor o =>
    obtain rfl := Except.ok.inj h
    exact .constructor o
  | nestedConstructor nested o bindsEnclosing =>
    cases bindsEnclosing with
    | false =>
      obtain rfl := Except.ok.inj h
      exact .nested nested o
    | true =>
      simp only [operation, if_true] at h
      cases houter : r.instance? with
      | none =>
        rw [houter] at h
        cases h
      | some outer =>
        rw [houter] at h
        obtain rfl := Except.ok.inj h
        exact .enclosed nested o houter
  | method o =>
    cases htarget : r.target (.overload o) o.isStatic with
    | error e =>
      rw [operation, htarget] at h
      cases h
    | ok target =>
      rw [operation, htarget] at h
      obtain rfl := Except.ok.inj h
      exact .method o htarget
  | field f =>
    simp only [operation] at h
    split at h
    · next hconstant =>
      obtain rfl := Except.ok.inj h
      exact .constant f hconstant
    · cases htarget : r.target (.field f) f.decl.isStatic with
      | error e =>
        rw [htarget] at h
        cases h
      | ok target =>
        rw [htarget] at h
        obtain rfl := Except.ok.inj h
        exact .field f htarget

theorem Receiver.notFromHost_target (r : Receiver) (member : Member) (isStatic : Bool) :
    NotFromHost (r.target member isStatic) := by
  unfold target
  split
  · exact .ok _
  · split
    · exact .ok _
    · exact .error rfl

/-- A binding that has no operation fails before the host is asked. -/
theorem Binding.notFromHost_operation (r : Receiver) (args : List Value) (b : Binding) :
    NotFromHost (b.operation r args) := by
  cases b with
  | constructor o => exact .ok _
  | nestedConstructor nested o bindsEnclosing =>
    simp only [operation]
    split
    · cases r.instance? with
      | some outer => exact .ok _
      | none => exact .error rfl
    · exact .ok _
  | method o => exact (r.notFromHost_target _ _).map _
  | field f =>
    simp only [operation]
    split
    · exact .ok _
    · exact (r.notFromHost_target _ _).map _

namespace Dispatcher

open DispatchM Fallible

variable {σ α β : Type} {d : Dispatcher σ} {s s' : State σ}

theorem targetOf_apply (r : Receiver) (member : Member) (isStatic : Bool) (s : State σ) :
    targetOf r member isStatic s = (r.target member isStatic, s) := by
  unfold targetOf Receiver.target
  cases isStatic with
  | true => rfl
  | false =>
    simp only [Bool.false_eq_true, if_false, map_apply, instanceOf]
    cases r.instance? <;> rfl

/-- A call on the host changes nothing but the host, and names the member in its failure. -/
theorem onHost_apply (member : Member) (run : HostM σ α) (s : State σ) :
    onHost member run s =
      ((run s.host).1.mapError (.hostFailed member), { s with host := (run s.host).2 }) := rfl

/-- A binding is carried out by its operation. -/
theorem carryOut_apply (r : Receiver) (b : Binding) (args : List Value) (s : State σ) :
    d.carryOut r b args s =
      match b.operation r args with
      | .ok op => onHost op.member (op.perform d.host) s
      | .error e => (.error e, s) := by
  cases b with
  | constructor o => rfl
  | nestedConstructor nested o bindsEnclosing =>
    cases bindsEnclosing with
    | false => rfl
    | true =>
      simp only [carryOut, Binding.operation, if_true]
      cases r.instance? <;> rfl
  | method o =>
    simp only [carryOut, Binding.operation, bind_apply, targetOf_apply]
    cases r.target (.overload o) o.isStatic <;> rfl
  | field f =>
    simp only [carryOut, Binding.operation, readField]
    split
    · rfl
    · simp only [bind_apply, targetOf_apply]
      cases r.target (.field f) f.decl.isStatic <;> rfl

end Dispatcher

/-! ### Steps that may call the host -/

/-- Whether a step may call the host. -/
def Step.mayCallHost : Step → Bool
  | .call .. | .construct .. | .constructNamed .. | .getField .. | .getFieldOrNested ..
  | .setField .. | .run _ => true
  | .resolve .. | .findMethod .. | .findConstructor .. | .findField .. | .importText _
  | .setRecast _ | .registry _ => false

/-- The two readings of a step agree on whether the host is called. -/
theorem Step.host_mem_changes_iff (step : Step) :
    .host ∈ step.changes ↔ step.mayCallHost = true := by
  cases step with
  | run request => cases request <;> simp [changes, mayCallHost]
  | call | construct | constructNamed | getField | getFieldOrNested | setField | resolve
  | findMethod | findConstructor | findField | importText | setRecast | registry =>
    simp [changes, mayCallHost]

/-- The step that carries out a request. -/
def Request.step : Request → Step
  | call v name args => .call v name args
  | construct simple args => .constructNamed simple args
  | getField v name => .getField v name
  | getFieldOrNested v name => .getFieldOrNested v name
  | setField v name value => .setField v name value

/-- The answer to a step whose operation has given a value. -/
def Step.answered : Step → Value → Answer
  | .setField .., _ => .written
  | .run (.setField ..), _ => .value .null
  | _, v => .value v

/-- The type nested in the receiver's type that a step names where it would otherwise read a
field. -/
def Catalog.nestedRead? (c : Catalog) : Step → Option TypeName
  | .getFieldOrNested v name | .run (.getFieldOrNested v name) =>
    (Receiver.of? v).bind fun r =>
      ((c.describe r.type).bind (·.nestedNamed? name)).map (·.name)
  | _ => none

namespace Dispatcher

open DispatchM Fallible

variable {σ α β : Type} {d : Dispatcher σ} {s s' : State σ}

/-- A step that may not call the host leaves it alone, and fails by itself if it fails. -/
theorem answer_of_not_mayCallHost {step : Step} (h : step.mayCallHost = false)
    (hs : d.catalog.Agrees s.registry) :
    (d.answer step s).2.host = s.host ∧ NotFromHost (d.answer step s).1 := by
  have hno : .host ∉ step.changes := by simp [step.host_mem_changes_iff, h]
  have hmade : d.Made step.changes s (d.answer step s) := within_perform step s hs
  exact ⟨hmade.moves.host hno, hmade.failure hno⟩

variable (d s) in
/-- In a state, a step that may call the host selects an operation. What it selects is said by
what the dispatcher answers in that state when it is only asked to resolve. -/
inductive Selects : Step → Operation → Prop
  | call {v : Value} {r : Receiver} {name : String} {args : List Value} {b : Binding}
      {op : Operation} (hr : Receiver.of? v = some r) (hb : (d.resolve v name args s).1 = .ok b)
      (hop : b.operation r args = .ok op) : Selects (.call v name args) op
  | construct {t : TypeName} {args : List Value} {o : Overload}
      (ho : (d.findConstructor t args s).1 = .ok o) :
      Selects (.construct t args) (.construct o args)
  | constructNamed {simple : String} {t : TypeName} {args : List Value} {o : Overload}
      (ht : s.registry.named? simple = some t) (ho : (d.findConstructor t args s).1 = .ok o) :
      Selects (.constructNamed simple args) (.construct o args)
  | getField {v : Value} {r : Receiver} {name : String} {f : Field} {op : Operation}
      (hr : Receiver.of? v = some r) (hf : (d.findField v name s).1 = .ok f)
      (hop : (Binding.field f).operation r [] = .ok op) : Selects (.getField v name) op
  | getFieldOrNested {v : Value} {r : Receiver} {name : String} {f : Field} {op : Operation}
      (hr : Receiver.of? v = some r) (hf : (d.findField v name s).1 = .ok f)
      (hop : (Binding.field f).operation r [] = .ok op) : Selects (.getFieldOrNested v name) op
  /-- A field is written with a value that it accepts, brought to its type. -/
  | setField {v : Value} {r : Receiver} {name : String} {f : Field} {value : Value}
      {target : Option Value} (hr : Receiver.of? v = some r)
      (hf : (d.findField v name s).1 = .ok f)
      (hvalue : (d.catalog.scoreArgument? s.recast value f.decl.type).isSome = true)
      (htarget : r.target (.field f) f.decl.isStatic = .ok target) :
      Selects (.setField v name value) (.writeField target f (value.coerce f.decl.type))
  | run {request : Request} {op : Operation} (h : Selects request.step op) :
      Selects (.run request) op

variable (d) in
/-- What becomes of an operation that `selected` allows, where `x` is the state of the host: a
refusal before the host is called, or what the host does. -/
inductive Carries (x : σ) (selected : Operation → Prop) (shown : Value → β) :
    Except DispatchError β × State σ → Prop
  | refused {e : DispatchError} {s : State σ} (he : e.isHostFailure = false)
      (hhost : s.host = x) : Carries x selected shown (.error e, s)
  | performed {op : Operation} {s : State σ} (hop : selected op) (hhost : s.host = x) :
      Carries x selected shown
        (((op.perform d.host x).1.map shown).mapError (.hostFailed op.member),
          { s with host := (op.perform d.host x).2 })

section Carries

variable {selected selected' : Operation → Prop} {shown : Value → β}

/-- What is carried out meets every weaker condition on the operation. -/
theorem Carries.mono {x : σ} {result : Except DispatchError β × State σ}
    (h : d.Carries x selected shown result) (himp : ∀ op, selected op → selected' op) :
    d.Carries x selected' shown result := by
  cases h with
  | refused he hhost => exact .refused he hhost
  | performed hop hhost => exact .performed (himp _ hop) hhost

/-- What is shown of the value that an operation gives may be processed further. -/
theorem Carries.map {run : DispatchM σ β} {x : σ} (h : d.Carries x selected shown (run s))
    (f : β → α) : d.Carries x selected (fun v => f (shown v)) ((f <$> run) s) := by
  rw [map_apply]
  generalize run s = result at h
  cases h with
  | refused he hhost => exact .refused he hhost
  | @performed op s' hop hhost =>
    have hmap : (((op.perform d.host x).1.map shown).mapError
        (DispatchError.hostFailed op.member)).map f =
          ((op.perform d.host x).1.map fun v => f (shown v)).mapError (.hostFailed op.member) := by
      cases (op.perform d.host x).1 <;> rfl
    dsimp only
    rw [hmap]
    exact .performed hop hhost

/-- A computation without the host may come first. -/
theorem Carries.after {run : DispatchM σ α} {f : α → DispatchM σ β} {x : σ}
    {changes : List Change} (hrun : d.Made changes s (run s)) (hno : .host ∉ changes)
    (hx : s.host = x)
    (hf : ∀ a, (run s).1 = .ok a → (run s).2.host = x →
      d.Carries x selected shown (f a (run s).2)) :
    d.Carries x selected shown ((run >>= f) s) := by
  have hhost := (hrun.moves.host hno).trans hx
  rw [bind_apply]
  cases ha : (run s).1 with
  | error e => exact .refused (hrun.failure hno e ha) hhost
  | ok a => exact hf a ha hhost

/-- A binding is carried out as the one operation that it stands for, or refused. -/
theorem carries_carryOut {x : σ} {r : Receiver} {b : Binding} {args : List Value}
    (hhost : s.host = x) (hb : ∀ op, b.operation r args = .ok op → selected op) :
    d.Carries x selected id (d.carryOut r b args s) := by
  rw [carryOut_apply]
  cases hop : b.operation r args with
  | error e => exact .refused (b.notFromHost_operation r args e hop) hhost
  | ok op =>
    subst hhost
    have hperformed : d.Carries s.host selected id _ := .performed (s := s) (hb op hop) rfl
    rwa [Except.map_id] at hperformed

/-- On an observed host, a refusal enters nothing, and an operation the calls of which it
consists. -/
theorem Carries.observed {d : Dispatcher (σ × List HostEvent)} {h : Host σ}
    (hd : d.host = h.observed) {x : σ × List HostEvent}
    {result : Except DispatchError β × State (σ × List HostEvent)}
    (hresult : d.Carries x selected shown result) :
    ∃ events, result.2.host.2 = x.2 ++ events ∧
      ((∃ e, result.1 = .error e ∧ e.isHostFailure = false ∧ events = []) ∨
        ∃ op outcome, selected op ∧ op.Performed events outcome ∧
          result.1 = (outcome.map shown).mapError (.hostFailed op.member)) := by
  cases hresult with
  | @refused e s he hhost =>
    exact ⟨[], by rw [hhost, List.append_nil], .inl ⟨e, rfl, he, rfl⟩⟩
  | @performed op s hop hhost =>
    rw [hd]
    obtain ⟨events, hevents, hperformed⟩ := op.performed_perform h x
    exact ⟨events, hevents, .inr ⟨op, _, hop, hperformed, rfl⟩⟩

end Carries

/-! ### One step at a time -/

theorem receiver_of?_eq_none {v : Value} (hr : Receiver.of? v = none) (name : String) :
    d.receiver v name = throw (.nullReceiver name) := by
  rw [receiver, hr]

/-- A call carries out what resolution alone would give. -/
theorem call_eq {v : Value} {r : Receiver} (hr : Receiver.of? v = some r) (name : String)
    (args : List Value) :
    d.call v name args = (do d.carryOut r (← d.resolve v name args) args) := by
  simp [call, resolve, receiver, hr]

/-- What is carried out after a computation without the host is what its operation does, from where
the host was. -/
theorem carryOut_of_ok {run : DispatchM σ α} {changes : List Change}
    (hrun : d.Made changes s (run s)) (hno : .host ∉ changes) {a : α} (ha : (run s).1 = .ok a)
    {r : Receiver} {b : α → Binding} {args : List Value} {op : Operation}
    (hop : (b a).operation r args = .ok op) :
    let result := (run >>= fun a => d.carryOut r (b a) args) s
    result.1 = (op.perform d.host s.host).1.mapError (.hostFailed op.member) ∧
      result.2.host = (op.perform d.host s.host).2 := by
  intro result
  have hresult : result = onHost op.member (op.perform d.host) (run s).2 := by
    simp only [result, bind_apply, ha, carryOut_apply, hop]
  rw [hresult, onHost_apply, hrun.moves.host hno]
  exact ⟨rfl, rfl⟩

/-- A call performs the operation of what its name resolves to. -/
theorem call_of_resolve_ok (hs : d.catalog.Agrees s.registry) {v : Value} {r : Receiver}
    (hr : Receiver.of? v = some r) {name : String} {args : List Value} {b : Binding}
    {op : Operation} (hb : (d.resolve v name args s).1 = .ok b)
    (hop : b.operation r args = .ok op) :
    (d.call v name args s).1 = (op.perform d.host s.host).1.mapError (.hostFailed op.member) ∧
      (d.call v name args s).2.host = (op.perform d.host s.host).2 := by
  rw [call_eq hr]
  exact carryOut_of_ok (within_resolve v name args s hs) (by decide) hb hop

/-- A construction has the constructor called that is found alone. -/
theorem construct_of_findConstructor_ok (hs : d.catalog.Agrees s.registry) {t : TypeName}
    {args : List Value} {o : Overload} (ho : (d.findConstructor t args s).1 = .ok o) :
    let op : Operation := .construct o args
    (d.construct t args s).1 = (op.perform d.host s.host).1.mapError (.hostFailed op.member) ∧
      (d.construct t args s).2.host = (op.perform d.host s.host).2 :=
  carryOut_of_ok (within_findConstructor t args s hs) (by decide) ho rfl

theorem getField_eq {v : Value} {r : Receiver} (hr : Receiver.of? v = some r) (name : String) :
    d.getField v name = (do d.carryOut r (.field (← d.findField v name)) []) := by
  simp [getField, findField, receiver, hr]

/-- A call carries out the operation of the binding that a resolution gives in the same state. -/
theorem carries_call (hs : d.catalog.Agrees s.registry) (v : Value) (name : String)
    (args : List Value) :
    d.Carries s.host (d.Selects s (.call v name args)) id (d.call v name args s) := by
  cases hr : Receiver.of? v with
  | none =>
    rw [call, receiver_of?_eq_none hr]
    exact .refused rfl rfl
  | some r =>
    rw [call_eq hr]
    refine .after (within_resolve v name args s hs) (by decide) rfl fun b hb hhost => ?_
    exact carries_carryOut hhost fun op hop => .call hr hb hop

/-- A construction carries out the constructor that is found in the same state. -/
theorem carries_construct (hs : d.catalog.Agrees s.registry) (t : TypeName) (args : List Value) :
    d.Carries s.host (d.Selects s (.construct t args)) id (d.construct t args s) := by
  refine .after (within_findConstructor t args s hs) (by decide) rfl fun o ho hhost => ?_
  refine carries_carryOut hhost fun op hop => ?_
  obtain rfl := Except.ok.inj hop
  exact .construct ho

theorem carries_constructNamed (hs : d.catalog.Agrees s.registry) (simple : String)
    (args : List Value) :
    d.Carries s.host (d.Selects s (.constructNamed simple args)) id
      (d.constructNamed simple args s) := by
  unfold constructNamed
  simp only [bind_apply, get_apply]
  cases ht : (s.registry.named? simple).filter s.registry.isRegistered with
  | none => exact .refused rfl rfl
  | some t =>
    have hnamed : s.registry.named? simple = some t := (Option.filter_eq_some_iff.mp ht).1
    refine (carries_construct hs t args).mono fun op hop => ?_
    cases hop with
    | construct ho => exact .constructNamed hnamed ho

/-- The reading of a field carries out the operation of the field that is found. -/
theorem carries_getField (hs : d.catalog.Agrees s.registry) (v : Value) (name : String) :
    d.Carries s.host (d.Selects s (.getField v name)) id (d.getField v name s) := by
  cases hr : Receiver.of? v with
  | none =>
    rw [getField, receiver_of?_eq_none hr]
    exact .refused rfl rfl
  | some r =>
    rw [getField_eq hr]
    refine .after (within_findField v name s hs) (by decide) rfl fun f hf hhost => ?_
    exact carries_carryOut hhost fun op hop => .getField hr hf hop

/-- The field found for a receiver is the catalog's, in every state that agrees with it. -/
theorem findField_fst (hs : d.catalog.Agrees s.registry) {v : Value} {r : Receiver} {name : String}
    (hr : (d.receiver v name s).1 = .ok r) :
    (d.findField v name s).1 = d.catalog.findField r.type name := by
  have hyields : ResolveM.Yields d.catalog (Resolution.findField d.catalog r.type name) _ :=
    Resolution.yields_findField _ _
  rw [findField, bind_apply, hr]
  exact onResolution_fst hyields ((within_receiver v name s hs).agrees hs)

/-- Unless a nested type is found, the field is read that would be found alone. -/
theorem carries_getFieldOrNested (hs : d.catalog.Agrees s.registry) (v : Value) (name : String)
    (hnested : d.catalog.nestedRead? (.getFieldOrNested v name) = none) :
    d.Carries s.host (d.Selects s (.getFieldOrNested v name)) id
      (d.getFieldOrNested v name s) := by
  have hreceiver := within_receiver v name s hs
  refine .after hreceiver (by decide) rfl fun r hr hhost => ?_
  have hof := of?_of_receiver hr
  have hnone : (d.catalog.describe r.type).bind (·.nestedNamed? name) = none := by
    simpa [Catalog.nestedRead?, hof] using hnested
  have hyields : RegistryM.Yields d.catalog (Registry.nestedNamed? d.catalog r.type name) _ :=
    Registry.yields_nestedNamed? r.type name
  have hagrees := hreceiver.agrees hs
  have hlearned := Within.question hyields _ hagrees
  refine .after hlearned (by decide) hhost fun nested hfound hhost => ?_
  rw [onRegistry_fst hyields hagrees, hnone] at hfound
  obtain rfl := Except.ok.inj hfound
  have hlookup := within_lookup r.type name _ (hlearned.agrees hagrees)
  refine .after hlookup (by decide) hhost fun f hf hhost => ?_
  refine carries_carryOut hhost fun op hop => .getFieldOrNested hof ?_ hop
  rw [findField_fst hs hr, ← hf]
  exact (onResolution_fst (Resolution.yields_findField r.type name) (hlearned.agrees hagrees)).symm

/-- A nested type that is found is the answer, unless the receiver is refused. -/
theorem getFieldOrNested_nested (hs : d.catalog.Agrees s.registry) {v : Value} {name : String}
    {t : TypeName} (hnested : d.catalog.nestedRead? (.getFieldOrNested v name) = some t) :
    (d.getFieldOrNested v name s).2.host = s.host ∧
      ((d.getFieldOrNested v name s).1 = .ok (.type t) ∨
        ∃ e, e.isHostFailure = false ∧ (d.getFieldOrNested v name s).1 = .error e) := by
  have hreceiver := within_receiver v name s hs
  have hhost := hreceiver.moves.host (by decide)
  unfold getFieldOrNested
  rw [bind_apply]
  cases hr : (d.receiver v name s).1 with
  | error e => exact ⟨hhost, .inr ⟨e, hreceiver.failure (by decide) e hr, rfl⟩⟩
  | ok r =>
    simp only [Catalog.nestedRead?, of?_of_receiver hr, Option.bind_some,
      Option.map_eq_some_iff] at hnested
    obtain ⟨nested, hnested, rfl⟩ := hnested
    have hfound :=
      onRegistry_fst (Registry.yields_nestedNamed? r.type name) (hreceiver.agrees hs)
    rw [hnested] at hfound
    simp only [bind_apply, hfound]
    exact ⟨hhost, .inl rfl⟩

/-- An assignment in the order of its steps: the field, the score, the target, the host. -/
theorem setField_eq {v : Value} {r : Receiver} (hr : Receiver.of? v = some r) (name : String)
    (value : Value) :
    d.setField v name value = (do
      let f ← d.findField v name
      let score ← onRegistry (Registry.scoreArgument? d.catalog (← get).recast value f.decl.type)
      if score.isNone then throw (.noSuchOverload r.type name [value.type?])
      let target ← targetOf r (.field f) f.decl.isStatic
      onHost (.field f) (d.host.writeField target f (value.coerce f.decl.type))) := by
  simp [setField, findField, receiver, hr]

theorem perform_writeField (h : Host σ) (target : Option Value) (f : Field) (v : Value) (x : σ) :
    (Operation.writeField target f v).perform h x =
      ((h.writeField target f v x).1.map fun _ => .null, (h.writeField target f v x).2) := by
  have hperform : (Operation.writeField target f v).perform h x =
      ((fun _ => Value.null) <$> h.writeField target f v) x := rfl
  rw [hperform, map_apply]

/-- A write on the host is carried out whatever the host answers, and shows nothing of it. -/
theorem carries_write {x : σ} {selected : Operation → Prop} {target : Option Value} {f : Field}
    {v : Value} (hop : selected (.writeField target f v)) (hhost : s.host = x) :
    d.Carries x selected (fun _ => ()) (onHost (.field f) (d.host.writeField target f v) s) := by
  subst hhost
  have hperformed : d.Carries s.host selected (fun _ => ()) _ := .performed hop rfl
  rw [perform_writeField] at hperformed
  rw [onHost_apply]
  cases hresult : (d.host.writeField target f v s.host).1 <;> rw [hresult] at hperformed <;>
    exact hperformed

/-- An assignment carries out the write of the field that is found, with the value converted. -/
theorem carries_setField (hs : d.catalog.Agrees s.registry) (v : Value) (name : String)
    (value : Value) :
    d.Carries s.host (d.Selects s (.setField v name value)) (fun _ => ())
      (d.setField v name value s) := by
  cases hr : Receiver.of? v with
  | none =>
    rw [setField, receiver_of?_eq_none hr]
    exact .refused rfl rfl
  | some r =>
    rw [setField_eq hr]
    have hfound := within_findField v name s hs
    have hagrees := hfound.agrees hs
    refine .after hfound (by decide) rfl fun f hf hhost => ?_
    rw [bind_apply, get_apply]
    dsimp only
    have hyields : RegistryM.Yields d.catalog (Registry.scoreArgument? d.catalog
        (d.findField v name s).2.recast value f.decl.type) _ :=
      Registry.yields_scoreArgument? value f.decl.type
    refine .after (Within.question hyields _ hagrees) (by decide) hhost
      fun score hscore hhost => ?_
    rw [onRegistry_fst hyields hagrees, hfound.moves.recast (by decide)] at hscore
    have hscore := Except.ok.inj hscore
    generalize (onRegistry _ (d.findField v name s).2).2 = s' at hhost
    cases score with
    | none => exact .refused rfl hhost
    | some score =>
      simp only [Option.isNone_some, Bool.false_eq_true, if_false]
      rw [bind_apply, targetOf_apply]
      cases htarget : r.target (.field f) f.decl.isStatic with
      | error e => exact .refused (r.notFromHost_target _ _ e htarget) hhost
      | ok target =>
        have hop : d.Selects s (.setField v name value)
            (.writeField target f (value.coerce f.decl.type)) :=
          .setField hr hf (Option.isSome_of_eq_some hscore) htarget
        exact carries_write hop hhost

/-! ### Steps -/

/-- A step that may call the host is refused before, or has the operation performed that it
selects. -/
theorem carries_answer (hs : d.catalog.Agrees s.registry) {step : Step}
    (hstep : step.mayCallHost = true) (hnested : d.catalog.nestedRead? step = none) :
    d.Carries s.host (d.Selects s step) step.answered (d.answer step s) := by
  cases step with
  | call v name args => exact (carries_call hs v name args).map _
  | construct t args => exact (carries_construct hs t args).map _
  | constructNamed simple args => exact (carries_constructNamed hs simple args).map _
  | getField v name => exact (carries_getField hs v name).map _
  | getFieldOrNested v name => exact (carries_getFieldOrNested hs v name hnested).map _
  | setField v name value => exact (carries_setField hs v name value).map fun _ => Answer.written
  | run request =>
    have hrun : ∀ op, d.Selects s request.step op → d.Selects s (.run request) op := fun _ => .run
    cases request with
    | call v name args => exact ((carries_call hs v name args).map _).mono hrun
    | construct simple args => exact ((carries_constructNamed hs simple args).map _).mono hrun
    | getField v name => exact ((carries_getField hs v name).map _).mono hrun
    | getFieldOrNested v name =>
      exact ((carries_getFieldOrNested hs v name hnested).map _).mono hrun
    | setField v name value =>
      have hnull : d.run (.setField v name value) = (fun _ => .null) <$> d.setField v name value :=
        (map_eq_pure_bind _ _).symm
      have hcarries := (carries_setField hs v name value).map fun _ => Value.null
      rw [← hnull] at hcarries
      exact (hcarries.map Answer.value).mono hrun
  | resolve | findMethod | findConstructor | findField | importText | setRecast | registry =>
    cases hstep

/-- A step that finds a nested type answers with it, unless it is refused before. -/
theorem answer_nested (hs : d.catalog.Agrees s.registry) {step : Step} {t : TypeName}
    (hnested : d.catalog.nestedRead? step = some t) :
    (d.answer step s).2.host = s.host ∧
      ((d.answer step s).1 = .ok (.value (.type t)) ∨
        ∃ e, e.isHostFailure = false ∧ (d.answer step s).1 = .error e) := by
  have hread : ∀ v name, d.catalog.nestedRead? (.getFieldOrNested v name) = some t →
      ((Answer.value <$> d.getFieldOrNested v name) s).2.host = s.host ∧
        (((Answer.value <$> d.getFieldOrNested v name) s).1 = .ok (.value (.type t)) ∨
          ∃ e, e.isHostFailure = false ∧
            ((Answer.value <$> d.getFieldOrNested v name) s).1 = .error e) := by
    intro v name h
    obtain ⟨hhost, hanswer⟩ := getFieldOrNested_nested hs h
    rw [map_apply]
    refine ⟨hhost, ?_⟩
    rcases hanswer with hok | ⟨e, he, herror⟩
    · exact .inl (by rw [hok]; rfl)
    · exact .inr ⟨e, he, by rw [herror]; rfl⟩
  cases step with
  | getFieldOrNested v name => exact hread v name hnested
  | run request =>
    cases request with
    | getFieldOrNested v name => exact hread v name hnested
    | call | construct | getField | setField => cases hnested
  | call | construct | constructNamed | getField | setField | resolve | findMethod
  | findConstructor | findField | importText | setRecast | registry => cases hnested

end Dispatcher

end Dispatch
