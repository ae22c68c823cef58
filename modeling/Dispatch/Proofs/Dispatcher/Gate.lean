import Dispatch.Proofs.Dispatcher.Names
import Dispatch.Proofs.Members.Access

/-!
# The gate of imports

Under `Settings.requireImports` a type is usable only once an import has registered it. Much else
brings a type into the registry: the types above a receiver are described and listed, so are those
that a score compares, a nested type is loaded when it is constructed, and an import describes the
types that it leaves out. None of this registers a type, and the gate looks at nothing but the
registrations, before a registry, a memory or a host is asked. So a type that no import has
registered is refused, whatever is known of it.

* `Dispatcher.answer_refused`: a step at the gate changes nothing.
* `Dispatcher.requireImports_gates`: the registered types are those of the imports of a session, and
  all others are refused.
-/

namespace Dispatch

/-! ### What a step needs -/

/-- The type that has to be registered for a step, whatever the step is about to find on it: the
type of its receiver, or the one that it constructs. -/
def Step.needs? : Step → Option TypeName
  | .call v _ _ | .resolve v _ _ | .findMethod v _ _ | .findField v _ | .getField v _
  | .getFieldOrNested v _ | .setField v _ _ | .run (.call v _ _) | .run (.getField v _)
  | .run (.getFieldOrNested v _) | .run (.setField v _ _) => (Receiver.of? v).map (·.type)
  | .findConstructor t _ | .construct t _ => some t
  | .constructNamed .. | .run (.construct ..) | .importText _ | .setRecast _ | .registry _ => none

/-- Whether a step has the registry alone register types, so that no setting is looked at. -/
def Step.bypasses : Step → Bool
  | .registry (.register _) | .registry (.importText ..) => true
  | _ => false

namespace Dispatcher

open DispatchM Fallible

variable {σ α β : Type} {d : Dispatcher σ} {s : State σ} {e : DispatchError} {t : TypeName}
  {step : Step}

/-! ### Refusals -/

variable (s e) in
/-- From a state, a computation fails at once and changes nothing. -/
def Refuses (run : DispatchM σ α) : Prop := run s = (.error e, s)

theorem Refuses.bind {run : DispatchM σ α} (h : Refuses s e run) (f : α → DispatchM σ β) :
    Refuses s e (run >>= f) := by
  rw [Refuses, bind_apply, h]

theorem Refuses.map {run : DispatchM σ α} (h : Refuses s e run) (f : α → β) :
    Refuses s e (f <$> run) := by
  rw [Refuses, map_apply, h]
  rfl

/-- Where imports are required, a type that is not registered is refused with nothing changed. -/
theorem refuses_ensureRegistered (himports : d.settings.requireImports = true)
    (ht : s.registry.isRegistered t = false) :
    Refuses s (.notImported t.full) (d.ensureRegistered t) := by
  simp [Refuses, ensureRegistered, bind_apply, ht, himports]

/-- The same for a receiver of that type. -/
theorem refuses_receiver (himports : d.settings.requireImports = true) {v : Value}
    (hv : (Receiver.of? v).map (·.type) = some t) (ht : s.registry.isRegistered t = false)
    (name : String) : Refuses s (.notImported t.full) (d.receiver v name) := by
  obtain ⟨r, hr, rfl⟩ := Option.map_eq_some_iff.mp hv
  rw [receiver, hr]
  exact (refuses_ensureRegistered himports ht).bind _

/-- A step that needs a type that is not registered is refused under the full name of the type. The
registry, with the questions that it has asked, the memory and the host are as before. -/
theorem answer_refused (himports : d.settings.requireImports = true)
    (hneeds : step.needs? = some t) (ht : s.registry.isRegistered t = false) :
    d.answer step s = (.error (.notImported t.full), s) := by
  have hreceiver : ∀ {α v name} (f : Receiver → DispatchM σ α),
      (Receiver.of? v).map (·.type) = some t →
        Refuses s (.notImported t.full) (d.receiver v name >>= f) :=
    fun f hv => (refuses_receiver himports hv ht _).bind f
  have hfind : ∀ {u args}, some u = some t →
      Refuses s (.notImported t.full) (d.findConstructor u args) := by
    intro u args hu
    obtain rfl := Option.some.inj hu
    exact (refuses_ensureRegistered himports ht).bind _
  cases step with
  | call | resolve | findMethod | findField | getField | getFieldOrNested | setField =>
    exact (hreceiver _ hneeds).map _
  | findConstructor => exact (hfind hneeds).map _
  | construct => exact ((hfind hneeds).bind _).map _
  | run request =>
    cases request with
    | call | getField | getFieldOrNested => exact (hreceiver _ hneeds).map _
    | setField => exact ((hreceiver _ hneeds).bind _).map _
    | construct => cases hneeds
  | constructNamed | importText | setRecast | registry => cases hneeds

/-! ### Registrations -/

theorem firstUse_eq_nil (himports : d.settings.requireImports = true) (t : TypeName) :
    d.firstUse s t = [] := by
  simp [firstUse, himports]

theorem firstUseOf_eq_nil (himports : d.settings.requireImports = true) (v : Value) :
    d.firstUseOf s v = [] := by
  unfold firstUseOf
  cases Receiver.of? v with
  | none => rfl
  | some r => exact firstUse_eq_nil himports r.type

/-- Where imports are required, only imports register types. -/
theorem eq_importText_of_mem_registers (himports : d.settings.requireImports = true)
    (hstep : step.bypasses = false) (ht : t ∈ d.registers s step) :
    ∃ text, step = .importText text := by
  have huse : ∀ u, t ∉ d.firstUse s u := fun u => by simp [firstUse_eq_nil himports]
  have huseOf : ∀ v, t ∉ d.firstUseOf s v := fun v => by simp [firstUseOf_eq_nil himports]
  cases step with
  | importText text => exact ⟨text, rfl⟩
  | call v | resolve v | findMethod v | findField v | getField v | getFieldOrNested v | setField v =>
    exact absurd ht (huseOf v)
  | findConstructor u | construct u => exact absurd ht (huse u)
  | run request =>
    cases request with
    | call v | getField v | getFieldOrNested v | setField v => exact absurd ht (huseOf v)
    | construct => cases ht
  | constructNamed | setRecast => cases ht
  | registry step =>
    cases step with
    | register | importText => cases hstep
    | _ => cases ht

/-- And a type is registered by an import that is answered as a fresh one. -/
theorem fresh_of_isRegistered (himports : d.settings.requireImports = true)
    (hs : d.catalog.Agrees s.registry) (hstep : step.bypasses = false)
    (ht : s.registry.isRegistered t = false)
    (ht' : (d.answer step s).2.registry.isRegistered t = true) :
    ∃ text count, step = .importText text ∧
      (d.answer step s).1 = .ok (.imported (.fresh count)) := by
  have hregistered : t ∈ (d.answer step s).2.registry.registrations := of_decide_eq_true ht'
  rw [registrations_answer hs, List.mem_append] at hregistered
  have hnew : t ∈ d.registers s step := hregistered.resolve_left (of_decide_eq_false ht)
  obtain ⟨text, rfl⟩ := eq_importText_of_mem_registers himports hstep hnew
  obtain ⟨count, hcount⟩ := fresh_of_mem_registers hs hnew
  exact ⟨text, count, rfl, hcount⟩

/-- In a session whose registry is not told to register anything itself, the registered types are
those that the imports of the session have registered, each answered as a fresh one. -/
theorem isRegistered_after_iff (himports : d.settings.requireImports = true) (host : σ)
    {steps : List Step} (hsteps : ∀ step ∈ steps, step.bypasses = false) :
    (d.after steps (d.start host)).registry.isRegistered t = true ↔
      ∃ before text rest count, steps = before ++ .importText text :: rest ∧
        (d.answer (.importText text) (d.after before (d.start host))).1 =
          .ok (.imported (.fresh count)) ∧
        t ∈ d.registers (d.after before (d.start host)) (.importText text) := by
  have hregistered : (d.after steps (d.start host)).registry.isRegistered t = true ↔
      t ∈ d.registeredBy (d.start host) steps := by
    rw [Registry.isRegistered, decide_eq_true_iff, registrations_after (Catalog.agrees_empty _)]
    exact Iff.of_eq (congrArg (t ∈ ·) (List.nil_append _))
  rw [hregistered, mem_registeredBy_iff]
  constructor
  · rintro ⟨before, step, rest, rfl, ht⟩
    have hstep : step.bypasses = false := hsteps step (by simp)
    have hbefore : d.Reached (d.after before (d.start host)) := ⟨host, before, rfl⟩
    obtain ⟨text, rfl⟩ := eq_importText_of_mem_registers himports hstep ht
    obtain ⟨count, hcount⟩ := fresh_of_mem_registers hbefore.agrees ht
    exact ⟨before, text, rest, count, rfl, hcount, ht⟩
  · rintro ⟨before, text, rest, count, hsteps, -, ht⟩
    exact ⟨before, .importText text, rest, hsteps, ht⟩

/-- Where imports are required, in every state that a session reaches without telling the registry
itself to register anything:
the registered types are those that imports answered as fresh have registered;
the next step registers a new type only if it is such an import;
and a step whose receiver is of a type that is not registered, or that constructs one, is refused
under the full name of the type. A refusal changes nothing in the state: neither what is known nor
the log of questions in the registry, nor the memory, nor the host, whatever it may record. -/
theorem requireImports_gates (himports : d.settings.requireImports = true) (host : σ)
    {steps : List Step} (hsteps : ∀ step ∈ steps, step.bypasses = false) :
    let s := d.after steps (d.start host)
    (∀ t, s.registry.isRegistered t = true ↔
      ∃ before text rest count, steps = before ++ .importText text :: rest ∧
        (d.answer (.importText text) (d.after before (d.start host))).1 =
          .ok (.imported (.fresh count)) ∧
        t ∈ d.registers (d.after before (d.start host)) (.importText text)) ∧
    (∀ step t, step.bypasses = false → s.registry.isRegistered t = false →
      (d.answer step s).2.registry.isRegistered t = true →
        ∃ text count, step = .importText text ∧
          (d.answer step s).1 = .ok (.imported (.fresh count))) ∧
    ∀ step t, step.needs? = some t → s.registry.isRegistered t = false →
      d.answer step s = (.error (.notImported t.full), s) := by
  intro s
  have hs : d.Reached s := ⟨host, steps, rfl⟩
  refine ⟨fun t => isRegistered_after_iff himports host hsteps, ?_, ?_⟩
  · intro step t hstep ht ht'
    exact fresh_of_isRegistered himports hs.agrees hstep ht ht'
  · intro step t hneeds ht
    exact answer_refused himports hneeds ht

/-- A dispatcher for the gatehouse that requires imports. The yard has gates and their keys, and a
key needs a gate. -/
def gatekeeper : Dispatcher (Unit × List HostEvent) :=
  { catalog := gatehouse
    host := Host.idle.observed
    scanner := some { typesIn := fun _ => [⟨"Gate"⟩, ⟨"Gate$Key"⟩], find? := fun _ => none }
    settings := { requireImports := true } }

/-- Gates are imported, and a gate is opened and has a key made. -/
def yardVisit : List Step := [.importText "yard", .call gate "open" [], .call gate "Key" [.int 1]]

/-- After the visit the keys are loaded, and the doors are known, but neither has been imported. -/
theorem requireImports_gates_yard :
    let s := gatekeeper.after yardVisit (gatekeeper.start ((), []))
    gatekeeper.settings.requireImports = true ∧ (∀ step ∈ yardVisit, step.bypasses = false) ∧
      s.registry.isLoaded ⟨"Gate$Key"⟩ = true ∧ (s.registry.find? ⟨"Door"⟩).isSome = true ∧
      gatekeeper.answer (.construct ⟨"Gate$Key"⟩ [gate, .int 1]) s =
        (.error (.notImported "Gate$Key"), s) ∧
      gatekeeper.answer (.call (.object ⟨⟨"Door"⟩, 2⟩) "open" []) s =
        (.error (.notImported "Door"), s) ∧
      ∃ before text rest count, yardVisit = before ++ .importText text :: rest ∧
        (gatekeeper.answer (.importText text) (gatekeeper.after before (gatekeeper.start ((), [])))).1 =
          .ok (.imported (.fresh count)) := by
  have hsteps : ∀ step ∈ yardVisit, step.bypasses = false := by simp [yardVisit, Step.bypasses]
  have hregistrations :
      (gatekeeper.after yardVisit (gatekeeper.start ((), []))).registry.registrations =
        [⟨"Gate"⟩] := by decide +kernel
  have hloaded : (gatekeeper.after yardVisit (gatekeeper.start ((), []))).registry.isLoaded
      ⟨"Gate$Key"⟩ = true := by decide +kernel
  have hknown : ((gatekeeper.after yardVisit (gatekeeper.start ((), []))).registry.find?
      ⟨"Door"⟩).isSome = true := by decide +kernel
  intro s
  have hregistered : ∀ t, s.registry.isRegistered t = decide (t = ⟨"Gate"⟩) := fun t => by
    simp [Registry.isRegistered, s, hregistrations]
  have himports : gatekeeper.settings.requireImports = true := rfl
  obtain ⟨hiff, -, hrefused⟩ := requireImports_gates himports ((), []) hsteps
  obtain ⟨before, text, rest, count, heq, hfresh, -⟩ :=
    (hiff ⟨"Gate"⟩).mp ((hregistered _).trans rfl)
  exact ⟨rfl, hsteps, hloaded, hknown, hrefused (.construct _ _) _ rfl ((hregistered _).trans rfl),
    hrefused (.call _ _ _) _ rfl ((hregistered _).trans rfl), before, text, rest, count, heq,
    hfresh⟩

end Dispatcher

end Dispatch
