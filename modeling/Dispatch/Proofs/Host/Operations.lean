import Dispatch.Proofs.Dispatcher.Moves

/-!
# Operations of a host

Whatever dispatch has a host do is one `Operation`: an invocation, a construction, or the reading
or writing of a field. Before it the host copies the instances that are arguments for array
parameters, and if a copy fails there is no operation.

`Host.observed` is a host that also keeps the calls made to it, each with its outcome.
`Operation.Performed` says which calls an operation consists of and how it ends.

* `Operation.performed_perform`: on an observed host, performing an operation makes the calls of
  which it consists and nothing else.
-/

namespace Dispatch

/-! ### Observed calls -/

/-- A call to a host and how it ended. Of a copy the outcome is the array made from the elements,
and of an assignment null. -/
structure HostEvent where
  call : HostCall
  outcome : Except HostError Value

section Observed

variable {σ α : Type}

/-- A computation that enters a call once it has ended. -/
def HostM.observe (call : HostCall) (shown : α → Value) (run : HostM σ α) :
    HostM (σ × List HostEvent) α := fun (s, events) =>
  let (result, s) := StateT.run (ExceptT.run run) s
  (result, s, events ++ [⟨call, result.map shown⟩])

/-- The host with a list of the calls made to it and their outcomes, oldest first. -/
def Host.observed (h : Host σ) : Host (σ × List HostEvent) where
  invoke target method args :=
    .observe (.invoke target method args) id (h.invoke target method args)
  construct ctor args := .observe (.construct ctor args) id (h.construct ctor args)
  readField target field := .observe (.readField target field) id (h.readField target field)
  writeField target field v :=
    .observe (.writeField target field v) (fun _ => .null) (h.writeField target field v)
  constant t name := .observe (.constant t name) id (h.constant t name)
  elements i := .observe (.elements i) .array (h.elements i)

/-- An answer that is a value is entered as it is. -/
theorem HostM.events_observe_id (call : HostCall) (run : HostM σ Value)
    (s : σ × List HostEvent) :
    (HostM.observe call id run s).2.2 =
      s.2 ++ [⟨call, (HostM.observe call id run s).1⟩] := by
  have hevents : (HostM.observe call id run s).2.2 =
      s.2 ++ [⟨call, (HostM.observe call id run s).1.map id⟩] := rfl
  rw [hevents, Except.map_id, id]

end Observed

/-! ### Arguments -/

namespace Arguments

/-- The instance that is copied for a parameter, if the argument is one. -/
def copied? : Value → Ty → Option Instance
  | .object i, .objectArray => some i
  | _, _ => none

/-- The instances that are copied for a list of parameters, from left to right. -/
def copied : List Value → List Ty → List Instance
  | v :: vs, param :: params => (copied? v param).toList ++ copied vs params
  | _, _ => []

/-- The arguments in the representations that the parameters expect, given the elements of the
instances that are copied. -/
def filled : List Value → List Ty → List (List Value) → List Value
  | v :: vs, param :: params, copies =>
    match copied? v param with
    | none => v.coerce param :: filled vs params copies
    | some _ => .array (copies.headD []) :: filled vs params copies.tail
  | _, _, _ => []

/-- The event of copying an instance with the given elements. -/
def copyEvent (copy : Instance × List Value) : HostEvent :=
  ⟨.elements copy.1, .ok (.array copy.2)⟩

/-- The calls that preparing arguments consists of, and how it ends: the instances are copied one
after another, up to the first that cannot be. -/
inductive Prepared (args : List Value) (params : List Ty) :
    List HostEvent → Except HostError (List Value) → Prop
  | ready (done : List (Instance × List Value)) (h : copied args params = done.map (·.1)) :
      Prepared args params (done.map copyEvent) (.ok (filled args params (done.map (·.2))))
  | failed (done : List (Instance × List Value)) (i : Instance) (rest : List Instance)
      (e : HostError) (h : copied args params = done.map (·.1) ++ i :: rest) :
      Prepared args params (done.map copyEvent ++ [⟨.elements i, .error e⟩]) (.error e)

section Prepared

variable {v : Value} {vs : List Value} {param : Ty} {params : List Ty} {events : List HostEvent}
  {result : Except HostError (List Value)}

/-- An argument that is converted comes before those that are prepared after it. -/
theorem Prepared.convert (hv : copied? v param = none) (h : Prepared vs params events result) :
    Prepared (v :: vs) (param :: params) events (result.map (v.coerce param :: ·)) := by
  have hcopied : copied (v :: vs) (param :: params) = copied vs params := by simp [copied, hv]
  cases h with
  | ready done h =>
    have hfilled : filled (v :: vs) (param :: params) (done.map (·.2)) =
        v.coerce param :: filled vs params (done.map (·.2)) := by simp [filled, hv]
    simp only [Except.map]
    rw [← hfilled]
    exact .ready done (hcopied.trans h)
  | failed done i rest e h => exact .failed done i rest e (hcopied.trans h)

/-- And so does one that is copied. -/
theorem Prepared.copy {i : Instance} (hv : copied? v param = some i) (items : List Value)
    (h : Prepared vs params events result) :
    Prepared (v :: vs) (param :: params) (copyEvent (i, items) :: events)
      (result.map (.array items :: ·)) := by
  have hcopied : copied (v :: vs) (param :: params) = i :: copied vs params := by
    simp [copied, hv]
  cases h with
  | ready done h =>
    have hfilled : filled (v :: vs) (param :: params) (((i, items) :: done).map (·.2)) =
        .array items :: filled vs params (done.map (·.2)) := by simp [filled, hv]
    simp only [Except.map]
    rw [← hfilled]
    exact .ready ((i, items) :: done) (by rw [hcopied, h, List.map_cons])
  | failed done j rest e h =>
    exact .failed ((i, items) :: done) j rest e (by rw [hcopied, h, List.map_cons]; rfl)

theorem Prepared.copy_failed {i : Instance} (hv : copied? v param = some i) (e : HostError) :
    Prepared (v :: vs) (param :: params) [⟨.elements i, .error e⟩] (.error e) :=
  .failed [] i (copied vs params) e (by simp [copied, hv])

end Prepared

end Arguments

open Arguments Fallible

namespace Host

variable {σ : Type} (h : Host σ)

/-- An object passed as an array of objects is copied by the host. -/
theorem prepareArgument_of_copied? {v : Value} {param : Ty} {i : Instance}
    (hv : copied? v param = some i) : h.prepareArgument v param = .array <$> h.elements i := by
  unfold copied? at hv
  split at hv
  · obtain rfl := Option.some.inj hv
    rfl
  · cases hv

/-- Every other argument is prepared without the host. -/
theorem prepareArgument_of_copied?_eq_none {v : Value} {param : Ty}
    (hv : copied? v param = none) : h.prepareArgument v param = pure (v.coerce param) := by
  unfold prepareArgument
  split
  · cases hv
  · rfl

/-- Preparing arguments on an observed host makes the copies that are due. -/
theorem prepared_prepare (args : List Value) (params : List Ty) (s : σ × List HostEvent) :
    ∃ events, (h.observed.prepare args params s).2.2 = s.2 ++ events ∧
      Prepared args params events (h.observed.prepare args params s).1 := by
  induction args generalizing params s with
  | nil => exact ⟨[], (List.append_nil _).symm, .ready [] rfl⟩
  | cons v vs ih =>
    cases params with
    | nil => exact ⟨[], (List.append_nil _).symm, .ready [] rfl⟩
    | cons param params =>
      have hcons : ∀ s, h.observed.prepare (v :: vs) (param :: params) s =
          (h.observed.prepareArgument v param >>= fun w =>
            (w :: ·) <$> h.observed.prepare vs params) s := fun _ => rfl
      rw [hcons, bind_apply]
      cases hv : copied? v param with
      | none =>
        obtain ⟨events, hevents, hprepared⟩ := ih params s
        rw [prepareArgument_of_copied?_eq_none _ hv]
        simp only [pure_apply, map_apply]
        exact ⟨events, hevents, hprepared.convert hv⟩
      | some i =>
        have hevents : (h.observed.elements i s).2.2 =
            s.2 ++ [⟨.elements i, (h.observed.elements i s).1.map .array⟩] := rfl
        rw [prepareArgument_of_copied? _ hv, map_apply]
        cases hresult : (h.observed.elements i s).1 with
        | error e =>
          rw [hresult] at hevents
          exact ⟨_, hevents, .copy_failed hv e⟩
        | ok items =>
          rw [hresult] at hevents
          obtain ⟨rest, hrest, hprepared⟩ := ih params (h.observed.elements i s).2
          simp only [Except.map, map_apply]
          refine ⟨copyEvent (i, items) :: rest, ?_, hprepared.copy hv items⟩
          rw [hrest, hevents, List.append_assoc]
          rfl

end Host

/-! ### Operations -/

/-- What dispatch has a host do. -/
inductive Operation
  | invoke (target : Option Value) (method : Overload) (args : List Value)
  | construct (constructor : Overload) (args : List Value)
  | readField (target : Option Value) (field : Field)
  /-- Reading a constant of an enumeration. -/
  | constant (field : Field)
  | writeField (target : Option Value) (field : Field) (value : Value)

namespace Operation

/-- The member that an operation is about. -/
def member : Operation → Member
  | invoke _ o _ | construct o _ => .overload o
  | readField _ f | constant f | writeField _ f _ => .field f

/-- The arguments that are still to be prepared. -/
def args : Operation → List Value
  | invoke _ _ args | construct _ args => args
  | readField .. | constant _ | writeField .. => []

/-- The parameters that the arguments are prepared for. -/
def params : Operation → List Ty
  | invoke _ o _ | construct o _ => o.params
  | readField .. | constant _ | writeField .. => []

/-- The call that an operation ends with, given the prepared arguments. -/
def call (args : List Value) : Operation → HostCall
  | invoke target o _ => .invoke target o args
  | construct o _ => .construct o args
  | readField target f => .readField target f
  | constant f => .constant f.owner f.decl.name
  | writeField target f v => .writeField target f v

section Perform

variable {σ : Type} (h : Host σ)

/-- Makes the call that an operation ends with. Writing a field gives null. -/
def issue (args : List Value) : Operation → HostM σ Value
  | invoke target o _ => h.invoke target o args
  | construct o _ => h.construct o args
  | readField target f => h.readField target f
  | constant f => h.constant f.owner f.decl.name
  | writeField target f v => do
    h.writeField target f v
    return .null

/-- Has the host perform an operation. -/
def perform (op : Operation) : HostM σ Value := do
  op.issue h (← h.prepare op.args op.params)

end Perform

/-- The calls that performing an operation consists of, and how it ends: the arguments are prepared,
and if they could be, a single further call is made. -/
inductive Performed (op : Operation) : List HostEvent → Except HostError Value → Prop
  | unprepared {copies : List HostEvent} {e : HostError}
      (h : Prepared op.args op.params copies (.error e)) : Performed op copies (.error e)
  | called {copies : List HostEvent} {args : List Value} (outcome : Except HostError Value)
      (h : Prepared op.args op.params copies (.ok args)) :
      Performed op (copies ++ [⟨op.call args, outcome⟩]) outcome

/-- An operation ends as its last call does. -/
theorem Performed.exists_last {op : Operation} {events : List HostEvent}
    {outcome : Except HostError Value} (h : op.Performed events outcome) :
    ∃ before last, events = before ++ [last] ∧ last.outcome = outcome := by
  cases h with
  | unprepared h =>
    cases h with
    | failed done i rest e h => exact ⟨_, _, rfl, rfl⟩
  | called outcome h => exact ⟨_, _, rfl, rfl⟩

variable {σ : Type} (h : Host σ)

/-- The host enters one event for the call that an operation ends with. -/
theorem events_issue (op : Operation) (args : List Value) (s : σ × List HostEvent) :
    (op.issue h.observed args s).2.2 =
      s.2 ++ [⟨op.call args, (op.issue h.observed args s).1⟩] := by
  cases op with
  | invoke | construct | readField | constant => exact HostM.events_observe_id _ _ s
  | writeField target f v =>
    have hevents : (h.observed.writeField target f v s).2.2 = s.2 ++ [⟨.writeField target f v,
        (h.observed.writeField target f v s).1.map fun _ => .null⟩] := rfl
    simp only [issue, bind_apply]
    cases hresult : (h.observed.writeField target f v s).1 <;> rw [hresult] at hevents <;>
      exact hevents

/-- On an observed host, performing an operation makes the calls of which it consists. -/
theorem performed_perform (op : Operation) (s : σ × List HostEvent) :
    ∃ events, (op.perform h.observed s).2.2 = s.2 ++ events ∧
      op.Performed events (op.perform h.observed s).1 := by
  obtain ⟨copies, hcopies, hprepared⟩ := h.prepared_prepare op.args op.params s
  rw [perform, bind_apply]
  cases hresult : (h.observed.prepare op.args op.params s).1 with
  | error e =>
    rw [hresult] at hprepared
    exact ⟨copies, hcopies, .unprepared hprepared⟩
  | ok args =>
    rw [hresult] at hprepared
    have hevents := op.events_issue h args (h.observed.prepare op.args op.params s).2
    rw [hcopies, List.append_assoc] at hevents
    exact ⟨_, hevents, .called _ hprepared⟩

end Operation

end Dispatch
