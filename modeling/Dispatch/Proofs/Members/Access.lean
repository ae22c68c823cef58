import Dispatch.Proofs.Resolution.Provenance
import Mathlib.Data.List.Induction

/-!
# Access

What is not public is left out when the members of a type are collected, and everything that a
host is asked to do goes through these members. So in no session, whatever has been remembered, is
a host asked for a member that is not public, or for one that was looked up on a type that is not.

* `Dispatcher.permits_of_mem_events`: every call to the host in a session is permitted on the type
  on which its step looked a name up.
-/

namespace Dispatch

namespace Catalog

variable {c : Catalog} {t : TypeName} {name : String}

variable (c) in
/-- A call to a host is permitted for a name that was looked up on `t`: `t` is public, and the
member is declared public by a type that `t` inherits from. A constructor is declared by `t` itself,
which is no enumeration, and a constant is declared to be one. -/
def Permits (t : TypeName) (call : HostCall) : Prop :=
  ∃ info, c.describe t = some info ∧ info.isPublic = true ∧
    match call with
    | .invoke _ o _ =>
      o.owner ∈ c.order t ∧ ∃ listing decl, c.members o.owner = some listing ∧
        decl ∈ listing.methods ∧ decl.isPublic = true ∧ o = .ofMethod o.owner decl
    | .construct o _ =>
      info.isEnumeration = false ∧ o.owner = t ∧ ∃ listing decl, c.members t = some listing ∧
        decl ∈ listing.constructors ∧ decl.isPublic = true ∧ o = .ofConstructor t decl
    | .readField _ f | .writeField _ f _ =>
      f.owner ∈ c.order t ∧ ∃ listing, c.members f.owner = some listing ∧
        f.decl ∈ listing.fields ∧ f.decl.isPublic = true
    | .constant owner name =>
      owner ∈ c.order t ∧ ∃ listing decl, c.members owner = some listing ∧
        decl ∈ listing.fields ∧ decl.isPublic = true ∧ decl.isConstant = true ∧ decl.name = name
    | .elements _ => True

/-! ### Members that are collected -/

/-- Only a public type shows members. -/
theorem isPublic_of_membersOf {info : TypeInfo} (h : c.membersOf t info ≠ {}) :
    info.isPublic = true := by
  by_contra hpublic
  exact h (by simp [membersOf, hpublic])

/-- Constructors are offered on public types only, and not on enumerations. -/
theorem of_mem_constructors {o : Overload} (h : o ∈ c.constructors t) :
    ∃ info, c.describe t = some info ∧ info.isPublic = true ∧ info.isEnumeration = false := by
  unfold constructors memberTable? at h
  cases hinfo : c.describe t with
  | none => simp [hinfo] at h
  | some info =>
    have hmem : o ∈ (c.membersOf t info).constructors := by simpa [hinfo] using h
    have hpublic : info.isPublic = true := isPublic_of_membersOf fun hempty => by
      rw [hempty] at hmem
      cases hmem
    refine ⟨info, rfl, hpublic, ?_⟩
    cases henum : info.isEnumeration with
    | false => rfl
    | true => simp [membersOf, hpublic, henum, Members.collect] at hmem

/-- A method that is offered is declared public on some level of a public type. -/
theorem of_mem_methods {o : Overload} (h : o ∈ c.methods t name) :
    ∃ info, c.describe t = some info ∧ info.isPublic = true ∧ o.owner ∈ c.order t ∧
      ∃ listing decl, c.members o.owner = some listing ∧ decl ∈ listing.methods ∧
        decl.isPublic = true ∧ o = .ofMethod o.owner decl := by
  cases hinfo : c.describe t with
  | none => simp [methods, memberTable?, hinfo] at h
  | some info =>
    have hmem := ((mem_methods_iff hinfo).mp h).1
    have hpublic : info.isPublic = true := isPublic_of_membersOf fun hempty => by
      rw [hempty] at hmem
      cases hmem
    rw [methods_membersOf hpublic] at hmem
    obtain ⟨u, hu, hmem⟩ := List.mem_flatMap.mp ((keepFirst_sublist _ _).subset hmem)
    obtain ⟨listing, decl, hlisting, hdecl, hdpublic, rfl⟩ := mem_publicMethods_iff.mp hmem
    exact ⟨info, rfl, hpublic, hu, listing, decl, hlisting, hdecl, hdpublic, rfl⟩

/-- A field that is offered is declared public on some level of a public type. -/
theorem of_field? {f : Field} (h : c.field? t name = some f) :
    ∃ info, c.describe t = some info ∧ info.isPublic = true ∧ f.owner ∈ c.order t ∧
      ∃ listing, c.members f.owner = some listing ∧ f.decl ∈ listing.fields ∧
        f.decl.isPublic = true := by
  cases hinfo : c.describe t with
  | none => simp [field?, memberTable?, hinfo] at h
  | some info =>
    rw [field?_eq_find? hinfo] at h
    have hmem := List.mem_of_find?_eq_some h
    have hpublic : info.isPublic = true := isPublic_of_membersOf fun hempty => by
      rw [hempty] at hmem
      cases hmem
    rw [fields_membersOf hpublic] at hmem
    obtain ⟨u, hu, hmem⟩ := List.mem_flatMap.mp ((keepFirst_sublist _ _).subset hmem)
    obtain ⟨listing, decl, hlisting, hdecl, hdpublic, rfl⟩ := mem_publicFields_iff.mp hmem
    exact ⟨info, rfl, hpublic, hu, listing, hlisting, hdecl, hdpublic⟩

/-! ### Operations -/

/-- An operation on a member of `t` ends with a call that is permitted. -/
theorem permits_call {op : Operation} (h : op.FoundOn c t) (args : List Value) :
    c.Permits t (op.call args) := by
  cases op with
  | invoke target o _ =>
    obtain ⟨⟨name, ho⟩, -⟩ := h
    exact of_mem_methods ho
  | construct o _ =>
    obtain ⟨ho, -⟩ := h
    obtain ⟨info, hinfo, hpublic, henum⟩ := of_mem_constructors ho
    obtain ⟨listing, decl, hlisting, hdecl, hdpublic, rfl⟩ := exists_decl_of_mem_constructors ho
    exact ⟨info, hinfo, hpublic, henum, rfl, listing, decl, hlisting, hdecl, hdpublic, rfl⟩
  | readField target f | writeField target f value =>
    obtain ⟨name, hf⟩ := h
    exact of_field? hf
  | constant f =>
    obtain ⟨⟨name, hf⟩, hconstant⟩ := h
    obtain ⟨info, hinfo, hpublic, howner, listing, hlisting, hdecl, hdpublic⟩ := of_field? hf
    exact ⟨info, hinfo, hpublic, howner, listing, f.decl, hlisting, hdecl, hdpublic, hconstant, rfl⟩

/-- And the copies before it are made for a public type. -/
theorem permits_elements {op : Operation} (h : op.FoundOn c t) (i : Instance) :
    c.Permits t (.elements i) := by
  obtain ⟨info, hinfo, hpublic, -⟩ := permits_call h []
  exact ⟨info, hinfo, hpublic, trivial⟩

theorem call_of_mem_prepared {args : List Value} {params : List Ty} {events : List HostEvent}
    {result : Except HostError (List Value)} (h : Arguments.Prepared args params events result)
    {event : HostEvent} (hevent : event ∈ events) : ∃ i, event.call = .elements i := by
  have hcopies : ∀ {done : List (Instance × List Value)}, event ∈ done.map Arguments.copyEvent →
      ∃ i, event.call = .elements i := by
    intro done hdone
    obtain ⟨copy, -, rfl⟩ := List.mem_map.mp hdone
    exact ⟨copy.1, rfl⟩
  cases h with
  | ready done _ => exact hcopies hevent
  | failed done i rest e _ =>
    rcases List.mem_append.mp hevent with hevent | hevent
    · exact hcopies hevent
    · obtain rfl := List.mem_singleton.mp hevent
      exact ⟨i, rfl⟩

/-- Whatever the host is called for in an operation, the members of a public type allow. -/
theorem permits_of_performed {op : Operation} (h : op.FoundOn c t) {events : List HostEvent}
    {outcome : Except HostError Value} (hop : op.Performed events outcome) {event : HostEvent}
    (hevent : event ∈ events) : c.Permits t event.call := by
  have hcopies : ∀ {args params copies} {result : Except HostError (List Value)},
      Arguments.Prepared args params copies result → event ∈ copies →
        c.Permits t event.call := by
    intro args params copies result hprepared hcopy
    obtain ⟨i, hi⟩ := call_of_mem_prepared hprepared hcopy
    rw [hi]
    exact permits_elements h i
  cases hop with
  | unprepared hprepared => exact hcopies hprepared hevent
  | called outcome hprepared =>
    rcases List.mem_append.mp hevent with hevent | hevent
    · exact hcopies hprepared hevent
    · obtain rfl := List.mem_singleton.mp hevent
      exact permits_call h _

end Catalog

namespace Dispatcher

variable {σ : Type} {d : Dispatcher (σ × List HostEvent)} {h : Host σ}
  {s : State (σ × List HostEvent)}

/-! ### Steps and sessions -/

/-- What a step has the host do is permitted on the scope of the step. -/
theorem permits_of_answer (hd : d.host = h.observed) (hs : d.Reached s) (step : Step) :
    ∃ events, (d.answer step s).2.host.2 = s.host.2 ++ events ∧
      ∀ event ∈ events, ∃ t, d.scope? s step = some t ∧ d.catalog.Permits t event.call := by
  have hnothing : (d.answer step s).2.host = s.host →
      ∃ events, (d.answer step s).2.host.2 = s.host.2 ++ events ∧
        ∀ event ∈ events, ∃ t, d.scope? s step = some t ∧ d.catalog.Permits t event.call :=
    fun hhost => ⟨[], by rw [hhost, List.append_nil], by simp⟩
  cases hstep : step.mayCallHost with
  | false => exact hnothing (answer_of_not_mayCallHost hstep hs.agrees).1
  | true =>
    cases hnested : d.catalog.nestedRead? step with
    | some t => exact hnothing (answer_nested hs.agrees hnested).1
    | none =>
      obtain ⟨events, hevents, ⟨-, -, -, rfl⟩ | ⟨op, outcome, hop, hperformed, -⟩⟩ :=
        (carries_answer hs.agrees hstep hnested).observed hd
      · exact ⟨[], hevents, by simp⟩
      · obtain ⟨t, ht, hfound⟩ := hop.foundOn hs
        exact ⟨events, hevents, fun event hevent =>
          ⟨t, ht, Catalog.permits_of_performed hfound hperformed hevent⟩⟩

/-- Every call to the host in a session was made by some step, and is permitted on the type on which
that step looked a name up. -/
theorem permits_of_mem_events (hd : d.host = h.observed) (x : σ) (steps : List Step)
    {event : HostEvent} (hevent : event ∈ (d.after steps (d.start (x, []))).host.2) :
    ∃ before step rest events t, steps = before ++ step :: rest ∧
      (d.after (before ++ [step]) (d.start (x, []))).host.2 =
        (d.after before (d.start (x, []))).host.2 ++ events ∧
      event ∈ events ∧ d.scope? (d.after before (d.start (x, []))) step = some t ∧
      d.catalog.Permits t event.call := by
  induction steps using List.reverseRecOn with
  | nil => cases hevent
  | append_singleton steps step ih =>
    obtain ⟨events, hevents, hpermits⟩ :=
      permits_of_answer hd (s := d.after steps (d.start (x, []))) ⟨_, _, rfl⟩ step
    rw [← after_concat] at hevents
    rw [hevents] at hevent
    -- the call is an earlier one, or one of the last step
    rcases List.mem_append.mp hevent with hevent | hevent
    · obtain ⟨before, step', rest, events', t, rfl, hrest⟩ := ih hevent
      exact ⟨before, step', rest ++ [step], events', t, by simp, hrest⟩
    · obtain ⟨t, ht, hcall⟩ := hpermits event hevent
      exact ⟨steps, step, [], events, t, rfl, hevents, hevent, ht, hcall⟩

/-! ### Members that are not public -/

/-- A gate is a door that has a key. Some of what they declare is not public: a way to open the gate
and a way to make a key. -/
def gatehouse : Catalog := .ofTable ⟨[
  (⟨"Door"⟩, ⟨.topLevel ⟨"Door"⟩,
    some { methods := [{ name := "open", params := [], target := 1 }] }⟩),
  (⟨"Gate"⟩, ⟨{ TypeInfo.topLevel ⟨"Gate"⟩ with
      superclass := some ⟨"Door"⟩, nested := [⟨"Key", ⟨"Gate$Key"⟩, true⟩] },
    some { methods := [{ name := "open", params := [], isPublic := false, target := 2 }] }⟩),
  (⟨"Gate$Key"⟩, ⟨{ TypeInfo.topLevel ⟨"Gate$Key"⟩ with
      isStatic := false, enclosing := some ⟨"Gate"⟩ },
    some { constructors := [
      { params := [.named ⟨"Gate"⟩, .raw .int], isPublic := false, target := 3 },
      { params := [.named ⟨"Gate"⟩, .object], target := 4 }] }⟩)]⟩

/-- A gate. -/
def gate : Value := .object ⟨⟨"Gate"⟩, 1⟩

/-- A dispatcher whose host is observed. -/
def guarding : Dispatcher (Unit × List HostEvent) :=
  { catalog := gatehouse, host := Host.idle.observed }

/-- A gate is opened twice, as a door, and gets a key in between by its public constructor. -/
theorem permits_of_mem_events_guarding :
    let steps : List Step := [.call gate "open" [], .call gate "Key" [.int 1], .call gate "open" []]
    let key : Overload :=
      .ofConstructor ⟨"Gate$Key"⟩ { params := [.named ⟨"Gate"⟩, .object], target := 4 }
    let event : HostEvent := ⟨.construct key [gate, .int 1], .ok .null⟩
    event ∈ (guarding.after steps (guarding.start ((), []))).host.2 ∧
      ∃ before step rest t, steps = before ++ step :: rest ∧
        guarding.scope? (guarding.after before (guarding.start ((), []))) step = some t ∧
        guarding.catalog.Permits t event.call := by
  intro steps key event
  have hevents : (guarding.after [.call gate "open" [], .call gate "Key" [.int 1],
      .call gate "open" []] (guarding.start ((), []))).host.2 =
        [⟨.invoke (some gate) (.ofMethod ⟨"Door"⟩ { name := "open", params := [], target := 1 }) [],
            .ok .null⟩,
          ⟨.construct (.ofConstructor ⟨"Gate$Key"⟩
            { params := [.named ⟨"Gate"⟩, .object], target := 4 }) [gate, .int 1], .ok .null⟩,
          ⟨.invoke (some gate) (.ofMethod ⟨"Door"⟩ { name := "open", params := [], target := 1 })
            [], .ok .null⟩] := by with_unfolding_all rfl
  have hevent : event ∈ (guarding.after steps (guarding.start ((), []))).host.2 := by
    rw [hevents]
    exact List.mem_cons_of_mem _ List.mem_cons_self
  have hd : guarding.host = Host.idle.observed := rfl
  obtain ⟨before, step, rest, events, t, hsteps, -, -, ht, hcall⟩ :=
    permits_of_mem_events hd () steps hevent
  exact ⟨hevent, before, step, rest, t, hsteps, ht, hcall⟩

end Dispatcher

end Dispatch
