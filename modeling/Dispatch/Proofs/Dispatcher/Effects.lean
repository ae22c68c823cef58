import Dispatch.Proofs.Resolution.Provenance

/-!
# Calls to the host

The calls to the host that a step makes follow one discipline, whichever operation it is, whether
the resolution was remembered or not, and however the host answers.

* `Dispatcher.effects_of_answer`: a step that is refused makes no call; any other performs the
  operation that it selects, and succeeds if the last call does.
-/

namespace Dispatch

/-! ### Receivers of operations -/

/-- Whether the member of an operation on a receiver is static, and the receiver handed to the host
for it. Constructors and constants of enumerations have none. -/
def Operation.aim? : Operation → Option (Bool × Option Value)
  | invoke target o _ => some (o.isStatic, target)
  | readField target f | writeField target f _ => some (f.decl.isStatic, target)
  | construct .. | constant _ => none

/-- The receiver that a step works on. -/
def Step.receiver? : Step → Option Receiver
  | .call v _ _ | .getField v _ | .getFieldOrNested v _ | .setField v _ _
  | .run (.call v _ _) | .run (.getField v _) | .run (.getFieldOrNested v _)
  | .run (.setField v _ _) => Receiver.of? v
  | _ => none

/-- The host gets no receiver for a static member, and for any other the instance that the receiver
is. -/
def Operation.AimsAt (op : Operation) (receiver : Option Receiver) : Prop :=
  ∀ isStatic target, op.aim? = some (isStatic, target) →
    (target = none ↔ isStatic = true) ∧
      (isStatic = false → target = receiver.bind Receiver.instance?)

/-- A target is missing for static members alone, and is the receiver's instance otherwise. -/
theorem Receiver.of_target_eq_ok {r : Receiver} {member : Member} {isStatic : Bool}
    {target : Option Value} (h : r.target member isStatic = .ok target) :
    (target = none ↔ isStatic = true) ∧ (isStatic = false → target = r.instance?) := by
  unfold Receiver.target at h
  cases isStatic with
  | true =>
    obtain rfl := Except.ok.inj h
    simp
  | false =>
    cases hinstance : r.instance? with
    | none => simp [hinstance] at h
    | some v =>
      simp only [hinstance, Bool.false_eq_true, if_false] at h
      obtain rfl := Except.ok.inj h
      simp

theorem Binding.aimsAt_operation {b : Binding} {r : Receiver} {args : List Value} {op : Operation}
    (hop : b.operation r args = .ok op) : op.AimsAt (some r) := by
  intro isStatic target haim
  cases becomes_of_operation hop with
  | constructor | nested | enclosed | constant => cases haim
  | method _ htarget | field _ htarget =>
    obtain ⟨rfl, rfl⟩ := Prod.mk.inj (Option.some.inj haim)
    exact Receiver.of_target_eq_ok htarget

namespace Dispatcher

section Aim

variable {σ : Type} {d : Dispatcher σ} {s : State σ}

/-- Whatever a step selects is aimed at the receiver of the step. -/
theorem Selects.aimsAt {step : Step} {op : Operation} (h : d.Selects s step op) :
    op.AimsAt step.receiver? := by
  induction h with
  | call hr _ hop | getField hr _ hop | getFieldOrNested hr _ hop =>
    have haim := Binding.aimsAt_operation hop
    rwa [← hr] at haim
  | construct | constructNamed =>
    intro isStatic target haim
    cases haim
  | @setField v r name f value target hr hf hvalue htarget =>
    intro isStatic target' haim
    obtain ⟨rfl, rfl⟩ := Prod.mk.inj (Option.some.inj haim)
    simp only [Step.receiver?, hr]
    exact Receiver.of_target_eq_ok htarget
  | @run request op _ ih => cases request <;> exact ih

end Aim

/-! ### The discipline -/

variable {σ : Type} {d : Dispatcher (σ × List HostEvent)} {h : Host σ}
  {s : State (σ × List HostEvent)}

/-- What a step that may call the host does to it, in every state that is reached. Either the step
fails on its own account and makes no call; or it finds a nested type and makes none; or it performs
the operation that it selects, with an argument for every parameter and the receiver that the
member needs, and ends as the last call does. -/
theorem effects_of_answer (hd : d.host = h.observed) (hs : d.Reached s) {step : Step}
    (hstep : step.mayCallHost = true) :
    ∃ events, (d.answer step s).2.host.2 = s.host.2 ++ events ∧
      ((∃ e, (d.answer step s).1 = .error e ∧ e.isHostFailure = false ∧ events = []) ∨
        (∃ t, d.catalog.nestedRead? step = some t ∧
          (d.answer step s).1 = .ok (.value (.type t)) ∧ events = []) ∨
        ∃ op outcome, d.catalog.nestedRead? step = none ∧ d.Selects s step op ∧
          op.params.length = op.args.length ∧ op.AimsAt step.receiver? ∧
          op.Performed events outcome ∧
          events.getLast?.map (·.outcome) = some outcome ∧
          (d.answer step s).1 = (outcome.map step.answered).mapError (.hostFailed op.member)) := by
  cases hnested : d.catalog.nestedRead? step with
  | some t =>
    obtain ⟨hhost, hanswer⟩ := answer_nested hs.agrees hnested
    refine ⟨[], by rw [hhost, List.append_nil], ?_⟩
    rcases hanswer with hok | ⟨e, he, herror⟩
    · exact .inr (.inl ⟨t, rfl, hok, rfl⟩)
    · exact .inl ⟨e, herror, he, rfl⟩
  | none =>
    obtain ⟨events, hevents, ⟨e, herror, he, hnone⟩ | ⟨op, outcome, hop, hperformed, hanswer⟩⟩ :=
      (carries_answer hs.agrees hstep hnested).observed hd
    · exact ⟨events, hevents, .inl ⟨e, herror, he, hnone⟩⟩
    · obtain ⟨t, -, hfound⟩ := hop.foundOn hs
      obtain ⟨before, last, rfl, houtcome⟩ := hperformed.exists_last
      have hlast : (before ++ [last]).getLast?.map (·.outcome) = some outcome := by
        rw [List.getLast?_concat, Option.map_some, houtcome]
      exact ⟨_, hevents, .inr (.inr ⟨op, outcome, rfl, hop, hfound.length_eq, hop.aimsAt,
        hperformed, hlast, hanswer⟩)⟩

/-! ### A construction with an enclosing instance -/

/-- A type whose instances are sequences, with a nested type that is constructed from one of them
and from another sequence. -/
def gated : Catalog := .ofTable ⟨[
  (⟨"List"⟩, ⟨{ TypeInfo.topLevel ⟨"List"⟩ with kind := .interface }, some {}⟩),
  (⟨"Herd"⟩, ⟨{ TypeInfo.topLevel ⟨"Herd"⟩ with
      interfaces := [⟨"List"⟩], nested := [⟨"Gate", ⟨"Herd$Gate"⟩, true⟩] }, some {}⟩),
  (⟨"Herd$Gate"⟩, ⟨{ TypeInfo.topLevel ⟨"Herd$Gate"⟩ with
      isStatic := false, enclosing := some ⟨"Herd"⟩ },
    some { constructors := [{ params := [.objectArray, .objectArray], target := 1 }] }⟩)]⟩

/-- A herd. -/
def herd (n : Nat) : Value := .object ⟨⟨"Herd"⟩, n⟩

/-- A host of herds of one member, of which the second has gone. -/
def stray : Host Unit :=
  { Host.idle with
    elements := fun i => if i.identity = 2 then throw (.raised "gone") else pure [.int 1] }

/-- The dispatcher of the catalog and the host. -/
def herding : Dispatcher (Unit × List HostEvent) := { catalog := gated, host := stray.observed }

/-- A state in which a gate between two herds has been constructed. -/
def herded : State (Unit × List HostEvent) :=
  herding.after [.call (herd 1) "Gate" [herd 3]] (herding.start ((), []))

/-- On a resolution that was remembered the enclosing herd is copied, the other cannot be, and
nothing is constructed. -/
theorem effects_of_answer_herding :
    let step : Step := .call (herd 1) "Gate" [herd 2]
    let events : List HostEvent := [⟨.elements ⟨⟨"Herd"⟩, 1⟩, .ok (.array [.int 1])⟩,
      ⟨.elements ⟨⟨"Herd"⟩, 2⟩, .error (.raised "gone")⟩]
    herding.Reached herded ∧ step.mayCallHost = true ∧
      (herding.answer step herded).2.host.2.drop herded.host.2.length = events ∧
      ∃ op, herding.Selects herded step op ∧ op.params.length = op.args.length ∧
        op.Performed events (.error (.raised "gone")) ∧
        (herding.answer step herded).1 = .error (.hostFailed op.member (.raised "gone")) := by
  intro step events
  have hs : herding.Reached herded := ⟨_, _, rfl⟩
  have hd : herding.host = stray.observed := rfl
  have hstep : step.mayCallHost = true := rfl
  have hlog : (herding.answer (.call (herd 1) "Gate" [herd 2]) herded).2.host.2.drop
      herded.host.2.length = [⟨.elements ⟨⟨"Herd"⟩, 1⟩, .ok (.array [.int 1])⟩,
        ⟨.elements ⟨⟨"Herd"⟩, 2⟩, .error (.raised "gone")⟩] := by with_unfolding_all rfl
  obtain ⟨events', hevents, hcases⟩ := effects_of_answer hd hs hstep
  have hnew : events' = events := by
    rw [hevents, List.drop_left] at hlog
    exact hlog
  subst hnew
  refine ⟨hs, hstep, hlog, ?_⟩
  rcases hcases with ⟨e, -, -, hnone⟩ | ⟨t, -, -, hnone⟩ |
    ⟨op, outcome, -, hop, hlength, -, hperformed, hlast, hanswer⟩
  · exact absurd hnone (List.cons_ne_nil _ _)
  · exact absurd hnone (List.cons_ne_nil _ _)
  · obtain rfl := Option.some.inj hlast
    exact ⟨op, hop, hlength, hperformed, hanswer⟩

end Dispatcher

end Dispatch
