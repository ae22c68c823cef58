import Dispatch.Proofs.Dispatcher.Names
import Dispatch.Proofs.Registry.Repetition

/-!
# What is remembered

Only calls, carried out or resolved, touch the memo. A binding is remembered when the registry has
answered all that its resolution asks, and the registry forgets nothing, so a remembered binding
spares no question that would still be asked.

* `Dispatcher.memo_answer`: steps that remember nothing leave the memo alone.
* `Dispatcher.bindCall_cases`: what binding a call does.
* `Dispatcher.Reached.recalls`: in every state that a session reaches, a remembered binding is what
  some call of its shape is resolved to in that state, with nothing learned.
-/

namespace Dispatch

namespace Dispatcher

open DispatchM Fallible

variable {σ α β : Type} {d : Dispatcher σ} {s s' : State σ}

/-- A step leaves the memo alone unless it binds a call. -/
theorem memo_answer {step : Step} (hstep : .remember ∉ step.changes)
    (hs : d.catalog.Agrees s.registry) : (d.answer step s).2.memo = s.memo :=
  (moves_answer step hs).memo hstep

/-! ### Remembered bindings -/

section Recalls

variable {recast : Bool} {r : Receiver} {name : String} {args : List Value} {b : Binding}
  {reg reg' : Registry}

/-- A call is bound to what is remembered, or to what it is resolved to, which may be remembered
then. -/
theorem bindCall_cases (d : Dispatcher σ) (r : Receiver) (name : String) (args : List Value)
    (s : State σ) :
    (∃ b, s.memo.find? (CallShape.of s.recast r name args) = some b ∧
      d.bindCall r name args s = (.ok b, s)) ∨
    ∃ result reg memo,
      Resolution.resolve d.catalog s.recast r name args s.registry = (result, reg) ∧
      d.bindCall r name args s = (result, { s with registry := reg, memo := memo }) ∧
      (memo = s.memo ∨ ∃ b, result = .ok b ∧
        memo = s.memo.insert (CallShape.of s.recast r name args) b) := by
  unfold bindCall
  cases d.settings.memoize with
  | false => exact .inr ⟨_, _, s.memo, rfl, rfl, .inl rfl⟩
  | true =>
    simp only [bind_apply, get_apply, Bool.not_true, Bool.false_eq_true, if_false]
    cases hfind : s.memo.find? (CallShape.of s.recast r name args) with
    | some b => exact .inl ⟨b, rfl, rfl⟩
    | none =>
      right
      simp only [bind_apply]
      cases hresult : (onResolution (Resolution.resolve d.catalog s.recast r name args) s).1 with
      | error e => exact ⟨_, _, s.memo, Prod.ext hresult rfl, rfl, .inl rfl⟩
      | ok b => exact ⟨_, _, _, Prod.ext hresult rfl, rfl, .inr ⟨b, rfl, rfl⟩⟩

variable (d) in
/-- What is remembered under a shape is what some call of the shape is resolved to now, without
anything being learned. -/
def Recalls (s : State σ) : Prop :=
  ∀ shape b, s.memo.find? shape = some b → ∃ recast r name args,
    shape = CallShape.of recast r name args ∧
      Resolution.resolve d.catalog recast r name args s.registry = (.ok b, s.registry)

/-- A resolution that has been made is made later on with nothing learned. -/
theorem resolve_again (hreg : d.catalog.Agrees reg)
    (h : (Resolution.resolve d.catalog recast r name args reg).1 = .ok b)
    (hmoves : (Resolution.resolve d.catalog recast r name args reg).2.Moves d.catalog reg') :
    Resolution.resolve d.catalog recast r name args reg' = (.ok b, reg') := by
  have hrepeats : RegistryM.Repeats d.catalog
      (ExceptT.run (Resolution.resolve d.catalog recast r name args)) _ :=
    RegistryM.Asks.repeats (Resolution.asks_resolve r name args)
  have hpost : _ = d.catalog.resolve recast r name args := (hrepeats.yields reg hreg).post
  have hagain := hrepeats.apply_again hreg hmoves
  rw [← hpost] at hagain
  exact hagain.trans (congrArg (·, reg') h)

/-- A change of the registry leaves what is recalled valid: the questions of the resolutions have
been answered, and are not asked again. -/
theorem Recalls.moves (h : d.Recalls s) (hs : d.catalog.Agrees s.registry)
    (hmoves : s.registry.Moves d.catalog s'.registry) (hmemo : s'.memo = s.memo) :
    d.Recalls s' := by
  intro shape b hfind
  rw [hmemo] at hfind
  obtain ⟨recast, r, name, args, hshape, hresolve⟩ := h shape b hfind
  refine ⟨recast, r, name, args, hshape, resolve_again hs (by rw [hresolve]) ?_⟩
  rwa [hresolve]

/-- A binding that is remembered anew has just been resolved. -/
theorem Recalls.bindCall (h : d.Recalls s) (hs : d.catalog.Agrees s.registry) (r : Receiver)
    (name : String) (args : List Value) : d.Recalls (d.bindCall r name args s).2 := by
  rcases bindCall_cases d r name args s with
    ⟨b, -, hbind⟩ | ⟨result, reg, memo, hresolve, hbind, hmemo⟩
  · rwa [hbind]
  · have hyields : ResolveM.Yields d.catalog
        (Resolution.resolve d.catalog s.recast r name args) _ :=
      Resolution.yields_resolve r name args
    have hmoves := (hyields s.registry hs).moves
    have hreg : (Resolution.resolve d.catalog s.recast r name args s.registry).2 = reg := by
      rw [hresolve]
    have hold : d.Recalls { s with registry := reg } := h.moves hs (hreg ▸ hmoves) rfl
    rw [hbind]
    rcases hmemo with rfl | ⟨b, rfl, rfl⟩
    · exact hold
    · intro shape b' hfind
      rw [Table.find?_insert] at hfind
      split at hfind
      · next hshape =>
        obtain rfl := Option.some.inj hfind
        exact ⟨s.recast, r, name, args, hshape,
          resolve_again hs (by rw [hresolve]) (by rw [hresolve]; exact .refl)⟩
      · exact hold shape b' hfind

theorem Recalls.resolve (h : d.Recalls s) (hs : d.catalog.Agrees s.registry) (v : Value)
    (name : String) (args : List Value) : d.Recalls (d.resolve v name args s).2 := by
  have hmoves := (within_receiver v name s hs).moves
  have hreceiver := h.moves hs hmoves.registry (hmoves.memo (by decide))
  rw [Dispatcher.resolve, bind_apply]
  cases (d.receiver v name s).1 with
  | error e => exact hreceiver
  | ok r => exact hreceiver.bindCall (hmoves.agrees hs) r name args

theorem Recalls.call (h : d.Recalls s) (hs : d.catalog.Agrees s.registry) (v : Value)
    (name : String) (args : List Value) : d.Recalls (d.call v name args s).2 := by
  cases hr : Receiver.of? v with
  | none =>
    rw [Dispatcher.call, receiver_of?_eq_none hr]
    exact h
  | some r =>
    -- what is carried out after the resolution concerns the host alone
    have hresolved := h.resolve hs v name args
    have hagrees := (within_resolve v name args s hs).agrees hs
    rw [call_eq hr, bind_apply]
    cases (d.resolve v name args s).1 with
    | error e => exact hresolved
    | ok b =>
      have hmoves := (within_carryOut r b args _ hagrees).moves
      exact hresolved.moves hagrees hmoves.registry (hmoves.memo (by decide))

/-- Every step keeps the memo recalled, whether it enters a binding or leaves the memo alone. -/
theorem Recalls.answer (h : d.Recalls s) (hs : d.catalog.Agrees s.registry) (step : Step) :
    d.Recalls (d.answer step s).2 := by
  by_cases hstep : .remember ∈ step.changes
  · have hmap : ∀ {γ : Type} {run : DispatchM σ γ} (f : γ → Answer), d.Recalls (run s).2 →
        d.Recalls ((f <$> run) s).2 := fun f hrun => by rwa [map_apply]
    cases step with
    | call v name args => exact hmap _ (h.call hs v name args)
    | resolve v name args => exact hmap _ (h.resolve hs v name args)
    | run request =>
      cases request with
      | call v name args => exact hmap _ (h.call hs v name args)
      | construct | getField | getFieldOrNested | setField => simp [Step.changes] at hstep
    | findMethod | findConstructor | construct | constructNamed | findField | getField
    | getFieldOrNested | setField | importText | setRecast | registry =>
      simp [Step.changes] at hstep
  · exact h.moves hs (moves_answer step hs).registry (memo_answer hstep hs)

/-- The induction over the steps, from any state in which the memo is recalled. -/
theorem recalls_after (hs : d.catalog.Agrees s.registry) (h : d.Recalls s) (steps : List Step) :
    d.Recalls (d.after steps s) := by
  induction steps generalizing s with
  | nil => exact h
  | cons step rest ih => exact ih ((moves_answer step hs).agrees hs) (h.answer hs step)

theorem Reached.recalls (h : d.Reached s) : d.Recalls s := by
  obtain ⟨host, steps, rfl⟩ := h
  exact recalls_after (Catalog.agrees_empty _) (fun _ _ hfind => by cases hfind) steps

end Recalls

end Dispatcher

end Dispatch
