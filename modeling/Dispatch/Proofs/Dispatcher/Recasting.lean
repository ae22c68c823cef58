import Dispatch.Proofs.Conversion.Decimals
import Dispatch.Proofs.Dispatcher.Moves
import Dispatch.Proofs.Resolution.Shape

/-!
# Ranking decimals by magnitude

The toggle for decimals is asked for at the last of the ways in which a parameter can accept an
argument, and without it a decimal is no number there. So ranking decimals by magnitude adds
overloads to those that accept some arguments and leaves the scores of the others; and where no
argument is a decimal it changes nothing.

* `Registry.scoreArgument?_cases`: what the toggle can change in the score of an argument.
* `Registry.score?_recast`: a score that is given without the recast is given with it.
* `Dispatcher.IgnoresRecast`: computations that cannot tell whether decimals are ranked.
* `Dispatcher.recast_conservative`: scores, searches and assignments with and without the recast.
-/

namespace Dispatch

/-! ### Scores without and with the recast -/

section Score

variable {v : Value} {vs args : List Value} {t param : Ty} {params : List Ty} {n : Nat}
  {c : Catalog} {recast recast' : Bool} {r r' : Registry}

/-- Only the shapes of decimals depend on the recast. -/
theorem Value.shape_of_ne_decimal (h : ∀ d, v ≠ decimal d) (recast recast' : Bool) :
    v.shape recast = v.shape recast' := by
  cases v with
  | decimal d => exact absurd rfl (h d)
  | _ => rfl

theorem Value.map_shape_of_no_decimal (h : ∀ d, decimal d ∉ vs) (recast recast' : Bool) :
    vs.map (shape recast) = vs.map (shape recast') := by
  refine List.map_congr_left fun v hv => shape_of_ne_decimal (fun d hd => ?_) recast recast'
  exact h d (hd ▸ hv)

/-- Without the recast a decimal is no number, so what scores as a number is none. -/
theorem primitiveScore?_recast (ht : v.type? = some t)
    (h : primitiveScore? false v t param = some n) : primitiveScore? true v t param = some n := by
  by_cases hv : ∀ d, v ≠ .decimal d
  · rwa [primitiveScore?_congr ht (Value.shape_of_ne_decimal hv true false)]
  · push Not at hv
    obtain ⟨d, rfl⟩ := hv
    obtain rfl := Option.some.inj ht
    have hnone : primitiveScore? false (.decimal d) .decimal param = none := by
      simp [primitiveScore?, numericScore?, argumentRank?, Ty.rank?, Ty.prim?]
    rw [hnone] at h
    cases h

namespace Registry

/-- The score of an argument is either settled by its type, by the same questions whether or not
decimals are ranked, or it is that of a number, which is asked for last. -/
theorem scoreArgument?_cases (c : Catalog) (v : Value) (param : Ty) (r : Registry) :
    ∃ r', (∃ answer, ∀ recast, scoreArgument? c recast v param r = (answer, r')) ∨
      ∃ t, v.type? = some t ∧
        ∀ recast, scoreArgument? c recast v param r = (primitiveScore? recast v t param, r') := by
  unfold scoreArgument?
  cases v.type? with
  | none => exact ⟨r, .inl ⟨_, fun _ => rfl⟩⟩
  | some t =>
    cases param.isTop with
    | true => exact ⟨r, .inl ⟨_, fun _ => rfl⟩⟩
    | false =>
      by_cases hexact : t = param
      · simp only [hexact, if_true, Bool.false_eq_true, if_false]
        exact ⟨r, .inl ⟨_, fun _ => rfl⟩⟩
      · -- the catalog is asked the same whatever the toggle, which only the last case looks at
        simp only [hexact, Bool.false_eq_true, if_false, RegistryM.bind_apply]
        cases (takesSubtype c t param r).1 with
        | true => exact ⟨_, .inl ⟨_, fun _ => rfl⟩⟩
        | false =>
          simp only [Bool.false_eq_true, if_false, RegistryM.bind_apply]
          cases (takesSequence c t param (takesSubtype c t param r).2).1 with
          | true => exact ⟨_, .inl ⟨_, fun _ => rfl⟩⟩
          | false => exact ⟨_, .inr ⟨t, rfl, fun _ => rfl⟩⟩

/-- A score reached without ranking decimals stays the same with it, after the same questions. -/
theorem scoreArgument?_recast (h : scoreArgument? c false v param r = (some n, r')) :
    scoreArgument? c true v param r = (some n, r') := by
  obtain ⟨s, ⟨answer, hanswer⟩ | ⟨t, ht, hprimitive⟩⟩ := scoreArgument?_cases c v param r
  · rw [hanswer] at h ⊢
    exact h
  · rw [hprimitive] at h ⊢
    obtain ⟨hscore, rfl⟩ := Prod.mk.inj h
    rw [primitiveScore?_recast ht hscore]

theorem scoreArguments?_cons_eq_iff :
    scoreArguments? c recast (param :: params) (v :: vs) r = (some n, r') ↔
      ∃ s m r₁, scoreArgument? c recast v param r = (some s, r₁) ∧
        scoreArguments? c recast params vs r₁ = (some m, r') ∧ s + m = n := by
  rw [scoreArguments?, RegistryM.bind_apply]
  rcases scoreArgument? c recast v param r with ⟨score, r₁⟩
  cases score with
  | none =>
    refine iff_of_false (fun h => ?_) ?_
    · cases (Prod.mk.inj h).1
    · rintro ⟨s, m, r₂, hs, -⟩
      cases (Prod.mk.inj hs).1
  | some s =>
    rcases hrest : scoreArguments? c recast params vs r₁ with ⟨rest, r₂⟩
    dsimp only
    rw [RegistryM.bind_apply, hrest]
    constructor
    · intro h
      obtain ⟨hsum, rfl⟩ := Prod.mk.inj h
      obtain ⟨m, rfl, rfl⟩ := Option.map_eq_some_iff.mp hsum
      exact ⟨s, m, r₁, rfl, hrest, rfl⟩
    · rintro ⟨s', m, r₁', hs, hm, rfl⟩
      obtain ⟨hscore, rfl⟩ := Prod.mk.inj hs
      obtain rfl := Option.some.inj hscore
      obtain ⟨rfl, rfl⟩ := Prod.mk.inj (hrest.symm.trans hm)
      rfl

/-- The sum keeps to what the recast keeps of its parts. -/
theorem scoreArguments?_recast (h : scoreArguments? c false params vs r = (some n, r')) :
    scoreArguments? c true params vs r = (some n, r') := by
  induction params generalizing vs n r with
  | nil => simpa only [scoreArguments?] using h
  | cons param params ih =>
    cases vs with
    | nil => simpa only [scoreArguments?] using h
    | cons v vs =>
      obtain ⟨s, m, r₁, hs, hm, rfl⟩ := scoreArguments?_cons_eq_iff.mp h
      exact scoreArguments?_cons_eq_iff.mpr
        ⟨s, m, r₁, scoreArgument?_recast hs, ih hm, rfl⟩

/-- The same for an overload, of which each argument is scored after the registry has learned from
the last. -/
theorem score?_recast {o : Overload} (h : score? c false args o r = (some n, r')) :
    score? c true args o r = (some n, r') := by
  unfold score? at h ⊢
  by_cases hlength : o.params.length ≠ args.length
  · rwa [if_pos hlength] at h ⊢
  · rw [if_neg hlength] at h ⊢
    by_cases hparams : o.params.isEmpty = true
    · rwa [if_pos hparams] at h ⊢
    · rw [if_neg hparams] at h ⊢
      exact scoreArguments?_recast h

end Registry

end Score

/-! ### Computations that ignore the recast -/

/-- A state with the ranking of decimals turned on or off. -/
def Dispatcher.State.withRecast {σ : Type} (on : Bool) (s : State σ) : State σ :=
  { s with recast := on }

namespace Dispatcher

open Fallible

variable {σ α β : Type} {d : Dispatcher σ}

/-- Whether decimals are ranked or not, the computation has the same outcome, puts the same
questions to the catalog and the host, and leaves the same state but for the toggle. -/
def IgnoresRecast (run : DispatchM σ α) : Prop :=
  ∀ on s, run (s.withRecast on) = ((run s).1, (run s).2.withRecast on)

namespace IgnoresRecast

theorem pure (a : α) : IgnoresRecast (Pure.pure a : DispatchM σ α) := fun _ _ => rfl

theorem throw (e : DispatchError) : IgnoresRecast (throw e : DispatchM σ α) := fun _ _ => rfl

theorem bind {run : DispatchM σ α} {f : α → DispatchM σ β} (hrun : IgnoresRecast run)
    (hf : ∀ a, IgnoresRecast (f a)) : IgnoresRecast (run >>= f) := by
  intro on s
  rw [bind_apply, bind_apply, hrun on s]
  cases (run s).1 with
  | error e => rfl
  | ok a => exact hf a on (run s).2

/-- A state may be read as long as the toggle in it makes no difference. -/
theorem bind_get {f : State σ → DispatchM σ α} (hf : ∀ s, IgnoresRecast (f s))
    (hsame : ∀ on s, f (s.withRecast on) = f s) : IgnoresRecast (MonadState.get >>= f) := by
  intro on s
  have hget : ∀ s, (MonadState.get >>= f) s = f s s := fun _ => rfl
  rw [hget, hget, hsame]
  exact hf s on s

theorem map {run : DispatchM σ α} (hrun : IgnoresRecast run) (f : α → β) :
    IgnoresRecast (f <$> run) := by
  intro on s
  rw [map_apply, map_apply, hrun on s]

theorem onRegistry (run : RegistryM α) :
    IgnoresRecast (DispatchM.onRegistry run : DispatchM σ α) := fun _ _ => rfl

theorem onResolution (run : ResolveM α) :
    IgnoresRecast (DispatchM.onResolution run : DispatchM σ α) := fun _ _ => rfl

theorem onHost (member : Member) (run : HostM σ α) :
    IgnoresRecast (DispatchM.onHost member run) := fun _ _ => rfl

theorem ensureRegistered (t : TypeName) : IgnoresRecast (d.ensureRegistered t) := by
  refine bind_get (fun s => ?_) fun _ _ => rfl
  split
  · exact pure _
  · split
    · exact throw _
    · exact bind (onRegistry _) fun _ => pure _

theorem receiver (v : Value) (name : String) : IgnoresRecast (d.receiver v name) := by
  unfold Dispatcher.receiver
  cases Receiver.of? v with
  | none => exact throw _
  | some r => exact bind (ensureRegistered r.type) fun _ => pure r

theorem targetOf (r : Receiver) (member : Member) (isStatic : Bool) :
    IgnoresRecast (targetOf r member isStatic : DispatchM σ (Option Value)) := by
  unfold Dispatcher.targetOf instanceOf
  cases isStatic with
  | true => exact pure _
  | false =>
    cases r.instance? with
    | none => exact map (throw _) _
    | some v => exact map (pure v) _

/-- Without a decimal among the arguments the toggle is not felt. -/
theorem findMethod {args : List Value} (h : ∀ x, .decimal x ∉ args) (v : Value) (name : String) :
    IgnoresRecast (d.findMethod v name args) := by
  refine bind (receiver v name) fun r => bind_get (fun _ => onResolution _) fun on s => ?_
  rw [Resolution.selectMethod_congr (Value.map_shape_of_no_decimal h _ s.recast)]

theorem findConstructor {args : List Value} (h : ∀ x, .decimal x ∉ args) (t : TypeName) :
    IgnoresRecast (d.findConstructor t args) := by
  refine bind (ensureRegistered t) fun _ => bind_get (fun _ => onResolution _) fun on s => ?_
  rw [Resolution.selectConstructor_congr (Value.map_shape_of_no_decimal h _ s.recast)]

/-- An assignment of anything but a decimal does not feel the toggle. -/
theorem setField {value : Value} (h : ∀ x, value ≠ .decimal x) (v : Value) (name : String) :
    IgnoresRecast (d.setField v name value) := by
  refine bind (receiver v name) fun r => bind (onResolution _) fun f =>
    bind_get (fun s => bind (onRegistry _) fun score => ?_) fun on s => ?_
  · split
    · exact throw _
    · exact bind (targetOf _ _ _) fun target => onHost _ _
  · rw [Registry.scoreArgument?_congr (Value.shape_of_ne_decimal h _ s.recast)]

end IgnoresRecast

/-! ### A conservative extension -/

/-- Ranking decimals by magnitude is a conservative extension. Whatever the registry, an overload
that accepts arguments without it accepts them with it, at the same score and by the same questions.
Where no argument is a decimal, all overloads get the same scores either way, those that accept the
arguments and those that do not, and searches for methods and constructors have the same outcome; a
value that is no decimal is accepted by the same fields, and assigning it has the same outcome. -/
theorem recast_conservative (d : Dispatcher σ) (args : List Value) :
    (∀ o (r r' : Registry) n, Registry.score? d.catalog false args o r = (some n, r') →
      Registry.score? d.catalog true args o r = (some n, r')) ∧
    ((∀ x, .decimal x ∉ args) →
      (∀ o (r : Registry), Registry.score? d.catalog true args o r =
        Registry.score? d.catalog false args o r) ∧
      (∀ v name, IgnoresRecast (d.findMethod v name args)) ∧
      ∀ t, IgnoresRecast (d.findConstructor t args)) ∧
    ∀ value, (∀ x, value ≠ .decimal x) →
      (∀ param (r : Registry), Registry.scoreArgument? d.catalog true value param r =
        Registry.scoreArgument? d.catalog false value param r) ∧
      ∀ v name, IgnoresRecast (d.setField v name value) := by
  refine ⟨fun o r r' n => Registry.score?_recast, fun hargs => ⟨fun o r => ?_, ?_, ?_⟩,
    fun value hvalue => ⟨fun param r => ?_, ?_⟩⟩
  · rw [Registry.score?_congr (Value.map_shape_of_no_decimal hargs true false)]
  · exact IgnoresRecast.findMethod hargs
  · exact IgnoresRecast.findConstructor hargs
  · rw [Registry.scoreArgument?_congr (Value.shape_of_ne_decimal hvalue true false)]
  · exact IgnoresRecast.setField hvalue

/-- A type with two methods of one name, for an amount with and without an account. -/
def ledger : Catalog := .ofTable ⟨[
  (⟨"Ledger"⟩, ⟨.topLevel ⟨"Ledger"⟩, some { methods := [
    { name := "post", params := [.object, .raw .int], isStatic := true, target := 1 },
    { name := "post", params := [.raw .int], isStatic := true, target := 2 }] }⟩)]⟩

/-- A decimal for an account scores the same with and without the recast, which decides whether it
can be an amount; an integer is posted either way. -/
theorem recast_conservative_ledger :
    let d : Dispatcher Unit := { catalog := ledger, host := .idle }
    let post (params : List Ty) (target : Nat) : Overload :=
      { owner := ⟨"Ledger"⟩, name := "post", isStatic := true, params, target }
    let amount : Value := .decimal .hundred
    let find (on : Bool) (args : List Value) : Except DispatchError Overload :=
      (d.findMethod (.type ⟨"Ledger"⟩) "post" args ((d.start ()).withRecast on)).1
    (Registry.score? ledger false [amount, .int 3] (post [.object, .raw .int] 1) {}).1 = some 5 ∧
      (Registry.score? ledger true [amount, .int 3] (post [.object, .raw .int] 1) {}).1 = some 5 ∧
      find false [amount] =
        .error (.noSuchOverload ⟨"Ledger"⟩ "post" [some .decimal]) ∧
      find true [amount] = .ok (post [.raw .int] 2) ∧
      find false [.int 3] = .ok (post [.raw .int] 2) ∧
      find true [.int 3] = .ok (post [.raw .int] 2) := by
  intro d post amount find
  have hscore : (Registry.score? ledger false [amount, .int 3]
      (post [.object, .raw .int] 1) {}).1 = some 5 := by decide
  have hkept := (recast_conservative d [amount, .int 3]).1 (post [.object, .raw .int] 1) {} _ 5
    (Prod.ext hscore rfl)
  have hsame : IgnoresRecast (d.findMethod (.type ⟨"Ledger"⟩) "post" [.int 3]) :=
    ((recast_conservative d [.int 3]).2.1 fun x hx => by simp at hx).2.1 _ _
  have hoff : find false [.int 3] = .ok (post [.raw .int] 2) := by decide +kernel
  refine ⟨hscore, congrArg Prod.fst hkept, ?_, ?_, hoff, ?_⟩
  · decide +kernel
  · decide +kernel
  · have hon := congrArg Prod.fst (hsame true ((d.start ()).withRecast false))
    exact hon.trans hoff

end Dispatcher

end Dispatch
