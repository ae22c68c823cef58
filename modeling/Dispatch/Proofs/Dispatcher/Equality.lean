import Dispatch.Proofs.Conversion.Decimals
import Dispatch.Proofs.Dispatcher.Moves
import Dispatch.Proofs.Resolution.Shape
import Mathlib.Data.List.Forall2

/-!
# Equal arguments

Values are equal as numbers, instances or contents are, which is coarser than being one
representation: a decimal may have trailing zeros, and zero two signs. What is coarser still is the
shape of a value, so arguments that are equal cannot be told apart by resolution.

* `Value.shape_of_equal`: equal values have one shape.
* `Dispatcher.resolve_of_equal`: equal arguments are resolved alike.
-/

namespace Dispatch

/-! ### Equality of values -/

/-- Floating-point numbers are equal if they are the same number, whatever the sign of zero. -/
theorem Binary.equal_iff {f : BinaryFormat} {x y : Binary f} :
    x.equal y = true ↔ x ≠ nan ∧ (x = y ∨ ∃ s t, x = number s 0 ∧ y = number t 0) := by
  cases x with
  | nan => simp [equal]
  | number s a =>
    cases y with
    | nan => simp [equal]
    | number t b =>
      rw [equal, Bool.and_eq_true, Bool.or_eq_true, beq_iff_eq, beq_iff_eq, beq_iff_eq,
        Fin.val_eq_zero_iff]
      constructor
      · rintro ⟨rfl, rfl | rfl⟩
        · exact ⟨nofun, .inl rfl⟩
        · exact ⟨nofun, .inr ⟨s, t, rfl, rfl⟩⟩
      · rintro ⟨-, heq | ⟨s', t', hx, hy⟩⟩
        · obtain ⟨rfl, rfl⟩ := Binary.number.inj heq
          exact ⟨rfl, .inl rfl⟩
        · obtain ⟨-, rfl⟩ := Binary.number.inj hx
          obtain ⟨-, rfl⟩ := Binary.number.inj hy
          exact ⟨rfl, .inr rfl⟩

namespace Value

variable {v w : Value} {vs ws : List Value}

/-- Lists are equal position by position and in length. -/
theorem allEqual_iff :
    allEqual vs ws = true ↔ List.Forall₂ (fun v w => v.equal w = true) vs ws := by
  induction vs generalizing ws with
  | nil => cases ws <;> simp [allEqual]
  | cons v vs ih => cases ws <;> simp [allEqual, ih]

/-- Equal values are of one type, and equal decimals of one rank. -/
theorem shape_of_equal (recast : Bool) (h : v.equal w = true) :
    v.shape recast = w.shape recast := by
  -- one case for each kind of value, the same on both sides, and one for all other pairs
  fun_cases equal v w with
  | case10 d e =>
    -- the rank of a decimal is that of the number it denotes
    have hrank : d.rank? = e.rank? := Decimal.rank?_congr (Decimal.equal_iff.mp h)
    simp only [shape, type?, hrank]
  | case15 i j =>
    obtain rfl : i = j := beq_iff_eq.mp h
    rfl
  | case16 => simp_all [equal]
  | _ => rfl

/-- Equal arguments have one shape. That of a decimal depends on the number alone. -/
theorem map_shape_of_equal (recast : Bool)
    (h : List.Forall₂ (fun v w => v.equal w = true) vs ws) :
    vs.map (shape recast) = ws.map (shape recast) := by
  induction h with
  | nil => rfl
  | cons hvw _ ih => rw [List.map_cons, List.map_cons, shape_of_equal recast hvw, ih]

end Value

/-! ### Resolution -/

section Congruence

variable {c : Catalog} {recast : Bool} {vs ws : List Value}

namespace Resolution

theorem resolveNested_congr (h : vs.map (Value.shape recast) = ws.map (Value.shape recast))
    (receiver : Receiver) (nested : NestedType) :
    resolveNested c recast receiver nested vs = resolveNested c recast receiver nested ws := by
  have houter : ∀ outer : Value, selectConstructor c recast nested.name (outer :: vs) =
      selectConstructor c recast nested.name (outer :: ws) := fun outer =>
    selectConstructor_congr (by rw [List.map_cons, List.map_cons, h]) nested.name
  simp only [resolveNested, selectConstructor_congr h, houter]

/-- Arguments of the same shapes are resolved by the same questions on any one receiver. -/
theorem resolve_congr (h : vs.map (Value.shape recast) = ws.map (Value.shape recast))
    (receiver : Receiver) (name : String) :
    resolve c recast receiver name vs = resolve c recast receiver name ws := by
  simp only [resolve, selectConstructor_congr h, selectMethod_congr h, resolveNested_congr h]

end Resolution

theorem Dispatcher.bindCall_congr {σ : Type} {d : Dispatcher σ}
    (h : ∀ recast, vs.map (Value.shape recast) = ws.map (Value.shape recast)) (r : Receiver)
    (name : String) : d.bindCall r name vs = d.bindCall r name ws := by
  have hresolve : ∀ recast, Resolution.resolve d.catalog recast r name vs =
      Resolution.resolve d.catalog recast r name ws := fun recast =>
    Resolution.resolve_congr (h recast) r name
  simp only [bindCall, CallShape.of, h, hresolve]

end Congruence

namespace Dispatcher

variable {vs ws : List Value}

/-- Arguments that are equal position by position are remembered under one shape, get the same
scores, and have the same method and constructor selected, or the same error, by the same questions
to the registry; so in every state a call is resolved alike for both, from the memo or not. Here
equality is that of the numbers that decimals denote, of floating-point numbers up to the sign of
zero, of instances, and of the elements of sequences. -/
theorem resolve_of_equal (h : List.Forall₂ (fun v w => v.equal w = true) vs ws) (recast : Bool) :
    (∀ r name, CallShape.of recast r name vs = CallShape.of recast r name ws) ∧
    (∀ c o (r : Registry), Registry.score? c recast vs o r = Registry.score? c recast ws o r) ∧
    (∀ c t name (r : Registry), Resolution.selectMethod c recast t name vs r =
      Resolution.selectMethod c recast t name ws r) ∧
    (∀ c t (r : Registry), Resolution.selectConstructor c recast t vs r =
      Resolution.selectConstructor c recast t ws r) ∧
    (∀ {σ : Type} (d : Dispatcher σ) v name (s : State σ),
      d.resolve v name vs s = d.resolve v name ws s) ∧
    (∀ d e, (Value.decimal d).equal (.decimal e) = true ↔ d.value = e.value) ∧
    (∀ x y, (Value.float x).equal (.float y) = true ↔
      x ≠ .nan ∧ (x = y ∨ ∃ s t, x = .number s 0 ∧ y = .number t 0)) ∧
    (∀ x y, (Value.double x).equal (.double y) = true ↔
      x ≠ .nan ∧ (x = y ∨ ∃ s t, x = .number s 0 ∧ y = .number t 0)) ∧
    (∀ i j, (Value.object i).equal (.object j) = true ↔ i = j) ∧
    ∀ us us', (Value.sequence us).equal (.sequence us') = true ↔
      List.Forall₂ (fun v w => v.equal w = true) us us' := by
  have hshapes := fun recast => Value.map_shape_of_equal recast h
  refine ⟨fun r name => ?_, fun c o r => ?_, fun c t name r => ?_, fun c t r => ?_,
    fun d v name s => ?_, fun d e => Decimal.equal_iff, fun x y => Binary.equal_iff,
    fun x y => Binary.equal_iff, fun i j => beq_iff_eq, fun us us' => Value.allEqual_iff⟩
  · rw [CallShape.of, CallShape.of, hshapes]
  · rw [Registry.score?_congr (hshapes recast)]
  · rw [Resolution.selectMethod_congr (hshapes recast)]
  · rw [Resolution.selectConstructor_congr (hshapes recast)]
  · simp only [resolve, bindCall_congr hshapes]

/-- An overload that takes a small number, a fraction, an array and anything. -/
def record : Overload :=
  { owner := ⟨"Log"⟩, name := "record", isStatic := true, target := 1
    params := [.raw .byte, .boxed .double, .objectArray, .object] }

/-- The hundred with places, the zero with a sign, and a sequence that has them among its
elements. -/
theorem resolve_of_equal_record :
    let hundred : Value := .decimal { negative := false, coefficient := 100, scale := 0 }
    let zero : Value := .double (.number false 0)
    let vs : List Value := [hundred, zero, .sequence [zero, hundred], .object ⟨⟨"Log"⟩, 1⟩]
    let hundred' : Value := .decimal .hundred
    let zero' : Value := .double (.number true 0)
    let ws : List Value := [hundred', zero', .sequence [zero', hundred'], .object ⟨⟨"Log"⟩, 1⟩]
    List.Forall₂ (fun v w => v.equal w = true) vs ws ∧
      (Registry.score? (.ofTable .empty) true vs record {}).1 = some 15 ∧
      (Registry.score? (.ofTable .empty) true ws record {}).1 = some 15 ∧
      CallShape.of true (.static ⟨"Log"⟩) "record" vs =
        CallShape.of true (.static ⟨"Log"⟩) "record" ws := by
  intro hundred zero vs hundred' zero' ws
  have hequal : List.Forall₂ (fun v w => v.equal w = true) vs ws :=
    .cons (by decide) (.cons (by decide) (.cons (by decide) (.cons (by decide) .nil)))
  have hscore : (Registry.score? (.ofTable .empty) true vs record {}).1 = some 15 := by
    decide +kernel
  obtain ⟨hshape, hsame, -⟩ := resolve_of_equal hequal true
  exact ⟨hequal, hscore, (congrArg Prod.fst (hsame _ _ _)).symm.trans hscore, hshape _ _⟩

end Dispatcher

end Dispatch
