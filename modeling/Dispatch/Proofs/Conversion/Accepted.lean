import Dispatch.Scoring

/-!
# What accepted arguments become

Conversion does not ask again whether a parameter accepts its argument, and leaves alone what it
cannot convert. So it relies on acceptance: a raw parameter accepts only what can be brought to its
kind. A parameter of any other type may accept more through the hierarchy, and that is passed on as
it is, unless it is a number for a numeric parameter. Characters and decimals are numbers here, as
they are for `Value.numeric?`.

* `Registry.coerce_accepted`: what conversion makes of an accepted argument, by the type of the
  parameter.
-/

namespace Dispatch

/-! ### Numbers -/

/-- A number brought to a rank is of the primitive of that rank. -/
theorem Numeric.type?_toValue (n : Numeric) {p : Prim} {r : Rank} (hp : p.rank? = some r) :
    (n.toValue r).type? = some (.boxed p) := by
  cases p <;> cases hp <;> rfl

namespace Value

variable {v w : Value} {param : Ty} {p : Prim} {r : Rank}

theorem numeric?_null : null.numeric? = none := rfl

/-- Apart from a character at its own rank, conversion is that of the number behind the value. -/
theorem convert?_cases (v : Value) (r : Rank) :
    (∃ a, v = char a ∧ r = .char ∧ v.convert? r = some v) ∨
      v.convert? r = v.numeric?.map (·.toValue r) := by
  unfold convert?
  split
  · next a => exact .inl ⟨a, rfl, rfl, rfl⟩
  · exact .inr rfl

/-- A conversion fails on values without a numeric reading alone, whatever the rank. -/
theorem convert?_eq_none_iff : v.convert? r = none ↔ v.numeric? = none := by
  rcases convert?_cases v r with ⟨a, rfl, rfl, hconv⟩ | hconv
  · rw [hconv]
    simp [numeric?]
  · rw [hconv, Option.map_eq_none_iff]

/-- A value that is converted has the boxed type of its new rank. -/
theorem type?_of_convert? (hp : p.rank? = some r) (h : v.convert? r = some w) :
    w.type? = some (.boxed p) := by
  rcases convert?_cases v r with ⟨a, rfl, rfl, hconv⟩ | hconv
  · have hchar : p = .char := by cases p <;> cases hp; rfl
    rw [hconv] at h
    obtain rfl := Option.some.inj h
    rw [hchar]
    rfl
  · rw [hconv] at h
    obtain ⟨n, -, rfl⟩ := Option.map_eq_some_iff.mp h
    exact n.type?_toValue hp

/-! ### Conversion by the type of the parameter -/

/-- A numeric parameter converts what can be converted and passes on the rest. -/
theorem coerce_of_rank? (h : param.rank? = some r) : v.coerce param = (v.convert? r).getD v := by
  unfold coerce
  split
  · cases h
  · rw [h]

/-- Parameters that are neither numeric nor arrays of objects leave every value alone. -/
theorem coerce_of_rank?_eq_none (h : param.rank? = none) (harray : param ≠ .objectArray) :
    v.coerce param = v := by
  unfold coerce
  split
  · exact absurd rfl harray
  · rw [h]

/-- What is no number is left as it is by every parameter but one of array type. -/
theorem coerce_of_numeric?_eq_none (h : v.numeric? = none) (harray : param ≠ .objectArray) :
    v.coerce param = v := by
  cases hr : param.rank? with
  | none => exact coerce_of_rank?_eq_none hr harray
  | some r => rw [coerce_of_rank? hr, convert?_eq_none_iff.mpr h, Option.getD_none]

/-- A number is brought to the kind of a numeric parameter, raw or boxed. -/
theorem type?_coerce (h : v.numeric?.isSome = true) (hprim : param.prim? = some p)
    (hp : p.rank?.isSome = true) : (v.coerce param).type? = some (.boxed p) := by
  obtain ⟨r, hr⟩ := Option.isSome_iff_exists.mp hp
  have hrank : param.rank? = some r := by rw [Ty.rank?, hprim, Option.bind_some, hr]
  have hconv : v.convert? r ≠ none := by
    rw [Ne, convert?_eq_none_iff, ← Ne, Option.ne_none_iff_isSome]
    exact h
  obtain ⟨w, hw⟩ := Option.ne_none_iff_exists'.mp hconv
  rw [coerce_of_rank? hrank, hw, Option.getD_some]
  exact type?_of_convert? hr hw

theorem coerce_objectArray (h : ∀ items, v ≠ sequence items) : v.coerce .objectArray = v := by
  cases v with
  | sequence items => exact absurd rfl (h items)
  | _ => rfl

end Value

/-! ### Acceptance as a number -/

variable {recast : Bool} {v : Value} {t param : Ty} {p : Prim}

theorem numeric?_isSome_of_rank? {r : Rank} (ht : v.type? = some t) (h : t.rank? = some r) :
    v.numeric?.isSome = true := by
  cases v with
  | null => cases ht
  | byte | short | char | int | long | float | double | decimal => rfl
  | bool | string | sequence | array | type | object =>
    -- the type of the value has no rank
    obtain rfl := Option.some.inj ht
    cases h

/-- Only numbers have a rank as arguments. -/
theorem numeric?_isSome_of_argumentRank? {r : Rank} (ht : v.type? = some t)
    (h : argumentRank? recast v t = some r) : v.numeric?.isSome = true := by
  unfold argumentRank? at h
  split at h
  · rfl
  · exact numeric?_isSome_of_rank? ht h

/-- A number is accepted as such only by a numeric parameter. -/
theorem numeric?_isSome_of_numericScore? (ht : v.type? = some t)
    (h : (numericScore? recast v t param).isSome = true) :
    v.numeric?.isSome = true ∧ param.rank?.isSome = true := by
  obtain ⟨s, hs⟩ := Option.isSome_iff_exists.mp h
  obtain ⟨q, hq, hs⟩ := Option.bind_eq_some_iff.mp hs
  obtain ⟨a, ha, -⟩ := Option.bind_eq_some_iff.mp hs
  exact ⟨numeric?_isSome_of_argumentRank? ht ha, Option.isSome_iff_exists.mpr ⟨q, hq⟩⟩

theorem rank?_isSome_of_prim? (hprim : param.prim? = some p) (h : param.rank?.isSome = true) :
    p.rank?.isSome = true := by
  rwa [Ty.rank?, hprim, Option.bind_some] at h

/-- An argument of the parameter's own type, or accepted as a number, comes to be of the
parameter's kind. -/
theorem Value.type?_coerce_of_accepted (recast : Bool) (hprim : param.prim? = some p)
    (h : v.type? = some (.boxed p) ∨
      ∃ t, v.type? = some t ∧ (numericScore? recast v t param).isSome = true) :
    (v.coerce param).type? = some (.boxed p) := by
  rcases h with ht | ⟨t, ht, hscore⟩
  · cases hp : p.rank? with
    | none =>
      have hrank : param.rank? = none := by rw [Ty.rank?, hprim, Option.bind_some, hp]
      have harray : param ≠ .objectArray := by
        rintro rfl
        cases hprim
      rw [coerce_of_rank?_eq_none hrank harray, ht]
    | some r =>
      have hrank : (Ty.boxed p).rank? = some r := hp
      have hnum := numeric?_isSome_of_rank? ht hrank
      exact type?_coerce hnum hprim (by rw [hp, Option.isSome_some])
  · obtain ⟨hnum, hrank⟩ := numeric?_isSome_of_numericScore? ht hscore
    exact type?_coerce hnum hprim (rank?_isSome_of_prim? hprim hrank)

namespace Registry

variable (c : Catalog)

/-- A raw parameter asks nothing of the hierarchy. -/
theorem scoreArgument?_raw (recast : Bool) (v : Value) (p : Prim) :
    scoreArgument? c recast v (.raw p) =
      pure (v.type?.bind (primitiveScore? recast v · (.raw p))) := by
  unfold scoreArgument?
  cases hv : v.type? with
  | none => rfl
  | some t =>
    have hne : t ≠ .raw p := by
      rintro rfl
      cases v <;> cases hv
    simp [Ty.isTop, hne, takesSubtype, takesSequence, Ty.isRaw]

/-- What a raw parameter accepts is brought to its kind. -/
theorem coerce_raw {r : Registry}
    (h : (scoreArgument? c recast v (.raw p) r).1.isSome = true) :
    v ≠ .null ∧ (v.coerce (.raw p)).type? = some (.boxed p) := by
  rw [scoreArgument?_raw] at h
  obtain ⟨s, hs⟩ := Option.isSome_iff_exists.mp h
  obtain ⟨t, ht, hscore⟩ := Option.bind_eq_some_iff.mp hs
  have hnull : v ≠ .null := by
    rintro rfl
    cases ht
  refine ⟨hnull, ?_⟩
  unfold primitiveScore? at hscore
  split at hscore
  · next hbool =>
    obtain ⟨rfl, hparam⟩ := hbool
    obtain rfl := Ty.raw.inj hparam
    exact Value.type?_coerce_of_accepted recast rfl (.inl ht)
  · have hnumeric : (numericScore? recast v t (.raw p)).isSome = true :=
      Option.isSome_iff_exists.mpr ⟨s, hscore⟩
    exact Value.type?_coerce_of_accepted recast rfl (.inr ⟨t, ht, hnumeric⟩)

end Registry

/-! ### Conversion of an accepted argument -/

theorem Prim.rank?_isSome_iff {p : Prim} : p.rank?.isSome = true ↔ p ≠ .bool := by
  cases p <;> simp [rank?]

/-- A boxed parameter keeps null, and makes nothing null. -/
theorem Value.coerce_boxed_eq_null_iff (v : Value) (p : Prim) :
    v.coerce (.boxed p) = null ↔ v = null := by
  constructor
  · intro h
    cases hnum : v.numeric? with
    | none => rwa [coerce_of_numeric?_eq_none hnum (by simp)] at h
    | some n =>
      -- a number is left as it is or becomes another
      cases hp : p.rank? with
      | none =>
        have hrank : (Ty.boxed p).rank? = none := hp
        rwa [coerce_of_rank?_eq_none hrank (by simp)] at h
      | some r =>
        have hkind : (v.coerce (.boxed p)).type? = some (.boxed p) :=
          type?_coerce (by simp [hnum]) rfl (by simp [hp])
        rw [h] at hkind
        cases hkind
  · rintro rfl
    exact coerce_of_numeric?_eq_none numeric?_null (by simp)

/-- What conversion makes of an argument that a parameter accepts. A raw parameter gets a value of
its kind and a boxed one null or, of a value of its own type or accepted as a number, a value of its
kind; an array parameter gets the elements of a sequence. The rest is passed on as it is, except for
a number that a boxed numeric parameter takes through the hierarchy. -/
theorem Registry.coerce_accepted (c : Catalog) (recast : Bool) (r : Registry) {v : Value}
    {param : Ty} (h : (Registry.scoreArgument? c recast v param r).1.isSome = true) :
    match param with
    | .raw p => v ≠ .null ∧ (v.coerce param).type? = some (.boxed p)
    | .boxed p =>
      (v.coerce param = .null ↔ v = .null) ∧
        ((v.type? = some param ∨
          ∃ t, v.type? = some t ∧ (numericScore? recast v t param).isSome = true) →
            (v.coerce param).type? = some (.boxed p)) ∧
        (v.numeric?.isSome = true ∧ p ≠ .bool → (v.coerce param).type? = some (.boxed p)) ∧
        (v.numeric? = none ∨ p = .bool → v.coerce param = v)
    | .objectArray =>
      (∀ items, v = .sequence items ∨ v = .array items → v.coerce param = .array items) ∧
        ((∀ items, v ≠ .sequence items) → v.coerce param = v)
    | _ => v.coerce param = v := by
  cases param with
  | raw p => exact coerce_raw c h
  | boxed p =>
    refine ⟨v.coerce_boxed_eq_null_iff p, Value.type?_coerce_of_accepted recast rfl, ?_, ?_⟩
    · rintro ⟨hnum, hp⟩
      exact Value.type?_coerce hnum rfl (Prim.rank?_isSome_iff.mpr hp)
    · rintro (hnum | rfl)
      · exact Value.coerce_of_numeric?_eq_none hnum (by simp)
      · exact Value.coerce_of_rank?_eq_none rfl (by simp)
  | objectArray =>
    refine ⟨?_, Value.coerce_objectArray⟩
    rintro items (rfl | rfl) <;> rfl
  | decimal | string | sequence | object | type | named =>
    exact Value.coerce_of_rank?_eq_none rfl (by simp)

/-- A catalog in which texts may stand for integers, and integers for bytes. -/
def Catalog.lenient : Catalog := .ofTable ⟨[
  (⟨"String"⟩, ⟨{ TypeInfo.topLevel ⟨"String"⟩ with superclass := some ⟨"Integer"⟩ }, none⟩),
  (⟨"Integer"⟩, ⟨{ TypeInfo.topLevel ⟨"Integer"⟩ with superclass := some ⟨"Byte"⟩ }, none⟩)]⟩

/-- A decimal becomes a character; a text is passed on to a parameter that takes it through the
hierarchy, and an integer is cut down to a byte. -/
theorem Registry.coerce_accepted_lenient :
    let c := Catalog.lenient
    let code : Value := .decimal { negative := false, coefficient := 65, scale := 0 }
    ((Registry.scoreArgument? c true code (.raw .char) {}).1 = some Score.toChar ∧
      (code.coerce (.raw .char)).type? = some (.boxed .char)) ∧
    ((Registry.scoreArgument? c true (.string "7") (.boxed .int) {}).1 = some Score.subtype ∧
      (Value.string "7").coerce (.boxed .int) = .string "7") ∧
    ((Registry.scoreArgument? c true (.int 300) (.boxed .byte) {}).1 = some Score.subtype ∧
      ((Value.int 300).coerce (.boxed .byte)).type? = some (.boxed .byte)) := by
  intro c code
  have hcode : (Registry.scoreArgument? c true code (.raw .char) {}).1 = some Score.toChar := by
    decide
  have htext : (Registry.scoreArgument? c true (.string "7") (.boxed .int) {}).1 =
      some Score.subtype := by decide +kernel
  have hbyte : (Registry.scoreArgument? c true (.int 300) (.boxed .byte) {}).1 =
      some Score.subtype := by decide +kernel
  refine ⟨⟨hcode, ?_⟩, ⟨htext, ?_⟩, hbyte, ?_⟩
  · exact (coerce_accepted c true {} (Option.isSome_of_eq_some hcode)).2
  · exact (coerce_accepted c true {} (Option.isSome_of_eq_some htext)).2.2.2 (.inl rfl)
  · exact (coerce_accepted c true {} (Option.isSome_of_eq_some hbyte)).2.2.1 ⟨rfl, by decide⟩

end Dispatch
