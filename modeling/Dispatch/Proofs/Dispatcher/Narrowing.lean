import Dispatch.Proofs.Dispatcher.Finding
import Dispatch.Proofs.Hierarchy.Subtyping

/-!
# Arguments of subtypes

An object may stand in for another if its type is a subtype of the other's. A parameter that takes
the other takes it as well, although maybe for another reason: what was of the parameter's type may
now be of a subtype, and what was copied into an array as a sequence may now be an array by name.
So the overloads that accept a list of arguments accept it after such replacements.

* `Catalog.scoreArgument?_object_isSome_iff`: the parameters that take an object.
* `Catalog.score?_isSome_of_narrows`: acceptance by an overload.
* `Dispatcher.narrowed_accepted`: acceptance and searches, in every state of a session.
-/

namespace Dispatch

/-- The second value stands in for the first: it is the same, or both are objects and its type is a
subtype of that of the first. -/
inductive Value.Narrows (isSubtype : TypeName → TypeName → Bool) : Value → Value → Prop
  | same (v : Value) : Narrows isSubtype v v
  | object {i j : Instance} (h : isSubtype j.type i.type = true) :
      Narrows isSubtype (.object i) (.object j)

namespace Catalog

variable {c : Catalog} {recast : Bool} {param : Ty} {params : List Ty} {v w : Value}
  {vs ws args args' : List Value} {o : Overload}

/-! ### One argument -/

theorem takesSubtype_iff {t : Ty} :
    c.takesSubtype t param = true ↔
      param.isRaw = false ∧ c.Below t.typeName param.typeName := by
  simp [takesSubtype, isSubtype_iff]

theorem takesSequence_named_iff {t : TypeName} :
    c.takesSequence (.named t) param = true ↔
      param = .objectArray ∧ c.Below t Ty.sequence.typeName := by
  simp [takesSequence, isSequence, isSubtype_iff]

/-- An object is taken by the top type, by every type above its own, and as a sequence. -/
theorem scoreArgument?_object_isSome_iff {i : Instance} :
    (c.scoreArgument? recast (.object i) param).isSome = true ↔
      param.isTop = true ∨ (param.isRaw = false ∧ c.Below i.type param.typeName) ∨
        (param = .objectArray ∧ c.Below i.type Ty.sequence.typeName) := by
  have hnumber : primitiveScore? recast (.object i) (.named i.type) param = none := by
    simp [primitiveScore?, numericScore?, argumentRank?, Ty.rank?, Ty.prim?]
  have hscore : c.scoreArgument? recast (.object i) param =
      if param.isTop then some Score.valueToTop
      else if .named i.type = param then some Score.exact
      else if c.takesSubtype (.named i.type) param then some Score.subtype
      else if c.takesSequence (.named i.type) param then some Score.sequenceToArray
      else none := by
    rw [← hnumber]
    rfl
  have hsubtype : c.takesSubtype (.named i.type) param = true ↔
      param.isRaw = false ∧ c.Below i.type param.typeName := takesSubtype_iff
  -- the object's own type is above itself
  have hexact : .named i.type = param → c.takesSubtype (.named i.type) param = true := by
    rintro rfl
    exact hsubtype.mpr ⟨rfl, .refl⟩
  rw [hscore, ← hsubtype, ← takesSequence_named_iff]
  split_ifs <;> simp_all

/-- What accepts a value accepts every value that narrows it. -/
theorem scoreArgument?_isSome_of_narrows (hvw : v.Narrows c.isSubtype w)
    (h : (c.scoreArgument? recast v param).isSome = true) :
    (c.scoreArgument? recast w param).isSome = true := by
  cases hvw with
  | same => exact h
  | object hsub =>
    have hbelow := isSubtype_iff.mp hsub
    rw [scoreArgument?_object_isSome_iff] at h ⊢
    rcases h with htop | ⟨hraw, hparam⟩ | ⟨harray, hsequence⟩
    · exact .inl htop
    · exact .inr (.inl ⟨hraw, hbelow.trans hparam⟩)
    · exact .inr (.inr ⟨harray, hbelow.trans hsequence⟩)

/-! ### Lists of arguments -/

theorem scoreArguments?_isSome_of_narrows (hargs : List.Forall₂ (Value.Narrows c.isSubtype) vs ws)
    (h : (c.scoreArguments? recast params vs).isSome = true) :
    (c.scoreArguments? recast params ws).isSome = true := by
  induction hargs generalizing params with
  | nil => exact h
  | cons hvw _ ih =>
    cases params with
    | nil => rfl
    | cons param params =>
      obtain ⟨n, hn⟩ := Option.isSome_iff_exists.mp h
      obtain ⟨s, m, hs, hm, -⟩ := scoreArguments?_cons_eq_some_iff.mp hn
      have hhead := scoreArgument?_isSome_of_narrows hvw (Option.isSome_of_eq_some hs)
      have htail := ih (Option.isSome_of_eq_some hm)
      obtain ⟨s', hs'⟩ := Option.isSome_iff_exists.mp hhead
      obtain ⟨m', hm'⟩ := Option.isSome_iff_exists.mp htail
      exact Option.isSome_of_eq_some
        (scoreArguments?_cons_eq_some_iff.mpr ⟨s', m', hs', hm', rfl⟩)

/-- An overload that accepts some arguments accepts arguments that narrow them one by one. -/
theorem score?_isSome_of_narrows (hargs : List.Forall₂ (Value.Narrows c.isSubtype) args args')
    (h : (c.score? recast args o).isSome = true) : (c.score? recast args' o).isSome = true := by
  obtain ⟨n, hn⟩ := Option.isSome_iff_exists.mp h
  obtain ⟨hlength, ⟨rfl, -⟩ | ⟨hsome, hsum⟩⟩ := score?_eq_some_iff.mp hn
  · obtain rfl := List.forall₂_nil_left_iff.mp hargs
    exact h
  · have hsome' : args' ≠ [] := by
      rintro rfl
      exact hsome (List.forall₂_nil_right_iff.mp hargs)
    have hsum' := scoreArguments?_isSome_of_narrows hargs (Option.isSome_of_eq_some hsum)
    obtain ⟨n', hn'⟩ := Option.isSome_iff_exists.mp hsum'
    exact Option.isSome_of_eq_some
      (score?_eq_some_iff.mpr ⟨hlength.trans hargs.length_eq, .inr ⟨hsome', hn'⟩⟩)

/-! ### Selection -/

/-- Narrower arguments may select another overload, but never none. -/
theorem select_of_narrows (hargs : List.Forall₂ (Value.Narrows c.isSubtype) args args')
    {t : TypeName} {name : String} {os : List Overload}
    (h : c.select recast t name args os = .ok o) :
    ∃ o', c.select recast t name args' os = .ok o' := by
  obtain ⟨n, hfirst⟩ := (isFound_select.ok_iff o).mp h
  have haccepted := score?_isSome_of_narrows hargs (Option.isSome_of_eq_some hfirst.score_eq)
  cases hselect : c.select? recast args' os with
  | none =>
    rw [select?_eq_none_iff.mp hselect o hfirst.mem] at haccepted
    cases haccepted
  | some best => exact ⟨best.1, select_eq_ok_iff.mpr (by rw [hselect, Option.map_some])⟩

end Catalog

namespace Dispatcher

variable {σ : Type} {d : Dispatcher σ} {s s' : State σ} {args args' : List Value} {o : Overload}

/-- A method that is found for the arguments is followed by one for what stands in for them, in
every state that ranks decimals alike and admits the receiver. -/
theorem findMethod_of_narrows (hs : d.catalog.Agrees s.registry)
    (hs' : d.catalog.Agrees s'.registry) (hrecast : s'.recast = s.recast)
    (hargs : List.Forall₂ (Value.Narrows d.catalog.isSubtype) args args') {v : Value}
    {name : String} (h : (d.findMethod v name args s).1 = .ok o) :
    ∃ r o', Receiver.of? v = some r ∧ d.admits s r.type = true ∧
      (d.findMethod v name args' s').1 =
        if d.admits s' r.type then .ok o' else .error (.notImported r.type.full) := by
  rw [findMethod_fst hs] at h
  rw [findMethod_fst hs', hrecast]
  cases hr : Receiver.of? v with
  | none =>
    rw [hr] at h
    cases h
  | some r =>
    simp only [hr] at h
    cases hadmits : d.admits s r.type with
    | false =>
      rw [hadmits] at h
      cases h
    | true =>
      rw [hadmits] at h
      obtain ⟨o', ho'⟩ := Catalog.select_of_narrows hargs h
      refine ⟨r, o', rfl, hadmits, ?_⟩
      simp only [Catalog.selectMethod, ho']

theorem findConstructor_of_narrows (hs : d.catalog.Agrees s.registry)
    (hs' : d.catalog.Agrees s'.registry) (hrecast : s'.recast = s.recast)
    (hargs : List.Forall₂ (Value.Narrows d.catalog.isSubtype) args args') {t : TypeName}
    (h : (d.findConstructor t args s).1 = .ok o) :
    ∃ o', d.admits s t = true ∧ (d.findConstructor t args' s').1 =
      if d.admits s' t then .ok o' else .error (.notImported t.full) := by
  rw [findConstructor_fst hs] at h
  rw [findConstructor_fst hs', hrecast]
  cases hadmits : d.admits s t with
  | false =>
    rw [hadmits] at h
    cases h
  | true =>
    rw [hadmits] at h
    obtain ⟨o', ho'⟩ := Catalog.select_of_narrows hargs h
    refine ⟨o', rfl, ?_⟩
    rw [Catalog.selectConstructor, ho']

/-- In every state of a session, let some objects among the arguments be replaced by objects of
subtypes, as the registry answers. Every overload that accepts the arguments accepts the
replacements, however decimals are ranked. And where a method or a constructor is found for the
arguments, one is found for the replacements; in other states, as long as decimals are ranked alike,
the search never fails because all overloads reject them. -/
theorem narrowed_accepted (hs : d.Reached s)
    (hargs : List.Forall₂
      (Value.Narrows fun t u => (Registry.isSubtype d.catalog t u s.registry).1) args args') :
    (∀ recast o, (Registry.score? d.catalog recast args o s.registry).1.isSome = true →
      (Registry.score? d.catalog recast args' o s.registry).1.isSome = true) ∧
    (∀ v name o, (d.findMethod v name args s).1 = .ok o →
      (∃ o', (d.findMethod v name args' s).1 = .ok o') ∧
      ∀ s', d.Reached s' → s'.recast = s.recast → ∀ t m types,
        (d.findMethod v name args' s').1 ≠ .error (.noSuchOverload t m types)) ∧
    ∀ t o, (d.findConstructor t args s).1 = .ok o →
      (∃ o', (d.findConstructor t args' s).1 = .ok o') ∧
      ∀ s', d.Reached s' → s'.recast = s.recast → ∀ u m types,
        (d.findConstructor t args' s').1 ≠ .error (.noSuchOverload u m types) := by
  have hsubtype : (fun t u => (Registry.isSubtype d.catalog t u s.registry).1) =
      d.catalog.isSubtype := by
    funext t u
    exact hs.isSubtype_fst t u
  rw [hsubtype] at hargs
  refine ⟨fun recast o haccepted => ?_, fun v name o h => ⟨?_, fun s' hs' hrecast t m types => ?_⟩,
    fun t o h => ⟨?_, fun s' hs' hrecast u m types => ?_⟩⟩
  · rw [hs.answer_eq (Registry.yields_score? _ o)] at haccepted ⊢
    exact Catalog.score?_isSome_of_narrows hargs haccepted
  · obtain ⟨r, o', -, hadmits, ho'⟩ := findMethod_of_narrows hs.agrees hs.agrees rfl hargs h
    exact ⟨o', ho'.trans (if_pos hadmits)⟩
  · obtain ⟨r, o', -, -, ho'⟩ := findMethod_of_narrows hs.agrees hs'.agrees hrecast hargs h
    rw [ho']
    split <;> simp
  · obtain ⟨o', hadmits, ho'⟩ := findConstructor_of_narrows hs.agrees hs.agrees rfl hargs h
    exact ⟨o', ho'.trans (if_pos hadmits)⟩
  · obtain ⟨o', -, ho'⟩ := findConstructor_of_narrows hs.agrees hs'.agrees hrecast hargs h
    rw [ho']
    split <;> simp

/-- Bags, which count as lists, and trays, bags which by their name are arrays as well; and a store
that takes arrays. -/
def storage : Catalog := .ofTable ⟨[
  (⟨"Bag"⟩, ⟨{ TypeInfo.topLevel ⟨"Bag"⟩ with interfaces := [⟨"List"⟩] }, some {}⟩),
  (⟨"Tray"⟩, ⟨{ TypeInfo.topLevel ⟨"Tray"⟩ with
      superclass := some ⟨"Bag"⟩, interfaces := [⟨"Object[]"⟩] }, some {}⟩),
  (⟨"Store"⟩, ⟨.topLevel ⟨"Store"⟩, some {
    methods := [
      { name := "put", params := [.objectArray, .raw .int], isStatic := true, target := 1 }]
    constructors := [{ params := [.named ⟨"Bag"⟩], target := 2 }] }⟩)]⟩

/-- What takes a bag takes a tray: the array parameter for another reason, with a better score. -/
theorem narrowed_accepted_storage :
    let d : Dispatcher Unit := { catalog := storage, host := .idle }
    let s := d.after [.registry (.load ⟨"Tray"⟩)] (d.start ())
    let store : Value := .type ⟨"Store"⟩
    let bag : Value := .object ⟨⟨"Bag"⟩, 1⟩
    let tray : Value := .object ⟨⟨"Tray"⟩, 2⟩
    (Registry.scoreArgument? storage true bag .objectArray s.registry).1 = some 4 ∧
      (Registry.scoreArgument? storage true tray .objectArray s.registry).1 = some 5 ∧
      (∃ o, (d.findMethod store "put" [tray, .byte 7] s).1 = .ok o) ∧
      ∃ o, (d.findConstructor ⟨"Store"⟩ [tray] s).1 = .ok o := by
  intro d s store bag tray
  let put : Overload := ⟨⟨"Store"⟩, "put", [.objectArray, .raw .int], true, 1⟩
  let make : Overload := ⟨⟨"Store"⟩, "Store", [.named ⟨"Bag"⟩], true, 2⟩
  have hs : d.Reached s := ⟨_, _, rfl⟩
  have htray :
      Value.Narrows (fun t u => (Registry.isSubtype storage t u s.registry).1) bag tray := by
    refine .object ?_
    decide +kernel
  have hbag : (Registry.scoreArgument? storage true bag .objectArray s.registry).1 = some 4 := by
    decide +kernel
  have hscore : (Registry.scoreArgument? storage true tray .objectArray s.registry).1 = some 5 := by
    decide +kernel
  have hput : (d.findMethod store "put" [bag, .byte 7] s).1 = .ok put := by decide +kernel
  have hmake : (d.findConstructor ⟨"Store"⟩ [bag] s).1 = .ok make := by decide +kernel
  obtain ⟨-, hmethods, -⟩ := narrowed_accepted hs (.cons htray (.cons (.same (.byte 7)) .nil))
  obtain ⟨-, -, hconstructors⟩ := narrowed_accepted hs (.cons htray .nil)
  exact ⟨hbag, hscore, (hmethods store "put" put hput).1, (hconstructors ⟨"Store"⟩ make hmake).1⟩

end Dispatcher

end Dispatch
