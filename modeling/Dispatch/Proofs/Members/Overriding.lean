import Dispatch.Proofs.Dispatcher.Moves

/-!
# Overriding

Of the levels that declare a member the first one visited has it kept. The visit goes up the
superclass chain and then breadth-first through the interfaces, each in declaration order; so a
type overrides the types above it if it stands on the chain, or if it is nearer than they are. An
interface that is listed ahead of one that extends it, on the other hand, keeps its own members
(`Catalog.base_kept_over_derived`).
-/

namespace Dispatch

open Relation (ReflTransGen TransGen)

private theorem mem_before {α : Type} {a b : α} {p q p' q' : List α}
    (h : p ++ a :: q = p' ++ b :: q') (hne : a ≠ b) (hb : b ∉ p) : a ∈ p' := by
  rcases List.append_eq_append_iff.mp h with ⟨r, rfl, hr⟩ | ⟨r, rfl, hr⟩
  · cases r with
    | nil => exact absurd (List.cons.inj hr).1 hne
    | cons x r => simp [(List.cons.inj hr).1]
  · cases r with
    | nil => exact absurd (List.cons.inj hr).1.symm hne
    | cons x r => simp [(List.cons.inj hr).1] at hb

namespace Catalog

variable {c : Catalog} {t a b : TypeName} {info : TypeInfo} {name : String}

/-- A level before which the first declaration stands is not visited after one that declares. -/
private theorem ne_of_first {declares : TypeName → Prop} {owner : TypeName}
    {front back : List TypeName} (hab : c.Precedes t a b ∨ ¬ c.Inherits t b) (ha : declares a)
    (horder : c.order t = front ++ owner :: back) (hfirst : ∀ u ∈ front, ¬ declares u) :
    owner ≠ b := by
  -- were the owner `b`, then `a` would be met and declare it before
  rintro rfl
  rcases hab with ⟨hne, before, after, horder', hb⟩ | hb
  · exact hfirst a (mem_before (horder'.symm.trans horder) hne hb) ha
  · have hmem : owner ∈ c.order t := horder ▸ by simp
    exact hb (mem_order_iff.mp hmem).1

/-- A level that declares a method has it kept over every level visited later. -/
theorem owner_ne_of_mem_methods (ht : c.describe t = some info) (hpublic : info.isPublic = true)
    (hab : c.Precedes t a b ∨ ¬ c.Inherits t b) {o : Overload}
    (ha : c.DeclaresMethod a name o.params) (ho : o ∈ c.methods t name) : o.owner ≠ b := by
  obtain ⟨front, back, horder, -, hfirst⟩ := owner_of_mem_methods ht hpublic ho
  exact ne_of_first hab ha horder hfirst

/-- A field is not read from `b` where another level that declares it precedes `b`, or where `b` is
no level at all. -/
theorem owner_ne_of_field? (ht : c.describe t = some info) (hpublic : info.isPublic = true)
    (hab : c.Precedes t a b ∨ ¬ c.Inherits t b) {f : Field} (ha : c.DeclaresField a name)
    (hf : c.field? t name = some f) : f.owner ≠ b := by
  obtain ⟨front, back, horder, -, hfirst⟩ := owner_of_field? ht hpublic hf
  exact ne_of_first hab ha horder hfirst

/-! ### Two interfaces, one above the other -/

/-- A type with the given interfaces, of which `Derived` extends `Base` and declares the same. -/
def siblings (interfaces : List TypeName) : Catalog := .ofTable ⟨[
  (⟨"Base"⟩, ⟨{ TypeInfo.topLevel ⟨"Base"⟩ with kind := .interface },
    some { methods := [{ name := "m", params := [], target := 1 }]
           fields := [{ name := "f", type := .raw .int, target := 2 }] }⟩),
  (⟨"Derived"⟩, ⟨{ TypeInfo.topLevel ⟨"Derived"⟩ with
      kind := .interface, interfaces := [⟨"Base"⟩] },
    some { methods := [{ name := "m", params := [], target := 3 }]
           fields := [{ name := "f", type := .raw .int, target := 4 }] }⟩),
  (⟨"T"⟩, ⟨{ TypeInfo.topLevel ⟨"T"⟩ with interfaces }, some {}⟩)]⟩

/-- The height of a type of `siblings` above its roots. -/
def siblingRank (t : TypeName) : Nat := if t = ⟨"T"⟩ then 2 else if t = ⟨"Derived"⟩ then 1 else 0

theorem order_siblings_derived_first :
    (siblings [⟨"Derived"⟩, ⟨"Base"⟩]).order ⟨"T"⟩ = [⟨"T"⟩, ⟨"Derived"⟩, ⟨"Base"⟩] := by
  decide +kernel

/-- Listed first, the derived interface precedes its base. -/
theorem precedes_siblings_derived_first :
    (siblings [⟨"Derived"⟩, ⟨"Base"⟩]).Precedes ⟨"T"⟩ ⟨"Derived"⟩ ⟨"Base"⟩ :=
  ⟨by decide, [⟨"T"⟩], [⟨"Base"⟩], order_siblings_derived_first, by decide⟩

end Catalog

/-! ### What lookups keep -/

namespace Dispatcher

variable {σ : Type} {d : Dispatcher σ} {s : State σ} {t a b : TypeName} {info ainfo : TypeInfo}

/-- In every state that is reached, no member of a type is kept that a more derived type also
declares, provided that this stands on the superclass chain, or that fewer steps to interfaces
lead to it, or that it is visited first for another reason, or that the other is not visited. If
the more derived type is visited at all, one member is kept. -/
theorem overridden_not_kept (hs : d.Reached s) (hac : d.catalog.Acyclic)
    (ht : d.catalog.describe t = some info) (hpublic : info.isPublic = true)
    (ha : d.catalog.describe a = some ainfo) (hab : TransGen d.catalog.Derives a b)
    (hvisit : ReflTransGen d.catalog.Extends t a ∨
      (∃ n, d.catalog.InheritsIn n t a ∧ ∀ k ≤ n, ¬ d.catalog.InheritsIn k t b) ∨
      d.catalog.Precedes t a b ∨ ¬ d.catalog.Inherits t b) :
    (∀ name params, d.catalog.DeclaresMethod a name params →
      let found := (Registry.methods d.catalog t name s.registry).1
      (∀ o ∈ found, o.params = params → o.owner ≠ b) ∧
        (d.catalog.Inherits t a →
          ∃ o ∈ found, o.params = params ∧ ∀ p ∈ found, p.params = params → p = o)) ∧
    ∀ name, d.catalog.DeclaresField a name →
      let found := (Registry.field? d.catalog t name s.registry).1
      (∀ f, found = some f → f.owner ≠ b) ∧ (d.catalog.Inherits t a → found.isSome = true) := by
  -- the conditions on where the two types stand are used only through the order of the visit
  have hkept : d.catalog.Precedes t a b ∨ ¬ d.catalog.Inherits t b := by
    rcases hvisit with hchain | ⟨n, hnear, hfar⟩ | hvisit
    · exact .inl (Catalog.precedes_of_extends hac hchain ha hab)
    · exact .inl (Catalog.precedes_of_inheritsIn hnear ha hfar)
    · exact hvisit
  have horder : d.catalog.Inherits t a → a ∈ d.catalog.order t := fun hinh =>
    Catalog.mem_order_iff.mpr ⟨hinh, ainfo, ha⟩
  constructor
  · intro name params hdecl
    rw [hs.answer_eq (Registry.yields_methods t name)]
    constructor
    · rintro o ho rfl
      exact Catalog.owner_ne_of_mem_methods ht hpublic hkept hdecl ho
    · intro hinh
      obtain ⟨o, ho, hparams⟩ :=
        (Catalog.exists_method_iff ht hpublic).mpr ⟨a, horder hinh, hdecl⟩
      refine ⟨o, ho, hparams, fun p hp hpparams => ?_⟩
      exact Catalog.eq_of_mem_methods ht hpublic hp ho (hpparams.trans hparams.symm)
  · intro name hdecl
    rw [hs.answer_eq (Registry.yields_field? t name)]
    constructor
    · intro f hf
      exact Catalog.owner_ne_of_field? ht hpublic hkept hdecl hf
    · intro hinh
      exact (Catalog.field?_isSome_iff ht hpublic).mpr ⟨a, horder hinh, hdecl⟩

theorem overridden_not_kept_siblings :
    let d : Dispatcher Unit := { catalog := .siblings [⟨"Derived"⟩, ⟨"Base"⟩], host := .idle }
    let s := d.after [.registry (.load ⟨"T"⟩)] (d.start ())
    let found := (Registry.methods d.catalog ⟨"T"⟩ "m" s.registry).1
    let field := (Registry.field? d.catalog ⟨"T"⟩ "f" s.registry).1
    d.catalog.Acyclic ∧ TransGen d.catalog.Derives ⟨"Derived"⟩ ⟨"Base"⟩ ∧
      (∀ o ∈ found, o.params = [] → o.owner ≠ ⟨"Base"⟩) ∧ (∃ o ∈ found, o.params = []) ∧
      (∀ f, field = some f → f.owner ≠ ⟨"Base"⟩) ∧ field.isSome = true := by
  intro d s found field
  have hac : d.catalog.Acyclic := Catalog.acyclic_ofTable Catalog.siblingRank (by decide)
  have hab : TransGen d.catalog.Derives ⟨"Derived"⟩ ⟨"Base"⟩ := .single ⟨_, rfl, by decide⟩
  have hinh : d.catalog.Inherits ⟨"T"⟩ ⟨"Derived"⟩ :=
    ⟨1, ⟨"T"⟩, .refl, ⟨"Derived"⟩, ⟨_, rfl, by decide⟩, rfl⟩
  have hmain := overridden_not_kept (s := s) ⟨_, _, rfl⟩ hac rfl rfl rfl hab
    (.inr (.inr (.inl Catalog.precedes_siblings_derived_first)))
  have hmethod := hmain.1 "m" [] ⟨_, _, rfl, List.mem_singleton_self _, rfl, rfl, rfl⟩
  have hfield := hmain.2 "f" ⟨_, _, rfl, List.mem_singleton_self _, rfl, rfl⟩
  obtain ⟨o, ho, hparams, -⟩ := hmethod.2 hinh
  exact ⟨hac, hab, hmethod.1, ⟨o, ho, hparams⟩, hfield.1, hfield.2 hinh⟩

end Dispatcher

namespace Catalog

/-- Listed ahead of an interface that extends it, an interface keeps its own members. -/
theorem base_kept_over_derived :
    let c := siblings [⟨"Base"⟩, ⟨"Derived"⟩]
    c.Acyclic ∧ c.Derives ⟨"T"⟩ ⟨"Derived"⟩ ∧ TransGen c.Derives ⟨"Derived"⟩ ⟨"Base"⟩ ∧
      (c.DeclaresMethod ⟨"Derived"⟩ "m" [] ∧ c.DeclaresMethod ⟨"Base"⟩ "m" []) ∧
      (c.DeclaresField ⟨"Derived"⟩ "f" ∧ c.DeclaresField ⟨"Base"⟩ "f") ∧
      (Registry.methods c ⟨"T"⟩ "m" {}).1.map (·.owner) = [⟨"Base"⟩] ∧
      (Registry.field? c ⟨"T"⟩ "f" {}).1.map (·.owner) = some ⟨"Base"⟩ := by
  intro c
  have hac : c.Acyclic := acyclic_ofTable siblingRank (by decide)
  have hderived : c.Derives ⟨"T"⟩ ⟨"Derived"⟩ := ⟨_, rfl, by decide⟩
  have hbase : c.Derives ⟨"Derived"⟩ ⟨"Base"⟩ := ⟨_, rfl, by decide⟩
  refine ⟨hac, hderived, .single hbase, ⟨?_, ?_⟩, ⟨?_, ?_⟩, by decide +kernel, by decide +kernel⟩
  · exact ⟨_, _, rfl, List.mem_singleton_self _, rfl, rfl, rfl⟩
  · exact ⟨_, _, rfl, List.mem_singleton_self _, rfl, rfl, rfl⟩
  · exact ⟨_, _, rfl, List.mem_singleton_self _, rfl, rfl⟩
  · exact ⟨_, _, rfl, List.mem_singleton_self _, rfl, rfl⟩

end Catalog

end Dispatch
