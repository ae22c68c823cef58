import Dispatch.Proofs.Dispatcher.Moves

/-!
# Subtyping and inheritance

A type is a subtype of everything above it, whichever steps lead there. Its members come from
fewer types: those that steps to superclasses and then steps to interfaces lead to. A superclass
of an interface is above the type and not among them, so it may declare what the type does not
offer (`Catalog.interface_superclass_not_offered`).

* `Dispatcher.offers_iff`: a subtype offers what its supertype declares exactly if the types that
  it inherits from declare it as well.
-/

namespace Dispatch

namespace Catalog

variable {c : Catalog} {t u : TypeName} {info : TypeInfo} {name : String}

variable (c) in
/-- Whatever `u` declares is declared by a described type that `t` inherits from. -/
def Covers (t u : TypeName) : Prop :=
  (∀ name params, c.DeclaresMethod u name params →
    ∃ v info, c.Inherits t v ∧ c.describe v = some info ∧ c.DeclaresMethod v name params) ∧
  ∀ name, c.DeclaresField u name →
    ∃ v info, c.Inherits t v ∧ c.describe v = some info ∧ c.DeclaresField v name

/-- A described type that is inherited from covers itself. -/
theorem covers_of_inherits {uinfo : TypeInfo} (hu : c.describe u = some uinfo)
    (h : c.Inherits t u) : c.Covers t u :=
  ⟨fun _ _ hdecl => ⟨u, uinfo, h, hu, hdecl⟩, fun _ hdecl => ⟨u, uinfo, h, hu, hdecl⟩⟩

/-- A signature is offered if it is declared on a type that superclasses and then interfaces lead
to. -/
theorem exists_method_iff_inherits (ht : c.describe t = some info)
    (hpublic : info.isPublic = true) {params : List Ty} :
    (∃ o ∈ c.methods t name, o.name = name ∧ o.params = params) ↔
      ∃ v vinfo, c.Inherits t v ∧ c.describe v = some vinfo ∧ c.DeclaresMethod v name params := by
  have hname : ∀ o ∈ c.methods t name, o.name = name := fun o ho =>
    ((mem_methods_iff ht).mp ho).2
  have hmem : (∃ o ∈ c.methods t name, o.name = name ∧ o.params = params) ↔
      ∃ o ∈ c.methods t name, o.params = params := by
    constructor
    · rintro ⟨o, ho, -, hparams⟩
      exact ⟨o, ho, hparams⟩
    · rintro ⟨o, ho, hparams⟩
      exact ⟨o, ho, hname o ho, hparams⟩
  rw [hmem, exists_method_iff ht hpublic]
  simp only [mem_order_iff, and_assoc, exists_and_left, exists_and_right]

/-- The same for the name of a field. -/
theorem field?_isSome_iff_inherits (ht : c.describe t = some info)
    (hpublic : info.isPublic = true) :
    (c.field? t name).isSome = true ↔
      ∃ v vinfo, c.Inherits t v ∧ c.describe v = some vinfo ∧ c.DeclaresField v name := by
  rw [field?_isSome_iff ht hpublic]
  simp only [mem_order_iff, and_assoc, exists_and_left, exists_and_right]

end Catalog

namespace Dispatcher

variable {σ : Type} {d : Dispatcher σ} {s : State σ} {t u : TypeName} {info uinfo : TypeInfo}

variable (d s) in
/-- Looked up on `t`, every method and every field that `u` declares is found. -/
def Offers (t u : TypeName) : Prop :=
  (∀ name params, d.catalog.DeclaresMethod u name params →
    ∃ o ∈ (Registry.methods d.catalog t name s.registry).1, o.name = name ∧ o.params = params) ∧
  ∀ name, d.catalog.DeclaresField u name →
    (Registry.field? d.catalog t name s.registry).1.isSome = true

/-- In every state that is reached, the subtype test holds along all paths upwards, and a subtype
offers what its supertype declares exactly if the types that it inherits from cover this; so it
does if steps to superclasses and then to interfaces lead to the supertype. -/
theorem offers_iff (hs : d.Reached s) (ht : d.catalog.describe t = some info)
    (hpublic : info.isPublic = true) (hu : d.catalog.describe u = some uinfo)
    (hsub : (Registry.isSubtype d.catalog t u s.registry).1 = true) :
    d.catalog.Below t u ∧ (d.Offers s t u ↔ d.catalog.Covers t u) ∧
      (d.catalog.Inherits t u → d.Offers s t u) := by
  have hbelow : d.catalog.Below t u := by
    rw [hs.answer_eq (Registry.yields_isSubtype t u)] at hsub
    exact Catalog.isSubtype_iff.mp hsub
  have hoffers : d.Offers s t u ↔ d.catalog.Covers t u := by
    unfold Offers Catalog.Covers
    simp only [fun name => hs.answer_eq (Registry.yields_methods t name),
      fun name => hs.answer_eq (Registry.yields_field? t name),
      Catalog.exists_method_iff_inherits ht hpublic, Catalog.field?_isSome_iff_inherits ht hpublic]
  exact ⟨hbelow, hoffers, fun hinh => hoffers.mpr (Catalog.covers_of_inherits hu hinh)⟩

end Dispatcher

namespace Catalog

/-- A type that implements an interface, which has a superclass. -/
def lifted : Catalog := .ofTable ⟨[
  (⟨"Base"⟩, ⟨.topLevel ⟨"Base"⟩,
    some { methods := [{ name := "m", params := [], target := 1 }]
           fields := [{ name := "f", type := .raw .int, target := 2 }] }⟩),
  (⟨"Mid"⟩, ⟨{ TypeInfo.topLevel ⟨"Mid"⟩ with kind := .interface, superclass := some ⟨"Base"⟩ },
    some {}⟩),
  (⟨"T"⟩, ⟨{ TypeInfo.topLevel ⟨"T"⟩ with interfaces := [⟨"Mid"⟩] }, some {}⟩)]⟩

end Catalog

theorem Dispatcher.offers_iff_lifted :
    let d : Dispatcher Unit := { catalog := .lifted, host := .idle }
    let s := d.after [.registry (.load ⟨"T"⟩)] (d.start ())
    (Registry.isSubtype d.catalog ⟨"T"⟩ ⟨"Mid"⟩ s.registry).1 = true ∧
      d.catalog.Below ⟨"T"⟩ ⟨"Mid"⟩ ∧ d.Offers s ⟨"T"⟩ ⟨"Mid"⟩ := by
  intro d s
  have hsub : (Registry.isSubtype d.catalog ⟨"T"⟩ ⟨"Mid"⟩ s.registry).1 = true := by decide +kernel
  have hinh : d.catalog.Inherits ⟨"T"⟩ ⟨"Mid"⟩ :=
    ⟨1, ⟨"T"⟩, .refl, ⟨"Mid"⟩, ⟨_, rfl, by decide⟩, rfl⟩
  have hmain := offers_iff (s := s) ⟨_, _, rfl⟩ rfl rfl rfl hsub
  exact ⟨hsub, hmain.1, hmain.2.2 hinh⟩

/-- A superclass of an interface is above the type, and what it declares is not offered. -/
theorem Catalog.interface_superclass_not_offered :
    let c := Catalog.lifted
    (Registry.isSubtype c ⟨"T"⟩ ⟨"Base"⟩ {}).1 = true ∧
      c.DeclaresMethod ⟨"Base"⟩ "m" [] ∧ (Registry.methods c ⟨"T"⟩ "m" {}).1 = [] ∧
      c.DeclaresField ⟨"Base"⟩ "f" ∧ (Registry.field? c ⟨"T"⟩ "f" {}).1 = none := by
  refine ⟨by decide +kernel, ?_, by decide +kernel, ?_, by decide +kernel⟩
  · exact ⟨_, _, rfl, List.mem_singleton_self _, rfl, rfl, rfl⟩
  · exact ⟨_, _, rfl, List.mem_singleton_self _, rfl, rfl⟩

end Dispatch
