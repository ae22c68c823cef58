import Dispatch.Proofs.Dispatcher.Moves
import Dispatch.Proofs.Hierarchy.Subtyping
import Mathlib.Data.List.DropRight

/-!
# Reading and writing types

What is read from a text is written as the text without the blanks around it, and so the type read
and the text written determine each other. A type that is not read from any text is one whose name
is taken for another type: a name with blanks around it, or the name of a builtin type.

A catalog knows types by name alone. Of the types that are read no two have one name, so a subtype
test between them confuses none.

* `Ty.name_ofName`: how a type that is read is written.
* `Ty.ofName_name_eq_iff`: the types that are read back.
* `Ty.typeName_eq_typeName_iff`: the types of one name.
* `Dispatcher.types_read_back`: round trips and subtype tests in every state of a session.
-/

namespace Dispatch

/-! ### Blanks around a text -/

namespace Text

/-- Neither end of the text is blank. -/
structure IsTrimmed (s : String) : Prop where
  head : ∀ c ∈ s.toList.head?, isBlank c = false
  last : ∀ c ∈ s.toList.getLast?, isBlank c = false

theorem toList_trim (s : String) :
    (trim s).toList = (s.toList.dropWhile isBlank).rdropWhile isBlank := String.toList_ofList

/-- What is trimmed has no blank at its ends. -/
theorem isTrimmed_trim (s : String) : IsTrimmed (trim s) := by
  rw [← String.ofList_toList (s := trim s), toList_trim]
  generalize hkept : s.toList.dropWhile isBlank = kept
  constructor
  · intro c hc
    rw [String.toList_ofList] at hc
    -- what is left of the end begins as it did
    obtain ⟨rest, hrest⟩ := List.rdropWhile_prefix isBlank (l := kept)
    have hhead : (s.toList.dropWhile isBlank).head? = some c := by
      rw [hkept, ← hrest, List.head?_append, Option.mem_def.mp hc, Option.some_or]
    have hnot := List.head?_dropWhile_not isBlank s.toList
    rwa [hhead] at hnot
  · intro c hc
    rw [String.toList_ofList] at hc
    have hne : kept.rdropWhile isBlank ≠ [] := by
      rintro hnil
      rw [hnil] at hc
      cases hc
    have hlast := List.rdropWhile_last_not isBlank kept hne
    rw [List.getLast?_eq_some_getLast hne] at hc
    obtain rfl := Option.some.inj hc
    simpa using hlast

theorem trim_eq_self_iff {s : String} : trim s = s ↔ IsTrimmed s := by
  constructor
  · intro h
    rw [← h]
    exact isTrimmed_trim s
  · rintro ⟨hhead, hlast⟩
    rw [← String.toList_inj, toList_trim]
    have hstart : s.toList.dropWhile isBlank = s.toList := by
      refine List.dropWhile_eq_self_iff.mpr fun hlength => ?_
      rw [Bool.not_eq_true]
      exact hhead _ (by rw [Option.mem_def, List.head?_eq_getElem?, List.getElem?_eq_getElem])
    rw [hstart]
    refine List.rdropWhile_eq_self_iff.mpr fun hne => ?_
    rw [Bool.not_eq_true]
    exact hlast _ (List.getLast?_eq_some_getLast hne)

theorem trim_trim (s : String) : trim (trim s) = trim s := trim_eq_self_iff.mpr (isTrimmed_trim s)

end Text

/-! ### Reading what has been written -/

namespace Ty

theorem named_not_mem_builtins (n : TypeName) : named n ∉ builtins := by
  simp [builtins, Prim.all]

theorem mem_builtins_or_named (t : Ty) : t ∈ builtins ∨ ∃ n, t = named n := by
  cases t with
  | named n => exact .inr ⟨n, rfl⟩
  | raw p | boxed p =>
    left
    simp [builtins, p.mem_all]
  | decimal | string | sequence | object | objectArray | type =>
    left
    simp [builtins]

theorem ofName_trim (s : String) : ofName (Text.trim s) = ofName s := by
  rw [ofName, ofName, Text.trim_trim]

/-- A type is written as the text that it is read from, without the blanks around it. -/
theorem name_ofName (s : String) : (ofName s).name = Text.trim s := by
  unfold ofName
  dsimp only
  cases hfound : builtins.find? (·.name == Text.trim s) with
  | some b =>
    have hname := List.find?_some hfound
    exact eq_of_beq hname
  | none => rfl

theorem ofName_name_ofName (s : String) : ofName (ofName s).name = ofName s := by
  rw [name_ofName, ofName_trim]

/-- A text that is no builtin name, blanks aside, is read as the name of a type. -/
theorem ofName_eq_named {n : TypeName} (hn : Text.IsTrimmed n.full)
    (hbuiltin : ∀ b ∈ builtins, b.name ≠ n.full) : ofName n.full = named n := by
  have hnone : builtins.find? (·.name == n.full) = none := by
    refine List.find?_eq_none.mpr fun b hb heq => ?_
    exact hbuiltin b hb (eq_of_beq heq)
  unfold ofName
  dsimp only
  rw [Text.trim_eq_self_iff.mpr hn, hnone, Option.getD_none]

/-- A type is read back unless it has a name with blanks around it or the name of a builtin type. -/
theorem ofName_name_eq_iff {t : Ty} :
    ofName t.name = t ↔
      ∀ n, t = named n → Text.IsTrimmed n.full ∧ ∀ b ∈ builtins, b.name ≠ n.full := by
  constructor
  · rintro h n rfl
    have hname : Text.trim n.full = n.full := by
      have hwritten := congrArg name h
      rwa [name_ofName] at hwritten
    refine ⟨Text.trim_eq_self_iff.mp hname, fun b hb heq => ?_⟩
    have hread : ofName n.full = b := heq ▸ ofName_name hb
    obtain rfl : named n = b := h.symm.trans hread
    exact named_not_mem_builtins n hb
  · intro h
    rcases t.mem_builtins_or_named with ht | ⟨n, rfl⟩
    · exact ofName_name ht
    · obtain ⟨hn, hbuiltin⟩ := h n rfl
      exact ofName_eq_named hn hbuiltin

/-! ### Types of one name -/

/-- Types are looked up under one name exactly if they are written alike. -/
theorem typeName_eq_iff {t u : Ty} : t.typeName = u.typeName ↔ t.name = u.name :=
  ⟨congrArg TypeName.full, congrArg TypeName.mk⟩

/-- No two types that are read have one name. -/
theorem typeName_ofName_inj {s s' : String} :
    (ofName s).typeName = (ofName s').typeName ↔ ofName s = ofName s' := by
  refine ⟨fun h => ?_, congrArg typeName⟩
  rw [← ofName_name_ofName s, ← ofName_name_ofName s', typeName_eq_iff.mp h]

/-- Two types have one name only if they are the same or a type of the host is named like a builtin
type. -/
theorem typeName_eq_typeName_iff {t u : Ty} :
    t.typeName = u.typeName ↔
      t = u ∨ (t ∈ builtins ∧ u = named t.typeName) ∨ (u ∈ builtins ∧ t = named u.typeName) := by
  constructor
  · intro h
    rcases t.mem_builtins_or_named with ht | ⟨n, rfl⟩ <;>
      rcases u.mem_builtins_or_named with hu | ⟨m, rfl⟩
    · left
      rw [← ofName_name ht, ← ofName_name hu, typeName_eq_iff.mp h]
    · exact .inr (.inl ⟨ht, congrArg named h.symm⟩)
    · exact .inr (.inr ⟨hu, congrArg named h⟩)
    · exact .inl (congrArg named h)
  · rintro (rfl | ⟨-, rfl⟩ | ⟨-, rfl⟩) <;> rfl

end Ty

namespace Dispatcher

open Relation

variable {σ : Type}

theorem Reached.takesSubtype_fst {d : Dispatcher σ} {s : State σ} (h : d.Reached s)
    (t param : Ty) :
    (Registry.takesSubtype d.catalog t param s.registry).1 = true ↔
      param.isRaw = false ∧ d.catalog.Below t.typeName param.typeName := by
  unfold Registry.takesSubtype
  cases param.isRaw with
  | true => exact iff_of_false Bool.false_ne_true fun hraw => Bool.noConfusion hraw.1
  | false =>
    rw [if_neg Bool.false_ne_true, h.isSubtype_fst, Catalog.isSubtype_iff]
    exact (and_iff_right rfl).symm

/-- What is read from a text is read again from what is written of it. A type is read back exactly
if it is builtin or its name has no blanks around it and is not that of a builtin type. No two types
that are read have one name; of all types only a host's type that is named like a builtin one shares
its name. So a subtype test between types that are read, in any state of a session, finds the same
type or a path of the catalog. -/
theorem types_read_back (d : Dispatcher σ) (host : σ) (steps : List Step) :
    let c := d.catalog
    let r := (d.after steps (d.start host)).registry
    (∀ s, Ty.ofName (Ty.ofName s).name = Ty.ofName s) ∧
    (∀ t : Ty, Ty.ofName t.name = t ↔
      ∀ n, t = .named n → Text.IsTrimmed n.full ∧ ∀ b ∈ Ty.builtins, b.name ≠ n.full) ∧
    (∀ s s', (Ty.ofName s).typeName = (Ty.ofName s').typeName ↔ Ty.ofName s = Ty.ofName s') ∧
    (∀ t u : Ty, t.typeName = u.typeName ↔
      t = u ∨ (t ∈ Ty.builtins ∧ u = .named t.typeName) ∨
        (u ∈ Ty.builtins ∧ t = .named u.typeName)) ∧
    ∀ s s', (Registry.takesSubtype c (Ty.ofName s) (Ty.ofName s') r).1 = true ↔
      (Ty.ofName s').isRaw = false ∧ (Ty.ofName s = Ty.ofName s' ∨
        TransGen c.Derives (Ty.ofName s).typeName (Ty.ofName s').typeName) := by
  intro c r
  have hs : d.Reached (d.after steps (d.start host)) := ⟨host, steps, rfl⟩
  refine ⟨Ty.ofName_name_ofName, fun _ => Ty.ofName_name_eq_iff, fun _ _ => Ty.typeName_ofName_inj,
    fun _ _ => Ty.typeName_eq_typeName_iff, fun s s' => ?_⟩
  rw [hs.takesSubtype_fst, Catalog.Below, reflTransGen_iff_eq_or_transGen,
    eq_comm (a := (Ty.ofName s').typeName), Ty.typeName_ofName_inj]

end Dispatcher

end Dispatch
