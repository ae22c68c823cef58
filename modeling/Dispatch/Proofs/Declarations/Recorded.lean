import Dispatch.Declarations
import Mathlib.Data.List.Induction
import Mathlib.Data.List.Nodup

/-!
# What declarations record

Declarations are recorded one after another, and a later one of the same type replaces what an
earlier one has left. So what is known of a type is what its last declaration that was not abandoned
says (`Declarations.InForce`), with the constructors changed for enclosing instances.

* `Declarations.find?_ofList`: what is recorded of a type.
* `Declarations.mem_nestedIn_ofList`: the types known to be nested in another one.
* `Declaration.constructors_recorded`: the constructors recorded, from those that were written.
-/

namespace Dispatch

/-! ### Tables with one pair to a key -/

namespace Table

variable {α β : Type} [DecidableEq α] {t : Table α β}

theorem nodup_keys_insert (h : t.keys.Nodup) (a : α) (b : β) : (t.insert a b).keys.Nodup := by
  rw [keys_insert]
  split
  · exact h
  · next ha =>
    rw [← List.concat_eq_append]
    exact h.concat ha

/-- A pair is found under its key, as no other pair has it. -/
theorem find?_eq_some_iff (h : t.keys.Nodup) {a : α} {b : β} :
    t.find? a = some b ↔ (a, b) ∈ t.entries := by
  refine ⟨mem_entries_of_find?, fun hmem => ?_⟩
  obtain ⟨es⟩ := t
  induction es with
  | nil => cases hmem
  | cons e rest ih =>
    obtain ⟨hfirst, hrest⟩ := List.nodup_cons.mp h
    rw [find?, findIn]
    rcases List.mem_cons.mp hmem with rfl | hmem
    · rw [if_pos rfl]
    · have hne : e.1 ≠ a := by
        rintro rfl
        exact hfirst (List.mem_map.mpr ⟨_, hmem, rfl⟩)
      rw [if_neg hne]
      exact ih hrest hmem

end Table

/-! ### One declaration -/

/-- What a description says of where a type stands, apart from its supertypes and members. -/
def TypeInfo.place (info : TypeInfo) : TypeName × String × Bool × Option TypeName :=
  (info.name, info.simple, info.isStatic, info.enclosing)

namespace Draft

/-- No clause changes the name of a type or where it stands. -/
theorem place_add (draft : Draft) (target : Nat) (clause : Clause) :
    (draft.add target clause).info.place = draft.info.place := by
  cases clause <;> rfl

theorem place_finish (draft : Draft) : draft.finish.info.place = draft.info.place := by
  unfold finish
  split
  · split <;> rfl
  · rfl

end Draft

namespace Declarations

/-- No clause moves the type. -/
theorem place_addClauses (clauses : List Clause) (draft : Draft) (targets : Nat) :
    (addClauses clauses (draft, targets)).1.info.place = draft.info.place := by
  induction clauses generalizing draft targets with
  | nil => rfl
  | cons clause rest ih => rw [addClauses, ih, Draft.place_add]

/-- The constructors among some clauses, with the parameters as they are written, where the given
number of targets is taken before. -/
def constructorsIn : List Clause → Nat → List ConstructorDecl
  | [], _ => []
  | .constructor params isPublic :: rest, targets =>
    { params, isPublic, target := targets + 1 } :: constructorsIn rest (targets + 1)
  | clause :: rest, targets =>
    constructorsIn rest (if clause.declaresMember then targets + 1 else targets)

/-- The constructors are those of the constructor clauses, in order, with the targets they come to.
-/
theorem constructors_addClauses (clauses : List Clause) (draft : Draft) (targets : Nat) :
    (addClauses clauses (draft, targets)).1.listing.constructors =
      draft.listing.constructors ++ constructorsIn clauses targets := by
  induction clauses generalizing draft targets with
  | nil => exact (List.append_nil _).symm
  | cons clause rest ih =>
    rw [addClauses, ih]
    cases clause with
    | constructor params isPublic =>
      simp [Draft.add, Draft.addConstructor, constructorsIn, Clause.declaresMember]
    | _ => rfl

end Declarations

namespace Declaration

open Declarations

/-- The type that a declaration is about. -/
def name (d : Declaration) : TypeName := d.heading.draft.info.name

/-- The draft that a declaration records, where the given number of targets is taken before. -/
def recorded (d : Declaration) (targets : Nat) : Draft :=
  (addClauses d.clauses (d.heading.draft, targets)).1.finish

theorem place_recorded (d : Declaration) (targets : Nat) :
    (d.recorded targets).info.place = d.heading.draft.info.place := by
  rw [recorded, Draft.place_finish, place_addClauses]

theorem name_recorded (d : Declaration) (targets : Nat) : (d.recorded targets).info.name = d.name :=
  congrArg (·.1) (d.place_recorded targets)

/-- A type that is recorded as nested in another one has been declared so. -/
theorem heading_eq_nested_iff (d : Declaration) (targets : Nat) {outer : TypeName}
    {simple : String} {isStatic : Bool} :
    d.heading = .nested outer simple isStatic ↔
      (d.recorded targets).info.enclosing = some outer ∧
        (d.recorded targets).info.simple = simple ∧
        (d.recorded targets).info.isStatic = isStatic := by
  have hsimple : (d.recorded targets).info.simple = d.heading.draft.info.simple :=
    congrArg (·.2.1) (d.place_recorded targets)
  have hstatic : (d.recorded targets).info.isStatic = d.heading.draft.info.isStatic :=
    congrArg (·.2.2.1) (d.place_recorded targets)
  have henclosing : (d.recorded targets).info.enclosing = d.heading.draft.info.enclosing :=
    congrArg (·.2.2.2) (d.place_recorded targets)
  rw [hsimple, hstatic, henclosing]
  cases d.heading <;> simp [Heading.draft, TypeInfo.topLevel]

/-- The constructors of a nested type that is not static take the enclosing instance before what is
written; all others are recorded as written. -/
theorem constructors_recorded (d : Declaration) (targets : Nat) :
    (d.recorded targets).listing.constructors =
      match d.heading with
      | .nested outer _ false => Draft.bindEnclosing outer (constructorsIn d.clauses targets)
      | _ => constructorsIn d.clauses targets := by
  obtain ⟨heading, clauses, abandoned⟩ := d
  have hplace := place_addClauses clauses heading.draft targets
  have hstatic := congrArg (·.2.2.1) hplace
  have henclosing := congrArg (·.2.2.2) hplace
  have hwritten := constructors_addClauses clauses heading.draft targets
  simp only [TypeInfo.place] at hstatic henclosing
  rw [recorded, Draft.finish, henclosing, hstatic]
  match heading with
  | .topLevel _ => exact hwritten
  | .nested _ _ true => exact hwritten
  | .nested outer _ false => exact congrArg (Draft.bindEnclosing outer) hwritten

end Declaration

/-! ### One declaration after another -/

namespace Declarations

/-- A declaration writes one entry of the table, and none if it is abandoned. -/
theorem types_declare (ds : Declarations) (d : Declaration) :
    (ds.declare d).types =
      if d.abandoned then ds.types else ds.types.insert d.name (d.recorded ds.targets) := by
  rw [← d.name_recorded ds.targets]
  rfl

theorem ofList_concat (decls : List Declaration) (d : Declaration) :
    ofList (decls ++ [d]) = (ofList decls).declare d := by
  rw [ofList, List.foldl_append]
  rfl

/-- Every name stands in the table once, so the entry of a name is the one that is found. -/
theorem nodup_keys_ofList (decls : List Declaration) : (ofList decls).types.keys.Nodup := by
  induction decls using List.reverseRecOn with
  | nil => exact .nil
  | append_singleton decls d ih =>
    rw [ofList_concat, types_declare]
    split
    · exact ih
    · exact Table.nodup_keys_insert ih _ _

/-- Of the declarations of `t` that were not abandoned `decl` is the last one, and `before` is what
was declared before it. -/
def InForce (decls : List Declaration) (t : TypeName) (before : List Declaration)
    (decl : Declaration) : Prop :=
  ∃ after, decls = before ++ decl :: after ∧ decl.name = t ∧ decl.abandoned = false ∧
    ∀ d ∈ after, d.name = t → d.abandoned = true

theorem InForce.name_eq {decls before : List Declaration} {decl : Declaration} {t : TypeName}
    (h : InForce decls t before decl) : decl.name = t := by
  obtain ⟨-, -, hname, -⟩ := h
  exact hname

theorem not_inForce_nil {t : TypeName} {before : List Declaration} {decl : Declaration} :
    ¬ InForce [] t before decl := by
  rintro ⟨after, hdecls, -⟩
  simp at hdecls

/-- One more declaration comes into force, or leaves the one that was in force. -/
theorem inForce_concat_iff {decls before : List Declaration} {d decl : Declaration}
    {t : TypeName} :
    InForce (decls ++ [d]) t before decl ↔
      if d.name = t ∧ d.abandoned = false then before = decls ∧ decl = d
      else InForce decls t before decl := by
  constructor
  · rintro ⟨after, hdecls, hname, hkept, hafter⟩
    rcases List.eq_nil_or_concat after with rfl | ⟨after, last, rfl⟩
    · obtain ⟨rfl, hlast⟩ := List.append_inj' hdecls rfl
      obtain rfl := List.singleton_inj.mp hlast
      rw [if_pos ⟨hname, hkept⟩]
      exact ⟨rfl, rfl⟩
    · have hsplit : decls ++ [d] = (before ++ decl :: after) ++ [last] := by simpa using hdecls
      obtain ⟨rfl, hlast⟩ := List.append_inj' hsplit rfl
      obtain rfl := List.singleton_inj.mp hlast
      have hnot : ¬ (d.name = t ∧ d.abandoned = false) := by
        rintro ⟨hd, hfalse⟩
        rw [hafter d (by simp) hd] at hfalse
        cases hfalse
      rw [if_neg hnot]
      exact ⟨after, rfl, hname, hkept, fun e he => hafter e (by simp [he])⟩
  · intro h
    split at h
    · next hd =>
      obtain ⟨rfl, rfl⟩ := h
      exact ⟨[], rfl, hd.1, hd.2, by simp⟩
    · next hd =>
      obtain ⟨after, rfl, hname, hkept, hafter⟩ := h
      refine ⟨after ++ [d], by simp, hname, hkept, fun e he heq => ?_⟩
      rcases List.mem_append.mp he with he | he
      · exact hafter e he heq
      · obtain rfl := List.mem_singleton.mp he
        simpa [heq] using hd

/-- No two declarations of a type are in force. -/
theorem InForce.unique {decls before before' : List Declaration} {decl decl' : Declaration}
    {t : TypeName} (h : InForce decls t before decl) (h' : InForce decls t before' decl') :
    before' = before ∧ decl' = decl := by
  induction decls using List.reverseRecOn with
  | nil => exact absurd h not_inForce_nil
  | append_singleton decls d ih =>
    rw [inForce_concat_iff] at h h'
    split at h
    · next hd =>
      rw [if_pos hd] at h'
      obtain ⟨rfl, rfl⟩ := h
      exact h'
    · next hd =>
      rw [if_neg hd] at h'
      exact ih h h'

/-- What is recorded of a type is what the declaration in force records. -/
theorem find?_ofList {decls : List Declaration} {t : TypeName} {draft : Draft} :
    (ofList decls).types.find? t = some draft ↔
      ∃ before decl, InForce decls t before decl ∧
        decl.recorded (ofList before).targets = draft := by
  induction decls using List.reverseRecOn generalizing draft with
  | nil => simp [ofList, not_inForce_nil]
  | append_singleton decls d ih =>
    rw [ofList_concat, types_declare]
    simp only [inForce_concat_iff]
    by_cases habandoned : d.abandoned = true
    · simp [habandoned, ih]
    · by_cases hname : d.name = t
      · simp [habandoned, hname, Table.find?_insert]
      · simp [habandoned, hname, Ne.symm hname, Table.find?_insert, ih]

/-! ### What is known of declared types -/

/-- Every draft stands under its own name. -/
theorem mem_values_ofList {decls : List Declaration} {draft : Draft} :
    draft ∈ (ofList decls).types.values ↔
      ∃ before decl, InForce decls draft.info.name before decl ∧
        decl.recorded (ofList before).targets = draft := by
  constructor
  · intro hdraft
    obtain ⟨⟨t, draft⟩, hentry, rfl⟩ := List.mem_map.mp hdraft
    obtain ⟨before, decl, hforce, rfl⟩ :=
      find?_ofList.mp ((Table.find?_eq_some_iff (nodup_keys_ofList decls)).mpr hentry)
    have hname : (decl.recorded (ofList before).targets).info.name = t :=
      (decl.name_recorded _).trans hforce.name_eq
    exact ⟨before, decl, by rwa [hname], rfl⟩
  · intro h
    exact List.mem_map.mpr ⟨_, Table.mem_entries_of_find? (find?_ofList.mpr h), rfl⟩

/-- The types known to be nested in another one are those that their headings in force put there. -/
theorem mem_nestedIn_ofList {decls : List Declaration} {outer : TypeName} {nested : NestedType} :
    nested ∈ (ofList decls).nestedIn outer ↔
      ∃ before decl isStatic, InForce decls nested.name before decl ∧
        decl.heading = .nested outer nested.simple isStatic ∧
        nested.needsEnclosing = !isStatic := by
  constructor
  · intro hnested
    obtain ⟨draft, hdraft, rfl⟩ := List.mem_map.mp hnested
    obtain ⟨hdraft, henclosing⟩ := List.mem_filter.mp hdraft
    obtain ⟨before, decl, hforce, rfl⟩ := mem_values_ofList.mp hdraft
    have hheading := (decl.heading_eq_nested_iff _).mpr ⟨eq_of_beq henclosing, rfl, rfl⟩
    exact ⟨before, decl, _, hforce, hheading, rfl⟩
  · rintro ⟨before, decl, isStatic, hforce, hheading, hneeds⟩
    let draft := decl.recorded (ofList before).targets
    obtain ⟨henclosing, hsimple, hstatic⟩ := (decl.heading_eq_nested_iff _).mp hheading
    have hname : draft.info.name = nested.name := (decl.name_recorded _).trans hforce.name_eq
    refine List.mem_map.mpr ⟨draft, List.mem_filter.mpr ⟨?_, ?_⟩, ?_⟩
    · exact mem_values_ofList.mpr ⟨before, decl, by rwa [hname], rfl⟩
    · simpa using henclosing
    · rw [hsimple, hname, hstatic, ← hneeds]

/-- A type has no two nested types of one simple name. -/
theorem eq_of_mem_nestedIn_ofList {decls : List Declaration} {outer : TypeName}
    {nested nested' : NestedType} (h : nested ∈ (ofList decls).nestedIn outer)
    (h' : nested' ∈ (ofList decls).nestedIn outer) (hsimple : nested'.simple = nested.simple) :
    nested' = nested := by
  obtain ⟨before, decl, isStatic, hforce, hheading, hneeds⟩ := mem_nestedIn_ofList.mp h
  obtain ⟨before', decl', isStatic', hforce', hheading', hneeds'⟩ := mem_nestedIn_ofList.mp h'
  -- the names are made of the name of the outer type and the simple name
  have hname : nested'.name = nested.name := by
    rw [← hforce.name_eq, ← hforce'.name_eq, Declaration.name, Declaration.name, hheading,
      hheading', hsimple]
    rfl
  obtain ⟨-, rfl⟩ := hforce.unique (hname ▸ hforce')
  obtain ⟨-, -, rfl⟩ := Heading.nested.inj (hheading.symm.trans hheading')
  cases nested
  cases nested'
  simp_all

/-- What the catalog holds for a type is its draft with the list of its nested types filled in. -/
theorem find?_entries (ds : Declarations) (t : TypeName) :
    ds.entries.find? t = (ds.types.find? t).map fun draft =>
      { info := { draft.info with nested := ds.nestedIn t }, listing := some draft.listing } := by
  unfold entries Table.find?
  induction ds.types.entries with
  | nil => rfl
  | cons e rest ih =>
    rw [List.map_cons, Table.findIn, Table.findIn, ih]
    split
    · next heq => rw [← heq, Option.map_some]
    · rfl

theorem describe_catalog (ds : Declarations) : ds.catalog.describe = ds.describe := by
  funext t
  simp only [catalog, Catalog.ofTable, find?_entries, describe, Option.map_map]
  rfl

theorem members_catalog (ds : Declarations) : ds.catalog.members = ds.members := by
  funext t
  simp only [catalog, Catalog.ofTable, find?_entries, members]
  cases ds.types.find? t <;> rfl

/-- A nested type is found by its simple name. -/
theorem nestedNamed?_ofList {decls : List Declaration} {outer : TypeName} {info : TypeInfo}
    {nested : NestedType} (h : (ofList decls).describe outer = some info)
    (hnested : nested ∈ info.nested) : info.nestedNamed? nested.simple = some nested := by
  obtain ⟨draft, -, rfl⟩ := Option.map_eq_some_iff.mp h
  have hfound : ∃ found, ((ofList decls).nestedIn outer).reverse.find?
      (·.simple == nested.simple) = some found := by
    rw [← Option.isSome_iff_exists, List.find?_isSome]
    exact ⟨nested, List.mem_reverse.mpr hnested, by simp⟩
  obtain ⟨found, hfound⟩ := hfound
  have hmem := List.mem_reverse.mp (List.mem_of_find?_eq_some hfound)
  have hsimple : found.simple = nested.simple := by simpa using List.find?_some hfound
  obtain rfl := eq_of_mem_nestedIn_ofList hnested hmem hsimple
  exact hfound

end Declarations

end Dispatch
