import Dispatch.Member
import Dispatch.Proofs.Hierarchy.Levels
import Mathlib.Data.List.Pairwise

/-!
# Which members are kept

The members that a catalog gives a type, and where they come from: of the levels of the type, in
the order of the visit, the first that declares a signature or a field name has its declaration
kept.

* `Catalog.exists_method_iff`, `Catalog.field?_isSome_iff`: a signature or a name is offered
  exactly if some level declares it.
* `Catalog.owner_of_mem_methods`, `Catalog.owner_of_field?`: what is kept belongs to the first
  level that declares it.
-/

namespace Dispatch

/-! ### Keeping the first -/

section KeepFirst

variable {α β : Type} {agree : α → α → Bool}

/-- Every element is kept, or one before it that agrees with it is. -/
theorem exists_agree_of_mem (hrefl : ∀ a, agree a a = true)
    (htrans : ∀ {a b d}, agree a b = true → agree b d = true → agree a d = true)
    {l : List α} {a : α} (h : a ∈ l) : ∃ b ∈ keepFirst agree l, agree b a = true := by
  induction l with
  | nil => simp at h
  | cons x rest ih =>
    rcases List.mem_cons.mp h with rfl | h
    · exact ⟨a, List.mem_cons_self, hrefl a⟩
    · obtain ⟨b, hb, hba⟩ := ih h
      -- `b` is kept of the rest; it is dropped only for an `x` that agrees with it, and so with `a`
      by_cases hxb : agree x b = true
      · exact ⟨x, List.mem_cons_self, htrans hxb hba⟩
      · refine ⟨b, List.mem_cons_of_mem _ (List.mem_filter.mpr ⟨hb, ?_⟩), hba⟩
        simpa using hxb

/-- No two elements that are kept agree with each other. -/
theorem eq_of_mem_keepFirst {l : List α} {a b : α} (ha : a ∈ keepFirst agree l)
    (hb : b ∈ keepFirst agree l) (hab : agree a b = true) (hba : agree b a = true) : a = b := by
  -- one of the two comes first, and it does not agree with the other
  have hkept : (keepFirst agree l).Pairwise fun a b => agree a b = false ∨ agree b a = false :=
    (pairwise_keepFirst agree l).imp .inl
  have : Std.Symm fun a b => agree a b = false ∨ agree b a = false := ⟨fun _ _ => Or.symm⟩
  by_contra hne
  rcases hkept.forall ha hb hne with h | h
  · simp [hab] at h
  · simp [hba] at h

/-- What is kept of the second list agrees with nothing in the first. -/
private theorem mem_keepFirst_append {xs ys : List α} {b : α}
    (h : b ∈ keepFirst agree (xs ++ ys)) :
    b ∈ xs ∨ b ∈ keepFirst agree ys ∧ ∀ a ∈ xs, agree a b = false := by
  induction xs with
  | nil => exact .inr ⟨h, by simp⟩
  | cons x rest ih =>
    rcases List.mem_cons.mp h with rfl | h
    · exact .inl List.mem_cons_self
    · obtain ⟨hmem, hx⟩ := List.mem_filter.mp h
      rcases ih hmem with hb | ⟨hb, hrest⟩
      · exact .inl (List.mem_cons_of_mem _ hb)
      · refine .inr ⟨hb, fun a ha => ?_⟩
        rcases List.mem_cons.mp ha with rfl | ha
        · simpa using hx
        · exact hrest a ha

/-- What is kept of a sequence of levels comes from a level before which nothing agrees with it. -/
theorem exists_level_of_mem_keepFirst {f : β → List α} {levels : List β} {b : α}
    (h : b ∈ keepFirst agree (levels.flatMap f)) :
    ∃ before level after, levels = before ++ level :: after ∧ b ∈ f level ∧
      ∀ l ∈ before, ∀ a ∈ f l, agree a b = false := by
  induction levels with
  | nil => simp [keepFirst] at h
  | cons level rest ih =>
    rw [List.flatMap_cons] at h
    rcases mem_keepFirst_append h with hb | ⟨hb, hlevel⟩
    · exact ⟨[], level, rest, rfl, hb, by simp⟩
    · obtain ⟨before, l, after, rfl, hmem, hbefore⟩ := ih hb
      refine ⟨level :: before, l, after, rfl, hmem, fun k hk => ?_⟩
      rcases List.mem_cons.mp hk with rfl | hk
      · exact hlevel
      · exact hbefore k hk

end KeepFirst

/-- A signature is a name with the types of its parameters. -/
theorem Overload.sameSignature_iff {o p : Overload} :
    o.sameSignature p = true ↔ o.name = p.name ∧ o.params = p.params := by
  simp [Overload.sameSignature]

theorem Overload.sameSignature_refl (o : Overload) : o.sameSignature o = true :=
  sameSignature_iff.mpr ⟨rfl, rfl⟩

theorem Overload.sameSignature_trans {o p q : Overload} (hop : o.sameSignature p = true)
    (hpq : p.sameSignature q = true) : o.sameSignature q = true := by
  rw [sameSignature_iff] at *
  exact ⟨hop.1.trans hpq.1, hop.2.trans hpq.2⟩

namespace Catalog

variable (c : Catalog)

/-! ### Declarations -/

/-- The listing of `t` has a public method of the given name and parameters. -/
def DeclaresMethod (t : TypeName) (name : String) (params : List Ty) : Prop :=
  ∃ listing m, c.members t = some listing ∧ m ∈ listing.methods ∧ m.isPublic = true ∧
    m.name = name ∧ m.params = params

/-- The listing of `t` has a public field of the given name. -/
def DeclaresField (t : TypeName) (name : String) : Prop :=
  ∃ listing f, c.members t = some listing ∧ f ∈ listing.fields ∧ f.isPublic = true ∧
    f.name = name

variable {c}

/-- The public methods of a level are those that its listing declares public. -/
theorem mem_publicMethods_iff {t : TypeName} {o : Overload} :
    o ∈ Members.publicMethods (t, c.members t) ↔
      ∃ listing m, c.members t = some listing ∧ m ∈ listing.methods ∧ m.isPublic = true ∧
        o = .ofMethod t m := by
  cases h : c.members t with
  | none => simp [Members.publicMethods]
  | some listing =>
    simp only [Members.publicMethods, List.mem_map, List.mem_filter, Option.some.injEq]
    grind

theorem mem_publicFields_iff {t : TypeName} {f : Field} :
    f ∈ Members.publicFields (t, c.members t) ↔
      ∃ listing decl, c.members t = some listing ∧ decl ∈ listing.fields ∧
        decl.isPublic = true ∧ f = ⟨t, decl⟩ := by
  cases h : c.members t with
  | none => simp [Members.publicFields]
  | some listing =>
    simp only [Members.publicFields, List.mem_map, List.mem_filter, Option.some.injEq]
    grind

theorem mem_publicConstructors_iff {t : TypeName} {o : Overload} :
    o ∈ Members.publicConstructors (t, c.members t) ↔
      ∃ listing decl, c.members t = some listing ∧ decl ∈ listing.constructors ∧
        decl.isPublic = true ∧ o = .ofConstructor t decl := by
  cases h : c.members t with
  | none => simp [Members.publicConstructors]
  | some listing =>
    simp only [Members.publicConstructors, List.mem_map, List.mem_filter, Option.some.injEq]
    grind

/-- A level declares a method if there is one of this signature among its public methods. -/
theorem declaresMethod_iff {t : TypeName} {name : String} {params : List Ty} :
    c.DeclaresMethod t name params ↔
      ∃ o ∈ Members.publicMethods (t, c.members t), o.name = name ∧ o.params = params := by
  constructor
  · rintro ⟨listing, m, hlisting, hm, hpublic, hname, hparams⟩
    exact ⟨.ofMethod t m, mem_publicMethods_iff.mpr ⟨listing, m, hlisting, hm, hpublic, rfl⟩,
      hname, hparams⟩
  · rintro ⟨o, ho, hname, hparams⟩
    obtain ⟨listing, m, hlisting, hm, hpublic, rfl⟩ := mem_publicMethods_iff.mp ho
    exact ⟨listing, m, hlisting, hm, hpublic, hname, hparams⟩

/-- A level declares a field if there is one of this name among its public fields. -/
theorem declaresField_iff {t : TypeName} {name : String} :
    c.DeclaresField t name ↔
      ∃ f ∈ Members.publicFields (t, c.members t), f.decl.name = name := by
  constructor
  · rintro ⟨listing, decl, hlisting, hdecl, hpublic, hname⟩
    exact ⟨⟨t, decl⟩, mem_publicFields_iff.mpr ⟨listing, decl, hlisting, hdecl, hpublic, rfl⟩,
      hname⟩
  · rintro ⟨f, hf, hname⟩
    obtain ⟨listing, decl, hlisting, hdecl, hpublic, rfl⟩ := mem_publicFields_iff.mp hf
    exact ⟨listing, decl, hlisting, hdecl, hpublic, hname⟩

/-! ### The members of a type -/

section Members

variable (c) in
/-- The members of a type with the given description. -/
def membersOf (t : TypeName) (info : TypeInfo) : Members :=
  if info.isPublic then
    .collect (if info.isEnumeration then none else some (t, c.members t))
      ((c.order t).map fun u => (u, c.members u))
  else {}

variable (c) in
/-- The members of a type that the catalog describes. -/
def memberTable? (t : TypeName) : Option Members := (c.describe t).map (c.membersOf t)

variable (c) in
/-- The methods of a given name on a type. -/
def methods (t : TypeName) (name : String) : List Overload :=
  (c.memberTable? t).elim [] (·.methodsNamed name)

variable (c) in
/-- The constructors of a type. -/
def constructors (t : TypeName) : List Overload := (c.memberTable? t).elim [] (·.constructors)

variable (c) in
/-- The field of a given name on a type. -/
def field? (t : TypeName) (name : String) : Option Field :=
  (c.memberTable? t).bind (·.fieldNamed? name)

variable {t : TypeName} {info : TypeInfo} {name : String}

/-- The methods of a type are collected over its levels in the order of the visit, first come first
kept. -/
theorem methods_membersOf (hpublic : info.isPublic = true) :
    (c.membersOf t info).methods = keepFirst Overload.sameSignature
      ((c.order t).flatMap fun u => Members.publicMethods (u, c.members u)) := by
  simp [membersOf, hpublic, Members.collect, List.flatMap_map]

theorem fields_membersOf (hpublic : info.isPublic = true) :
    (c.membersOf t info).fields = keepFirst (fun f g => f.decl.name == g.decl.name)
      ((c.order t).flatMap fun u => Members.publicFields (u, c.members u)) := by
  simp [membersOf, hpublic, Members.collect, List.flatMap_map]

theorem mem_methods_iff (ht : c.describe t = some info) {o : Overload} :
    o ∈ c.methods t name ↔ o ∈ (c.membersOf t info).methods ∧ o.name = name := by
  simp [methods, memberTable?, ht, Members.methodsNamed]

/-- The field of a name is looked for among those kept. -/
theorem field?_eq_find? (ht : c.describe t = some info) :
    c.field? t name = (c.membersOf t info).fields.find? (·.decl.name == name) := by
  simp [field?, memberTable?, ht, Members.fieldNamed?]

/-- Constructors are declared by the type itself. -/
theorem exists_decl_of_mem_constructors {o : Overload} (h : o ∈ c.constructors t) :
    ∃ listing decl, c.members t = some listing ∧ decl ∈ listing.constructors ∧
      decl.isPublic = true ∧ o = .ofConstructor t decl := by
  have hown : o ∈ Members.publicConstructors (t, c.members t) := by
    unfold constructors memberTable? at h
    cases hinfo : c.describe t with
    | none => simp [hinfo] at h
    | some info =>
      -- an enumeration or a type that is not public has no constructors at all
      cases hp : info.isPublic <;> cases he : info.isEnumeration <;>
        simp [hinfo, membersOf, hp, he, Members.collect] at h
      exact h
  exact mem_publicConstructors_iff.mp hown

/-- A method that is kept belongs to the first level that declares its signature. -/
theorem owner_of_mem_methods (ht : c.describe t = some info) (hpublic : info.isPublic = true)
    {o : Overload} (h : o ∈ c.methods t name) :
    ∃ before after, c.order t = before ++ o.owner :: after ∧
      c.DeclaresMethod o.owner name o.params ∧
        ∀ u ∈ before, ¬ c.DeclaresMethod u name o.params := by
  obtain ⟨hmem, rfl⟩ := (mem_methods_iff ht).mp h
  rw [methods_membersOf hpublic] at hmem
  obtain ⟨before, u, after, heq, hu, hbefore⟩ := exists_level_of_mem_keepFirst hmem
  obtain ⟨listing, m, hlisting, hm, hmpublic, rfl⟩ := mem_publicMethods_iff.mp hu
  refine ⟨before, after, heq, ⟨listing, m, hlisting, hm, hmpublic, rfl, rfl⟩, ?_⟩
  intro v hv hdecl
  obtain ⟨p, hp, hname, hparams⟩ := declaresMethod_iff.mp hdecl
  exact absurd (Overload.sameSignature_iff.mpr ⟨hname, hparams⟩)
    (by simp [hbefore v hv p hp])

/-- Of one signature one method is kept. -/
theorem eq_of_mem_methods (ht : c.describe t = some info) (hpublic : info.isPublic = true)
    {o p : Overload} (ho : o ∈ c.methods t name) (hp : p ∈ c.methods t name)
    (hparams : o.params = p.params) : o = p := by
  obtain ⟨homem, honame⟩ := (mem_methods_iff ht).mp ho
  obtain ⟨hpmem, hpname⟩ := (mem_methods_iff ht).mp hp
  rw [methods_membersOf hpublic] at homem hpmem
  have hname : o.name = p.name := honame.trans hpname.symm
  exact eq_of_mem_keepFirst homem hpmem (Overload.sameSignature_iff.mpr ⟨hname, hparams⟩)
    (Overload.sameSignature_iff.mpr ⟨hname.symm, hparams.symm⟩)

/-- A signature is offered exactly if some level declares it. -/
theorem exists_method_iff (ht : c.describe t = some info) (hpublic : info.isPublic = true)
    {params : List Ty} :
    (∃ o ∈ c.methods t name, o.params = params) ↔
      ∃ u ∈ c.order t, c.DeclaresMethod u name params := by
  constructor
  · rintro ⟨o, ho, rfl⟩
    obtain ⟨before, after, heq, hdecl, -⟩ := owner_of_mem_methods ht hpublic ho
    exact ⟨o.owner, heq ▸ by simp, hdecl⟩
  · rintro ⟨u, hu, hdecl⟩
    obtain ⟨p, hp, hname, hparams⟩ := declaresMethod_iff.mp hdecl
    have hmem : p ∈ (c.order t).flatMap fun u => Members.publicMethods (u, c.members u) :=
      List.mem_flatMap.mpr ⟨u, hu, hp⟩
    obtain ⟨o, ho, hagree⟩ := exists_agree_of_mem Overload.sameSignature_refl
      Overload.sameSignature_trans hmem
    have hmethods : (c.membersOf t info).methods = _ := methods_membersOf hpublic
    rw [← hmethods] at ho
    obtain ⟨honame, hoparams⟩ := Overload.sameSignature_iff.mp hagree
    exact ⟨o, (mem_methods_iff ht).mpr ⟨ho, honame.trans hname⟩, hoparams.trans hparams⟩

/-- A field that is kept belongs to the first level that declares its name. -/
theorem owner_of_field? (ht : c.describe t = some info) (hpublic : info.isPublic = true)
    {f : Field} (h : c.field? t name = some f) :
    ∃ before after, c.order t = before ++ f.owner :: after ∧
      c.DeclaresField f.owner name ∧ ∀ u ∈ before, ¬ c.DeclaresField u name := by
  rw [field?_eq_find? ht] at h
  have hname : f.decl.name = name := by simpa using List.find?_some h
  have hmem := List.mem_of_find?_eq_some h
  rw [fields_membersOf hpublic] at hmem
  obtain ⟨before, u, after, heq, hu, hbefore⟩ := exists_level_of_mem_keepFirst hmem
  obtain ⟨listing, decl, hlisting, hdecl, hdpublic, rfl⟩ := mem_publicFields_iff.mp hu
  refine ⟨before, after, heq, ⟨listing, decl, hlisting, hdecl, hdpublic, hname⟩, ?_⟩
  intro v hv hdeclares
  obtain ⟨g, hg, hgname⟩ := declaresField_iff.mp hdeclares
  have hne := hbefore v hv g hg
  rw [hgname, ← hname] at hne
  simp at hne

/-- A field name is offered exactly if some level declares it. -/
theorem field?_isSome_iff (ht : c.describe t = some info) (hpublic : info.isPublic = true) :
    (c.field? t name).isSome = true ↔ ∃ u ∈ c.order t, c.DeclaresField u name := by
  constructor
  · intro h
    obtain ⟨f, hf⟩ := Option.isSome_iff_exists.mp h
    obtain ⟨before, after, heq, hdecl, -⟩ := owner_of_field? ht hpublic hf
    exact ⟨f.owner, heq ▸ by simp, hdecl⟩
  · rintro ⟨u, hu, hdecl⟩
    obtain ⟨g, hg, hgname⟩ := declaresField_iff.mp hdecl
    have hmem : g ∈ (c.order t).flatMap fun u => Members.publicFields (u, c.members u) :=
      List.mem_flatMap.mpr ⟨u, hu, hg⟩
    obtain ⟨f, hf, hagree⟩ := @exists_agree_of_mem _ (fun f g : Field => f.decl.name == g.decl.name)
      (by simp) (by simp only [beq_iff_eq]; exact Eq.trans) _ _ hmem
    have hfields : (c.membersOf t info).fields = _ := fields_membersOf hpublic
    rw [← hfields] at hf
    rw [field?_eq_find? ht, List.find?_isSome]
    exact ⟨f, hf, by simpa [hgname] using hagree⟩

end Members

end Catalog

end Dispatch
