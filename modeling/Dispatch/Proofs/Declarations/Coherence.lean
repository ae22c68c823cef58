import Dispatch.Proofs.Declarations.Recorded

/-!
# Coherence of declared types

What can be read of declarations comes from one table and one counter, in several ways: by
description, by listing, by name, by namespace, by enclosing type. All of them agree on which types
there are and in which order, whatever was declared again in another form or abandoned in between.
The numbers of members stay apart because a declaration takes only numbers above those taken before
it, and gives none back.

* `Declarations.keys_ofList`: the declared types, by their first declarations.
* `Declarations.DistinctTargets.declare`: a declaration takes fresh numbers for its members.
* `Declarations.coherent_ofList`: the agreement of everything that can be read of declarations.
-/

namespace Dispatch

/-! ### Writing to a table -/

namespace Table

variable {α β : Type} [DecidableEq α] {t : Table α β} {a : α} {b : β} {e : α × β}

theorem mem_entries_insert (h : e ∈ (t.insert a b).entries) : e = (a, b) ∨ e ∈ t.entries := by
  obtain ⟨es⟩ := t
  simp only [insert] at h ⊢
  induction es with
  | nil => exact .inl (List.mem_singleton.mp h)
  | cons first rest ih => grind [insertIn]

/-- A relation that the new pair has to all others, both ways, is kept between the pairs. -/
theorem pairwise_entries_insert {R : α × β → α × β → Prop} (h : t.entries.Pairwise R)
    (hnew : ∀ e ∈ t.entries, R e (a, b) ∧ R (a, b) e) : (t.insert a b).entries.Pairwise R := by
  obtain ⟨es⟩ := t
  simp only [insert] at h hnew ⊢
  induction es with
  | nil => exact List.pairwise_singleton R _
  | cons first rest ih =>
    obtain ⟨hfirst, hrest⟩ := List.pairwise_cons.mp h
    obtain ⟨hnewFirst, hnewRest⟩ := List.forall_mem_cons.mp hnew
    rw [insertIn]
    split
    · exact List.pairwise_cons.mpr ⟨fun e he => (hnewRest e he).2, hrest⟩
    · refine List.pairwise_cons.mpr ⟨fun e he => ?_, ih hrest hnewRest⟩
      rcases mem_entries_insert (t := ⟨rest⟩) he with rfl | he
      · exact hnewFirst.1
      · exact hfirst e he

theorem isSome_find?_iff : (t.find? a).isSome = true ↔ a ∈ t.keys := by
  obtain ⟨es⟩ := t
  simp only [find?, keys]
  induction es with
  | nil => simp [findIn]
  | cons first rest ih => grind [findIn]

end Table

/-! ### Numbers of members -/

/-- The target numbers of the members. -/
def Listing.targets (listing : Listing) : List Nat :=
  listing.methods.map (·.target) ++ listing.constructors.map (·.target) ++
    listing.fields.map (·.target)

/-- The members of a listing have different numbers, each above `low` and up to `high`. -/
structure Listing.NumberedWithin (listing : Listing) (low high : Nat) : Prop where
  low_le : low ≤ high
  nodup : listing.targets.Nodup
  bounds : ∀ n ∈ listing.targets, low < n ∧ n ≤ high

namespace Draft

variable {low high : Nat}

/-- A clause that declares a member adds its number. -/
theorem targets_add (draft : Draft) (target : Nat) (clause : Clause) :
    (draft.add target clause).listing.targets.Perm
      (draft.listing.targets ++ if clause.declaresMember then [target] else []) := by
  rw [List.perm_iff_count]
  intro n
  cases clause <;>
    simp [add, addMethod, addConstructor, addField, Listing.targets, Clause.declaresMember,
      List.count_cons, Nat.add_assoc, Nat.add_comm, Nat.add_left_comm]

/-- The next number is a fresh one. -/
theorem numbered_add {draft : Draft} (h : draft.listing.NumberedWithin low high)
    (clause : Clause) :
    (draft.add (high + 1) clause).listing.NumberedWithin low
      (if clause.declaresMember then high + 1 else high) := by
  obtain ⟨hle, hnodup, hbounds⟩ := h
  have hperm := draft.targets_add (high + 1) clause
  by_cases hmember : clause.declaresMember = true
  · rw [if_pos hmember] at hperm ⊢
    have hfresh : high + 1 ∉ draft.listing.targets := fun hmem => by
      have := (hbounds _ hmem).2
      omega
    refine ⟨by omega, hperm.nodup_iff.mpr ?_, fun n hn => ?_⟩
    · rw [← List.concat_eq_append]
      exact hnodup.concat hfresh
    · rcases List.mem_append.mp (hperm.mem_iff.mp hn) with hn | hn
      · have := hbounds n hn
        omega
      · obtain rfl := List.mem_singleton.mp hn
        omega
  · rw [if_neg hmember, List.append_nil] at hperm
    rw [if_neg hmember]
    exact ⟨hle, hperm.nodup_iff.mpr hnodup, fun n hn => hbounds n (hperm.mem_iff.mp hn)⟩

/-- The enclosing instance that constructors take at the end does not touch the targets. -/
theorem targets_finish (draft : Draft) : draft.finish.listing.targets = draft.listing.targets := by
  unfold finish
  split
  · split
    · rfl
    · simp [Listing.targets, bindEnclosing, Function.comp_def]
  · rfl

end Draft

namespace Declarations

variable {ds : Declarations} {decls : List Declaration} {outer t : TypeName}

/-- Every clause that declares a member takes the next number. -/
theorem numbered_addClauses (clauses : List Clause) {draft : Draft} {low targets : Nat}
    (h : draft.listing.NumberedWithin low targets) :
    (addClauses clauses (draft, targets)).1.listing.NumberedWithin low
      (addClauses clauses (draft, targets)).2 := by
  induction clauses generalizing draft targets with
  | nil => exact h
  | cons clause rest ih => exact ih (Draft.numbered_add h clause)

/-- A declaration takes numbers above those taken before, whether it is abandoned or not. -/
theorem numbered_recorded (ds : Declarations) (d : Declaration) :
    (d.recorded ds.targets).listing.NumberedWithin ds.targets (ds.declare d).targets := by
  have hopen : d.heading.draft.listing.NumberedWithin ds.targets ds.targets := by
    cases d.heading <;> exact ⟨Nat.le_refl _, .nil, nofun⟩
  have h := numbered_addClauses d.clauses hopen
  have htargets : (d.recorded ds.targets).listing.targets = _ := Draft.targets_finish _
  exact ⟨h.low_le, htargets ▸ h.nodup, htargets ▸ h.bounds⟩

/-- All recorded members have different numbers, and all of these are taken. -/
structure DistinctTargets (ds : Declarations) : Prop where
  taken : ∀ e ∈ ds.types.entries, ∀ n ∈ e.2.listing.targets, n ≤ ds.targets
  nodup : (ds.types.entries.flatMap (·.2.listing.targets)).Nodup

/-- A declaration takes its targets above all those in use. What it replaces only leaves. -/
theorem DistinctTargets.declare (h : ds.DistinctTargets) (d : Declaration) :
    (ds.declare d).DistinctTargets := by
  obtain ⟨hle, hnodup, hbounds⟩ := ds.numbered_recorded d
  obtain ⟨heach, hapart⟩ := List.nodup_flatMap.mp h.nodup
  have htypes := ds.types_declare d
  by_cases habandoned : d.abandoned = true
  · rw [if_pos habandoned] at htypes
    exact ⟨fun e he n hn => Nat.le_trans (h.taken e (htypes ▸ he) n hn) hle, htypes ▸ h.nodup⟩
  · rw [if_neg habandoned] at htypes
    refine ⟨fun e he n hn => ?_, List.nodup_flatMap.mpr ⟨fun e he => ?_, ?_⟩⟩
    · rcases Table.mem_entries_insert (htypes ▸ he) with rfl | he
      · exact (hbounds n hn).2
      · exact Nat.le_trans (h.taken e he n hn) hle
    · rcases Table.mem_entries_insert (htypes ▸ he) with rfl | he
      · exact hnodup
      · exact heach e he
    · rw [htypes]
      refine Table.pairwise_entries_insert hapart fun e he => ?_
      -- the numbers of the new members are above all others
      have hdisjoint : e.2.listing.targets.Disjoint (d.recorded ds.targets).listing.targets :=
        fun n hold hnew => absurd (h.taken e he n hold) (Nat.not_le.mpr (hbounds n hnew).1)
      exact ⟨hdisjoint, fun n hnew hold => hdisjoint hold hnew⟩

/-- The induction over the declarations. -/
theorem distinctTargets_ofList (decls : List Declaration) : (ofList decls).DistinctTargets := by
  induction decls using List.reverseRecOn with
  | nil => exact ⟨nofun, .nil⟩
  | append_singleton decls d ih =>
    rw [ofList_concat]
    exact ih.declare d

/-! ### The order of types -/

/-- The types with a declaration that was not abandoned, by the first such declaration. -/
def firstDeclared (decls : List Declaration) : List TypeName :=
  ((decls.filter (!·.abandoned)).map (·.name)).eraseDups

theorem eraseDups_concat (l : List TypeName) (t : TypeName) :
    (l ++ [t]).eraseDups = if t ∈ l then l.eraseDups else l.eraseDups ++ [t] := by
  rw [List.eraseDups_append]
  by_cases ht : t ∈ l
  · simp [ht, List.removeAll]
  · simp [ht, List.removeAll, List.eraseDups_cons]

/-- A name is listed where it is first declared, and later declarations do not move it. -/
theorem firstDeclared_concat (decls : List Declaration) (d : Declaration) :
    firstDeclared (decls ++ [d]) =
      if d.abandoned ∨ d.name ∈ firstDeclared decls then firstDeclared decls
      else firstDeclared decls ++ [d.name] := by
  unfold firstDeclared
  rw [List.filter_append, List.map_append]
  by_cases habandoned : d.abandoned = true
  · simp [habandoned]
  · have hlast : ([d].filter (!·.abandoned)).map (·.name) = [d.name] := by simp [habandoned]
    rw [hlast, eraseDups_concat]
    simp only [habandoned, Bool.false_eq_true, false_or, List.mem_eraseDups]

/-- A type keeps the place of its first declaration. -/
theorem keys_ofList (decls : List Declaration) :
    (ofList decls).types.keys = firstDeclared decls := by
  induction decls using List.reverseRecOn with
  | nil => rfl
  | append_singleton decls d ih =>
    rw [ofList_concat, types_declare, firstDeclared_concat, ← ih]
    by_cases habandoned : d.abandoned = true
    · simp [habandoned]
    · simp [habandoned, Table.keys_insert]

/-! ### Reading the table -/

theorem isSome_describe_iff : (ds.describe t).isSome = true ↔ t ∈ ds.types.keys := by
  rw [describe, Option.isSome_map, Table.isSome_find?_iff]

theorem isSome_members_iff : (ds.members t).isSome = true ↔ t ∈ ds.types.keys := by
  rw [members, Option.isSome_map, Table.isSome_find?_iff]

theorem findType?_eq_some_iff {name : String} :
    ds.findType? name = some t ↔ t = ⟨name⟩ ∧ t ∈ ds.types.keys := by
  rw [findType?, contains, Table.contains]
  split
  · next h =>
    rw [Table.isSome_find?_iff] at h
    simp only [Option.some.injEq]
    exact ⟨fun heq => ⟨heq.symm, heq ▸ h⟩, fun heq => heq.1.symm⟩
  · next h =>
    rw [Table.isSome_find?_iff] at h
    simp only [reduceCtorEq, false_iff]
    rintro ⟨rfl, hmem⟩
    exact h hmem

theorem find?_of_mem_entries {e : TypeName × Draft} (he : e ∈ (ofList decls).types.entries) :
    (ofList decls).types.find? e.1 = some e.2 :=
  (Table.find?_eq_some_iff (nodup_keys_ofList decls)).mpr he

/-- What is recorded under a name is of the type of that name. -/
theorem name_of_mem_entries {e : TypeName × Draft} (he : e ∈ (ofList decls).types.entries) :
    e.2.info.name = e.1 := by
  obtain ⟨before, decl, hforce, hdraft⟩ := find?_ofList.mp (find?_of_mem_entries he)
  rw [← hdraft, Declaration.name_recorded, hforce.name_eq]

/-- The enclosing type that is read back for a name is the one recorded under it. -/
theorem enclosing_of_mem_entries {e : TypeName × Draft} (he : e ∈ (ofList decls).types.entries) :
    ((ofList decls).describe e.1).bind (·.enclosing) = e.2.info.enclosing := by
  rw [describe, find?_of_mem_entries he]
  rfl

/-- The nested types are those with the description of one, in the order of all types. -/
theorem names_nestedIn_ofList (decls : List Declaration) (outer : TypeName) :
    ((ofList decls).nestedIn outer).map (·.name) =
      (ofList decls).types.keys.filter fun t =>
        ((ofList decls).describe t).bind (·.enclosing) = some outer := by
  rw [nestedIn, Table.values, Table.keys, List.filter_map, List.filter_map, List.map_map,
    List.map_map]
  have hfilter : (ofList decls).types.entries.filter ((·.info.enclosing == some outer) ∘ (·.2)) =
      (ofList decls).types.entries.filter
        ((fun t => ((ofList decls).describe t).bind (·.enclosing) = some outer) ∘ (·.1)) := by
    refine List.filter_congr fun e he => ?_
    simp only [Function.comp_apply, enclosing_of_mem_entries he, beq_eq_decide]
  rw [← hfilter]
  exact List.map_congr_left fun e he => name_of_mem_entries (List.mem_of_mem_filter he)

/-- A nested type is what its description and its listing say. -/
theorem nested_described {inner : NestedType} (h : inner ∈ (ofList decls).nestedIn outer) :
    ∃ info listing, (ofList decls).describe inner.name = some info ∧
      (ofList decls).members inner.name = some listing ∧ inner.simple = info.simple ∧
      (inner.needsEnclosing = true ↔ info.isStatic = false) ∧
      (inner.needsEnclosing = true →
        ∀ c ∈ listing.constructors, c.params.head? = some (.named outer)) := by
  obtain ⟨before, decl, isStatic, hforce, hheading, hneeds⟩ := mem_nestedIn_ofList.mp h
  have hfind := find?_ofList.mpr ⟨before, decl, hforce, rfl⟩
  let draft := decl.recorded (ofList before).targets
  have hdescribe : (ofList decls).describe inner.name =
      some { draft.info with nested := (ofList decls).nestedIn inner.name } := by
    rw [describe, hfind, Option.map_some]
  have hmembers : (ofList decls).members inner.name = some draft.listing := by
    rw [members, hfind, Option.map_some]
  obtain ⟨-, hsimple, hstatic⟩ := (decl.heading_eq_nested_iff _).mp hheading
  refine ⟨_, _, hdescribe, hmembers, hsimple.symm, by simp [hneeds, draft, hstatic],
    fun hinner c hc => ?_⟩
  obtain rfl : isStatic = false := by simpa [hneeds] using hinner
  rw [Declaration.constructors_recorded, hheading] at hc
  obtain ⟨written, -, rfl⟩ := List.mem_map.mp hc
  rfl

/-- The targets that are read back for a name are those recorded under it. -/
theorem targets_of_mem_entries {e : TypeName × Draft} (he : e ∈ (ofList decls).types.entries) :
    (((ofList decls).members e.1).map Listing.targets).getD [] = e.2.listing.targets := by
  rw [members, find?_of_mem_entries he]
  rfl

/-- Over all declared types together no target occurs twice. -/
theorem nodup_targets_ofList (decls : List Declaration) :
    ((ofList decls).types.keys.flatMap fun t =>
      (((ofList decls).members t).map Listing.targets).getD []).Nodup := by
  have h := (distinctTargets_ofList decls).nodup
  rw [Table.keys, List.flatMap_map]
  rwa [List.flatMap_congr fun e he => targets_of_mem_entries he]

/-! ### Agreement -/

/-- What can be read of declarations is about the types of `order`, in that order. -/
structure Coherent (ds : Declarations) (order : List TypeName) : Prop where
  nodup : order.Nodup
  keys_eq : ds.types.keys = order
  described : ∀ t, (ds.catalog.describe t).isSome = true ↔ t ∈ order
  listed : ∀ t, (ds.catalog.members t).isSome = true ↔ t ∈ order
  found : ∀ name t, ds.scanner.find? name = some t ↔ t = ⟨name⟩ ∧ t ∈ order
  typesIn_eq : ∀ ns, ds.scanner.typesIn ns = order.filter (·.namespace? = some ns)
  nested_names : ∀ outer info, ds.catalog.describe outer = some info →
    info.nested.map (·.name) =
      order.filter fun t => (ds.catalog.describe t).bind (·.enclosing) = some outer
  nested : ∀ outer info, ds.catalog.describe outer = some info → ∀ inner ∈ info.nested,
    ∃ innerInfo listing, ds.catalog.describe inner.name = some innerInfo ∧
      ds.catalog.members inner.name = some listing ∧ inner.simple = innerInfo.simple ∧
      (inner.needsEnclosing = true ↔ innerInfo.isStatic = false) ∧
      (inner.needsEnclosing = true →
        ∀ c ∈ listing.constructors, c.params.head? = some (.named outer))
  /-- No two members of any types have one number. -/
  targets : (order.flatMap fun t => ((ds.catalog.members t).map Listing.targets).getD []).Nodup

/-- Whatever is declared, again, in another form or only to be abandoned: the types known are those
declared and not abandoned, by their first declarations, to everything that can be asked of them. -/
theorem coherent_ofList (decls : List Declaration) :
    (ofList decls).Coherent (firstDeclared decls) := by
  rw [← keys_ofList]
  refine ⟨nodup_keys_ofList decls, rfl, ?_, ?_, ?_, ?_, ?_, ?_, ?_⟩
  · intro t
    rw [describe_catalog, isSome_describe_iff]
  · intro t
    rw [members_catalog, isSome_members_iff]
  · intro name t
    exact findType?_eq_some_iff
  · intro ns
    exact List.filter_congr fun t _ => beq_eq_decide _ _
  · rw [describe_catalog]
    intro outer info hinfo
    obtain ⟨draft, -, rfl⟩ := Option.map_eq_some_iff.mp hinfo
    exact names_nestedIn_ofList decls outer
  · rw [describe_catalog, members_catalog]
    intro outer info hinfo inner hinner
    obtain ⟨draft, -, rfl⟩ := Option.map_eq_some_iff.mp hinfo
    exact nested_described hinner
  · rw [members_catalog]
    exact nodup_targets_ofList decls

/-- A nested type that comes before its outer type and is made a type of its own in the end. -/
example :
    let till : Declaration := { heading := .nested ⟨"Shop"⟩ "Till" false, clauses := [] }
    let shop : Declaration := { heading := .topLevel ⟨"Shop"⟩, clauses := [.constructor [] true] }
    let alone : Declaration := { heading := .topLevel ⟨"Shop$Till"⟩, clauses := [] }
    let decls := [till, { shop with abandoned := true }, shop, alone]
    firstDeclared decls = [⟨"Shop$Till"⟩, ⟨"Shop"⟩] ∧
      (ofList decls).nestedIn ⟨"Shop"⟩ = [] ∧
      (ofList decls).members ⟨"Shop"⟩ = some { constructors := [{ params := [], target := 2 }] } := by
  decide

end Declarations

end Dispatch
