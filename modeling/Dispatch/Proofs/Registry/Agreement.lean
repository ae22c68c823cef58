import Dispatch.Proofs.Registry.Moves

/-!
# The registry and the catalog

A registry that agrees with the catalog answers as the catalog would, whatever it has been asked
before.

* `RegistryM.Asks` says that a computation consists of questions for descriptions and members, and
  what it gives; the lemmas named `asks_…` and `yields_…` say it of each one.
* `Registry.registers_register`, `Registry.registers_importAll`, `Registry.enrolls_importText`:
  which types are registered by computations that register any.
-/

namespace Dispatch

/-- The types that an import text names. -/
def Scanner.named (scanner : Scanner) (text : String) : List TypeName :=
  match wildcardNamespace? text with
  | some ns => scanner.typesIn ns
  | none =>
    if (scanner.typesIn text).isEmpty then ((pathReadings text).findSome? scanner.find?).toList
    else scanner.typesIn text

namespace Registry

open RegistryM

variable {c : Catalog} {r : Registry} {t : TypeName}

/-! ### Descriptions -/

/-- The entry of a type is the one that is kept from now on, and holds what the catalog says. -/
theorem ensures_entry (hr : c.Agrees r) (t : TypeName) :
    Ensures c r (entryOf? c t) fun e r' => e = r'.find? t ∧ e.map (·.info) = c.describe t := by
  refine (Ensures.modify (.describe r t)).bind fun _ r' _ hr' => ?_
  subst hr'
  refine Ensures.get.bind fun s r'' _ hs => ?_
  obtain ⟨rfl, rfl⟩ := hs
  refine .pure ⟨rfl, ?_⟩
  -- the type has an entry now, or it is unknown
  rw [find?_learn]
  split
  · simp [Function.comp_def]
  · next hseen =>
    cases he : r.find? t with
    | some e => exact (hr.info he).symm
    | none =>
      have hunknown : t ∈ r.unknown := by
        by_contra hnot
        exact hseen ⟨rfl, he, hnot⟩
      exact (hr.unknown hunknown).symm

theorem ensures_info? (hr : c.Agrees r) (t : TypeName) :
    Ensures c r (info? c t) fun info r' =>
      info = c.describe t ∧ (info.isSome = true → r'.Knows t) := by
  refine (ensures_entry hr t).bind fun e r' _ he => .pure ⟨he.2, fun hsome => ?_⟩
  rw [Knows, ← he.1]
  simpa using hsome

/-- The description read from a registry is the catalog's. -/
theorem yields_info? (t : TypeName) : Yields c (info? c t) (c.describe t) := by
  intro r hr
  exact (ensures_info? hr t).weaken fun _ _ _ h => h.1

/-! ### Walks -/

/-- The superclass chain of the registry is that of the catalog, and its types have entries. -/
private theorem ensures_superclasses (unvisited : List TypeName) (start : Option TypeName)
    (hr : c.Agrees r) :
    Ensures c r (Hierarchy.superclasses (info? c) unvisited start) fun result r' =>
      result = c.superclasses unvisited start ∧ ∀ step ∈ result.1, r'.Knows step.1 := by
  induction unvisited, start using Hierarchy.chain_induction generalizing r with
  | top =>
    rw [Hierarchy.superclasses, Catalog.superclasses_none]
    exact .pure ⟨rfl, by simp⟩
  | stop unvisited t ht =>
    rw [Hierarchy.superclasses, dif_neg ht, Catalog.superclasses_stop ht]
    exact .pure ⟨rfl, by simp⟩
  | climb unvisited t ht ih =>
    rw [Hierarchy.superclasses, dif_pos ht]
    refine (ensures_info? hr t).bind fun info r' hmoves hinfo => ?_
    obtain ⟨rfl, hknows⟩ := hinfo
    cases hinfo : c.describe t with
    | none =>
      rw [Catalog.superclasses_unknown ht hinfo]
      exact .pure ⟨rfl, by simp⟩
    | some info =>
      rw [Catalog.superclasses_climb ht hinfo]
      refine (ih info.superclass (hr.moves hmoves)).bind fun result r'' hmoves' hres => ?_
      obtain ⟨rfl, hchain⟩ := hres
      refine .pure ⟨rfl, ?_⟩
      intro step hstep
      rcases List.mem_cons.mp hstep with rfl | hstep
      · -- an entry outlives the rest of the walk
        exact hmoves'.knows (hknows (by simp [hinfo]))
      · exact hchain step hstep

/-- The walk over interfaces visits the same types on a registry as on the catalog, and each of them
has an entry afterwards, which the listings collected next rely on. -/
private theorem ensures_interfaces (unvisited queue : List TypeName) (hr : c.Agrees r) :
    Ensures c r (Hierarchy.interfaces (info? c) unvisited queue) fun steps r' =>
      steps = c.interfaces unvisited queue ∧ ∀ step ∈ steps, r'.Knows step.1 := by
  induction unvisited, queue using Hierarchy.queue_induction generalizing r with
  | done =>
    rw [Hierarchy.interfaces_nil, Catalog.interfaces_nil]
    exact .pure ⟨rfl, by simp⟩
  | skip unvisited t queue ht ih =>
    rw [Hierarchy.interfaces_skip ht, Catalog.interfaces_skip ht]
    exact ih hr
  | visit unvisited t queue ht ih =>
    rw [Hierarchy.interfaces_visit ht]
    refine (ensures_info? hr t).bind fun info r' hmoves hinfo => ?_
    obtain ⟨rfl, hknows⟩ := hinfo
    cases hinfo : c.describe t with
    | none =>
      rw [Catalog.interfaces_unknown ht hinfo]
      exact ih queue (hr.moves hmoves)
    | some info =>
      rw [Catalog.interfaces_visit ht hinfo]
      refine (ih _ (hr.moves hmoves)).bind fun rest r'' hmoves' hrest => ?_
      obtain ⟨rfl, hsteps⟩ := hrest
      refine .pure ⟨rfl, ?_⟩
      intro step hstep
      rcases List.mem_cons.mp hstep with rfl | hstep
      · exact hmoves'.knows (hknows (by simp [hinfo]))
      · exact hsteps step hstep

/-- The same for the whole walk, superclasses first. -/
theorem ensures_levels (hr : c.Agrees r) (t : TypeName) :
    Ensures c r (Hierarchy.levels (info? c) (c.above t) t) fun steps r' =>
      steps = c.levels t ∧ ∀ step ∈ steps, r'.Knows step.1 := by
  unfold Hierarchy.levels
  refine (ensures_superclasses _ _ hr).bind fun result r' hmoves hres => ?_
  obtain ⟨rfl, hchain⟩ := hres
  refine (ensures_interfaces _ _ (hr.moves hmoves)).bind fun above r'' hmoves' habove => ?_
  obtain ⟨rfl, hinterfaces⟩ := habove
  refine .pure ⟨rfl, ?_⟩
  intro step hstep
  rcases List.mem_append.mp hstep with hstep | hstep
  · exact hmoves'.knows (hchain step hstep)
  · exact hinterfaces step hstep

/-! ### Members -/

theorem ensures_level (hr : c.Agrees r) (ht : r.Knows t) :
    Ensures c r (level c t) fun found _ => found = (t, c.members t) := by
  refine (Ensures.modify (.list r t)).bind fun _ r' _ hr' => ?_
  subst hr'
  refine Ensures.get.bind fun s r'' _ hs => ?_
  obtain ⟨rfl, rfl⟩ := hs
  obtain ⟨e, he⟩ := Option.isSome_iff_exists.mp ht
  refine .pure ?_
  cases hl : e.listing with
  | none => simp [find?_learnListing, he, hl]
  | some l => simp [find?_learnListing, he, hl, hr.listing he hl]

private theorem ensures_mapM_level (hr : c.Agrees r) (steps : List Hierarchy.Step)
    (hsteps : ∀ step ∈ steps, r.Knows step.1) :
    Ensures c r (steps.mapM fun step => level c step.1) fun found _ =>
      found = steps.map fun step => (step.1, c.members step.1) := by
  induction steps generalizing r with
  | nil => exact .pure rfl
  | cons step rest ih =>
    rw [List.mapM_cons]
    refine (ensures_level hr (hsteps step List.mem_cons_self)).bind fun a r' hmoves ha => ?_
    have hrest : ∀ s ∈ rest, r'.Knows s.1 := fun s hs =>
      hmoves.knows (hsteps s (List.mem_cons_of_mem _ hs))
    refine (ih (hr.moves hmoves) hrest).bind fun as r'' _ has => .pure ?_
    rw [ha, has, List.map_cons]

private theorem ensures_inherited (hr : c.Agrees r) (t : TypeName) (own : Option Members.Level) :
    Ensures c r (do
      let steps ← Hierarchy.levels (info? c) (c.above t) t
      let levels ← steps.mapM fun step => level c step.1
      return Members.collect own levels) fun found _ =>
        found = .collect own ((c.order t).map fun u => (u, c.members u)) := by
  refine (ensures_levels hr t).bind fun steps r' hmoves hsteps => ?_
  obtain ⟨rfl, hknows⟩ := hsteps
  refine (ensures_mapM_level (hr.moves hmoves) _ hknows).bind fun levels _ _ hlevels => .pure ?_
  rw [hlevels, Catalog.order, List.map_map]
  rfl

/-- The members collected for a type are those that the catalog gives it, level by level. -/
theorem ensures_collect (hr : c.Agrees r) (ht : r.Knows t) (info : TypeInfo) :
    Ensures c r (collect c t info) fun found _ => found = c.membersOf t info := by
  unfold collect Catalog.membersOf
  cases info.isPublic with
  | false => exact .pure rfl
  | true =>
    cases info.isEnumeration with
    | true => exact ensures_inherited hr t none
    | false =>
      have hlevel := ensures_level hr ht
      have hown : Ensures c r (some <$> level c t) fun own _ => own = some (t, c.members t) :=
        ⟨hlevel.learns, congrArg some hlevel.post⟩
      refine hown.bind fun own r' hmoves hown => ?_
      subst hown
      exact ensures_inherited (hr.moves hmoves) t _

/-- The member table read from a registry is the catalog's, at the first reading and at later ones.
-/
theorem yields_members? (t : TypeName) : Yields c (members? c t) (c.memberTable? t) := by
  intro r hr
  refine (ensures_entry hr t).bind fun e r' hmoves he => ?_
  obtain ⟨rfl, hinfo⟩ := he
  have hr' := hr.moves hmoves
  cases he : r'.find? t with
  | none =>
    rw [he] at hinfo
    exact .pure (by simp [Catalog.memberTable?, ← hinfo])
  | some e =>
    rw [he] at hinfo
    have htable : c.memberTable? t = some (c.membersOf t e.info) := by
      simp [Catalog.memberTable?, ← hinfo]
    cases hm : e.members with
    | some found =>
      simp only [hm]
      exact .pure (hr'.members he hm).symm
    | none =>
      simp only [hm]
      -- only now is the hierarchy walked, and the result kept
      have hknows : r'.Knows t := Option.isSome_iff_exists.mpr ⟨e, he⟩
      refine (ensures_collect hr' hknows e.info).bind fun found r'' _ hfound => ?_
      rw [← hfound] at htable
      refine (Ensures.modify (.keep r'' htable)).bind fun _ _ _ _ => .pure htable.symm

/-! ### Questions -/

end Registry

namespace RegistryM

variable {c : Catalog} {α β : Type} {run : RegistryM α} {a : α}

/-- A computation asks for descriptions and members of types, and gives `a` if they are what the
catalog says. -/
inductive Asks (c : Catalog) : {α : Type} → RegistryM α → α → Prop
  | pure {α : Type} (a : α) : Asks c (Pure.pure a) a
  | bind {α β : Type} {run : RegistryM α} {a : α} {f : α → RegistryM β} {b : β}
      (hrun : Asks c run a) (hf : Asks c (f a) b) : Asks c (run >>= f) b
  | info (t : TypeName) : Asks c (Registry.info? c t) (c.describe t)
  | members (t : TypeName) : Asks c (Registry.members? c t) (c.memberTable? t)

namespace Asks

theorem yields (h : Asks c run a) : Yields c run a := by
  induction h with
  | pure a => exact .pure a
  | bind _ _ ihrun ihf => exact ihrun.bind ihf
  | info t => exact Registry.yields_info? t
  | members t => exact Registry.yields_members? t

theorem map (h : Asks c run a) (g : α → β) : Asks c (g <$> run) (g a) := by
  rw [map_eq_pure_bind]
  exact h.bind (.pure _)

theorem mapM {f : α → RegistryM β} {g : α → β} (hf : ∀ a, Asks c (f a) (g a)) (l : List α) :
    Asks c (l.mapM f) (l.map g) := by
  induction l with
  | nil => exact .pure []
  | cons a rest ih =>
    rw [List.mapM_cons, List.map_cons]
    exact (hf a).bind (ih.bind (.pure _))

end Asks

end RegistryM

namespace Registry

open RegistryM

variable {c : Catalog} {r : Registry}

theorem asks_simpleNameOf? (t : TypeName) :
    Asks c (simpleNameOf? c t) ((c.describe t).map (·.simple)) :=
  .bind (.info t) (.pure _)

theorem asks_nestedNamed? (t : TypeName) (simple : String) :
    Asks c (nestedNamed? c t simple) ((c.describe t).bind (·.nestedNamed? simple)) :=
  .bind (.info t) (.pure _)

theorem asks_methods (t : TypeName) (name : String) :
    Asks c (methods c t name) (c.methods t name) :=
  .bind (.members t) (.pure _)

theorem asks_constructors (t : TypeName) : Asks c (constructors c t) (c.constructors t) :=
  .bind (.members t) (.pure _)

theorem asks_field? (t : TypeName) (name : String) : Asks c (field? c t name) (c.field? t name) :=
  .bind (.members t) (.pure _)

/-- The search for a supertype asks for descriptions only. -/
theorem asks_search (target : TypeName) (unvisited queue : List TypeName) :
    Asks c (Hierarchy.search (info? c) target unvisited queue)
      (c.search target unvisited queue) := by
  induction unvisited, queue using Hierarchy.queue_induction with
  | done =>
    rw [Hierarchy.search_nil, Catalog.search_nil]
    exact .pure false
  | skip unvisited t queue ht ih =>
    rw [Hierarchy.search_skip ht, Catalog.search_skip ht]
    exact ih
  | visit unvisited t queue ht ih =>
    rw [Hierarchy.search_visit ht]
    refine .bind (.info t) ?_
    cases hinfo : c.describe t with
    | none =>
      rw [Catalog.search_unknown ht hinfo]
      exact ih queue
    | some info =>
      rw [Catalog.search_visit ht hinfo]
      by_cases htarget : target ∈ info.supertypes
      · simp only [htarget, if_true, decide_true, Bool.true_or]
        exact .pure true
      · simp only [htarget, if_false, decide_false, Bool.false_or]
        exact ih _

theorem asks_isSubtype (sub sup : TypeName) :
    Asks c (isSubtype c sub sup) (c.isSubtype sub sup) := by
  unfold isSubtype Hierarchy.reaches Catalog.isSubtype
  by_cases h : sub = sup
  · simp only [h, if_true, decide_true, Bool.true_or]
    exact .pure true
  · simp only [h, if_false, decide_false, Bool.false_or]
    exact asks_search _ _ _

theorem yields_simpleNameOf? (t : TypeName) :
    Yields c (simpleNameOf? c t) ((c.describe t).map (·.simple)) := (asks_simpleNameOf? t).yields

theorem yields_nestedNamed? (t : TypeName) (simple : String) :
    Yields c (nestedNamed? c t simple) ((c.describe t).bind (·.nestedNamed? simple)) :=
  (asks_nestedNamed? t simple).yields

theorem yields_isSubtype (sub sup : TypeName) :
    Yields c (isSubtype c sub sup) (c.isSubtype sub sup) := (asks_isSubtype sub sup).yields

theorem yields_methods (t : TypeName) (name : String) :
    Yields c (methods c t name) (c.methods t name) := (asks_methods t name).yields

theorem yields_constructors (t : TypeName) : Yields c (constructors c t) (c.constructors t) :=
  (asks_constructors t).yields

theorem yields_field? (t : TypeName) (name : String) :
    Yields c (field? c t name) (c.field? t name) := (asks_field? t name).yields

theorem yields_load (t : TypeName) : Yields c (load c t) (c.memberTable? t).isSome :=
  (yields_members? t).bind (.pure _)

theorem yields_hasMethod (t : TypeName) (name : String) :
    Yields c (hasMethod c t name) (!(c.methods t name).isEmpty) :=
  (yields_methods t name).bind (.pure _)

/-! ### Finding what an import names -/

theorem yields_scan (scanner : Scanner) (ns : String) :
    Yields c (scan scanner ns) (scanner.typesIn ns) := fun r _ =>
  (Ensures.modify (.scan r ns)).bind fun _ _ _ _ => .pure rfl

theorem yields_findFirst (scanner : Scanner) (names : List String) :
    Yields c (findFirst scanner names) (names.findSome? scanner.find?) := by
  induction names with
  | nil => exact .pure none
  | cons name rest ih =>
    intro r hr
    refine (Ensures.modify (.seek r name)).bind fun _ r' hmoves hr' => ?_
    rw [List.findSome?_cons]
    cases scanner.find? name with
    | some t => exact .pure rfl
    | none => exact ih r' (hr.moves hmoves)

theorem yields_findNamed (scanner : Scanner) (text : String) :
    Yields c (findNamed scanner text) (scanner.named text) := by
  unfold findNamed Scanner.named
  cases wildcardNamespace? text with
  | some ns => exact yields_scan scanner ns
  | none =>
    refine (yields_scan scanner text).bind ?_
    cases (scanner.typesIn text).isEmpty with
    | true => exact (yields_findFirst scanner _).bind (.pure _)
    | false => exact .pure _

/-! ### Registration and imports -/

/-- A type that the catalog describes is registered, each time anew; any other is not. -/
theorem registers_register (t : TypeName) :
    Registers c (register c t) (c.describe t).isSome
      ([t].filter fun u => (c.describe u).isSome) := by
  intro r hr
  refine (ensures_entry hr t).enrolls fun e r' _ he => ?_
  obtain ⟨rfl, hinfo⟩ := he
  rw [List.filter_cons, List.filter_nil, ← hinfo]
  cases he : r'.find? t with
  | none => exact .pure false
  | some e => exact ⟨rfl, .single (.enroll r' he), rfl⟩

variable (c) in
/-- Whether importing a type registers it: the catalog describes it, and it can stand on its own. -/
def registersOnImport (t : TypeName) : Bool := (c.describe t).any isImportable

/-- The import of a type registers that type or nothing. -/
theorem registers_importType (t : TypeName) :
    Registers c (importType c t) (registersOnImport c t) ([t].filter (registersOnImport c)) := by
  intro r hr
  refine (ensures_info? hr t).enrolls fun info r' hmoves hinfo => ?_
  obtain ⟨rfl, -⟩ := hinfo
  rw [List.filter_cons, List.filter_nil, registersOnImport]
  cases hdesc : c.describe t with
  | none => exact .pure false
  | some info =>
    have hregister := registers_register t r' (hr.moves hmoves)
    rw [List.filter_cons, List.filter_nil, hdesc] at hregister
    rw [Option.any_some]
    dsimp only
    cases isImportable info with
    | false => exact .pure false
    | true => exact hregister

/-- An import of several types registers those that can stand on their own, in the order of the
list. -/
theorem registers_importAll (ts : List TypeName) :
    Registers c (importAll c ts) (ts.countP (registersOnImport c))
      (ts.filter (registersOnImport c)) := by
  induction ts with
  | nil => exact (Yields.pure 0).registers
  | cons t rest ih =>
    have hfilter : (t :: rest).filter (registersOnImport c) =
        [t].filter (registersOnImport c) ++ (rest.filter (registersOnImport c) ++ []) := by
      rw [List.append_nil, ← List.filter_append, List.singleton_append]
    rw [List.countP_cons, Nat.add_comm, hfilter]
    exact (registers_importType t).bind (ih.bind (Yields.pure _).registers)

/-- The import of a text in the order of its checks: the cache, the scanner, and the types found. -/
theorem importText_apply (c : Catalog) (scanner : Scanner) (text : String) (r : Registry) :
    importText c scanner text r =
      (if r.wasImported text then pure (.ok .cached) else do
        let found ← findNamed scanner text
        if found.isEmpty then return .error (.nothingFound text)
        let count ← importAll c found
        modify fun r => { r with imports := r.imports ++ [text] }
        return .ok (.fresh count) : RegistryM (Except ImportError Imported)) r := rfl

/-- A text that was processed before is answered at once. -/
theorem importText_cached (scanner : Scanner) {text : String} (h : r.wasImported text = true) :
    importText c scanner text r = (.ok .cached, r) := by
  rw [importText_apply, if_pos h]
  rfl

/-- A new text has the types that it names registered, in the order of the scanner. -/
theorem enrolls_importText (hr : c.Agrees r) (scanner : Scanner) {text : String}
    (h : r.wasImported text = false) :
    Enrolls c r (importText c scanner text)
      (if (scanner.named text).isEmpty then .error (.nothingFound text)
        else .ok (.fresh ((scanner.named text).countP (registersOnImport c))))
      ((scanner.named text).filter (registersOnImport c)) := by
  refine Ensures.get.enrolls fun s r' _ hs => ?_
  obtain ⟨rfl, rfl⟩ := hs
  rw [if_neg (by simp [h])]
  refine (yields_findNamed scanner text r' hr).enrolls fun found r'' hmoves hfound => ?_
  subst hfound
  have hr' := hr.moves hmoves
  cases hnamed : scanner.named text with
  | nil => exact .pure _
  | cons t rest =>
    have hall := registers_importAll (c := c) (t :: rest) r'' hr'
    -- the text is remembered once its types are registered
    have hremember : ∀ count u, Enrolls c u (do
        modify fun r => { r with imports := r.imports ++ [text] }
        return .ok (.fresh count) : RegistryM (Except ImportError Imported))
        (.ok (.fresh count)) [] := fun count u =>
      ⟨rfl, .single (.remember u text), (List.append_nil _).symm⟩
    rw [← List.append_nil (List.filter _ (t :: rest))]
    exact hall.bind fun u _ => hremember _ u

variable (c r) in
/-- The types that importing a text registers: those that it names and that can be registered,
unless the text has been processed before. -/
def importedBy (scanner : Scanner) (text : String) : List TypeName :=
  if r.wasImported text then [] else (scanner.named text).filter (registersOnImport c)

/-- An import registers the types that `importedBy` lists, and no others. -/
theorem exists_enrolls_importText (hr : c.Agrees r) (scanner : Scanner) (text : String) :
    ∃ outcome, Enrolls c r (importText c scanner text) outcome (r.importedBy c scanner text) := by
  unfold importedBy
  cases h : r.wasImported text with
  | true =>
    refine ⟨.ok .cached, ?_⟩
    have hcached := importText_cached (c := c) scanner h
    refine ⟨congrArg Prod.fst hcached, ?_, ?_⟩ <;> rw [hcached]
    · exact .refl
    · exact (List.append_nil _).symm
  | false => exact ⟨_, enrolls_importText hr scanner h⟩

theorem moves_importText (hr : c.Agrees r) (scanner : Scanner) (text : String) :
    r.Moves c (importText c scanner text r).2 := by
  obtain ⟨outcome, henrolls⟩ := exists_enrolls_importText hr scanner text
  exact henrolls.moves

end Registry

end Dispatch
