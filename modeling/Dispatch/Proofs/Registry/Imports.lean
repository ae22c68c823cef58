import Dispatch.Proofs.Dispatcher.Names
import Dispatch.Proofs.Registry.Repetition

/-!
# Imports

An import that finds nothing leaves only its questions to the scanner behind, and a text that has
been processed not even these. In between, what an import does to the registry depends on which
types the scanner finds, and in which order, but not on how they were found: each is met once, and
those that can stand on their own are registered.

* `Registry.find?_importAll`, `Registry.mem_unknown_importAll`: what is kept of the found types.
* `Registry.importText_wildcard`: a namespace is imported alike with and without a wildcard.
* `Dispatcher.import_once`: what an import does in any state of a session, and after it.
-/

namespace Dispatch

/-- A wildcard is a namespace followed by a dot and a star. -/
theorem wildcardNamespace?_eq_some_iff {text ns : String} :
    wildcardNamespace? text = some ns ↔ text = ns ++ ".*" := by
  constructor
  · intro h
    unfold wildcardNamespace? at h
    split at h
    · next rest hrest =>
      obtain rfl := Option.some.inj h
      rw [← String.toList_inj, String.toList_append, String.toList_ofList,
        ← List.reverse_reverse text.toList, hrest]
      simp
    · cases h
  · rintro rfl
    have hwild : (ns ++ ".*").toList = ns.toList ++ ['.', '*'] := String.toList_append
    rw [wildcardNamespace?, hwild, List.reverse_append]
    simp

/-! ### Asking a scanner -/

namespace RegistryM

variable {α β : Type}

/-- A computation asks scanners alone, and its questions are all that it leaves behind. -/
def Scans (run : RegistryM α) : Prop :=
  ∀ r, ∃ qs : List Question, (∀ q ∈ qs, q.toCatalog = false) ∧
    (run r).2 = { r with asked := r.asked ++ qs }

namespace Scans

theorem pure (a : α) : Scans (Pure.pure a) := fun r => ⟨[], nofun, by rw [List.append_nil]; rfl⟩

theorem log {q : Question} (hq : q.toCatalog = false) : Scans (modify (Registry.log q)) :=
  fun _ => ⟨[q], by simpa using hq, rfl⟩

theorem bind {run : RegistryM α} {f : α → RegistryM β} (hrun : Scans run)
    (hf : ∀ a, Scans (f a)) : Scans (run >>= f) := by
  intro r
  obtain ⟨qs, hqs, hfirst⟩ := hrun r
  obtain ⟨qs', hqs', hsecond⟩ := hf (run r).1 (run r).2
  refine ⟨qs ++ qs', fun q hq => ?_, ?_⟩
  · exact (List.mem_append.mp hq).elim (hqs q) (hqs' q)
  · rw [bind_apply, hsecond, hfirst, List.append_assoc]

end Scans

end RegistryM

namespace Registry

open RegistryM

variable {c : Catalog} {r : Registry} {t u : TypeName} {scanner : Scanner} {text ns : String}

theorem scans_scan (scanner : Scanner) (ns : String) : Scans (scan scanner ns) :=
  .bind (.log rfl) fun _ => .pure _

theorem scans_findFirst (scanner : Scanner) (names : List String) :
    Scans (findFirst scanner names) := by
  induction names with
  | nil => exact .pure none
  | cons name rest ih =>
    refine .bind (.log rfl) fun _ => ?_
    cases scanner.find? name with
    | some t => exact .pure _
    | none => exact ih

/-- To find what a text names only the scanner is asked. -/
theorem scans_findNamed (scanner : Scanner) (text : String) : Scans (findNamed scanner text) := by
  unfold findNamed
  cases wildcardNamespace? text with
  | some ns => exact scans_scan scanner ns
  | none =>
    refine .bind (scans_scan scanner text) fun found => ?_
    split
    · exact .bind (scans_findFirst scanner _) fun _ => .pure _
    · exact .pure _

/-! ### What becomes of the found types -/

/-- A type is asked for when it is first met, and may be registered then. -/
theorem importType_cases (c : Catalog) (t : TypeName) (r : Registry) :
    (importType c t r).2 = r.learn c t ∨
      ∃ simple, (importType c t r).2 = (r.learn c t).enroll simple t := by
  have hinfo : info? c t r = (((r.learn c t).find? t).map (·.info), r.learn c t) := rfl
  have hentry : entryOf? c t (r.learn c t) = ((r.learn c t).find? t, r.learn c t) :=
    entryOf?_of_answered (answered_learn c r t)
  rw [importType, bind_apply, hinfo]
  cases he : (r.learn c t).find? t with
  | none => exact .inl rfl
  | some e =>
    dsimp only [Option.map_some]
    split
    · -- the second question for the same type is answered from what the first has left
      refine .inr ⟨e.info.simple, ?_⟩
      rw [register, bind_apply, hentry, he]
      rfl
    · exact .inl rfl

theorem find?_learn_of_agrees (hr : c.Agrees r) (t u : TypeName) :
    (r.learn c t).find? u =
      (r.find? u).or (if u = t then (c.describe u).map ({ info := · }) else none) := by
  rw [find?_learn]
  by_cases hu : u = t
  · subst hu
    cases he : r.find? u with
    | some e => simp
    | none =>
      by_cases hunknown : u ∈ r.unknown
      · simp [hunknown, hr.unknown hunknown]
      · simp [hunknown]
  · simp [hu]

theorem mem_unknown_learn_of_agrees (hr : c.Agrees r) :
    u ∈ (r.learn c t).unknown ↔ u ∈ r.unknown ∨ u = t ∧ c.describe t = none := by
  rw [mem_unknown_learn]
  refine or_congr_right (and_congr_right fun _ => and_iff_right_of_imp fun hdesc => ?_)
  -- what is kept of a type has been described
  cases he : r.find? t with
  | none => rfl
  | some e => simp [hr.info he] at hdesc

theorem imports_learn (c : Catalog) (t : TypeName) (r : Registry) :
    (r.learn c t).imports = r.imports := by
  rcases learn_cases c r t with ⟨-, heq⟩ | ⟨-, -, ⟨info, -, heq⟩ | ⟨-, heq⟩⟩ <;> rw [heq] <;> rfl

/-- The import of a type adds the entry of that type at most, and changes none. -/
theorem find?_importType (hr : c.Agrees r) (t u : TypeName) :
    (importType c t r).2.find? u =
      (r.find? u).or (if u = t then (c.describe u).map ({ info := · }) else none) := by
  rw [← find?_learn_of_agrees hr]
  rcases importType_cases c t r with heq | ⟨simple, heq⟩ <;> rw [heq]
  rfl

/-- A type becomes known as not described when its import finds no description. -/
theorem mem_unknown_importType (hr : c.Agrees r) :
    u ∈ (importType c t r).2.unknown ↔ u ∈ r.unknown ∨ u = t ∧ c.describe t = none := by
  rw [← mem_unknown_learn_of_agrees hr]
  rcases importType_cases c t r with heq | ⟨simple, heq⟩ <;> rw [heq]
  rfl

theorem imports_importType (c : Catalog) (t : TypeName) (r : Registry) :
    (importType c t r).2.imports = r.imports := by
  rw [← imports_learn c t r]
  rcases importType_cases c t r with heq | ⟨simple, heq⟩ <;> rw [heq]
  rfl

theorem importAll_nil_snd (c : Catalog) (r : Registry) : (importAll c [] r).2 = r := rfl

theorem importAll_cons_snd (c : Catalog) (t : TypeName) (ts : List TypeName) (r : Registry) :
    (importAll c (t :: ts) r).2 = (importAll c ts (importType c t r).2).2 := rfl

/-- Whatever is kept of a type stays. The found types of which nothing is known are described. -/
theorem find?_importAll (hr : c.Agrees r) (ts : List TypeName) (u : TypeName) :
    (importAll c ts r).2.find? u =
      (r.find? u).or (if u ∈ ts then (c.describe u).map ({ info := · }) else none) := by
  induction ts generalizing r with
  | nil => simp [importAll_nil_snd]
  | cons t rest ih =>
    rw [importAll_cons_snd, ih (hr.moves (registers_importType t r hr).moves),
      find?_importType hr, Option.or_assoc]
    congr 1
    by_cases hu : u = t
    · subst hu
      cases c.describe u <;> simp
    · simp [hu]

/-- The types that an import finds not to be described are remembered as such. -/
theorem mem_unknown_importAll (hr : c.Agrees r) (ts : List TypeName) :
    u ∈ (importAll c ts r).2.unknown ↔ u ∈ r.unknown ∨ u ∈ ts ∧ c.describe u = none := by
  induction ts generalizing r with
  | nil => simp [importAll_nil_snd]
  | cons t rest ih =>
    rw [importAll_cons_snd, ih (hr.moves (registers_importType t r hr).moves),
      mem_unknown_importType hr, List.mem_cons]
    grind

theorem imports_importAll (c : Catalog) (ts : List TypeName) (r : Registry) :
    (importAll c ts r).2.imports = r.imports := by
  induction ts generalizing r with
  | nil => rfl
  | cons t rest ih => rw [importAll_cons_snd, ih, imports_importType]

/-! ### Processing a text -/

theorem imports_findNamed (scanner : Scanner) (text : String) (r : Registry) :
    (findNamed scanner text r).2.imports = r.imports := by
  obtain ⟨qs, -, heq⟩ := scans_findNamed scanner text r
  rw [heq]

/-- A new text has what it names found and imported, and is remembered if it names anything. -/
theorem importText_of_new (hr : c.Agrees r) (h : r.wasImported text = false) :
    importText c scanner text r =
      let r' := (findNamed scanner text r).2
      if (scanner.named text).isEmpty then (.error (.nothingFound text), r')
      else (.ok (.fresh ((scanner.named text).countP (registersOnImport c))),
        { (importAll c (scanner.named text) r').2 with imports := r.imports ++ [text] }) := by
  have hfound := yields_findNamed (c := c) scanner text r hr
  have hall := registers_importAll (c := c) (scanner.named text) _ (hr.moves hfound.moves)
  have himports : (importAll c (scanner.named text) (findNamed scanner text r).2).2.imports =
      r.imports := by
    rw [imports_importAll, imports_findNamed]
  rw [importText_apply, h, if_neg Bool.false_ne_true, bind_apply, hfound.post]
  cases (scanner.named text).isEmpty with
  | true => rfl
  | false =>
    rw [if_neg Bool.false_ne_true, bind_apply, hall.answer, ← himports]
    rfl

/-- Nothing but questions to the scanner comes of a text that names nothing. -/
theorem importText_of_named_eq_nil (hr : c.Agrees r) (h : r.wasImported text = false)
    (hnamed : scanner.named text = []) :
    ∃ qs : List Question, (∀ q ∈ qs, q.toCatalog = false) ∧
      importText c scanner text r =
        (.error (.nothingFound text), { r with asked := r.asked ++ qs }) := by
  obtain ⟨qs, hqs, heq⟩ := scans_findNamed scanner text r
  refine ⟨qs, hqs, ?_⟩
  rw [importText_of_new hr h, hnamed, heq]
  rfl

theorem agrees_findNamed (hr : c.Agrees r) (scanner : Scanner) (text : String) :
    c.Agrees (findNamed scanner text r).2 :=
  hr.moves (yields_findNamed scanner text r hr).moves

/-- The import of a new text adds entries for the types that the scanner names and the catalog
describes. -/
theorem find?_importText (hr : c.Agrees r) (h : r.wasImported text = false) (u : TypeName) :
    (importText c scanner text r).2.find? u = (r.find? u).or
      (if u ∈ scanner.named text then (c.describe u).map ({ info := · }) else none) := by
  have hfind : (findNamed scanner text r).2.find? u = r.find? u := by
    obtain ⟨qs, -, heq⟩ := scans_findNamed scanner text r
    rw [heq]
    rfl
  rw [importText_of_new hr h, ← hfind]
  cases hnamed : scanner.named text with
  | nil => simp
  | cons t rest => exact find?_importAll (agrees_findNamed hr scanner text) (t :: rest) u

theorem mem_unknown_importText (hr : c.Agrees r) (h : r.wasImported text = false) :
    u ∈ (importText c scanner text r).2.unknown ↔
      u ∈ r.unknown ∨ u ∈ scanner.named text ∧ c.describe u = none := by
  have hunknown : (findNamed scanner text r).2.unknown = r.unknown := by
    obtain ⟨qs, -, heq⟩ := scans_findNamed scanner text r
    rw [heq]
  rw [importText_of_new hr h, ← hunknown]
  cases hnamed : scanner.named text with
  | nil => simp
  | cons t rest => exact mem_unknown_importAll (agrees_findNamed hr scanner text) (t :: rest)

/-- The import of a new text registers the types named that can stand on their own, and no others.
-/
theorem isRegistered_importText (hr : c.Agrees r) (h : r.wasImported text = false) :
    (importText c scanner text r).2.isRegistered u = true ↔
      r.isRegistered u = true ∨ u ∈ scanner.named text ∧ registersOnImport c u = true := by
  simp [isRegistered, (enrolls_importText hr scanner h).registrations]

/-- Each name points to the last of the found types that is registered under it. -/
theorem named?_importText (hr : c.Agrees r) (hnames : c.Names r) (h : r.wasImported text = false)
    (simple : String) :
    (importText c scanner text r).2.named? simple =
      (c.lastNamed? simple ((scanner.named text).filter (registersOnImport c))).or
        (r.named? simple) := by
  have henrolls := enrolls_importText hr scanner h
  rw [hnames.moves hr henrolls.moves simple, henrolls.registrations, Catalog.lastNamed?_append,
    hnames simple]

/-! ### Namespaces -/

theorem findNamed_of_wildcard (h : wildcardNamespace? text = some ns) (r : Registry) :
    findNamed scanner text r = (scanner.typesIn ns, r.log (.typesIn ns)) := by
  rw [findNamed, h]
  rfl

/-- A namespace with types in it is not taken for the path of a type. -/
theorem findNamed_of_typesIn (h : wildcardNamespace? ns = none) (htypes : scanner.typesIn ns ≠ [])
    (r : Registry) : findNamed scanner ns r = (scanner.typesIn ns, r.log (.typesIn ns)) := by
  have hscan : scan scanner ns r = (scanner.typesIn ns, r.log (.typesIn ns)) := rfl
  rw [findNamed, h]
  dsimp only
  rw [bind_apply, hscan, List.isEmpty_eq_false_iff.mpr htypes]
  rfl

/-- What is imported of a namespace that is scanned does not depend on the text. -/
theorem importText_of_scanned (hr : c.Agrees r) (h : r.wasImported text = false)
    (hfind : findNamed scanner text r = (scanner.typesIn ns, r.log (.typesIn ns)))
    (htypes : scanner.typesIn ns ≠ []) :
    importText c scanner text r =
      (.ok (.fresh ((scanner.typesIn ns).countP (registersOnImport c))),
        { (importAll c (scanner.typesIn ns) (r.log (.typesIn ns))).2 with
          imports := r.imports ++ [text] }) := by
  have hnamed : scanner.named text = scanner.typesIn ns := by
    rw [← (yields_findNamed (c := c) scanner text r hr).post, hfind]
  rw [importText_of_new hr h, hnamed, hfind, List.isEmpty_eq_false_iff.mpr htypes]
  rfl

/-- A namespace is imported alike with and without a wildcard. -/
theorem importText_wildcard (hr : c.Agrees r) (hns : wildcardNamespace? ns = none)
    (htypes : scanner.typesIn ns ≠ []) (h : r.wasImported ns = false)
    (hwild : r.wasImported (ns ++ ".*") = false) :
    ∃ (count : Nat) (r' : Registry),
      importText c scanner ns r =
        (.ok (.fresh count), { r' with imports := r.imports ++ [ns] }) ∧
      importText c scanner (ns ++ ".*") r =
        (.ok (.fresh count), { r' with imports := r.imports ++ [ns ++ ".*"] }) :=
  ⟨_, _, importText_of_scanned hr h (findNamed_of_typesIn hns htypes r) htypes,
    importText_of_scanned hr hwild
      (findNamed_of_wildcard (wildcardNamespace?_eq_some_iff.mpr rfl) r) htypes⟩

end Registry

namespace Dispatcher

open Registry

variable {σ : Type} {d : Dispatcher σ} {s : State σ}

/-- Once a text has been imported, every later import of it is answered from memory and changes
nothing, whichever scanner it is for. -/
theorem importText_after_import (hs : d.Reached s) {scanner : Scanner} {text : String}
    (hnamed : scanner.named text ≠ []) (steps : List Step) (scanner' : Scanner) :
    let later := (d.after (.registry (.importText scanner text) :: steps) s).registry
    Registry.importText d.catalog scanner' text later = (.ok .cached, later) := by
  intro later
  let imported := d.answer (.registry (.importText scanner text)) s
  have hregistry : imported.2.registry =
      (Registry.importText d.catalog scanner text s.registry).2 := rfl
  -- the import remembers the text unless it has been remembered before, and nothing is forgotten
  have himported : imported.2.registry.wasImported text = true := by
    rw [hregistry]
    cases h : s.registry.wasImported text with
    | true => rwa [importText_cached scanner h]
    | false =>
      rw [importText_of_new hs.agrees h, List.isEmpty_eq_false_iff.mpr hnamed]
      simp [wasImported]
  have hagrees := (hs.answer (.registry (.importText scanner text))).agrees
  have hgrows : imported.2.registry.Grows later :=
    (moves_after steps hagrees).registry.grows hagrees
  exact importText_cached scanner' (hgrows.wasImported himported)

/-- In every state of a session, with any scanner:

* A text that was imported before is answered from memory, nothing is asked, and nothing changes.
* A new text for which the scanner finds nothing fails, and nothing changes but for the log of the
  questions to the scanner.
* A new text for which types are found has those registered that the catalog describes and that are
  top-level or static, and the answer is how many they are, counted as often as they are found. No
  other type becomes registered; each simple name points to the last of them that goes by it, and
  where it did before if none does; what is kept of any type is kept, and the types of which nothing
  is known are described, or become unknown; and from then on the text is answered from memory.
* A namespace that has types directly in it, and is not the text of a wildcard itself, is imported
  alike with and without a wildcard: to one answer, and to one registry but for the text that it
  remembers. -/
theorem import_once (hs : d.Reached s) (scanner : Scanner) (text : String) :
    let c := d.catalog
    let r := s.registry
    let found := scanner.named text
    let outcome := Registry.importText c scanner text r
    let r' := outcome.2
    (r.wasImported text = true → outcome = (.ok .cached, r)) ∧
    (r.wasImported text = false → found = [] →
      ∃ qs : List Question, (∀ q ∈ qs, q.toCatalog = false) ∧
        outcome = (.error (.nothingFound text), { r with asked := r.asked ++ qs })) ∧
    (r.wasImported text = false → found ≠ [] →
      outcome.1 = .ok (.fresh (found.countP (registersOnImport c))) ∧
      (∀ t, r'.isRegistered t = true ↔
        r.isRegistered t = true ∨ t ∈ found ∧ registersOnImport c t = true) ∧
      (∀ simple, r'.named? simple =
        (c.lastNamed? simple (found.filter (registersOnImport c))).or (r.named? simple)) ∧
      (∀ t, r'.find? t =
        (r.find? t).or (if t ∈ found then (c.describe t).map ({ info := · }) else none)) ∧
      (∀ t, t ∈ r'.unknown ↔ t ∈ r.unknown ∨ t ∈ found ∧ c.describe t = none) ∧
      r'.imports = r.imports ++ [text] ∧
      ∀ steps scanner',
        let later := (d.after (.registry (.importText scanner text) :: steps) s).registry
        Registry.importText c scanner' text later = (.ok .cached, later)) ∧
    ∀ ns, scanner.typesIn ns ≠ [] → (∀ outer, ns ≠ outer ++ ".*") →
      r.wasImported ns = false → r.wasImported (ns ++ ".*") = false →
      ∃ (count : Nat) (r' : Registry),
        Registry.importText c scanner ns r =
          (.ok (.fresh count), { r' with imports := r.imports ++ [ns] }) ∧
        Registry.importText c scanner (ns ++ ".*") r =
          (.ok (.fresh count), { r' with imports := r.imports ++ [ns ++ ".*"] }) := by
  intro c r found outcome r'
  have hr : c.Agrees r := hs.agrees
  refine ⟨importText_cached scanner, importText_of_named_eq_nil hr, fun hnew hfound => ?_,
    fun ns htypes hns hnew hwild => ?_⟩
  · have hfresh : outcome = _ := importText_of_new hr hnew
    rw [List.isEmpty_eq_false_iff.mpr hfound] at hfresh
    refine ⟨congrArg Prod.fst hfresh, fun t => isRegistered_importText hr hnew,
      named?_importText hr hs.names hnew, find?_importText hr hnew,
      fun t => mem_unknown_importText hr hnew,
      congrArg (fun result => result.2.imports) hfresh, importText_after_import hs hfound⟩
  · refine importText_wildcard hr ?_ htypes hnew hwild
    cases hwildcard : wildcardNamespace? ns with
    | none => rfl
    | some outer => exact absurd (wildcardNamespace?_eq_some_iff.mp hwildcard) (hns outer)

/-- A type with two types nested in it, of which one needs an instance of it. -/
def outer : Catalog :=
  let nested (simple : String) (isStatic : Bool) : TypeInfo :=
    { name := ⟨"app.Outer$" ++ simple⟩, simple, isStatic, enclosing := some ⟨"app.Outer"⟩ }
  .ofTable ⟨[
    (⟨"app.Outer"⟩, ⟨.topLevel ⟨"app.Outer"⟩, none⟩),
    (⟨"app.Outer$Inner"⟩, ⟨nested "Inner" false, none⟩),
    (⟨"app.Outer$Config"⟩, ⟨nested "Config" true, none⟩)]⟩

/-- A scanner that finds them, one of them twice, and a type that does not exist. -/
def outerScanner : Scanner where
  typesIn ns :=
    if ns = "app" then
      [⟨"app.Outer"⟩, ⟨"app.Outer$Inner"⟩, ⟨"app.Ghost"⟩, ⟨"app.Outer$Config"⟩, ⟨"app.Outer"⟩]
    else []
  find? _ := none

/-- A dispatcher for them, whose registry imports what the scanner finds. -/
def importing : Dispatcher Unit := { catalog := outer, host := .idle }

/-- The namespace of the three types is imported with three registrations of two types, the third
is met, and the type that does not exist is unknown from then on. Importing the namespace again is
answered from memory, a namespace without types fails, and the wildcard makes no difference. -/
theorem import_once_outer :
    let steps : List Step := [.call (.object ⟨⟨"app.Outer$Inner"⟩, 1⟩) "size" []]
    let later := (importing.after (.registry (.importText outerScanner "app") :: steps)
      (importing.start ())).registry
    (∃ r', Registry.importText importing.catalog outerScanner "app"
        (importing.start ()).registry = (.ok (.fresh 3), r') ∧
      r'.isRegistered ⟨"app.Outer$Config"⟩ = true ∧
      r'.isRegistered ⟨"app.Outer$Inner"⟩ = false ∧
      r'.Knows ⟨"app.Outer$Inner"⟩ ∧
      ⟨"app.Ghost"⟩ ∈ r'.unknown ∧
      r'.named? "Outer" = some ⟨"app.Outer"⟩) ∧
    Registry.importText importing.catalog outerScanner "app" later = (.ok .cached, later) ∧
    (Registry.importText importing.catalog outerScanner "web" (importing.start ()).registry).1 =
      .error (.nothingFound "web") ∧
    (Registry.importText importing.catalog outerScanner "app.*" (importing.start ()).registry).1 =
      .ok (.fresh 3) := by
  intro steps later
  have hs : importing.Reached (importing.start ()) := ⟨(), [], rfl⟩
  have hnamed : outerScanner.named "app" = [⟨"app.Outer"⟩, ⟨"app.Outer$Inner"⟩, ⟨"app.Ghost"⟩,
    ⟨"app.Outer$Config"⟩, ⟨"app.Outer"⟩] := by decide
  have hcount : (outerScanner.named "app").countP
      (Registry.registersOnImport importing.catalog) = 3 := by
    rw [hnamed]
    decide
  obtain ⟨-, -, hfresh, hwildcard⟩ := import_once hs outerScanner "app"
  obtain ⟨hanswer, hregistered, hname, hfind, hunknown, -, hcached⟩ :=
    hfresh rfl (by simp [hnamed])
  rw [hcount] at hanswer
  refine ⟨⟨(Registry.importText importing.catalog outerScanner "app"
      (importing.start ()).registry).2, Prod.ext hanswer rfl, ?_, ?_, ?_, ?_, ?_⟩,
    hcached steps outerScanner, ?_, ?_⟩
  · exact (hregistered _).mpr (.inr ⟨by simp [hnamed], by decide⟩)
  · refine Bool.eq_false_iff.mpr fun h => ?_
    rcases (hregistered _).mp h with hbefore | ⟨-, himportable⟩
    · exact absurd hbefore Bool.false_ne_true
    · have hnested : Registry.registersOnImport outer ⟨"app.Outer$Inner"⟩ = false := by decide
      exact absurd (hnested.symm.trans himportable) Bool.false_ne_true
  · rw [Registry.Knows, hfind, hnamed]
    decide
  · exact (hunknown _).mpr (.inr ⟨by simp [hnamed], by decide⟩)
  · rw [hname, hnamed]
    decide
  · obtain ⟨-, hnothing, -⟩ := import_once hs outerScanner "web"
    obtain ⟨qs, -, herror⟩ := hnothing rfl (by decide)
    exact congrArg Prod.fst herror
  · obtain ⟨count, r', hbare, hwild⟩ := hwildcard "app" (by simp [outerScanner])
      (fun ns hns => by cases wildcardNamespace?_eq_some_iff.mpr hns) rfl rfl
    exact (congrArg Prod.fst hwild).trans ((congrArg Prod.fst hbare).symm.trans hanswer)

end Dispatcher

end Dispatch
