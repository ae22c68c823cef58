import Dispatch.Proofs.Dispatcher.Selection
import Dispatch.Proofs.Registry.Names
import Mathlib.Control.Monad.Basic

/-!
# Imported names

A simple name is given to a type by an import, and also by the first use of a type that has not been
registered, when nothing has to be imported. `Dispatcher.registers` says which types a step
registers, so it says what happens to a simple name: the last type registered under it has it.

* `Dispatcher.registrations_answer`: which types a step adds to those registered.
* `Dispatcher.constructNamed_after_import`: an imported name keeps its meaning until another type is
  registered under it.
* `Dispatcher.constructNamed_other_nodes`: the first use of another type takes the name away.
-/

namespace Dispatch

namespace Dispatcher

open DispatchM Fallible

variable {σ α β : Type} {d : Dispatcher σ} {s : State σ}

/-! ### What a step registers -/

/-- From a state, a computation registers `ts`, one after another. -/
def Enlists (s : State σ) (run : DispatchM σ α) (ts : List TypeName) : Prop :=
  (run s).2.registry.registrations = s.registry.registrations ++ ts

variable (d s) in
/-- What the first use of a type registers: the type, if it has not been registered, need not be
imported, and is known to the catalog. -/
def firstUse (t : TypeName) : List TypeName :=
  if s.registry.isRegistered t || d.settings.requireImports then []
  else [t].filter fun u => (d.catalog.describe u).isSome

variable (d s) in
/-- What the use of a value as a receiver registers. -/
def firstUseOf (v : Value) : List TypeName :=
  (Receiver.of? v).elim [] fun r => d.firstUse s r.type

variable (d s) in
/-- The types that a step registers. -/
def registers : Step → List TypeName
  | .call v _ _ | .resolve v _ _ | .findMethod v _ _ | .findField v _ | .getField v _
  | .getFieldOrNested v _ | .setField v _ _ | .run (.call v _ _) | .run (.getField v _)
  | .run (.getFieldOrNested v _) | .run (.setField v _ _) => d.firstUseOf s v
  | .findConstructor t _ | .construct t _ => d.firstUse s t
  | .importText text =>
    d.scanner.elim [] fun scanner => s.registry.importedBy d.catalog scanner text
  | .registry step => step.registers d.catalog s.registry
  | .constructNamed .. | .run (.construct ..) | .setRecast _ => []

section Enlists

variable {run : DispatchM σ α} {ts : List TypeName} {changes changes' : List Change}

/-- Learning, remembering, ranking and the host register nothing. -/
theorem Within.enlists (h : d.Within changes run) (hs : d.catalog.Agrees s.registry)
    (hno : .register ∉ changes) : Enlists s run [] := by
  rw [Enlists, (h s hs).moves.registrations hno, List.append_nil]

theorem Enlists.map (hrun : Enlists s run ts) (f : α → β) : Enlists s (f <$> run) ts := by
  unfold Enlists
  rw [map_apply]
  exact hrun

/-- If nothing is registered in what follows, what a computation starts with registers all. -/
theorem Follows.enlists {first : DispatchM σ β} (h : d.Follows first changes run)
    (hno : .register ∉ changes) (hs : d.catalog.Agrees s.registry)
    (hwithin : d.Within changes' first) (hfirst : Enlists s first ts) : Enlists s run ts := by
  obtain ⟨rest, rfl, hrest⟩ := h
  have hagrees := (hwithin s hs).agrees hs
  unfold Enlists
  rw [bind_apply]
  cases hb : (first s).1 with
  | error e => exact hfirst
  | ok b => exact ((hrest s b hb _ hagrees).moves.registrations hno).trans hfirst

end Enlists

/-- A type is registered at its first use only, and never where imports are required. -/
theorem enlists_ensureRegistered (hs : d.catalog.Agrees s.registry) (t : TypeName) :
    Enlists s (d.ensureRegistered t) (d.firstUse s t) := by
  unfold Enlists firstUse
  cases hregistered : s.registry.isRegistered t with
  | true => simp [ensureRegistered, bind_apply, hregistered]
  | false =>
    cases himports : d.settings.requireImports with
    | true => simp [ensureRegistered, bind_apply, hregistered, himports]
    | false =>
      have hregister := (Registry.registers_register t s.registry hs).registrations
      simp only [ensureRegistered, bind_apply, get_apply, hregistered, himports]
      exact hregister

/-- The use of a receiver registers its type at most. -/
theorem enlists_receiver (hs : d.catalog.Agrees s.registry) (v : Value) (name : String) :
    Enlists s (d.receiver v name) (d.firstUseOf s v) := by
  unfold receiver firstUseOf
  cases Receiver.of? v with
  | none => exact (Within.throw rfl).enlists hs List.not_mem_nil
  | some r =>
    have hfollows : d.Follows (d.ensureRegistered r.type) [] (do
        d.ensureRegistered r.type
        return r) := ⟨_, rfl, fun _ _ _ => .pure r⟩
    exact hfollows.enlists List.not_mem_nil hs (within_ensureRegistered r.type)
      (enlists_ensureRegistered hs r.type)

theorem enlists_construct (hs : d.catalog.Agrees s.registry) (t : TypeName) (args : List Value) :
    Enlists s (d.construct t args) (d.firstUse s t) :=
  (follows_construct t args).enlists (by decide) hs (within_ensureRegistered t)
    (enlists_ensureRegistered hs t)

/-- A name that is imported points to a type that needs no registration. -/
theorem enlists_constructNamed (hs : d.catalog.Agrees s.registry) (simple : String)
    (args : List Value) : Enlists s (d.constructNamed simple args) [] := by
  unfold Enlists constructNamed
  simp only [bind_apply, get_apply]
  cases ht : (s.registry.named? simple).filter s.registry.isRegistered with
  | none => exact (Within.throw rfl).enlists hs List.not_mem_nil
  | some t =>
    have hfirst : d.firstUse s t = [] := by
      simp [firstUse, (Option.filter_eq_some_iff.mp ht).2]
    have hconstruct := enlists_construct hs t args
    rwa [hfirst] at hconstruct

/-- An import registers what `importedBy` lists for the scanner, and nothing without one. -/
theorem enlists_importText (hs : d.catalog.Agrees s.registry) (text : String) :
    Enlists s (d.importText text)
      (d.scanner.elim [] fun scanner => s.registry.importedBy d.catalog scanner text) := by
  unfold importText
  cases d.scanner with
  | none => exact (Within.throw rfl).enlists hs List.not_mem_nil
  | some scanner =>
    have himport : Enlists s (onRegistry (Registry.importText d.catalog scanner text))
        (s.registry.importedBy d.catalog scanner text) := by
      obtain ⟨outcome, henrolls⟩ := Registry.exists_enrolls_importText hs scanner text
      exact henrolls.registrations
    refine Follows.enlists ⟨_, rfl, fun _ outcome _ => ?_⟩ List.not_mem_nil hs
      (.onRegistry fun r hr => Registry.moves_importText hr scanner text) himport
    cases outcome with
    | ok imported => exact .pure _
    | error cause => exact .throw rfl

/-- Which types a step adds to those registered. -/
theorem registrations_answer (hs : d.catalog.Agrees s.registry) (step : Step) :
    (d.answer step s).2.registry.registrations =
      s.registry.registrations ++ d.registers s step := by
  -- what is done on a receiver registers at most the type of the receiver
  have hreceiver : ∀ {γ δ : Type} {run : DispatchM σ γ} {changes : List Change} {v name}
      (f : γ → δ), d.Follows (d.receiver v name) changes run → .register ∉ changes →
      Enlists s (f <$> run) (d.firstUseOf s v) := fun f h hno =>
    (h.enlists hno hs (within_receiver _ _) (enlists_receiver hs _ _)).map f
  cases step with
  | call v name args => exact hreceiver _ (follows_call v name args) (by decide)
  | resolve v name args => exact hreceiver _ (follows_resolve v name args) (by decide)
  | findMethod v name args => exact hreceiver _ (follows_findMethod v name args) (by decide)
  | findConstructor t args =>
    exact ((follows_findConstructor t args).enlists (by decide) hs (within_ensureRegistered t)
      (enlists_ensureRegistered hs t)).map _
  | construct t args => exact (enlists_construct hs t args).map _
  | constructNamed simple args => exact (enlists_constructNamed hs simple args).map _
  | findField v name => exact hreceiver _ (follows_findField v name) (by decide)
  | getField v name => exact hreceiver _ (follows_getField v name) (by decide)
  | getFieldOrNested v name => exact hreceiver _ (follows_getFieldOrNested v name) (by decide)
  | setField v name value => exact hreceiver _ (follows_setField v name value) (by decide)
  | run request =>
    cases request with
    | call v name args => exact hreceiver _ (follows_call v name args) (by decide)
    | construct simple args => exact (enlists_constructNamed hs simple args).map _
    | getField v name => exact hreceiver _ (follows_getField v name) (by decide)
    | getFieldOrNested v name => exact hreceiver _ (follows_getFieldOrNested v name) (by decide)
    | setField v name value =>
      have hwritten := (follows_setField (d := d) v name value).bind fun _ => .pure Value.null
      exact hreceiver _ hwritten (by decide)
  | importText text => exact (enlists_importText hs text).map _
  | setRecast on => exact (List.append_nil _).symm
  | registry step =>
    obtain ⟨answer, henrolls⟩ := step.exists_enrolls hs
    exact henrolls.registrations

/-! ### Names in a session -/

/-- The table of names stays in step with the registrations under all kinds of change. -/
theorem Moves.names {s' : State σ} {changes : List Change} (h : d.Moves changes s s')
    (hs : d.catalog.Agrees s.registry) (hnames : d.catalog.Names s.registry) :
    d.catalog.Names s'.registry :=
  hnames.moves hs h.registry

/-- In every reached state a simple name points to the last type registered under it. -/
theorem Reached.names (h : d.Reached s) : d.catalog.Names s.registry := by
  obtain ⟨host, changes, hmoves⟩ := h.moves
  exact hmoves.names (Catalog.agrees_empty _) (Catalog.names_empty _)

/-- What is reached from a reached state is reached. -/
theorem Reached.after (h : d.Reached s) (steps : List Step) : d.Reached (d.after steps s) := by
  obtain ⟨host, earlier, rfl⟩ := h
  exact ⟨host, earlier ++ steps, by simp [Dispatcher.after, List.foldl_append]⟩

theorem Reached.answer (h : d.Reached s) (step : Step) : d.Reached (d.answer step s).2 :=
  h.after [step]

/-- Only registered types are in the table of names. -/
theorem Reached.isRegistered_of_named? (h : d.Reached s) {simple : String} {t : TypeName}
    (hnamed : s.registry.named? simple = some t) : s.registry.isRegistered t = true := by
  rw [h.names simple] at hnamed
  exact decide_eq_true (Catalog.lastNamed?_eq_some hnamed).1

/-- After a step a simple name points to the last type that the step registers under it, and where
it did before if the step registers none. -/
theorem named?_answer (hs : d.Reached s) (step : Step) (simple : String) :
    (d.answer step s).2.registry.named? simple =
      (d.catalog.lastNamed? simple (d.registers s step)).or (s.registry.named? simple) := by
  rw [(hs.answer step).names simple, registrations_answer hs.agrees, Catalog.lastNamed?_append,
    hs.names simple]

variable (d) in
/-- The types that the steps of a run register, one after another. -/
def registeredBy (s : State σ) : List Step → List TypeName
  | [] => []
  | step :: rest => d.registers s step ++ registeredBy (d.answer step s).2 rest

/-- Which types a run adds to those registered. -/
theorem registrations_after (hs : d.catalog.Agrees s.registry) (steps : List Step) :
    (d.after steps s).registry.registrations =
      s.registry.registrations ++ d.registeredBy s steps := by
  induction steps generalizing s with
  | nil => exact (List.append_nil _).symm
  | cons step rest ih =>
    have hrest := ih ((moves_answer step hs).agrees hs)
    rw [registrations_answer hs, List.append_assoc] at hrest
    exact hrest

/-- What a run registers is what one of its steps registers, in the state in which that is taken. -/
theorem mem_registeredBy_iff {steps : List Step} {t : TypeName} :
    t ∈ d.registeredBy s steps ↔
      ∃ before step rest, steps = before ++ step :: rest ∧
        t ∈ d.registers (d.after before s) step := by
  induction steps generalizing s with
  | nil => simp [registeredBy]
  | cons step rest ih =>
    rw [registeredBy, List.mem_append, ih]
    constructor
    · rintro (ht | ⟨before, step', rest', rfl, ht⟩)
      · exact ⟨[], step, rest, rfl, ht⟩
      · exact ⟨step :: before, step', rest', rfl, ht⟩
    · rintro ⟨before, step', rest', hsteps, ht⟩
      cases before with
      | nil =>
        obtain ⟨rfl, rfl⟩ := List.cons.inj hsteps
        exact .inl ht
      | cons _ before =>
        obtain ⟨rfl, rfl⟩ := List.cons.inj hsteps
        exact .inr ⟨before, step', rest', rfl, ht⟩

/-- After a run a simple name points to the last type that the run registers under it, and where it
did before if the run registers none. -/
theorem named?_after (hs : d.Reached s) (steps : List Step) (simple : String) :
    (d.after steps s).registry.named? simple =
      (d.catalog.lastNamed? simple (d.registeredBy s steps)).or (s.registry.named? simple) := by
  rw [(hs.after steps).names simple, registrations_after hs.agrees, Catalog.lastNamed?_append,
    hs.names simple]

/-! ### Imports -/

/-- An import is answered as the registry answers it. -/
theorem answer_importText_fst {scanner : Scanner} (hscanner : d.scanner = some scanner)
    (text : String) :
    (d.answer (.importText text) s).1 =
      (((Registry.importText d.catalog scanner text s.registry).1.mapError
        DispatchError.importFailed).map Answer.imported) := by
  have hstep : d.answer (.importText text) s = (Answer.imported <$> d.importText text) s := rfl
  rw [hstep, map_apply, importText, hscanner]
  simp only [bind_apply]
  have hrun : (onRegistry (Registry.importText d.catalog scanner text) s).1 =
      .ok (Registry.importText d.catalog scanner text s.registry).1 := rfl
  rw [hrun]
  cases (Registry.importText d.catalog scanner text s.registry).1 <;> rfl

/-- An import that is answered from memory changes nothing. -/
theorem answer_importText_cached {scanner : Scanner} (hscanner : d.scanner = some scanner)
    {text : String} (hmemory : s.registry.wasImported text = true) :
    d.answer (.importText text) s = (.ok (.imported .cached), s) := by
  have hstep : d.answer (.importText text) s = (Answer.imported <$> d.importText text) s := rfl
  have hrun : onRegistry (Registry.importText d.catalog scanner text) s =
      (.ok (.ok .cached), s) := by
    simp only [onRegistry, StateT.run, Registry.importText_cached scanner hmemory]
  rw [hstep, map_apply, importText, hscanner]
  simp only [bind_apply, hrun]
  rfl

/-- An import that registers a type is answered as a fresh one. -/
theorem fresh_of_mem_registers (hs : d.catalog.Agrees s.registry) {text : String} {t : TypeName}
    (ht : t ∈ d.registers s (.importText text)) :
    ∃ count, (d.answer (.importText text) s).1 = .ok (.imported (.fresh count)) := by
  cases hscanner : d.scanner with
  | none => simp [registers, hscanner] at ht
  | some scanner =>
    simp only [registers, hscanner, Option.elim_some, Registry.importedBy] at ht
    cases hmemory : s.registry.wasImported text with
    | true => simp [hmemory] at ht
    | false =>
      have hnamed : (scanner.named text).isEmpty = false := by
        rw [hmemory] at ht
        rw [List.isEmpty_eq_false_iff]
        exact List.ne_nil_of_mem (List.mem_filter.mp ht).1
      rw [answer_importText_fst hscanner, (Registry.enrolls_importText hs scanner hmemory).answer,
        hnamed]
      exact ⟨_, rfl⟩

/-- After an import that succeeds and names one type, which can be imported, the simple name of the
type points to it: the import registers it, or has been answered from memory. -/
theorem named?_import (hs : d.Reached s) {scanner : Scanner} (hscanner : d.scanner = some scanner)
    {text : String} {t : TypeName} (hnamed : scanner.named text = [t]) {info : TypeInfo}
    (hinfo : d.catalog.describe t = some info) (himportable : Registry.isImportable info = true)
    {outcome : Imported}
    (himport : (d.answer (.importText text) s).1 = .ok (.imported outcome))
    (hcached : outcome = .cached → s.registry.named? info.simple = some t) :
    (d.answer (.importText text) s).2.registry.named? info.simple = some t := by
  have hregisters : d.registers s (.importText text) =
      s.registry.importedBy d.catalog scanner text := by
    simp [registers, hscanner]
  rw [named?_answer hs, hregisters, Registry.importedBy]
  cases hmemory : s.registry.wasImported text with
  | true =>
    have hanswer : (d.answer (.importText text) s).1 = .ok (.imported .cached) := by
      rw [answer_importText_fst hscanner, Registry.importText_cached scanner hmemory]
      rfl
    rw [himport] at hanswer
    have houtcome : outcome = .cached := Answer.imported.inj (Except.ok.inj hanswer)
    exact hcached houtcome
  | false =>
    have himported : Registry.registersOnImport d.catalog t = true := by
      simp [Registry.registersOnImport, hinfo, himportable]
    simp [hnamed, himported, Catalog.lastNamed?_singleton hinfo]

/-- The constructor of a registered type is found as the catalog selects it, whether or not imports
are required. -/
theorem findConstructor_fst_of_isRegistered (hs : d.catalog.Agrees s.registry) {t : TypeName}
    (ht : s.registry.isRegistered t = true) (args : List Value) :
    (d.findConstructor t args s).1 = d.catalog.selectConstructor s.recast t args := by
  have hregistered : d.ensureRegistered t s = (.ok (), s) := by
    simp [ensureRegistered, bind_apply, ht]
  rw [findConstructor, bind_apply, hregistered]
  simp only [bind_apply, get_apply]
  exact onResolution_fst (Resolution.yields_selectConstructor t args) hs

/-- A construction by simple name is the construction of the type in the table, since that type is
registered already. -/
theorem constructNamed_eq_construct (hs : d.Reached s) {simple : String} {t : TypeName}
    (hnamed : s.registry.named? simple = some t) (args : List Value) :
    d.constructNamed simple args s = d.construct t args s := by
  have hfilter : (s.registry.named? simple).filter s.registry.isRegistered = some t := by
    rw [hnamed, Option.filter_some, if_pos (hs.isRegistered_of_named? hnamed)]
  simp only [constructNamed, bind_apply, get_apply, hfilter]

/-- After an import that succeeds and names one type, the simple name of the type points to the last
type that the steps since then have registered under it, and to the imported type if they have
registered none. As long as they register no other type under it, constructing by the simple name
constructs the imported type, with one of its constructors. -/
theorem constructNamed_after_import (hs : d.Reached s) {scanner : Scanner}
    (hscanner : d.scanner = some scanner) {text : String} {t : TypeName}
    (hnamed : scanner.named text = [t]) {info : TypeInfo}
    (hinfo : d.catalog.describe t = some info) (himportable : Registry.isImportable info = true)
    {outcome : Imported}
    (himport : (d.answer (.importText text) s).1 = .ok (.imported outcome))
    (hcached : outcome = .cached → s.registry.named? info.simple = some t) (steps : List Step)
    (args : List Value) :
    let s₁ := (d.answer (.importText text) s).2
    let s' := d.after steps s₁
    s'.registry.named? info.simple =
        (d.catalog.lastNamed? info.simple (d.registeredBy s₁ steps)).or (some t) ∧
      ((∀ u ∈ d.registeredBy s₁ steps, d.catalog.goesBy info.simple u = true → u = t) →
        d.constructNamed info.simple args s' = d.construct t args s' ∧
          (d.findConstructor t args s').1 =
            d.catalog.select s'.recast t t.simple args (d.catalog.constructors t)) := by
  intro s₁ s'
  have hs₁ : d.Reached s₁ := hs.answer _
  have hs' : d.Reached s' := hs₁.after steps
  have himported : s₁.registry.named? info.simple = some t :=
    named?_import hs hscanner hnamed hinfo himportable himport hcached
  have hafter := named?_after hs₁ steps info.simple
  rw [himported] at hafter
  refine ⟨hafter, fun hsteps => ?_⟩
  rw [Catalog.lastNamed?_or_eq hsteps] at hafter
  exact ⟨constructNamed_eq_construct hs' hafter args,
    findConstructor_fst_of_isRegistered hs'.agrees (hs'.isRegistered_of_named? hafter) args⟩

/-! ### Two types of one simple name -/

/-- Two types known as nodes, and one that is not. -/
def nodes : Catalog := .ofTable ⟨[
  (⟨"a.Node"⟩, ⟨.topLevel ⟨"a.Node"⟩, some { constructors := [{ params := [], target := 1 }] }⟩),
  (⟨"b.Node"⟩, ⟨.topLevel ⟨"b.Node"⟩,
    some { constructors := [{ params := [], target := 2 }]
           methods := [{ name := "size", params := [], target := 3 }] }⟩),
  (⟨"b.Leaf"⟩, ⟨.topLevel ⟨"b.Leaf"⟩, some {}⟩)]⟩

/-- A scanner that finds each of them by its full name. -/
def nodeScanner : Scanner where
  typesIn _ := []
  find? name := if (nodes.describe ⟨name⟩).isSome then some ⟨name⟩ else none

/-- A dispatcher whose host records the calls made to it. -/
def naming : Dispatcher (Unit × List HostCall) :=
  { catalog := nodes, host := Host.idle.recorded, scanner := some nodeScanner }

/-- The import of one of the two. -/
def imported : State (Unit × List HostCall) :=
  (naming.answer (.importText "a.Node") (naming.start ((), []))).2

/-- The import is a fresh one. -/
theorem answer_import_node :
    (naming.answer (.importText "a.Node") (naming.start ((), []))).1 =
      .ok (.imported (.fresh 1)) := by
  have hscanner : naming.scanner = some nodeScanner := rfl
  have hfresh : (Registry.importText naming.catalog nodeScanner "a.Node" {}).1 =
      .ok (.fresh 1) := by decide +kernel
  rw [answer_importText_fst hscanner]
  exact congrArg (fun outcome => (outcome.mapError DispatchError.importFailed).map Answer.imported)
    hfresh

theorem reached_imported : naming.Reached imported :=
  ⟨((), []), [.importText "a.Node"], rfl⟩

/-- Nothing has been done on the host so far. -/
theorem host_imported : imported.host = ((), []) := by
  rw [imported, (moves_answer (.importText "a.Node") (Catalog.agrees_empty _)).host (by decide)]
  rfl

/-- Other names may be used and imported between the import and the construction. -/
theorem constructNamed_after_import_nodes :
    let steps : List Step := [.call (.object ⟨⟨"b.Leaf"⟩, 1⟩) "grow" [], .importText "b.Leaf",
      .importText "a.Node", .setRecast false]
    (naming.answer (.importText "a.Node") (naming.start ((), []))).1 =
        .ok (.imported (.fresh 1)) ∧
      naming.registeredBy imported steps = [⟨"b.Leaf"⟩, ⟨"b.Leaf"⟩] ∧
      naming.constructNamed "Node" [] (naming.after steps imported) =
        naming.construct ⟨"a.Node"⟩ [] (naming.after steps imported) := by
  intro steps
  have hregistered : naming.registeredBy imported [.call (.object ⟨⟨"b.Leaf"⟩, 1⟩) "grow" [],
      .importText "b.Leaf", .importText "a.Node", .setRecast false] =
        [⟨"b.Leaf"⟩, ⟨"b.Leaf"⟩] := by decide +kernel
  have hnamed : nodeScanner.named "a.Node" = [⟨"a.Node"⟩] := by decide
  have hstart : naming.Reached (naming.start ((), [])) := ⟨((), []), [], rfl⟩
  have hscanner : naming.scanner = some nodeScanner := rfl
  have hmain := constructNamed_after_import hstart hscanner hnamed rfl rfl answer_import_node
    (fun h => by cases h) steps []
  refine ⟨answer_import_node, hregistered, (hmain.2 fun u hu hname => ?_).1⟩
  have hleaf : u ∈ [⟨"b.Leaf"⟩, ⟨"b.Leaf"⟩] := hregistered ▸ hu
  obtain rfl : u = ⟨"b.Leaf"⟩ := by simpa using hleaf
  have hother : naming.catalog.goesBy "Node" ⟨"b.Leaf"⟩ = false := by decide
  exact absurd (hother.symm.trans hname) Bool.false_ne_true

/-- Where the simple name points to the second node, that is what is constructed by it. -/
theorem host_constructNamed_node {s : State (Unit × List HostCall)} (hs : naming.Reached s)
    (hnamed : s.registry.named? "Node" = some ⟨"b.Node"⟩) :
    (naming.constructNamed "Node" [] s).2.host = (s.host.1, s.host.2 ++
      [.construct (.ofConstructor ⟨"b.Node"⟩ { params := [], target := 2 }) []]) := by
  have hselected : ∀ recast, naming.catalog.selectConstructor recast ⟨"b.Node"⟩ [] =
      .ok (.ofConstructor ⟨"b.Node"⟩ { params := [], target := 2 }) := by decide +kernel
  have hfound := findConstructor_fst_of_isRegistered hs.agrees
    (hs.isRegistered_of_named? hnamed) []
  rw [hselected] at hfound
  rw [constructNamed_eq_construct hs hnamed, (construct_of_findConstructor_ok hs.agrees hfound).2]
  rfl

/-- The first use of the second node calls its method. -/
theorem host_after_use :
    (naming.after [.call (.object ⟨⟨"b.Node"⟩, 1⟩) "size" []] imported).host =
      ((), [.invoke (some (.object ⟨⟨"b.Node"⟩, 1⟩))
        (.ofMethod ⟨"b.Node"⟩ { name := "size", params := [], target := 3 }) []]) := by
  have hresolved : (naming.resolve (.object ⟨⟨"b.Node"⟩, 1⟩) "size" [] imported).1 =
      .ok (.method (.ofMethod ⟨"b.Node"⟩ { name := "size", params := [], target := 3 })) := by
    decide +kernel
  have hanswer : naming.answer (.call (.object ⟨⟨"b.Node"⟩, 1⟩) "size" []) imported = _ :=
    map_apply Answer.value (naming.call (.object ⟨⟨"b.Node"⟩, 1⟩) "size" []) imported
  simp only [after, List.foldl_cons, List.foldl_nil]
  rw [hanswer, (call_of_resolve_ok reached_imported.agrees rfl hresolved rfl).2, host_imported]
  rfl

/-- The name of an imported type is taken by another type when this is first used, and an import
that is answered from memory does not give it back: what is constructed under the name then is not
of the imported type. -/
theorem constructNamed_other_nodes :
    let other : Value := .object ⟨⟨"b.Node"⟩, 1⟩
    let construction : HostCall :=
      .construct (.ofConstructor ⟨"b.Node"⟩ { params := [], target := 2 }) []
    nodeScanner.named "a.Node" = [⟨"a.Node"⟩] ∧
      (naming.answer (.importText "a.Node") (naming.start ((), []))).1 =
        .ok (.imported (.fresh 1)) ∧
      (naming.constructNamed "Node" []
        (naming.after [.call other "size" []] imported)).2.host.2 =
          [.invoke (some other) (.ofMethod ⟨"b.Node"⟩ { name := "size", params := [], target := 3 })
              [], construction] ∧
      (naming.answer (.importText "a.Node") (naming.after [.importText "b.Node"] imported)).1 =
        .ok (.imported .cached) ∧
      (naming.constructNamed "Node" []
        (naming.after [.importText "b.Node", .importText "a.Node"] imported)).2.host.2 =
          [construction] := by
  intro other construction
  have hused : (naming.after [.call other "size" []] imported).host = _ := host_after_use
  have hfirst := host_constructNamed_node (reached_imported.after [.call other "size" []])
    (by decide +kernel)
  -- of the two imports the first leaves the host alone, and the second changes nothing
  obtain ⟨both, hboth⟩ : ∃ s, naming.after [.importText "b.Node"] imported = s := ⟨_, rfl⟩
  have hreached : naming.Reached both := hboth ▸ reached_imported.after _
  have hhost : both.host = ((), []) := by
    rw [← hboth, (moves_after _ reached_imported.agrees).host (by decide), host_imported]
  have hmemory : both.registry.wasImported "a.Node" = true := by
    rw [← hboth]
    decide +kernel
  have hname : both.registry.named? "Node" = some ⟨"b.Node"⟩ := by
    rw [← hboth]
    decide +kernel
  have hscanner : naming.scanner = some nodeScanner := rfl
  have hcached := answer_importText_cached hscanner hmemory
  have hafter : naming.after [.importText "b.Node", .importText "a.Node"] imported = both := by
    have hconcat :=
      after_concat (d := naming) [.importText "b.Node"] (.importText "a.Node") imported
    rw [hboth, hcached] at hconcat
    exact hconcat
  have hsecond := host_constructNamed_node hreached hname
  rw [hused] at hfirst
  rw [hhost] at hsecond
  rw [hboth, hcached, hafter]
  exact ⟨by decide, answer_import_node, congrArg Prod.snd hfirst, rfl, congrArg Prod.snd hsecond⟩

end Dispatcher

end Dispatch
