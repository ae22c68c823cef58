import Dispatch.Proofs.Declarations.Recorded
import Dispatch.Proofs.Dispatcher.Selection
import Dispatch.Proofs.Members.Lookups
import Dispatch.Proofs.Resolution.History
import Dispatch.Proofs.Scoring.Best

/-!
# Constructing with an enclosing instance

The constructors of a nested type that is not static are written without the enclosing instance. It
is added to the parameters when the declaration is recorded, to the arguments when a call is
resolved, and again when the call is carried out. Between them the three cancel out: what is
selected, and what the arguments are converted to, is what the parameters as written say.

* `Catalog.map_select?_enclosed`: selection from the constructors as written.
* `Dispatcher.construct_enclosed`: resolving and calling the name of a nested type.
-/

namespace Dispatch

/-! ### Constructors as written -/

/-- The constructor with an enclosing instance before its other parameters. -/
def Overload.enclosed (outer : TypeName) (o : Overload) : Overload :=
  { o with params := .named outer :: o.params }

/-- The public constructors that a declaration declares, with the parameters as they are written,
where the given number of targets is taken before. -/
def Declaration.written (d : Declaration) (targets : Nat) : List Overload :=
  ((Declarations.constructorsIn d.clauses targets).filter (·.isPublic)).map (.ofConstructor d.name)

namespace Declarations

variable {decls before : List Declaration} {decl : Declaration} {outer : TypeName}
  {nested : NestedType}

theorem members_ofList (h : InForce decls nested.name before decl) :
    (ofList decls).catalog.members nested.name =
      some (decl.recorded (ofList before).targets).listing := by
  rw [members_catalog, members, find?_ofList.mpr ⟨before, decl, h, rfl⟩]
  rfl

/-- The public constructors of a nested type that is not static are those written, each with an
enclosing instance. -/
theorem declaredConstructors_ofList (h : InForce decls nested.name before decl)
    (hheading : decl.heading = .nested outer nested.simple false) :
    (ofList decls).catalog.declaredConstructors nested.name =
      (decl.written (ofList before).targets).map (·.enclosed outer) := by
  have hrecorded : (decl.recorded (ofList before).targets).listing.constructors =
      Draft.bindEnclosing outer (constructorsIn decl.clauses (ofList before).targets) := by
    rw [decl.constructors_recorded, hheading]
  rw [Catalog.declaredConstructors, members_ofList h, Option.getD_some, hrecorded,
    Draft.bindEnclosing, List.filter_map, List.map_map, Declaration.written, List.map_map,
    h.name_eq]
  rfl

/-- A nested type that needs an enclosing instance has been declared as one that is not static. -/
theorem exists_inForce_of_mem_nested {info : TypeInfo}
    (hinfo : (ofList decls).catalog.describe outer = some info) (hnested : nested ∈ info.nested)
    (hneeds : nested.needsEnclosing = true) :
    ∃ before decl, InForce decls nested.name before decl ∧
      decl.heading = .nested outer nested.simple false := by
  rw [describe_catalog] at hinfo
  obtain ⟨draft, -, rfl⟩ := Option.map_eq_some_iff.mp hinfo
  obtain ⟨before, decl, isStatic, hforce, hheading, hstatic⟩ := mem_nestedIn_ofList.mp hnested
  obtain rfl : isStatic = false := by simpa [hneeds] using hstatic.symm
  exact ⟨before, decl, hforce, hheading⟩

/-- In a declared catalog the constructors of a nested type that is not static all take the
enclosing instance first. -/
theorem bindsEnclosing_ofList (decls : List Declaration) :
    (ofList decls).catalog.BindsEnclosing := by
  intro outer info nested hinfo hnested hneeds
  obtain ⟨before, decl, hforce, hheading⟩ := exists_inForce_of_mem_nested hinfo hnested hneeds
  refine ⟨outer, fun listing c hlisting hc => ?_⟩
  rw [members_ofList hforce] at hlisting
  obtain rfl := Option.some.inj hlisting
  rw [decl.constructors_recorded, hheading] at hc
  obtain ⟨c, -, rfl⟩ := List.mem_map.mp hc
  rfl

end Declarations

/-! ### Selection -/

/-- The selection looks at the scores alone. -/
theorem firstBest?_map_overload (f : Overload → Overload) (l : List (Overload × Option Nat)) :
    firstBest? (l.map fun p => (f p.1, p.2)) =
      (firstBest? l).map fun best => (f best.1, best.2) := by
  induction l with
  | nil => rfl
  | cons p rest ih =>
    obtain ⟨o, score⟩ := p
    cases score with
    | none => exact ih
    | some n =>
      simp only [List.map_cons, firstBest?, ih]
      cases firstBest? rest with
      | none => rfl
      | some best =>
        simp only [Option.map_some]
        split <;> rfl

namespace Catalog

variable {c : Catalog} {recast : Bool} {outer : TypeName} {v : Value} {args : List Value}

/-- The score of a constructor as written is what the arguments contribute after an enclosing
instance, and the score of a call without arguments besides if there are none. -/
theorem score?_eq_scoreRest? (outer : TypeName) (o : Overload) :
    c.score? recast args o =
      (c.scoreRest? recast args (o.enclosed outer)).map
        ((if args.isEmpty then Score.noArguments else 0) + ·) := by
  have hrest : c.scoreRest? recast args (o.enclosed outer) =
      if o.params.length ≠ args.length then none else c.scoreArguments? recast o.params args := rfl
  rw [score?, hrest]
  by_cases hlength : o.params.length = args.length
  · cases args with
    | nil =>
      have hparams := List.eq_nil_of_length_eq_zero hlength
      simp [hparams, scoreArguments?]
    | cons a args =>
      have hne : o.params.isEmpty = false := by
        rw [List.isEmpty_eq_false_iff, ← List.length_pos_iff, hlength]
        exact Nat.succ_pos _
      simp [hlength, hne]
  · simp [hlength]

/-- An enclosing instance leaves the choice among constructors to the other arguments. -/
theorem map_select?_enclosed (hv : (c.scoreArgument? recast v (.named outer)).isSome = true)
    (os : List Overload) :
    (c.select? recast (v :: args) (os.map (·.enclosed outer))).map (·.1) =
      (c.select? recast args os).map (·.1.enclosed outer) := by
  obtain ⟨s, hs⟩ := Option.isSome_iff_exists.mp hv
  have hhead : ∀ o ∈ os.map (·.enclosed outer), o.params.head? = some (.named outer) := by
    intro o ho
    obtain ⟨o, -, rfl⟩ := List.mem_map.mp ho
    rfl
  let rest := os.map fun o => (o, c.scoreRest? recast args (o.enclosed outer))
  have henclosed : c.select? recast (v :: args) (os.map (·.enclosed outer)) =
      (firstBest? rest).map fun best => (best.1.enclosed outer, s + best.2) := by
    have hmap : (os.map (·.enclosed outer)).map (fun o => (o, c.scoreRest? recast args o)) =
        rest.map fun p => (p.1.enclosed outer, p.2) := by
      simp [rest]
    rw [select?_cons hhead hs, hmap, firstBest?_map_overload, Option.map_map]
    rfl
  have hwritten : c.select? recast args os =
      (firstBest? rest).map fun best =>
        (best.1, (if args.isEmpty then Score.noArguments else 0) + best.2) := by
    rw [select?, ← firstBest?_map_add, List.map_map]
    simp only [score?_eq_scoreRest? outer]
    rfl
  rw [henclosed, hwritten, Option.map_map, Option.map_map]
  rfl

end Catalog

/-! ### Resolution -/

/-- A public type that is not an enumeration is nested in `outer` under another simple name, and is
constructed from instances of it. -/
structure Catalog.Encloses (c : Catalog) (outer : TypeName) (nested : NestedType) : Prop where
  mem_nested : ∃ info, c.describe outer = some info ∧ nested ∈ info.nested ∧
    nested.simple ≠ info.simple
  needsEnclosing : nested.needsEnclosing = true
  constructed : ∃ info, c.describe nested.name = some info ∧ info.isPublic = true ∧
    info.isEnumeration = false

namespace Declarations

variable {decls : List Declaration} {outer : TypeName} {nested : NestedType}

/-- The name of a nested type resolves to one of its constructors. -/
theorem resolve_eq_resolveNested (h : (ofList decls).catalog.Encloses outer nested)
    (recast : Bool) {r : Receiver} (hr : r.type = outer) (args : List Value) :
    (ofList decls).catalog.resolve recast r nested.simple args =
      (ofList decls).catalog.resolveNested recast r nested args := by
  obtain ⟨info, hinfo, hnested, hsimple⟩ := h.mem_nested
  have hnamed := nestedNamed?_ofList (describe_catalog _ ▸ hinfo) hnested
  have hother : ¬ some info.simple = some nested.simple := by
    simpa using Ne.symm hsimple
  rw [Catalog.resolve, hr, hinfo, Option.map_some, if_neg hother, Option.bind_some, hnamed]

/-- The constructors of a nested type are those of its declaration in force. -/
theorem exists_constructors_eq (h : (ofList decls).catalog.Encloses outer nested) :
    ∃ before decl, InForce decls nested.name before decl ∧
      (ofList decls).catalog.constructors nested.name =
        (decl.written (ofList before).targets).map (·.enclosed outer) := by
  obtain ⟨info, hinfo, hnested, -⟩ := h.mem_nested
  obtain ⟨before, decl, hforce, hheading⟩ :=
    exists_inForce_of_mem_nested hinfo hnested h.needsEnclosing
  obtain ⟨nestedInfo, hnestedInfo, hpublic, henum⟩ := h.constructed
  refine ⟨before, decl, hforce, ?_⟩
  rw [Catalog.constructors_eq hnestedInfo hpublic, henum,
    declaredConstructors_ofList hforce hheading]
  rfl

/-- On an instance the constructor is selected from those written. -/
theorem resolve_eq_ok_iff {written : List Overload}
    (h : (ofList decls).catalog.Encloses outer nested)
    (hwritten : (ofList decls).catalog.constructors nested.name =
      written.map (·.enclosed outer)) (recast : Bool) {v : Value}
    (hv : Receiver.of? v = some (.value outer v)) (args : List Value) {b : Binding} :
    (ofList decls).catalog.resolve recast (.value outer v) nested.simple args = .ok b ↔
      ∃ best, (ofList decls).catalog.select? recast args written = some best ∧
        .nestedConstructor nested.name (best.1.enclosed outer) true = b := by
  obtain ⟨t, ht, houter⟩ := Receiver.exists_type_of_instance? hv rfl
  have haccepted :
      ((ofList decls).catalog.scoreArgument? recast v (.named outer)).isSome = true := by
    rw [Catalog.scoreArgument?_named_isSome ht, ← houter]
    exact Catalog.isSubtype_refl outer
  have hselect : ∀ o, (ofList decls).catalog.selectConstructor recast nested.name (v :: args) =
      .ok o ↔ ((ofList decls).catalog.select? recast args written).map (·.1.enclosed outer) =
        some o := by
    intro o
    rw [Catalog.selectConstructor, hwritten, Catalog.select_eq_ok_iff,
      Catalog.map_select?_enclosed haccepted]
  have hresolve : (ofList decls).catalog.resolveNested recast (.value outer v) nested args =
      ((ofList decls).catalog.selectConstructor recast nested.name (v :: args)).map
        (.nestedConstructor nested.name · true) := by
    rw [Catalog.resolveNested, h.needsEnclosing]
    rfl
  rw [resolve_eq_resolveNested h recast rfl, hresolve]
  constructor
  · intro hb
    obtain ⟨o, ho, rfl⟩ := Catalog.exists_of_map_eq_ok hb
    obtain ⟨best, hbest, rfl⟩ := Option.map_eq_some_iff.mp ((hselect o).mp ho)
    exact ⟨best, hbest, rfl⟩
  · rintro ⟨best, hbest, rfl⟩
    rw [(hselect _).mpr (Option.map_eq_some_iff.mpr ⟨best, hbest, rfl⟩)]
    rfl

end Declarations

/-! ### Calls -/

section Host

variable {σ : Type} (h : Host σ)

/-- The enclosing instance is handed on as it is. -/
theorem Host.prepare_enclosed (outer : TypeName) (v : Value) (args : List Value)
    (params : List Ty) :
    h.prepare (v :: args) (.named outer :: params) = (v :: ·) <$> h.prepare args params := by
  have hv : h.prepareArgument v (.named outer) = pure v := by cases v <;> rfl
  rw [prepare, hv, pure_bind]
  rfl

theorem Operation.perform_enclosed (outer : TypeName) (o : Overload) (v : Value)
    (args : List Value) :
    (Operation.construct (o.enclosed outer) (v :: args)).perform h =
      (do h.construct (o.enclosed outer) (v :: (← h.prepare args o.params))) := by
  have hprepare := h.prepare_enclosed outer v args o.params
  rw [Operation.perform, Operation.args, Operation.params, Overload.enclosed, hprepare,
    bind_map_left]
  rfl

end Host

namespace Dispatcher

open DispatchM Fallible

variable {σ : Type} {d : Dispatcher σ} {s : State σ}

section Calls

variable {v : Value} {r : Receiver} {name : String} {args : List Value}

variable (d s v name args) in
/-- A name can be neither resolved nor called, for the same reason, and the host is left alone. -/
structure CallFails (e : DispatchError) : Prop where
  resolve : d.resolve v name args s = (.error e, (d.resolve v name args s).2)
  call : d.call v name args s = (.error e, (d.resolve v name args s).2)
  host : (d.resolve v name args s).2.host = s.host

/-- A name that cannot be resolved cannot be called, for the same reason. -/
theorem callFails_of_resolve_error (hs : d.catalog.Agrees s.registry)
    (hr : Receiver.of? v = some r) {e : DispatchError}
    (he : (d.resolve v name args s).1 = .error e) : d.CallFails s v name args e := by
  refine ⟨?_, ?_, (within_resolve v name args s hs).moves.host (by decide)⟩
  · rw [← he]
    rfl
  · rw [call_eq hr, bind_apply, he]

end Calls

variable {decls : List Declaration} {outer : TypeName} {nested : NestedType}

theorem resolve_fst_ofList (hs : d.Reached s)
    (hd : d.catalog = (Declarations.ofList decls).catalog)
    (himports : d.settings.requireImports = false) {v : Value} {r : Receiver}
    (hr : Receiver.of? v = some r) (name : String) (args : List Value) :
    (d.resolve v name args s).1 =
      (Declarations.ofList decls).catalog.resolve s.recast r name args := by
  have hbinds : d.catalog.BindsEnclosing := by
    rw [hd]
    exact Declarations.bindsEnclosing_ofList decls
  rw [resolve_fst himports hs.agrees (hs.remembers hbinds), hr, hd]

section Instances

variable {written : List Overload} {v : Value} (args : List Value)

/-- What the name of a nested type resolves to on an instance of the enclosing one. -/
theorem resolve_enclosed_eq_ok_iff (hs : d.Reached s)
    (hd : d.catalog = (Declarations.ofList decls).catalog)
    (himports : d.settings.requireImports = false) (h : d.catalog.Encloses outer nested)
    (hwritten : d.catalog.constructors nested.name = written.map (·.enclosed outer))
    (hv : Receiver.of? v = some (.value outer v)) {b : Binding} :
    (d.resolve v nested.simple args s).1 = .ok b ↔
      ∃ best, (Registry.select? d.catalog s.recast args written s.registry).1 = some best ∧
        .nestedConstructor nested.name (best.1.enclosed outer) true = b := by
  rw [hs.answer_eq (Registry.yields_select? args written), resolve_fst_ofList hs hd himports hv, hd]
  rw [hd] at h hwritten
  exact Declarations.resolve_eq_ok_iff h hwritten s.recast hv args

/-- Something is selected exactly if some constructor as written accepts the arguments. -/
theorem exists_select?_iff (hs : d.Reached s) :
    (∃ best, (Registry.select? d.catalog s.recast args written s.registry).1 = some best) ↔
      ∃ o ∈ written, (Registry.score? d.catalog s.recast args o s.registry).1.isSome = true := by
  have hscore : ∀ o, (Registry.score? d.catalog s.recast args o s.registry).1 =
      d.catalog.score? s.recast args o := fun o => hs.answer_eq (Registry.yields_score? args o)
  simp only [hscore]
  rw [hs.answer_eq (Registry.yields_select? args written), ← Catalog.isSome_select?_iff,
    Option.isSome_iff_exists]

end Instances

/-- With declared types and without the gate for imports, in every state of a session: the name of a
public nested type other than an enumeration, constructed from instances of `outer`, stands on such
an instance for the constructor that the declaration in force selects for the arguments by the
parameters as written, if it accepts them at all. A call hands the host the instance, and after it
the arguments as these parameters expect them. On `outer` itself the name is refused. -/
theorem construct_enclosed (hs : d.Reached s)
    (hd : d.catalog = (Declarations.ofList decls).catalog)
    (himports : d.settings.requireImports = false) (h : d.catalog.Encloses outer nested) :
    ∃ before decl, Declarations.InForce decls nested.name before decl ∧
      ∀ args,
        let written := decl.written (Declarations.ofList before).targets
        (∀ v, Receiver.of? v = some (.value outer v) →
          ((∃ b, (d.resolve v nested.simple args s).1 = .ok b) ↔
            ∃ o ∈ written,
              (Registry.score? d.catalog s.recast args o s.registry).1.isSome = true) ∧
          match (Registry.select? d.catalog s.recast args written s.registry).1 with
          | some (o, _) =>
            let ctor := o.enclosed outer
            let constructed := (do
              d.host.construct ctor (v :: (← d.host.prepare args o.params)) : HostM σ Value) s.host
            (d.resolve v nested.simple args s).1 = .ok (.nestedConstructor nested.name ctor true) ∧
              (d.call v nested.simple args s).1 =
                constructed.1.mapError (.hostFailed (.overload ctor)) ∧
              (d.call v nested.simple args s).2.host = constructed.2
          | none => ∃ e, d.CallFails s v nested.simple args e) ∧
        d.CallFails s (.type outer) nested.simple args (.ambiguousBinding outer nested.name) := by
  obtain ⟨before, decl, hforce, hwritten⟩ := Declarations.exists_constructors_eq (hd ▸ h)
  rw [← hd] at hwritten
  refine ⟨before, decl, hforce, fun args => ⟨fun v hv => ?_, ?_⟩⟩
  · have hresolve := fun b =>
      resolve_enclosed_eq_ok_iff (b := b) args hs hd himports h hwritten hv
    refine ⟨?_, ?_⟩
    · rw [← exists_select?_iff args hs]
      constructor
      · rintro ⟨b, hb⟩
        obtain ⟨best, hbest, -⟩ := (hresolve b).mp hb
        exact ⟨best, hbest⟩
      · rintro ⟨best, hbest⟩
        exact ⟨_, (hresolve _).mpr ⟨best, hbest, rfl⟩⟩
    · cases hselected : (Registry.select? d.catalog s.recast args
          (decl.written (Declarations.ofList before).targets) s.registry).1 with
      | some best =>
        have hb := (hresolve _).mpr ⟨best, hselected, rfl⟩
        have hcall := call_of_resolve_ok hs.agrees hv hb rfl
        rw [Operation.perform_enclosed] at hcall
        exact ⟨hb, hcall⟩
      | none =>
        cases hresult : (d.resolve v nested.simple args s).1 with
        | error e => exact ⟨e, callFails_of_resolve_error hs.agrees hv hresult⟩
        | ok b =>
          obtain ⟨best, hbest, -⟩ := (hresolve b).mp hresult
          rw [hselected] at hbest
          cases hbest
  · refine callFails_of_resolve_error hs.agrees rfl ?_
    rw [resolve_fst_ofList hs hd himports rfl,
      Declarations.resolve_eq_resolveNested (hd ▸ h) s.recast rfl, Catalog.resolveNested,
      h.needsEnclosing]
    rfl

/-! ### Cursors on lists -/

/-- A type that goes by the name of the builtin sequences. -/
def listDeclaration : Declaration := { heading := .topLevel ⟨"List"⟩, clauses := [.interface] }

/-- A type that is constructed from a list, and from its start or a position. -/
def cursorDeclaration : Declaration where
  heading := .nested ⟨"List"⟩ "Cursor" false
  clauses := [.constructor [] true, .constructor [.raw .int] false, .constructor [.raw .long] true]

/-- A dispatcher with both types. -/
def reading : Dispatcher (Unit × List HostCall) where
  catalog := (Declarations.ofList [listDeclaration, cursorDeclaration]).catalog
  host := Host.idle.recorded

/-- The state after a cursor has been constructed from an instance of the host. -/
def read : State (Unit × List HostCall) :=
  reading.after [.call (.object ⟨⟨"List"⟩, 1⟩) "Cursor" [.int 7]] (reading.start ((), []))

theorem encloses_cursor : reading.catalog.Encloses ⟨"List"⟩ ⟨"Cursor", ⟨"List$Cursor"⟩, true⟩ where
  mem_nested := ⟨_, rfl, by decide, by decide⟩
  needsEnclosing := rfl
  constructed := ⟨_, rfl, rfl, rfl⟩

/-- A cursor is constructed from a builtin sequence, with the position that was remembered for an
instance of the host, and from no position; from the name of the type it is not. -/
theorem construct_enclosed_cursor :
    let items : Value := .sequence [.int 1]
    let atPosition : Overload := {
      owner := ⟨"List$Cursor"⟩, name := "Cursor", params := [.named ⟨"List"⟩, .raw .long],
      isStatic := true, target := 3 }
    reading.Reached read ∧
      reading.catalog = (Declarations.ofList [listDeclaration, cursorDeclaration]).catalog ∧
      reading.settings.requireImports = false ∧
      reading.catalog.Encloses ⟨"List"⟩ ⟨"Cursor", ⟨"List$Cursor"⟩, true⟩ ∧
      (reading.resolve items "Cursor" [.int 7] read).1 =
        .ok (.nestedConstructor ⟨"List$Cursor"⟩ atPosition true) ∧
      (reading.call items "Cursor" [.int 7] read).2.host =
        ((), read.host.2 ++ [.construct atPosition [items, .long 7]]) ∧
      (∃ b, (reading.resolve items "Cursor" [] read).1 = .ok b) ∧
      reading.CallFails read (.type ⟨"List"⟩) "Cursor" []
        (.ambiguousBinding ⟨"List"⟩ ⟨"List$Cursor"⟩) := by
  intro items atPosition
  have hs : reading.Reached read := ⟨_, _, rfl⟩
  obtain ⟨before, decl, hforce, hargs⟩ := construct_enclosed hs rfl rfl encloses_cursor
  have hlast : Declarations.InForce [listDeclaration, cursorDeclaration] ⟨"List$Cursor"⟩
      [listDeclaration] cursorDeclaration := ⟨[], rfl, rfl, rfl, by simp⟩
  obtain ⟨rfl, rfl⟩ := hlast.unique hforce
  obtain ⟨hposition, -⟩ := hargs [.int 7]
  obtain ⟨hstart, hrefused⟩ := hargs []
  have hselected : (Registry.select? reading.catalog read.recast [.int 7]
      (cursorDeclaration.written (Declarations.ofList [listDeclaration]).targets)
      read.registry).1 = some ({ atPosition with params := [.raw .long] }, 3) := by decide
  have haccepted : ∃ o ∈ cursorDeclaration.written (Declarations.ofList [listDeclaration]).targets,
      (Registry.score? reading.catalog read.recast [] o read.registry).1.isSome = true :=
    ⟨_, List.mem_cons_self, by decide⟩
  have hpositioned := (hposition items rfl).2
  rw [hselected] at hpositioned
  obtain ⟨hresolve, -, hhost⟩ := hpositioned
  have hresolved := (hstart items rfl).1.mpr haccepted
  exact ⟨hs, rfl, rfl, encloses_cursor, hresolve, hhost, hresolved, hrefused⟩

end Dispatcher

end Dispatch
