import Dispatch.Proofs.Dispatcher.Moves
import Dispatch.Proofs.Resolution.Shape

/-!
# Resolution does not depend on history

A dispatcher remembers resolutions under shapes that leave out the receiver and the values of the
arguments, and its registry keeps what the catalog said. Neither shows in what a name resolves to.

* `Catalog.resolve_congr`: what one call resolves to, every call of the same shape does.
* `Dispatcher.answer_resolve_eq_fresh`: in every state that a session reaches, a resolution answers
  what a dispatcher without a memory would in its first step, failures included.
-/

namespace Dispatch

/-! ### Receivers -/

/-- A receiver without an instance is a handle to a type. -/
theorem Receiver.instance?_eq_none_iff {r : Receiver} : r.instance? = none ↔ r.isStatic = true := by
  cases r <;> simp [instance?, isStatic]

/-- An instance is the value that made the receiver, and its type goes by the receiver's name. -/
theorem Receiver.exists_type_of_instance? {v outer : Value} {r : Receiver}
    (hr : Receiver.of? v = some r) (h : r.instance? = some outer) :
    ∃ t, outer.type? = some t ∧ r.type = t.typeName := by
  have hvalue : v.type?.map (fun t => Receiver.value t.typeName v) = some r := by
    cases v with
    | type t =>
      obtain rfl := Option.some.inj hr
      cases h
    | _ => exact hr
  obtain ⟨t, ht, rfl⟩ := Option.map_eq_some_iff.mp hvalue
  obtain rfl := Option.some.inj h
  exact ⟨t, ht, rfl⟩

namespace Catalog

variable {c : Catalog} {recast recast' : Bool}

variable (c) in
/-- The constructors of a nested type that needs an enclosing instance take one first, by the name
of one enclosing type. -/
def BindsEnclosing : Prop :=
  ∀ {t info nested}, c.describe t = some info → nested ∈ info.nested →
    nested.needsEnclosing = true → ∃ enclosing, ∀ listing decl,
      c.members nested.name = some listing → decl ∈ listing.constructors →
        decl.params.head? = some (.named enclosing)

/-- A selection succeeds with the overload that has the best score. -/
theorem select_eq_ok_iff {t : TypeName} {name : String} {args : List Value} {os : List Overload}
    {o : Overload} :
    c.select recast t name args os = .ok o ↔ (c.select? recast args os).map (·.1) = some o := by
  unfold select
  cases os with
  | nil => simp [select?, firstBest?]
  | cons p rest => cases c.select? recast args (p :: rest) <;> simp

/-- Which constructor is selected depends on the shapes of the arguments alone. -/
theorem selectConstructor_congr {vs ws : List Value}
    (h : vs.map (Value.shape recast) = ws.map (Value.shape recast')) (t : TypeName) :
    c.selectConstructor recast t vs = c.selectConstructor recast' t ws := select_congr h _ _ _

theorem exists_of_map_eq_ok {ε α β : Type} {x : Except ε α} {f : α → β} {b : β}
    (h : x.map f = .ok b) : ∃ a, x = .ok a ∧ f a = b := by
  cases x with
  | error e => cases h
  | ok a => exact ⟨a, rfl, Except.ok.inj h⟩

section Congruence

variable {v w : Value} {r q : Receiver} {args args' : List Value} {b : Binding}

/-- What a nested type's name resolves to does not depend on the enclosing instance. -/
theorem resolveNested_congr (hc : c.BindsEnclosing) (hr : Receiver.of? v = some r)
    (hq : Receiver.of? w = some q) (htype : r.type = q.type) (hstatic : r.isStatic = q.isStatic)
    (hargs : args.map (Value.shape recast) = args'.map (Value.shape recast'))
    {info : TypeInfo} {nested : NestedType} (hinfo : c.describe r.type = some info)
    (hnested : nested ∈ info.nested) (hb : c.resolveNested recast r nested args = .ok b) :
    c.resolveNested recast' q nested args' = .ok b := by
  unfold resolveNested at hb ⊢
  cases hneeds : nested.needsEnclosing with
  | false =>
    rw [hneeds] at hb
    rw [← selectConstructor_congr hargs]
    exact hb
  | true =>
    simp only [hneeds, Bool.not_true, Bool.false_eq_true, if_false] at hb ⊢
    cases houter : r.instance? with
    | none =>
      rw [houter] at hb
      cases hb
    | some outer =>
      rw [houter] at hb
      obtain ⟨o, ho, rfl⟩ := exists_of_map_eq_ok hb
      -- the other receiver is an instance as well, of a type of the same name
      have hinstance : q.instance? ≠ none := by
        rw [Ne, Receiver.instance?_eq_none_iff, ← hstatic, ← Receiver.instance?_eq_none_iff, houter]
        exact Option.some_ne_none outer
      obtain ⟨outer', houter'⟩ := Option.ne_none_iff_exists'.mp hinstance
      obtain ⟨t, ht, hrt⟩ := Receiver.exists_type_of_instance? hr houter
      obtain ⟨t', ht', hqt⟩ := Receiver.exists_type_of_instance? hq houter'
      have hname : t.typeName = t'.typeName := by rw [← hrt, ← hqt, htype]
      obtain ⟨enclosing, henclosing⟩ := hc hinfo hnested hneeds
      have hos : ∀ p ∈ c.constructors nested.name, p.params.head? = some (.named enclosing) := by
        intro p hp
        obtain ⟨listing, decl, hlisting, hdecl, -, rfl⟩ := exists_decl_of_mem_constructors hp
        exact henclosing listing decl hlisting hdecl
      have hsame := select?_cons_congr (c := c) hos ht ht' hname hargs
      rw [selectConstructor, select_eq_ok_iff, hsame, ← select_eq_ok_iff] at ho
      rw [houter']
      simp only [selectConstructor]
      rw [ho]
      rfl

/-- What one call resolves to, every call of the same shape does. -/
theorem resolve_congr (hc : c.BindsEnclosing) (hr : Receiver.of? v = some r)
    (hq : Receiver.of? w = some q) {name name' : String}
    (hshape : CallShape.of recast r name args = CallShape.of recast' q name' args')
    (hb : c.resolve recast r name args = .ok b) : c.resolve recast' q name' args' = .ok b := by
  obtain ⟨htype, hstatic, rfl, hargs⟩ := CallShape.mk.inj hshape
  unfold resolve at hb ⊢
  rw [← htype]
  split at hb
  · next hsimple =>
    rw [if_pos hsimple, ← selectConstructor_congr hargs]
    exact hb
  · next hsimple =>
    rw [if_neg hsimple]
    cases hinfo : c.describe r.type with
    | none =>
      rw [hinfo] at hb
      rw [selectMethod, ← select_congr hargs]
      exact hb
    | some info =>
      rw [hinfo] at hb
      simp only [Option.bind_some] at hb ⊢
      cases hnested : info.nestedNamed? name with
      | none =>
        rw [hnested] at hb
        rw [selectMethod, ← select_congr hargs]
        exact hb
      | some nested =>
        rw [hnested] at hb
        have hmem : nested ∈ info.nested :=
          List.mem_reverse.mp (List.mem_of_find?_eq_some hnested)
        exact resolveNested_congr hc hr hq htype hstatic hargs hinfo hmem hb

end Congruence

variable (c) in
/-- What a memo holds for a shape is what every call of that shape resolves to. -/
def Remembers (memo : Memo) : Prop :=
  ∀ {recast v r name args b}, Receiver.of? v = some r →
    memo.find? (CallShape.of recast r name args) = some b →
      c.resolve recast r name args = .ok b

end Catalog

namespace Dispatcher

open DispatchM Fallible

variable {σ τ : Type} {d : Dispatcher σ} {s s' : State σ}

/-! ### The memo of a reached state -/

/-- Only what a call resolves to is ever remembered. -/
theorem Moves.remembers {changes : List Change} (h : d.Moves changes s s')
    (hc : d.catalog.BindsEnclosing) (hs : d.catalog.Remembers s.memo) :
    d.catalog.Remembers s'.memo := by
  induction h with
  | refl => exact hs
  | tail _ hstep ih =>
    obtain ⟨_, _, hmove⟩ := hstep
    cases hmove with
    | learn | register | recast | host => exact ih
    | remember _ hr hb =>
      -- a hit is either the new binding, for a call of the same shape, or an old one
      intro recast w q name args b' hq hfind
      rw [Table.find?_insert] at hfind
      split at hfind
      · next hshape =>
        obtain rfl := Option.some.inj hfind
        exact Catalog.resolve_congr hc hr hq hshape.symm hb
      · exact ih hq hfind

/-- In every reached state the memo holds what resolutions give now, for every call of the shape. -/
theorem Reached.remembers (h : d.Reached s) (hc : d.catalog.BindsEnclosing) :
    d.catalog.Remembers s.memo := by
  obtain ⟨host, changes, hmoves⟩ := h.moves
  exact hmoves.remembers hc fun _ hfind => by cases hfind

/-! ### Answers to resolutions -/

/-- A call is bound as the catalog resolves it, whether the memo holds its shape or not. -/
theorem bindCall_fst (hs : d.catalog.Agrees s.registry) (hmemo : d.catalog.Remembers s.memo)
    {v : Value} {r : Receiver} (hr : Receiver.of? v = some r) (name : String)
    (args : List Value) :
    (d.bindCall r name args s).1 = d.catalog.resolve s.recast r name args := by
  have hyields : ResolveM.Yields d.catalog
      (Resolution.resolve d.catalog s.recast r name args) _ := Resolution.yields_resolve r name args
  have hfresh := onResolution_fst hyields hs
  unfold bindCall
  cases d.settings.memoize with
  | false => simpa [bind_apply] using hfresh
  | true =>
    simp only [bind_apply, get_apply, Bool.not_true, Bool.false_eq_true, if_false]
    cases hfind : s.memo.find? (CallShape.of s.recast r name args) with
    | some b => exact (hmemo hr hfind).symm
    | none =>
      simp only [bind_apply, hfresh]
      cases d.catalog.resolve s.recast r name args with
      | error e => rfl
      | ok b => simp

/-- A resolution answers what the catalog says about the receiver, whatever came before. -/
theorem resolve_fst (himports : d.settings.requireImports = false)
    (hs : d.catalog.Agrees s.registry) (hmemo : d.catalog.Remembers s.memo) (v : Value)
    (name : String) (args : List Value) :
    (d.resolve v name args s).1 =
      match Receiver.of? v with
      | none => .error (.nullReceiver name)
      | some r => d.catalog.resolve s.recast r name args := by
  cases hr : Receiver.of? v with
  | none => simp [resolve, receiver, hr, bind_apply]
  | some r =>
    obtain ⟨registry, hregistry, hstate⟩ := exists_receiver_snd hs v name
    simp only [resolve, bind_apply, receiver_fst himports hr, hstate]
    exact bindCall_fst (s := { s with registry }) hregistry hmemo hr name args

/-- A dispatcher that remembers no resolutions. -/
def memoless (c : Catalog) (host : Host σ) (recast : Bool) : Dispatcher σ where
  catalog := c
  host := host
  settings := { recastDecimals := recast, memoize := false }

/-- Whatever steps have led to a state, a resolution in it gives the answer that a dispatcher
without a memory gives in its first step. -/
theorem answer_resolve_eq_fresh (hs : d.Reached s) (hc : d.catalog.BindsEnclosing)
    (himports : d.settings.requireImports = false) (host : Host τ) (h : τ) (v : Value)
    (name : String) (args : List Value) :
    let fresh := memoless d.catalog host s.recast
    (d.answer (.resolve v name args) s).1 =
      (fresh.answer (.resolve v name args) (fresh.start h)).1 := by
  intro fresh
  have hanswer : ∀ {ρ : Type} (e : Dispatcher ρ) (u : State ρ),
      (e.answer (.resolve v name args) u).1 = (e.resolve v name args u).1.map .binding := by
    intro ρ e u
    exact congrArg Prod.fst (map_apply Answer.binding (e.resolve v name args) u)
  rw [hanswer, hanswer, resolve_fst himports hs.agrees (hs.remembers hc),
    resolve_fst rfl (Catalog.agrees_empty _) fun _ hfind => by cases hfind]
  rfl

/-- A catalog with a type whose volumes are constructed from an instance of it. -/
def shelf : Catalog := .ofTable ⟨[
  (⟨"Shelf"⟩, ⟨{ TypeInfo.topLevel ⟨"Shelf"⟩ with
      nested := [⟨"Volume", ⟨"Shelf$Volume"⟩, true⟩] }, some {}⟩),
  (⟨"Shelf$Volume"⟩, ⟨{ TypeInfo.topLevel ⟨"Shelf$Volume"⟩ with
      isStatic := false, enclosing := some ⟨"Shelf"⟩ },
    some { constructors := [{ params := [.named ⟨"Shelf"⟩, .raw .long], target := 1 },
      { params := [.named ⟨"Shelf"⟩, .object], target := 2 }] }⟩)]⟩

theorem bindsEnclosing_shelf : shelf.BindsEnclosing := by
  intro t info nested hinfo hnested hneeds
  refine ⟨⟨"Shelf"⟩, fun listing decl hlisting hdecl => ?_⟩
  simp only [shelf, Catalog.ofTable, Table.find?, Table.findIn] at hlisting
  split at hlisting
  · obtain rfl := Option.some.inj hlisting
    cases hdecl
  · split at hlisting
    · obtain rfl := Option.some.inj hlisting
      rcases List.mem_cons.mp hdecl with rfl | hdecl
      · rfl
      · obtain rfl := List.mem_singleton.mp hdecl
        rfl
    · cases hlisting

/-- A volume is resolved on one shelf, and then on another after decimals are ranked otherwise. -/
theorem answer_resolve_eq_fresh_shelf :
    let d : Dispatcher Unit := { catalog := shelf, host := .idle }
    let shelfOf (n : Nat) : Value := .object ⟨⟨"Shelf"⟩, n⟩
    let s := d.after [.resolve (shelfOf 1) "Volume" [.int 7], .setRecast false] (d.start ())
    let fresh := memoless d.catalog .idle s.recast
    d.Reached s ∧ d.catalog.BindsEnclosing ∧ d.settings.requireImports = false ∧
      (d.answer (.resolve (shelfOf 2) "Volume" [.int 8]) s).1 =
        (fresh.answer (.resolve (shelfOf 2) "Volume" [.int 8]) (fresh.start ())).1 := by
  intro d shelfOf s fresh
  have hs : d.Reached s := ⟨_, _, rfl⟩
  have himports : d.settings.requireImports = false := rfl
  exact ⟨hs, bindsEnclosing_shelf, himports,
    answer_resolve_eq_fresh hs bindsEnclosing_shelf himports _ _ _ _ _⟩

end Dispatcher

end Dispatch
