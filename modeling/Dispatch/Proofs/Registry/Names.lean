import Dispatch.Proofs.Registry.Agreement

/-!
# Simple names

A simple name points to the type that was last registered under it. The registry keeps a table of
where each name points and a list of all registrations, and the table can be read off the list.

* `Catalog.Names.moves`: whatever is done on a registry, a simple name points to the last registered
  type that the catalog knows by it.
-/

namespace Dispatch

variable {c : Catalog} {simple : String} {r r' : Registry}

namespace Catalog

variable (c) in
/-- Whether the catalog knows a type by a simple name. -/
def goesBy (simple : String) (t : TypeName) : Bool :=
  (c.describe t).any fun info => decide (info.simple = simple)

variable (c) in
/-- The last type of a list that goes by a simple name. -/
def lastNamed? (simple : String) (ts : List TypeName) : Option TypeName :=
  ts.reverse.find? (c.goesBy simple)

theorem goesBy_of_describe {t : TypeName} {info : TypeInfo} (h : c.describe t = some info) :
    c.goesBy simple t = decide (info.simple = simple) := by
  rw [goesBy, h, Option.any_some]

/-- A later list takes precedence wherever it has a type of the name. -/
theorem lastNamed?_append (ts us : List TypeName) :
    c.lastNamed? simple (ts ++ us) = (c.lastNamed? simple us).or (c.lastNamed? simple ts) := by
  rw [lastNamed?, List.reverse_append, List.find?_append, lastNamed?, lastNamed?]

theorem lastNamed?_singleton {t : TypeName} {info : TypeInfo} (h : c.describe t = some info) :
    c.lastNamed? simple [t] = if simple = info.simple then some t else none := by
  rw [lastNamed?, List.reverse_singleton, List.find?_singleton, goesBy_of_describe h]
  simp [eq_comm]

/-- What is found stands in the list and goes by the name. -/
theorem lastNamed?_eq_some {ts : List TypeName} {t : TypeName}
    (h : c.lastNamed? simple ts = some t) : t ∈ ts ∧ c.goesBy simple t = true :=
  ⟨List.mem_reverse.mp (List.mem_of_find?_eq_some h), List.find?_some h⟩

/-- Where all that go by a name are one type, the last that does is this type. -/
theorem lastNamed?_or_eq {ts : List TypeName} {t : TypeName}
    (h : ∀ u ∈ ts, c.goesBy simple u = true → u = t) :
    (c.lastNamed? simple ts).or (some t) = some t := by
  cases hlast : c.lastNamed? simple ts with
  | none => rfl
  | some u =>
    obtain ⟨hu, hname⟩ := lastNamed?_eq_some hlast
    rw [h u hu hname, Option.some_or]

variable (c) in
/-- Every simple name points to the last type registered under it. -/
def Names (r : Registry) : Prop :=
  ∀ simple, r.named? simple = c.lastNamed? simple r.registrations

theorem names_empty (c : Catalog) : c.Names {} := fun _ => rfl

/-- Only a registration writes the table, and it writes the entry of the type registered last. -/
theorem Names.move (h : c.Names r) (hr : c.Agrees r) (hmove : Registry.Move c r r') :
    c.Names r' := by
  intro simple
  cases hmove with
  | learn hlearn =>
    obtain ⟨hregistrations, hnames, -⟩ := Registry.Learns.frame (.single hlearn)
    rw [Registry.named?, hregistrations, hnames]
    exact h simple
  | @enroll t e he =>
    have hregistrations : (r.enroll e.info.simple t).registrations = r.registrations ++ [t] := rfl
    rw [Registry.named?_enroll, hregistrations, lastNamed?_append,
      lastNamed?_singleton (hr.info he), ← h simple]
    split <;> rfl
  | remember text => exact h simple

/-- The table of names is in step with the registrations after any number of changes. -/
theorem Names.moves (h : c.Names r) (hr : c.Agrees r) (hmoves : r.Moves c r') : c.Names r' := by
  induction hmoves with
  | refl => exact h
  | tail hmoves hmove ih => exact ih.move (hr.moves hmoves) hmove

end Catalog

end Dispatch
