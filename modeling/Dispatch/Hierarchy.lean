import Dispatch.Catalog

/-!
# Walks up the type hierarchy

Two walks go from a type to the types above it. `Hierarchy.reaches` answers whether a target is
among them, breadth-first along superclasses and interfaces. `Hierarchy.levels` lists the types
whose members are inherited: the superclass chain, most derived first, then the interfaces of the
chain breadth-first, following interfaces alone.

Both learn about a type through a look-up in some monad, so that one definition serves a fixed
catalog and a cache in front of it. They visit a type at most once and carry the list of types
still to be visited, at first everything above the start, which is what bounds them: a type
outside that list is passed over. `Hierarchy.next?` does the passing over, so each turn of a walk
visits one type and the length of the list is a measure.
-/

namespace Dispatch.Hierarchy

variable {m : Type → Type} [Monad m]

/-- A look-up of types. -/
abbrev Lookup (m : Type → Type) := TypeName → m (Option TypeInfo)

/-- A type that was found on a walk, with its description. -/
abbrev Step := TypeName × TypeInfo

/-- The types still to be visited once `t` has been. -/
def without (t : TypeName) (unvisited : List TypeName) : List TypeName :=
  unvisited.filter (· != t)

@[simp]
theorem mem_without {t u : TypeName} {unvisited : List TypeName} :
    u ∈ without t unvisited ↔ u ∈ unvisited ∧ u ≠ t := by
  simp [without]

/-- The measure of the walks: with each type visited there is one less to visit. -/
theorem length_without_lt {t : TypeName} {unvisited : List TypeName} (h : t ∈ unvisited) :
    (without t unvisited).length < unvisited.length :=
  List.length_filter_lt_length_iff_exists.mpr ⟨t, h, by simp⟩

/-- The first type in a queue that is still to be visited, and the queue behind it. -/
def next? (unvisited : List TypeName) :
    List TypeName → Option ({ t // t ∈ unvisited } × List TypeName)
  | [] => none
  | t :: queue => if h : t ∈ unvisited then some (⟨t, h⟩, queue) else next? unvisited queue

section Queue

variable {t : TypeName} {unvisited queue : List TypeName}

@[simp]
theorem next?_nil : next? unvisited [] = none := rfl

theorem next?_cons_of_mem (h : t ∈ unvisited) :
    next? unvisited (t :: queue) = some (⟨t, h⟩, queue) := dif_pos h

theorem next?_cons_of_not_mem (h : t ∉ unvisited) :
    next? unvisited (t :: queue) = next? unvisited queue := dif_neg h

end Queue

/-! ### Subtyping -/

/-- Whether the target is a direct supertype of a type in the queue or of one reached from it. -/
def search (look : Lookup m) (target : TypeName) (unvisited queue : List TypeName) : m Bool :=
  match next? unvisited queue with
  | none => pure false
  | some (⟨t, ht⟩, queue) =>
    have := length_without_lt ht
    do
      match ← look t with
      | none => search look target (without t unvisited) queue
      | some info =>
        if target ∈ info.supertypes then pure true
        else search look target (without t unvisited) (queue ++ info.supertypes)
termination_by unvisited.length

section Search

variable {look : Lookup m} {target t : TypeName} {unvisited queue : List TypeName}

theorem search_nil : search look target unvisited [] = pure false := by
  rw [search, next?_nil]

/-- A type that is not to be visited is passed over. -/
theorem search_skip (h : t ∉ unvisited) :
    search look target unvisited (t :: queue) = search look target unvisited queue := by
  rw [search, next?_cons_of_not_mem h]
  conv => rhs; rw [search]

/-- A type is visited once. -/
theorem search_visit (h : t ∈ unvisited) :
    search look target unvisited (t :: queue) = (do
      match ← look t with
      | none => search look target (without t unvisited) queue
      | some info =>
        if target ∈ info.supertypes then pure true
        else search look target (without t unvisited) (queue ++ info.supertypes)) := by
  rw [search, next?_cons_of_mem h]

end Search

/-- Whether `target` is `t` or above it. -/
def reaches (look : Lookup m) (unvisited : List TypeName) (t target : TypeName) : m Bool :=
  if t = target then pure true else search look target unvisited [t]

/-! ### Inheritance -/

/-- The superclass chain from `t` upwards, and what it leaves unvisited. The chain ends at a type
without superclass, at one that is not described, or where it closes a cycle. -/
def superclasses (look : Lookup m) (unvisited : List TypeName) :
    Option TypeName → m (List Step × List TypeName)
  | none => pure ([], unvisited)
  | some t =>
    if h : t ∈ unvisited then
      have := length_without_lt h
      do
        match ← look t with
        | none => pure ([], without t unvisited)
        | some info =>
          let (chain, rest) ← superclasses look (without t unvisited) info.superclass
          pure ((t, info) :: chain, rest)
    else pure ([], unvisited)
termination_by unvisited.length

/-- The interfaces of a queue and those that they extend, breadth-first. -/
def interfaces (look : Lookup m) (unvisited queue : List TypeName) : m (List Step) :=
  match next? unvisited queue with
  | none => pure []
  | some (⟨t, ht⟩, queue) =>
    have := length_without_lt ht
    do
      match ← look t with
      | none => interfaces look (without t unvisited) queue
      | some info =>
        let rest ← interfaces look (without t unvisited) (queue ++ info.interfaces)
        pure ((t, info) :: rest)
termination_by unvisited.length

section Interfaces

variable {look : Lookup m} {t : TypeName} {unvisited queue : List TypeName}

theorem interfaces_nil : interfaces look unvisited [] = pure [] := by
  rw [interfaces, next?_nil]

/-- A type that is not to be visited is passed over. -/
theorem interfaces_skip (h : t ∉ unvisited) :
    interfaces look unvisited (t :: queue) = interfaces look unvisited queue := by
  rw [interfaces, next?_cons_of_not_mem h]
  conv => rhs; rw [interfaces]

/-- A type is visited once, before the interfaces that it extends. -/
theorem interfaces_visit (h : t ∈ unvisited) :
    interfaces look unvisited (t :: queue) = (do
      match ← look t with
      | none => interfaces look (without t unvisited) queue
      | some info =>
        let rest ← interfaces look (without t unvisited) (queue ++ info.interfaces)
        pure ((t, info) :: rest)) := by
  rw [interfaces, next?_cons_of_mem h]

end Interfaces

/-- The types whose members `t` has, itself first. -/
def levels (look : Lookup m) (unvisited : List TypeName) (t : TypeName) : m (List Step) := do
  let (chain, rest) ← superclasses look unvisited (some t)
  let above ← interfaces look rest (chain.flatMap (·.2.interfaces))
  pure (chain ++ above)

end Dispatch.Hierarchy
