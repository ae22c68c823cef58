/-!
# Tables

A table maps keys to values and keeps its keys in the order in which they first came. Writing to
a key that is present replaces its value and leaves its place.

What a table is read through is `Table.find?`, and `Table.find?_insert` is what writing does to
it.
-/

namespace Dispatch

universe u v

/-- Pairs of a key and a value; of two pairs with one key the first counts. -/
structure Table (α : Type u) (β : Type v) where
  entries : List (α × β)

namespace Table

variable {α : Type u} {β : Type v}

instance : Inhabited (Table α β) := ⟨⟨[]⟩⟩

/-- The table without entries. -/
def empty : Table α β := ⟨[]⟩

/-- The keys, oldest first. -/
def keys (t : Table α β) : List α := t.entries.map (·.1)

/-- The values in the order of their keys. -/
def values (t : Table α β) : List β := t.entries.map (·.2)

/-- The number of entries. -/
def size (t : Table α β) : Nat := t.entries.length

section Lookup

variable [DecidableEq α]

/-- The value of the first pair with key `a`. -/
def findIn (a : α) : List (α × β) → Option β
  | [] => none
  | e :: rest => if e.1 = a then some e.2 else findIn a rest

/-- The pairs with the value of `a` replaced, or with a new pair at the end. -/
def insertIn (a : α) (b : β) : List (α × β) → List (α × β)
  | [] => [(a, b)]
  | e :: rest => if e.1 = a then (a, b) :: rest else e :: insertIn a b rest

/-- The value of a key. -/
def find? (t : Table α β) (a : α) : Option β := findIn a t.entries

/-- Whether a key has a value. -/
def contains (t : Table α β) (a : α) : Bool := (t.find? a).isSome

/-- The table with `b` for the value of `a`. -/
def insert (t : Table α β) (a : α) (b : β) : Table α β := ⟨insertIn a b t.entries⟩

/-- The table with the value of `a`, if it has one, put through `f`. -/
def modify (t : Table α β) (a : α) (f : β → β) : Table α β :=
  match t.find? a with
  | none => t
  | some b => t.insert a (f b)

@[simp]
theorem find?_empty (a : α) : (empty : Table α β).find? a = none := rfl

private theorem mem_of_findIn {a : α} {b : β} {es : List (α × β)} (h : findIn a es = some b) :
    (a, b) ∈ es := by
  induction es with
  | nil => cases h
  | cons e rest ih => grind [findIn]

/-- What a key is found to have is in the table. -/
theorem mem_entries_of_find? {t : Table α β} {a : α} {b : β} (h : t.find? a = some b) :
    (a, b) ∈ t.entries :=
  mem_of_findIn h

/-- A new value takes the place of the old one under its key and is seen under no other. -/
private theorem findIn_insertIn (a c : α) (b : β) (es : List (α × β)) :
    findIn c (insertIn a b es) = if c = a then some b else findIn c es := by
  induction es with
  | nil => simp [insertIn, findIn, eq_comm]
  | cons e rest ih => grind [insertIn, findIn]

/-- Writing changes the value of its key and no other. -/
theorem find?_insert (t : Table α β) (a c : α) (b : β) :
    (t.insert a b).find? c = if c = a then some b else t.find? c :=
  findIn_insertIn a c b t.entries

/-- Modifying changes the value of its key and no other. -/
theorem find?_modify (t : Table α β) (a c : α) (f : β → β) :
    (t.modify a f).find? c = if c = a then (t.find? c).map f else t.find? c := by
  unfold modify
  split
  · next h => split <;> simp_all
  · next b h => rw [find?_insert]; split <;> simp_all

/-- A known key keeps its place, and a new one comes last. -/
private theorem map_fst_insertIn (a : α) (b : β) (es : List (α × β)) :
    (insertIn a b es).map (·.1) =
      if a ∈ es.map (·.1) then es.map (·.1) else es.map (·.1) ++ [a] := by
  induction es with
  | nil => simp [insertIn]
  | cons e rest ih => grind [insertIn]

/-- Writing adds its key at the end unless the key is present. -/
theorem keys_insert (t : Table α β) (a : α) (b : β) :
    (t.insert a b).keys = if a ∈ t.keys then t.keys else t.keys ++ [a] :=
  map_fst_insertIn a b t.entries

end Lookup

end Table

end Dispatch
