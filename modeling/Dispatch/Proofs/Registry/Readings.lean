import Dispatch.Declarations
import Dispatch.Proofs.Registry.Moves
import Mathlib.Data.List.Basic
import Mathlib.Data.List.Induction
import Mathlib.Data.List.TakeWhile

/-!
# Dotted paths

A path written with dots is looked for as it is, then with its last dot read as a nesting separator,
then with its last two, and so on. So of the types that it may stand for the one is found whose
outermost type has the longest name, and the search is over when no dot is left.

* `pathReadings_eq`: the readings of a path, by the number of dots that are read as separators.
* `Registry.findFirst_pathReadings`: the search as a loop that rewrites the path.
* `Registry.findFirst_readings`: what is asked, what is found, and how nested types are reached.
-/

namespace Dispatch

/-! ### The last occurrence of a character -/

section Last

variable {c : Char} {a b cs : List Char}

theorem takeWhile_bne_append_cons (hb : c ∉ b) : (b ++ c :: a).takeWhile (· != c) = b := by
  rw [List.takeWhile_append_of_pos, List.takeWhile_cons_of_neg (by simp), List.append_nil]
  intro x hx
  exact bne_iff_ne.mpr fun h => hb (h ▸ hx)

theorem dropWhile_bne_append_cons (hb : c ∉ b) : (b ++ c :: a).dropWhile (· != c) = c :: a := by
  rw [List.dropWhile_append_of_pos, List.dropWhile_cons_of_neg (by simp)]
  intro x hx
  exact bne_iff_ne.mpr fun h => hb (h ▸ hx)

theorem afterLast_append_cons (hb : c ∉ b) : afterLast (· == c) (a ++ c :: b) = b := by
  have hreverse : (a ++ c :: b).reverse = b.reverse ++ c :: a.reverse := by simp
  have htake := takeWhile_bne_append_cons (a := a.reverse) (b := b.reverse) (by simpa using hb)
  rw [afterLast, hreverse]
  exact (congrArg List.reverse htake).trans b.reverse_reverse

theorem beforeLast?_append_cons (hb : c ∉ b) : beforeLast? c (a ++ c :: b) = some a := by
  have hreverse : (a ++ c :: b).reverse = b.reverse ++ c :: a.reverse := by simp
  rw [beforeLast?, hreverse, dropWhile_bne_append_cons (by simpa using hb)]
  exact congrArg some a.reverse_reverse

theorem beforeLast?_eq_none (h : c ∉ cs) : beforeLast? c cs = none := by
  have hdrop : cs.reverse.dropWhile (· != c) = [] := by
    refine List.dropWhile_eq_nil_iff.mpr fun x hx => ?_
    exact bne_iff_ne.mpr fun heq => h (heq ▸ List.mem_reverse.mp hx)
  rw [beforeLast?, hdrop]

theorem exists_last_of_mem (h : c ∈ cs) : ∃ a b, cs = a ++ c :: b ∧ c ∉ b := by
  obtain ⟨b, a, hsplit, hb⟩ := List.eq_append_cons_of_mem (List.mem_reverse.mpr h)
  refine ⟨a.reverse, b.reverse, ?_, by simpa using hb⟩
  rw [← cs.reverse_reverse, hsplit]
  simp

end Last

/-! ### The readings of a path -/

/-- A text with its last `k` dots read as nesting separators. -/
def nestLast (k : Nat) : List Char → List Char
  | [] => []
  | c :: rest =>
    (if c = '.' ∧ rest.count '.' < k then TypeName.nestedSeparator else c) :: nestLast k rest

/-- A path with its last `k` dots read as nesting separators. -/
def reading (path : String) (k : Nat) : String := .ofList (nestLast k path.toList)

theorem nestLast_zero (cs : List Char) : nestLast 0 cs = cs := by
  induction cs with
  | nil => rfl
  | cons c rest ih => rw [nestLast, ih, if_neg fun h => Nat.not_lt_zero _ h.2]

theorem nestLast_of_not_mem {cs : List Char} (h : '.' ∉ cs) (k : Nat) : nestLast k cs = cs := by
  induction cs with
  | nil => rfl
  | cons c rest ih =>
    obtain ⟨hc, hrest⟩ := not_or.mp (mt List.mem_cons.mpr h)
    rw [nestLast, ih hrest, if_neg fun hboth => hc hboth.1.symm]

/-- The last dot is the first to be read as a separator. -/
theorem nestLast_append_dot {b : List Char} (hb : '.' ∉ b) (k : Nat) (a : List Char) :
    nestLast (k + 1) (a ++ '.' :: b) = nestLast k a ++ TypeName.nestedSeparator :: b := by
  have hcount : b.count '.' = 0 := List.count_eq_zero.mpr hb
  induction a with
  | nil =>
    change nestLast (k + 1) ('.' :: b) = TypeName.nestedSeparator :: b
    rw [nestLast, nestLast_of_not_mem hb, hcount, if_pos ⟨rfl, k.succ_pos⟩]
  | cons c rest ih =>
    have hdots : (rest ++ '.' :: b).count '.' = rest.count '.' + 1 := by
      rw [List.count_append, List.count_cons_self, hcount]
    rw [List.cons_append, nestLast, ih, hdots, nestLast, List.cons_append]
    simp only [Nat.add_lt_add_iff_right]

/-- Behind the last dot nothing is changed. -/
theorem nestLast_append {b : List Char} (hb : '.' ∉ b) (k : Nat) (a : List Char) :
    nestLast k (a ++ b) = nestLast k a ++ b := by
  have hcount : b.count '.' = 0 := List.count_eq_zero.mpr hb
  induction a with
  | nil => exact nestLast_of_not_mem hb k
  | cons c rest ih =>
    rw [List.cons_append, nestLast, ih, List.count_append, hcount, Nat.add_zero, nestLast,
      List.cons_append]

/-- The first reading is the path itself. -/
theorem reading_zero (path : String) : reading path 0 = path := by
  rw [reading, nestLast_zero, String.ofList_toList]

/-- The readings of a text written backwards are those that nest its last dots, one more at a time.
-/
private theorem map_reverse_reversedReadings (cs : List Char) :
    (reversedReadings cs.reverse).map List.reverse =
      (List.range (cs.count '.' + 1)).map (nestLast · cs) := by
  induction cs using List.reverseRecOn with
  | nil => rfl
  | append_singleton cs c ih =>
    rw [List.reverse_append, List.reverse_singleton, List.singleton_append, reversedReadings]
    split
    · next hc =>
      subst hc
      have hdots : (cs ++ ['.']).count '.' = cs.count '.' + 1 := by simp
      rw [hdots, List.range_succ_eq_map, List.map_cons, List.map_cons, nestLast_zero, List.map_map,
        List.map_map]
      congr 1
      · simp
      · have hsuffix : ∀ k, nestLast (k + 1) (cs ++ ['.']) =
            nestLast k cs ++ [TypeName.nestedSeparator] :=
          fun k => nestLast_append_dot List.not_mem_nil k cs
        have hmap := congrArg (List.map (· ++ [TypeName.nestedSeparator])) ih
        simpa [hsuffix, Function.comp_def] using hmap
    · next hc =>
      have hdots : (cs ++ [c]).count '.' = cs.count '.' := by simp [hc]
      have hsuffix : ∀ k, nestLast k (cs ++ [c]) = nestLast k cs ++ [c] :=
        fun k => nestLast_append (by simpa using Ne.symm hc) k cs
      have hmap := congrArg (List.map (· ++ [c])) ih
      simpa [hdots, hsuffix, Function.comp_def] using hmap

/-- The readings of a path are ordered by the number of dots that are read as separators. -/
theorem pathReadings_eq (path : String) :
    pathReadings path = (List.range (path.toList.count '.' + 1)).map (reading path) := by
  have hreadings := congrArg (List.map String.ofList) (map_reverse_reversedReadings path.toList)
  rw [List.map_map, List.map_map] at hreadings
  exact hreadings

/-- The search for a reading passes the readings before it. -/
theorem exists_pathReadings_eq {path : String} {k : Nat} (hk : k ≤ path.toList.count '.') :
    ∃ rest, pathReadings path = (List.range k).map (reading path) ++ reading path k :: rest := by
  obtain ⟨n, hn⟩ := Nat.exists_eq_add_of_le hk
  rw [pathReadings_eq, hn, Nat.add_assoc, List.range_add, List.map_append, List.range_succ_eq_map]
  exact ⟨_, rfl⟩

/-! ### Rewriting a path -/

/-- A path with its last dot read as a nesting separator, if it has a dot. -/
def nestLastDot? (path : String) : Option String :=
  (beforeLast? '.' path.toList).map fun before =>
    .ofList (before ++ TypeName.nestedSeparator :: afterLast (· == '.') path.toList)

/-- Rewriting takes one dot away and goes on to the next reading. -/
theorem nestLastDot?_cases (path : String) :
    path.toList.count '.' = 0 ∧ nestLastDot? path = none ∨
      ∃ next, nestLastDot? path = some next ∧
        path.toList.count '.' = next.toList.count '.' + 1 ∧
        ∀ k, reading path (k + 1) = reading next k := by
  by_cases hdot : '.' ∈ path.toList
  · obtain ⟨a, b, hsplit, hb⟩ := exists_last_of_mem hdot
    have hcount : b.count '.' = 0 := List.count_eq_zero.mpr hb
    have htail : '.' ∉ TypeName.nestedSeparator :: b := by
      rintro (_ | ⟨_, hmem⟩)
      exact hb hmem
    refine .inr ⟨.ofList (a ++ TypeName.nestedSeparator :: b), ?_, ?_, fun k => ?_⟩
    · rw [nestLastDot?, hsplit, beforeLast?_append_cons hb, afterLast_append_cons hb,
        Option.map_some]
    · rw [String.toList_ofList, hsplit, List.count_append, List.count_cons_self, List.count_append,
        List.count_eq_zero.mpr htail, hcount]
    · rw [reading, reading, String.toList_ofList, hsplit, nestLast_append_dot hb,
        nestLast_append htail]
  · exact .inl ⟨List.count_eq_zero.mpr hdot, by
      rw [nestLastDot?, beforeLast?_eq_none hdot, Option.map_none]⟩

/-- Each rewriting uses up one dot, so the loop ends. -/
theorem count_of_nestLastDot? {path next : String} (h : nestLastDot? path = some next) :
    path.toList.count '.' = next.toList.count '.' + 1 := by
  rcases nestLastDot?_cases path with ⟨-, hnone⟩ | ⟨next', hnext, hcount, -⟩
  · rw [hnone] at h
    cases h
  · obtain rfl := Option.some.inj (hnext.symm.trans h)
    exact hcount

/-- The readings of a path are the path and the readings of the path rewritten once. -/
theorem pathReadings_of_nestLastDot? {path next : String} (h : nestLastDot? path = some next) :
    pathReadings path = path :: pathReadings next := by
  rcases nestLastDot?_cases path with ⟨-, hnone⟩ | ⟨next', hnext, hcount, hreading⟩
  · rw [hnone] at h
    cases h
  · obtain rfl := Option.some.inj (hnext.symm.trans h)
    rw [pathReadings_eq, pathReadings_eq, hcount, List.range_succ_eq_map, List.map_cons,
      reading_zero, List.map_map]
    congr 1
    exact List.map_congr_left fun k _ => hreading k

theorem pathReadings_of_nestLastDot?_eq_none {path : String} (h : nestLastDot? path = none) :
    pathReadings path = [path] := by
  rcases nestLastDot?_cases path with ⟨hcount, -⟩ | ⟨next, hnext, -, -⟩
  · rw [pathReadings_eq, hcount]
    exact congrArg (· :: []) (reading_zero path)
  · rw [hnext] at h
    cases h

/-! ### Nested types -/

namespace TypeName

/-- The path to a type that has a dot for every separator in its name. -/
def dotted (t : TypeName) : String := t.full.map fun c => if c = nestedSeparator then '.' else c

/-- The type that is nested in `t` by a chain of simple names, outermost first. -/
def nestedBy (t : TypeName) (names : List String) : TypeName := names.foldl nested t

theorem toList_full_nested (t : TypeName) (inner : String) :
    (t.nested inner).full.toList = t.full.toList ++ nestedSeparator :: inner.toList := by
  simp [nested, String.toList_append]

variable {t : TypeName} {names : List String}

theorem toList_full_nestedBy (t : TypeName) (names : List String) :
    (t.nestedBy names).full.toList =
      t.full.toList ++ names.flatMap fun name => nestedSeparator :: name.toList := by
  induction names generalizing t with
  | nil => exact (List.append_nil _).symm
  | cons name rest ih =>
    rw [nestedBy, List.foldl_cons, ← nestedBy, ih, toList_full_nested, List.flatMap_cons,
      List.append_assoc]

theorem map_separator_of_not_mem {cs : List Char} (h : nestedSeparator ∉ cs) :
    (cs.map fun c => if c = nestedSeparator then '.' else c) = cs := by
  have hkeep : ∀ c ∈ cs, (if c = nestedSeparator then '.' else c) = id c := by
    intro c hc
    rw [if_neg]
    · rfl
    · rintro rfl
      exact h hc
  rw [List.map_congr_left hkeep, List.map_id]

/-- The dotted form of a nested type joins its names by dots alone. -/
theorem toList_dotted_nestedBy (ht : nestedSeparator ∉ t.full.toList)
    (hnames : ∀ name ∈ names, nestedSeparator ∉ name.toList) :
    (t.nestedBy names).dotted.toList = t.full.toList ++ names.flatMap fun name =>
      '.' :: name.toList := by
  rw [dotted, String.toList_map, toList_full_nestedBy, List.map_append,
    map_separator_of_not_mem ht, List.map_flatMap]
  congr 1
  refine List.flatMap_congr fun name hname => ?_
  rw [List.map_cons, if_pos rfl, map_separator_of_not_mem (hnames name hname)]

/-- The nested names behind a type are put right by nesting as many dots as there are names. -/
theorem nestLast_flatMap (hnames : ∀ name ∈ names, '.' ∉ name.toList) (cs : List Char) :
    nestLast names.length (cs ++ names.flatMap fun name => '.' :: name.toList) =
      cs ++ names.flatMap fun name => nestedSeparator :: name.toList := by
  induction names using List.reverseRecOn with
  | nil => simp [nestLast_zero]
  | append_singleton names name ih =>
    have hinit := ih fun name hname => hnames name (List.mem_append_left _ hname)
    have hlast : '.' ∉ name.toList := hnames name (by simp)
    rw [List.length_append, List.length_singleton, List.flatMap_append, List.flatMap_append,
      List.flatMap_singleton, List.flatMap_singleton, ← List.append_assoc, ← List.append_assoc,
      nestLast_append_dot hlast, hinit]

/-- Read with as many separators as there are nested names, the path to a nested type is its name.
-/
theorem reading_dotted_nestedBy (ht : nestedSeparator ∉ t.full.toList)
    (hnames : ∀ name ∈ names, '.' ∉ name.toList ∧ nestedSeparator ∉ name.toList) :
    reading (t.nestedBy names).dotted names.length = (t.nestedBy names).full := by
  rw [reading, toList_dotted_nestedBy ht fun name h => (hnames name h).2,
    nestLast_flatMap fun name h => (hnames name h).1, ← toList_full_nestedBy, String.ofList_toList]

theorem length_le_count_flatMap (names : List String) :
    names.length ≤ (names.flatMap fun name => '.' :: name.toList).count '.' := by
  induction names with
  | nil => exact Nat.zero_le _
  | cons name rest ih =>
    rw [List.flatMap_cons, List.count_append, List.count_cons_self, List.length_cons]
    omega

end TypeName

/-! ### The search -/

namespace Registry

open RegistryM

variable {scanner : Scanner} {names : List String} {r : Registry}

/-- The registry after a scanner has been asked for each of some names. -/
def seeking (names : List String) (r : Registry) : Registry :=
  { r with asked := r.asked ++ names.map .findType }

theorem seeking_nil (r : Registry) : r.seeking [] = r := by
  rw [seeking, List.map_nil, List.append_nil]

theorem seeking_cons (name : String) (rest : List String) (r : Registry) :
    (r.log (.findType name)).seeking rest = r.seeking (name :: rest) := by
  simp [seeking, log]

theorem findFirst_cons (scanner : Scanner) (name : String) (rest : List String) (r : Registry) :
    findFirst scanner (name :: rest) r =
      match scanner.find? name with
      | some t => (some t, r.log (.findType name))
      | none => findFirst scanner rest (r.log (.findType name)) := by
  rw [findFirst, bind_apply]
  cases scanner.find? name <;> rfl

/-- A search that finds nothing asks for every name. -/
theorem findFirst_of_eq_none (h : ∀ name ∈ names, scanner.find? name = none) :
    findFirst scanner names r = (none, r.seeking names) := by
  induction names generalizing r with
  | nil =>
    rw [seeking_nil]
    rfl
  | cons name rest ih =>
    rw [findFirst_cons, h name List.mem_cons_self]
    dsimp only
    rw [ih fun name hname => h name (List.mem_cons_of_mem _ hname), seeking_cons]

/-- A search ends at the first name that the scanner knows. -/
theorem findFirst_of_find? {name : String} {t : TypeName} {rest : List String}
    (hbefore : ∀ name ∈ names, scanner.find? name = none) (h : scanner.find? name = some t) :
    findFirst scanner (names ++ name :: rest) r = (some t, r.seeking (names ++ [name])) := by
  induction names generalizing r with
  | nil =>
    rw [List.nil_append, findFirst_cons, h, ← seeking_nil (r.log _), seeking_cons]
    rfl
  | cons first names ih =>
    rw [List.cons_append, findFirst_cons, hbefore first List.mem_cons_self]
    dsimp only
    rw [ih fun name hname => hbefore name (List.mem_cons_of_mem _ hname), seeking_cons]
    rfl

/-- The search for a path as a loop: a path that the scanner does not know is rewritten, and each
time it has one dot less. -/
def seek (scanner : Scanner) (path : String) : RegistryM (Option TypeName) := do
  modify (log (.findType path))
  match scanner.find? path with
  | some t => return some t
  | none =>
    match h : nestLastDot? path with
    | none => return none
    | some next =>
      have : next.toList.count '.' < path.toList.count '.' := by
        rw [count_of_nestLastDot? h]
        exact Nat.lt_succ_self _
      seek scanner next
termination_by path.toList.count '.'

/-- One turn of the loop: the scanner is asked for the path, and on a miss for the path rewritten.
-/
theorem seek_apply (scanner : Scanner) (path : String) (r : Registry) :
    seek scanner path r =
      match scanner.find? path with
      | some t => (some t, r.log (.findType path))
      | none =>
        match nestLastDot? path with
        | none => (none, r.log (.findType path))
        | some next => seek scanner next (r.log (.findType path)) := by
  rw [seek, bind_apply]
  cases scanner.find? path with
  | some t => rfl
  | none =>
    dsimp only
    split
    · next hnone =>
      rw [hnone]
      rfl
    · next hnext =>
      rw [hnext]
      rfl

/-- The names that are asked for one after another are those that the loop comes to. -/
theorem findFirst_pathReadings (scanner : Scanner) (path : String) :
    findFirst scanner (pathReadings path) = seek scanner path := by
  induction hdots : path.toList.count '.' generalizing path with
  | zero =>
    rcases nestLastDot?_cases path with ⟨-, hnone⟩ | ⟨next, -, hcount, -⟩
    · funext r
      rw [pathReadings_of_nestLastDot?_eq_none hnone, findFirst_cons, seek_apply, hnone]
      rfl
    · omega
  | succ m ih =>
    rcases nestLastDot?_cases path with ⟨hzero, -⟩ | ⟨next, hnext, hcount, -⟩
    · omega
    · funext r
      rw [pathReadings_of_nestLastDot? hnext, findFirst_cons, seek_apply, hnext,
        ih next (by omega)]

/-- The first reading that names a type ends the search, and only it and those before have been
asked for. -/
theorem findFirst_of_reading {path : String} {k : Nat} {t : TypeName}
    (hk : k ≤ path.toList.count '.') (hbefore : ∀ i < k, scanner.find? (reading path i) = none)
    (h : scanner.find? (reading path k) = some t) :
    findFirst scanner (pathReadings path) r =
      (some t, r.seeking ((List.range (k + 1)).map (reading path))) := by
  obtain ⟨rest, hrest⟩ := exists_pathReadings_eq hk
  have hnone : ∀ name ∈ (List.range k).map (reading path), scanner.find? name = none := by
    intro name hname
    obtain ⟨i, hi, rfl⟩ := List.mem_map.mp hname
    exact hbefore i (List.mem_range.mp hi)
  rw [hrest, findFirst_of_find? hnone h, List.range_succ, List.map_append, List.map_singleton]

/-- A path that names no type in any reading has been asked for in all of them. -/
theorem findFirst_of_readings_eq_none {path : String}
    (h : ∀ k ≤ path.toList.count '.', scanner.find? (reading path k) = none) :
    findFirst scanner (pathReadings path) r =
      (none, r.seeking ((List.range (path.toList.count '.' + 1)).map (reading path))) := by
  rw [pathReadings_eq]
  refine findFirst_of_eq_none fun name hname => ?_
  obtain ⟨k, hk, rfl⟩ := List.mem_map.mp hname
  exact h k (Nat.lt_succ_iff.mp (List.mem_range.mp hk))

/-- The search of a path asks for its readings in their order, ends at the first that the scanner
knows, and after the last one otherwise; it is the loop that rewrites the path. So over declarations
a nested type is found by the path that has dots for the separators of its name, once no type is
declared under a reading before that. -/
theorem findFirst_readings (scanner : Scanner) (path : String) (r : Registry) :
    let dots := path.toList.count '.'
    findFirst scanner (pathReadings path) = seek scanner path ∧
    (∀ k t, k ≤ dots → (∀ i < k, scanner.find? (reading path i) = none) →
      scanner.find? (reading path k) = some t →
      findFirst scanner (pathReadings path) r =
        (some t, r.seeking ((List.range (k + 1)).map (reading path)))) ∧
    ((∀ k ≤ dots, scanner.find? (reading path k) = none) →
      findFirst scanner (pathReadings path) r =
        (none, r.seeking ((List.range (dots + 1)).map (reading path)))) ∧
    ∀ (ds : Declarations) (outer : TypeName) (names : List String),
      let t := outer.nestedBy names
      TypeName.nestedSeparator ∉ outer.full.toList →
      (∀ name ∈ names, '.' ∉ name.toList ∧ TypeName.nestedSeparator ∉ name.toList) →
      ds.contains t = true → (∀ k < names.length, ds.contains ⟨reading t.dotted k⟩ = false) →
      findFirst ds.scanner (pathReadings t.dotted) r =
        (some t, r.seeking ((List.range (names.length + 1)).map (reading t.dotted))) := by
  refine ⟨findFirst_pathReadings scanner path, fun k t => findFirst_of_reading,
    findFirst_of_readings_eq_none, fun ds outer names => ?_⟩
  intro t houter hnames ht hbefore
  have hname : reading t.dotted names.length = t.full :=
    TypeName.reading_dotted_nestedBy houter hnames
  have hdots : names.length ≤ t.dotted.toList.count '.' := by
    rw [TypeName.toList_dotted_nestedBy houter fun name h => (hnames name h).2, List.count_append]
    exact Nat.le_add_left_of_le (TypeName.length_le_count_flatMap names)
  refine findFirst_of_reading hdots (fun k hk => ?_) ?_
  · exact if_neg (Bool.eq_false_iff.mp (hbefore k hk))
  · rw [hname]
    exact if_pos ht

/-- A type two levels deep is found at the third reading of its path, past two that name nothing. -/
theorem findFirst_readings_cell :
    let ds := Declarations.ofList [⟨.topLevel ⟨"app.Screen"⟩, [], false⟩,
      ⟨.nested ⟨"app.Screen"⟩ "Panel" true, [], false⟩,
      ⟨.nested ⟨"app.Screen$Panel"⟩ "Cell" true, [], false⟩]
    ∃ r', findFirst ds.scanner (pathReadings "app.Screen.Panel.Cell") {} =
        (some ⟨"app.Screen$Panel$Cell"⟩, r') ∧
      r'.asked = [.findType "app.Screen.Panel.Cell", .findType "app.Screen.Panel$Cell",
        .findType "app.Screen$Panel$Cell"] := by
  intro ds
  obtain ⟨-, -, -, hnested⟩ := findFirst_readings ds.scanner "" {}
  have houter : TypeName.nestedSeparator ∉ (⟨"app.Screen"⟩ : TypeName).full.toList := by decide
  have hnames : ∀ name ∈ ["Panel", "Cell"],
      '.' ∉ name.toList ∧ TypeName.nestedSeparator ∉ name.toList := by decide
  have hpath : (TypeName.nestedBy ⟨"app.Screen"⟩ ["Panel", "Cell"]).dotted =
      "app.Screen.Panel.Cell" := by decide +kernel
  have hcell : ds.contains (TypeName.nestedBy ⟨"app.Screen"⟩ ["Panel", "Cell"]) = true := rfl
  have hbefore : ∀ k < ["Panel", "Cell"].length, ds.contains
      ⟨reading (TypeName.nestedBy ⟨"app.Screen"⟩ ["Panel", "Cell"]).dotted k⟩ = false := by
    rw [hpath]
    rintro (_ | _ | k) hk
    · decide
    · decide
    · exact absurd hk (by simp)
  have hsearch := hnested ds ⟨"app.Screen"⟩ ["Panel", "Cell"] houter hnames hcell hbefore
  rw [hpath] at hsearch
  exact ⟨_, hsearch, rfl⟩

end Registry

end Dispatch
