import Zeron.Data.Utf16

namespace Zeron.Data

/-! # JSON values as maps

A value holds its numbers in any type.  Two values are the same one when they hold the same thing at
every path: the order of an object's members does not count, and of two members with one key the
last does.
-/

inductive Value (ν : Type) where
  | null
  | bool (value : Bool)
  | string (text : Units)
  | number (value : ν)
  | array (items : List (Value ν))
  | object (entries : List (Units × Value ν))
deriving Inhabited

namespace Value

variable {ν μ : Type}

/-- What carries a fact from the parts of a value to the value. -/
structure Steps (motive : Value ν → Prop) : Prop where
  null : motive .null
  bool : ∀ value, motive (.bool value)
  string : ∀ text, motive (.string text)
  number : ∀ value, motive (.number value)
  array : ∀ items, (∀ item ∈ items, motive item) → motive (.array items)
  object : ∀ entries, (∀ entry ∈ entries, motive entry.2) → motive (.object entries)

mutual
theorem Steps.all {motive : Value ν → Prop} (steps : Steps motive) : ∀ value, motive value
  | .null => steps.null
  | .bool value => steps.bool value
  | .string text => steps.string text
  | .number value => steps.number value
  | .array items => steps.array items (steps.allItems items)
  | .object entries => steps.object entries (steps.allEntries entries)

theorem Steps.allItems {motive : Value ν → Prop} (steps : Steps motive) :
    ∀ items : List (Value ν), ∀ item ∈ items, motive item
  | [], _, among => nomatch among
  | first :: rest, item, among => by
      rcases List.mem_cons.mp among with same | later
      · rw [same]
        exact steps.all first
      · exact steps.allItems rest item later

theorem Steps.allEntries {motive : Value ν → Prop} (steps : Steps motive) :
    ∀ entries : List (Units × Value ν), ∀ entry ∈ entries, motive entry.2
  | [], _, among => nomatch among
  | (key, first) :: rest, entry, among => by
      rcases List.mem_cons.mp among with same | later
      · rw [same]
        exact steps.all first
      · exact steps.allEntries rest entry later
end

/-- A fact about every value, from its items and members up. -/
@[elab_as_elim]
theorem induct {motive : Value ν → Prop} (null : motive .null)
    (bool : ∀ value, motive (.bool value)) (string : ∀ text, motive (.string text))
    (number : ∀ value, motive (.number value))
    (array : ∀ items, (∀ item ∈ items, motive item) → motive (.array items))
    (object : ∀ entries, (∀ entry ∈ entries, motive entry.2) → motive (.object entries))
    (value : Value ν) : motive value :=
  Steps.all ⟨null, bool, string, number, array, object⟩ value

/-! ## Paths -/

inductive Step where
  | key (name : Units)
  | index (place : Nat)
deriving DecidableEq

/-- What a path leads to, without what is below it. -/
inductive Leaf (ν : Type) where
  | null
  | bool (value : Bool)
  | string (text : Units)
  | number (value : ν)
  | array (length : Nat)
  | object
deriving DecidableEq

def leaf : Value ν → Leaf ν
  | .null => .null
  | .bool value => .bool value
  | .string text => .string text
  | .number value => .number value
  | .array items => .array items.length
  | .object _ => .object

def child : Step → Value ν → Option (Value ν)
  | .key name, .object entries => (entries.reverse.find? (·.1 = name)).map Prod.snd
  | .index place, .array items => items[place]?
  | _, _ => none

def reach : List Step → Value ν → Option (Value ν)
  | [], value => some value
  | step :: path, value => (value.child step).bind (reach path)

def follow (path : List Step) (value : Value ν) : Option (Leaf ν) := (value.reach path).map leaf

/-- One value, whatever order its members are held in. -/
def Same (left right : Value ν) : Prop := ∀ path, left.follow path = right.follow path

/-- The numbers a value holds. -/
def Holds (value : Value ν) (number : ν) : Prop := ∃ path, value.follow path = some (.number number)

/-- No object in the value has two members with one key. -/
def Distinct (value : Value ν) : Prop :=
  ∀ path entries, value.reach path = some (.object entries) → (entries.map Prod.fst).Nodup

/-! ## Numbers read and written another way -/

mutual
/-- The value with its numbers read by `read`, if it reads them all. -/
def traverse (read : ν → Option μ) : Value ν → Option (Value μ)
  | .null => some .null
  | .bool value => some (.bool value)
  | .string text => some (.string text)
  | .number value => (read value).map .number
  | .array items => (traverseItems read items).map .array
  | .object entries => (traverseEntries read entries).map .object

def traverseItems (read : ν → Option μ) : List (Value ν) → Option (List (Value μ))
  | [] => some []
  | item :: rest =>
      (item.traverse read).bind fun item => (traverseItems read rest).map fun rest => item :: rest

def traverseEntries (read : ν → Option μ) :
    List (Units × Value ν) → Option (List (Units × Value μ))
  | [] => some []
  | (key, value) :: rest =>
      (value.traverse read).bind fun value =>
        (traverseEntries read rest).map fun rest => (key, value) :: rest
end

mutual
/-- The value with its numbers written by `write`. -/
def map (write : ν → μ) : Value ν → Value μ
  | .null => .null
  | .bool value => .bool value
  | .string text => .string text
  | .number value => .number (write value)
  | .array items => .array (mapItems write items)
  | .object entries => .object (mapEntries write entries)

def mapItems (write : ν → μ) : List (Value ν) → List (Value μ)
  | [] => []
  | item :: rest => item.map write :: mapItems write rest

def mapEntries (write : ν → μ) : List (Units × Value ν) → List (Units × Value μ)
  | [] => []
  | (key, value) :: rest => (key, value.map write) :: mapEntries write rest
end

def Leaf.map (write : ν → μ) : Leaf ν → Leaf μ
  | .null => .null
  | .bool value => .bool value
  | .string text => .string text
  | .number value => .number (write value)
  | .array length => .array length
  | .object => .object

def Leaf.traverse (read : ν → Option μ) : Leaf ν → Option (Leaf μ)
  | .null => some .null
  | .bool value => some (.bool value)
  | .string text => some (.string text)
  | .number value => (read value).map .number
  | .array length => some (.array length)
  | .object => some .object

section maps

variable {write : ν → μ} {read : ν → Option μ}

theorem mapItems_eq (items : List (Value ν)) : mapItems write items = items.map (map write) := by
  induction items with
  | nil => rfl
  | cons item items ih => rw [mapItems, ih, List.map_cons]

theorem mapEntries_eq (entries : List (Units × Value ν)) :
    mapEntries write entries = entries.map fun entry => (entry.1, entry.2.map write) := by
  induction entries with
  | nil => rfl
  | cons entry entries ih => rw [mapEntries, ih, List.map_cons]

theorem leaf_map (value : Value ν) : (value.map write).leaf = value.leaf.map write := by
  cases value with
  | array items => rw [map, leaf, mapItems_eq, List.length_map, leaf, Leaf.map]
  | _ => rfl

theorem child_map (step : Step) (value : Value ν) :
    (value.map write).child step = (value.child step).map (map write) := by
  cases value with
  | array items =>
      cases step with
      | key name => rfl
      | index place => rw [map, child, child, mapItems_eq, List.getElem?_map]
  | object entries =>
      cases step with
      | key name =>
          rw [map, child, child, mapEntries_eq, ← List.map_reverse, List.find?_map, Option.map_map,
            Option.map_map]
          rfl
      | index place => rfl
  | _ => cases step <;> rfl

theorem reach_map (path : List Step) (value : Value ν) :
    (value.map write).reach path = (value.reach path).map (map write) := by
  induction path generalizing value with
  | nil => rfl
  | cons step path ih =>
      rw [reach, reach, child_map]
      cases value.child step with
      | none => rfl
      | some inner => exact ih inner

theorem follow_map (path : List Step) (value : Value ν) :
    (value.map write).follow path = (value.follow path).map (Leaf.map write) := by
  rw [follow, follow, reach_map, Option.map_map, Option.map_map]
  congr 1
  funext inner
  exact leaf_map inner

/-! ## Values that are read -/

theorem traverseItems_forall₂ {items : List (Value ν)} {others : List (Value μ)}
    (reads : traverseItems read items = some others) :
    List.Forall₂ (fun item other => item.traverse read = some other) items others := by
  induction items generalizing others with
  | nil =>
      cases reads
      exact .nil
  | cons item items ih =>
      obtain ⟨first, here, later⟩ := Option.bind_eq_some_iff.mp reads
      obtain ⟨rest, there, same⟩ := Option.map_eq_some_iff.mp later
      cases same
      exact .cons here (ih there)

theorem traverseEntries_forall₂ {entries : List (Units × Value ν)}
    {others : List (Units × Value μ)} (reads : traverseEntries read entries = some others) :
    List.Forall₂ (fun entry other => entry.1 = other.1 ∧ entry.2.traverse read = some other.2)
      entries others := by
  induction entries generalizing others with
  | nil =>
      cases reads
      exact .nil
  | cons entry entries ih =>
      obtain ⟨first, here, later⟩ := Option.bind_eq_some_iff.mp reads
      obtain ⟨rest, there, same⟩ := Option.map_eq_some_iff.mp later
      cases same
      exact .cons ⟨rfl, here⟩ (ih there)

/-- Two optional values of which one is the other read. -/
def Reads (read : ν → Option μ) : Option (Value ν) → Option (Value μ) → Prop :=
  Option.Rel fun value other => value.traverse read = some other

theorem reads_getElem? {items : List (Value ν)} {others : List (Value μ)}
    (reads : List.Forall₂ (fun item other => item.traverse read = some other) items others)
    (place : Nat) : Reads read items[place]? others[place]? := by
  induction reads generalizing place with
  | nil => exact .none
  | cons here _ ih =>
      cases place with
      | zero => exact .some here
      | succ place =>
          rw [List.getElem?_cons_succ, List.getElem?_cons_succ]
          exact ih place

theorem reads_find? {entries : List (Units × Value ν)} {others : List (Units × Value μ)}
    (reads : List.Forall₂ (fun entry other =>
      entry.1 = other.1 ∧ entry.2.traverse read = some other.2) entries others) (name : Units) :
    Reads read ((entries.find? (·.1 = name)).map Prod.snd)
      ((others.find? (·.1 = name)).map Prod.snd) := by
  induction reads with
  | nil => exact .none
  | @cons entry other entries others here _ ih =>
      rw [List.find?_cons, List.find?_cons, here.1]
      cases decide (other.1 = name) with
      | true => exact .some here.2
      | false => exact ih

theorem reads_child {value : Value ν} {other : Value μ} (reads : value.traverse read = some other)
    (step : Step) : Reads read (value.child step) (other.child step) := by
  cases value with
  | array items =>
      obtain ⟨others, items, same⟩ := Option.map_eq_some_iff.mp reads
      cases same
      cases step with
      | key name => exact .none
      | index place => exact reads_getElem? (traverseItems_forall₂ items) place
  | object entries =>
      obtain ⟨others, entries, same⟩ := Option.map_eq_some_iff.mp reads
      cases same
      cases step with
      | key name =>
          have reversed := List.forall₂_reverse_iff.mpr (traverseEntries_forall₂ entries)
          exact reads_find? reversed name
      | index place => exact .none
  | number value =>
      obtain ⟨number, -, same⟩ := Option.map_eq_some_iff.mp reads
      cases same
      cases step <;> exact .none
  | _ =>
      cases reads
      cases step <;> exact .none

theorem reads_reach {value : Value ν} {other : Value μ} (reads : value.traverse read = some other)
    (path : List Step) : Reads read (value.reach path) (other.reach path) := by
  induction path generalizing value other with
  | nil => exact .some reads
  | cons step path ih =>
      have below := reads_child reads step
      rw [reach, reach]
      revert below
      cases value.child step with
      | none =>
          intro below
          generalize other.child step = inner at below
          cases below
          exact .none
      | some part =>
          intro below
          generalize other.child step = inner at below
          cases below with
          | some reads => exact ih reads

theorem leaf_traverse {value : Value ν} {other : Value μ}
    (reads : value.traverse read = some other) : value.leaf.traverse read = some other.leaf := by
  cases value with
  | array items =>
      obtain ⟨others, items, same⟩ := Option.map_eq_some_iff.mp reads
      cases same
      rw [leaf, leaf, Leaf.traverse, (traverseItems_forall₂ items).length_eq]
  | object entries =>
      obtain ⟨others, entries, same⟩ := Option.map_eq_some_iff.mp reads
      cases same
      rfl
  | number value =>
      obtain ⟨number, read, same⟩ := Option.map_eq_some_iff.mp reads
      cases same
      rw [leaf, leaf, Leaf.traverse, read]
      rfl
  | _ =>
      cases reads
      rfl

theorem follow_traverse {value : Value ν} {other : Value μ}
    (reads : value.traverse read = some other) (path : List Step) :
    Option.Rel (fun leaf other => leaf.traverse read = some other) (value.follow path)
      (other.follow path) := by
  have below := reads_reach reads path
  rw [follow, follow]
  revert below
  cases value.reach path with
  | none =>
      intro below
      generalize other.reach path = inner at below
      cases below
      exact .none
  | some part =>
      intro below
      generalize other.reach path = inner at below
      cases below with
      | some reads => exact .some (leaf_traverse reads)

/-- A value read two ways is one value if the numbers it holds are read alike. -/
theorem same_map_iff {value : Value ν} {other : Value μ} (reads : value.traverse read = some other) :
    Same other (value.map write) ↔ ∀ number, value.Holds number → read number = some (write number) := by
  constructor
  · rintro same number ⟨path, held⟩
    have below := follow_traverse reads path
    have alike := same path
    rw [follow_map] at alike
    rw [held] at below alike
    generalize other.follow path = inner at below alike
    cases below with
    | some leaf =>
        obtain ⟨found, readAs, shown⟩ := Option.map_eq_some_iff.mp leaf
        rw [← shown] at alike
        cases alike
        exact readAs
  · intro alike path
    have below := follow_traverse reads path
    rw [follow_map]
    cases held : value.follow path with
    | none =>
        rw [held] at below
        generalize other.follow path = inner at below
        cases below
        rfl
    | some leaf =>
        rw [held] at below
        generalize other.follow path = inner at below
        cases below with
        | some shown =>
            cases leaf with
            | number number =>
                obtain ⟨found, readAs, same⟩ := Option.map_eq_some_iff.mp shown
                rw [alike number ⟨path, held⟩] at readAs
                cases readAs
                rw [← same]
                rfl
            | _ =>
                cases shown
                rfl

end maps

/-! ## Numbers that are read as they were written -/

section writes

variable {write : ν → μ} {read : μ → Option ν} {value : Value ν}

theorem holds_child {step : Step} {inner : Value ν} {number : ν}
    (found : value.child step = some inner) (held : inner.Holds number) : value.Holds number := by
  obtain ⟨path, leads⟩ := held
  refine ⟨step :: path, ?_⟩
  rw [follow, reach, found]
  exact leads

theorem distinct_child {step : Step} {inner : Value ν} (found : value.child step = some inner)
    (distinct : value.Distinct) : inner.Distinct := by
  intro path entries leads
  apply distinct (step :: path)
  rw [reach, found]
  exact leads

theorem child_of_mem_items {items : List (Value ν)} {item : Value ν} (among : item ∈ items) :
    ∃ step, (Value.array items).child step = some item := by
  obtain ⟨place, found⟩ := List.mem_iff_getElem?.mp among
  exact ⟨.index place, found⟩

theorem find?_of_nodup {entries : List (Units × Value ν)} {entry : Units × Value ν}
    (nodup : (entries.map Prod.fst).Nodup) (among : entry ∈ entries) :
    entries.find? (·.1 = entry.1) = some entry := by
  induction entries with
  | nil => cases among
  | cons first rest ih =>
      rw [List.map_cons, List.nodup_cons] at nodup
      rcases List.mem_cons.mp among with same | later
      · rw [same, List.find?_cons_of_pos (by simp)]
      · have other : first.1 ≠ entry.1 := by
          intro same
          apply nodup.1
          rw [same]
          exact List.mem_map_of_mem later
        rw [List.find?_cons_of_neg (by simp [other]), ih nodup.2 later]

theorem child_of_mem_entries {entries : List (Units × Value ν)} {entry : Units × Value ν}
    (nodup : (entries.map Prod.fst).Nodup) (among : entry ∈ entries) :
    ∃ step, (Value.object entries).child step = some entry.2 := by
  refine ⟨.key entry.1, ?_⟩
  have reversed : (entries.reverse.map Prod.fst).Nodup := by
    rw [List.map_reverse]
    exact List.nodup_reverse.mpr nodup
  rw [child, find?_of_nodup reversed (List.mem_reverse.mpr among)]
  rfl

theorem distinct_number (number : ν) : (Value.number number).Distinct := by
  intro path entries leads
  cases path with
  | nil => cases leads
  | cons step path => cases step <;> cases leads

theorem distinct_object {entries : List (Units × Value ν)} (nodup : (entries.map Prod.fst).Nodup)
    (each : ∀ entry ∈ entries, entry.2.Distinct) : (Value.object entries).Distinct := by
  intro path others leads
  cases path with
  | nil =>
      cases leads
      exact nodup
  | cons step path =>
      cases step with
      | index place => cases leads
      | key name =>
          obtain ⟨inner, found, leads⟩ := Option.bind_eq_some_iff.mp leads
          obtain ⟨entry, among, same⟩ := Option.map_eq_some_iff.mp found
          cases same
          have member := List.mem_reverse.mp (List.mem_of_find?_eq_some among)
          exact each entry member path others leads

theorem traverseItems_map {items : List (Value ν)}
    (all : ∀ item ∈ items, (item.map write).traverse read = some item) :
    traverseItems read (mapItems write items) = some items := by
  induction items with
  | nil => rfl
  | cons item items ih =>
      rw [mapItems, traverseItems, all item List.mem_cons_self,
        ih fun item later => all item (List.mem_cons_of_mem _ later)]
      rfl

theorem traverseEntries_map {entries : List (Units × Value ν)}
    (all : ∀ entry ∈ entries, (entry.2.map write).traverse read = some entry.2) :
    traverseEntries read (mapEntries write entries) = some entries := by
  induction entries with
  | nil => rfl
  | cons entry entries ih =>
      rw [mapEntries, traverseEntries, all entry List.mem_cons_self,
        ih fun entry later => all entry (List.mem_cons_of_mem _ later)]
      rfl

theorem traverse_map (distinct : value.Distinct)
    (survives : ∀ number, value.Holds number → read (write number) = some number) :
    (value.map write).traverse read = some value := by
  induction value using induct with
  | null => rfl
  | bool value => rfl
  | string text => rfl
  | number number =>
      rw [map, traverse, survives number ⟨[], rfl⟩]
      rfl
  | array items ih =>
      rw [map, traverse, traverseItems_map]
      · rfl
      · intro item among
        obtain ⟨step, found⟩ := child_of_mem_items among
        exact ih item among (distinct_child found distinct) fun number held =>
          survives number (holds_child found held)
  | object entries ih =>
      rw [map, traverse, traverseEntries_map]
      · rfl
      · intro entry among
        obtain ⟨step, found⟩ := child_of_mem_entries (distinct [] entries rfl) among
        exact ih entry among (distinct_child found distinct) fun number held =>
          survives number (holds_child found held)

theorem survives_of_same {other : Value ν} (reads : (value.map write).traverse read = some other)
    (same : Same other value) : ∀ number, value.Holds number → read (write number) = some number := by
  rintro number ⟨path, held⟩
  have below := follow_traverse reads path
  rw [follow_map, held, same path, held] at below
  cases below with
  | some leaf =>
      obtain ⟨found, readAs, shown⟩ := Option.map_eq_some_iff.mp leaf
      cases shown
      exact readAs

theorem same_map_map_iff {back : μ → ν} : Same ((value.map write).map back) value ↔
    ∀ number, value.Holds number → back (write number) = number := by
  constructor
  · rintro same number ⟨path, held⟩
    have alike := same path
    rw [follow_map, follow_map, held] at alike
    exact Leaf.number.inj (Option.some.inj alike)
  · intro survives path
    rw [follow_map, follow_map]
    cases held : value.follow path with
    | none => rfl
    | some leaf =>
        cases leaf with
        | number number =>
            have kept := survives number ⟨path, held⟩
            exact congrArg (fun number => some (Leaf.number number)) kept
        | _ => rfl

end writes

end Value

end Zeron.Data
