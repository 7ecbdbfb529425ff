import Mathlib

namespace Zeron.Workspace

/-! # Wire paths of a checkout

A path below the root is named on the wire by its components with slashes between them.
What is inside `.git`, or has no UTF-8 name, has no wire path.
-/

structure FileName where
  text : String
  plain : '/' ∉ text.toList
deriving DecidableEq

/-- `Component::Normal`. -/
inductive Component where
  | utf8 (name : FileName)
  | bytes (raw : List UInt8)
deriving DecidableEq

/-- An absolute path by its components. -/
abbrev Path := List Component

def Component.toStr : Component → Option String
  | .utf8 name => some name.text
  | .bytes _ => none

/-- The lossy reading of other bytes has a replacement character in it. -/
def Component.isGit : Component → Bool
  | .utf8 name => name.text.toList.map Char.toLower = ".git".toList
  | .bytes _ => false

def containsGitComponent (path : Path) : Bool := path.any Component.isGit

def pathToWire (path : Path) : Option String :=
  (path.mapM Component.toStr).map fun names =>
    String.ofList (['/'].intercalate (names.map String.toList))

def normalizeWatchPathIncludingTemp (root path : Path) : Option String :=
  match path.dropPrefix? root with
  | none => none
  | some relative =>
      if relative = [] ∨ containsGitComponent relative then none else pathToWire relative

/-- The last name of the path is one an atomic save writes to before it renames. -/
def isInternalTempWirePath (path : String) : Bool :=
  (path.toList.splitOn '/').getLast?.any fun name =>
    ".axecode-save-".toList.isPrefixOf name && ".tmp".toList.isSuffixOf name

def normalizeWatchPath (root path : Path) : Option String :=
  (normalizeWatchPathIncludingTemp root path).filter fun wire => !isInternalTempWirePath wire

variable {root path other : Path} {wire : String}

theorem toStr_eq_some {component : Component} {name : String} (named : component.toStr = some name) :
    ∃ file : FileName, component = .utf8 file ∧ file.text = name := by
  cases component with
  | utf8 file =>
      cases named
      exact ⟨file, rfl, rfl⟩
  | bytes raw => cases named

theorem toStr_injective {left right : Component} {name : String} (leftNamed : left.toStr = some name)
    (rightNamed : right.toStr = some name) : left = right := by
  obtain ⟨⟨text, plain⟩, rfl, rfl⟩ := toStr_eq_some leftNamed
  obtain ⟨⟨other, plainOther⟩, rfl, same⟩ := toStr_eq_some rightNamed
  cases same
  rfl

/-- The components of a path with their names. -/
def Named (path : Path) (names : List String) : Prop :=
  List.Forall₂ (fun component name => component.toStr = some name) path names

theorem named_of_mapM {names : List String} (read : path.mapM Component.toStr = some names) :
    Named path names := by
  induction path generalizing names with
  | nil =>
      cases read
      exact .nil
  | cons component rest ih =>
      rw [List.mapM_cons] at read
      obtain ⟨name, named, read⟩ := Option.bind_eq_some_iff.mp read
      obtain ⟨following, readRest, same⟩ := Option.bind_eq_some_iff.mp read
      cases same
      exact .cons named (ih readRest)

theorem Named.plain {names : List String} (named : Named path names) :
    ∀ name ∈ names, '/' ∉ name.toList := by
  induction named with
  | nil => simp
  | cons head _ ih =>
      intro name member
      rcases List.mem_cons.mp member with rfl | later
      · obtain ⟨file, -, rfl⟩ := toStr_eq_some head
        exact file.plain
      · exact ih name later

theorem Named.injective {names : List String} (left : Named path names)
    (right : Named other names) : path = other := by
  have unique : Relator.LeftUnique fun (component : Component) (name : String) =>
      component.toStr = some name := fun _ _ _ => toStr_injective
  exact List.left_unique_forall₂' unique left right

/-- The slashes of a wire path are the ones between its components. -/
theorem Named.splitOn_wire {names : List String} (named : Named path names) (inside : path ≠ []) :
    (['/'].intercalate (names.map String.toList)).splitOn '/' = names.map String.toList := by
  apply List.splitOn_intercalate
  · intro letters member
    obtain ⟨name, inNames, rfl⟩ := List.mem_map.mp member
    exact named.plain name inNames
  · intro empty
    rw [List.map_eq_nil_iff] at empty
    subst empty
    exact inside (List.forall₂_nil_right_iff.mp named)

theorem pathToWire_injective (pathInside : path ≠ []) (otherInside : other ≠ [])
    (left : pathToWire path = some wire) (right : pathToWire other = some wire) :
    path = other := by
  obtain ⟨names, readPath, rfl⟩ := Option.map_eq_some_iff.mp left
  obtain ⟨otherNames, readOther, joined⟩ := Option.map_eq_some_iff.mp right
  have named := named_of_mapM readPath
  have otherNamed := named_of_mapM readOther
  have letters := congrArg (List.splitOn '/') (String.ofList_injective joined)
  rw [named.splitOn_wire pathInside, otherNamed.splitOn_wire otherInside] at letters
  have same : otherNames = names := List.map_injective_iff.mpr
    (fun _ _ equal => String.toList_inj.mp equal) letters
  exact named.injective (same ▸ otherNamed)

/-- Two paths of a checkout with one wire path are the same path. -/
theorem normalizeWatchPathIncludingTemp_injective
    (left : normalizeWatchPathIncludingTemp root path = some wire)
    (right : normalizeWatchPathIncludingTemp root other = some wire) : path = other := by
  have relative : ∀ {path : Path}, normalizeWatchPathIncludingTemp root path = some wire →
      ∃ below, path = root ++ below ∧ below ≠ [] ∧ pathToWire below = some wire := by
    intro path normalized
    unfold normalizeWatchPathIncludingTemp at normalized
    split at normalized
    · cases normalized
    · rename_i below stripped
      obtain ⟨start, rfl, same⟩ := List.dropPrefix?_eq_some_iff.mp stripped
      rw [eq_of_beq same]
      split_ifs at normalized with hidden
      exact ⟨below, rfl, fun empty => hidden (.inl empty), normalized⟩
  obtain ⟨below, rfl, inside, wired⟩ := relative left
  obtain ⟨otherBelow, rfl, otherInside, otherWired⟩ := relative right
  rw [pathToWire_injective inside otherInside wired otherWired]

theorem includingTemp_of_normalizeWatchPath (normalized : normalizeWatchPath root path = some wire) :
    normalizeWatchPathIncludingTemp root path = some wire ∧
      isInternalTempWirePath wire = false := by
  obtain ⟨read, shown⟩ := Option.filter_eq_some_iff.mp normalized
  exact ⟨read, by simpa using shown⟩

theorem normalizeWatchPath_injective (left : normalizeWatchPath root path = some wire)
    (right : normalizeWatchPath root other = some wire) : path = other :=
  normalizeWatchPathIncludingTemp_injective (includingTemp_of_normalizeWatchPath left).1
    (includingTemp_of_normalizeWatchPath right).1

end Zeron.Workspace
