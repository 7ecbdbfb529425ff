import Zeron.Data.KeyedTable
import Zeron.Data.Patches
import Zeron.Workspace.Paths

namespace Zeron.Workspace

open Zeron.Data

/-! # The changes of a watch burst

The notify events of one burst are folded into one change per wire path: a later event
replaces the change of its path unless that one has a higher priority.  A rename is one
change under the new path that names the old one.
-/

/-- `RenameMode`; `to` and `from` are events of one path. -/
inductive RenameMode where
  | any
  | toPath
  | fromPath
  | both
  | other
deriving DecidableEq, Repr

inductive EventKind where
  | any
  | access
  | create
  | modifyName (mode : RenameMode)
  | modify
  | remove
  | other
deriving DecidableEq, Repr

structure Event where
  kind : EventKind
  paths : List Path

inductive WorkspaceFileChangeKind where
  | created
  | modified
  | removed
  | renamed
deriving DecidableEq, Repr

structure WorkspaceFileChange where
  kind : WorkspaceFileChangeKind
  path : String
  oldPath : Option String := none
deriving DecidableEq, Repr

/-- The changes by their path; `sort_by` at the end of the fold lists them in its order. -/
abbrev Changes := KeyedTable String WorkspaceFileChange WorkspaceFileChange.path

def watchChangePriority : WorkspaceFileChangeKind → Nat
  | .modified => 0
  | .created => 1
  | .renamed => 2
  | .removed => 3

/-- What an event that is no full rename says of each of its paths. -/
def EventKind.change : EventKind → Option WorkspaceFileChangeKind
  | .create | .modifyName .toPath => some .created
  | .remove | .modifyName .fromPath => some .removed
  | .modify | .modifyName .any | .modifyName .both | .modifyName .other | .any | .other =>
      some .modified
  | .access => none

/-- The change of a path after another event about it. -/
def coalesce (existing : Option WorkspaceFileChange) (incoming : WorkspaceFileChange) :
    WorkspaceFileChange :=
  match existing with
  | none => incoming
  | some existing =>
      -- A file removed and recreated inside one debounce window exists again.
      if existing.kind = .removed ∧ incoming.kind = .created then incoming
      else if watchChangePriority existing.kind > watchChangePriority incoming.kind then existing
      else incoming

def recordPath (root : Path) (kind : WorkspaceFileChangeKind) (changes : Changes) (path : Path) :
    Changes :=
  match normalizeWatchPath root path with
  | none => changes
  | some path => changes.put (coalesce (changes.get? path) { kind, path })

/-- A rename from a temporary file is an atomic save of the new path. -/
def recordRename (root : Path) (changes : Changes) (old new : Path) : Changes :=
  match normalizeWatchPathIncludingTemp root old, normalizeWatchPath root new with
  | some oldPath, some path =>
      if isInternalTempWirePath oldPath then changes.put { kind := .modified, path }
      else changes.put { kind := .renamed, path, oldPath := some oldPath }
  | _, _ => changes

def recordEvent (root : Path) (changes : Changes) (event : Event) : Changes :=
  match event.kind, event.paths with
  | .modifyName .both, old :: second :: rest =>
      recordRename root changes old ((second :: rest).getLast (List.cons_ne_nil _ _))
  | kind, paths =>
      match kind.change with
      | none => changes
      | some change => paths.foldl (recordPath root change) changes

/-- A watcher error asks for a resync. -/
def foldEvent (root : Path) (state : Bool × Changes) : Except String Event → Bool × Changes
  | .error _ => (true, state.2)
  | .ok event => (state.1, recordEvent root state.2 event)

def normalizeWatchEvents (root : Path) (events : List (Except String Event)) :
    Bool × List WorkspaceFileChange :=
  let folded := events.foldl (foldEvent root) (false, .empty)
  (folded.1, folded.2.values)

/-! ## Operations on a directory tree -/

inductive EntryKind where
  | file
  | directory
deriving DecidableEq, Repr

/-- What exists, and which files a burst has written. -/
structure Tree where
  entries : Path → Option EntryKind
  written : Path → Bool := fun _ => false

inductive Operation where
  | create (path : Path) (kind : EntryKind)
  | write (path : Path)
  | remove (path : Path)
  | rename (old new : Path)

/-- The truthful event of an operation. -/
def Operation.event : Operation → Event
  | .create path _ => { kind := .create, paths := [path] }
  | .write path => { kind := .modify, paths := [path] }
  | .remove path => { kind := .remove, paths := [path] }
  | .rename old new => { kind := .modifyName .both, paths := [old, new] }

/-- Where what is at a path after a rename was before it; nothing is left at the old one. -/
def movedFrom (old new path : Path) : Option Path :=
  if new <+: path then some (old ++ path.drop new.length)
  else if old <+: path then none
  else some path

def Operation.result (tree : Tree) : Operation → Tree
  | .create path kind =>
      { entries := Function.update tree.entries path (some kind)
        written := Function.update tree.written path false }
  | .write path => { tree with written := Function.update tree.written path true }
  | .remove path =>
      { entries := Function.update tree.entries path none
        written := Function.update tree.written path false }
  | .rename old new =>
      { entries := fun path => (movedFrom old new path).bind tree.entries
        written := fun path => (movedFrom old new path).any tree.written }

/-- Nothing is below a path. -/
def Tree.Bare (tree : Tree) (path : Path) : Prop :=
  ∀ below, path <+: below → below ≠ path → tree.entries below = none

/-- What the file system lets happen. -/
def Operation.Possible (tree : Tree) : Operation → Prop
  | .create path _ => path ≠ [] ∧ tree.entries path = none ∧
      tree.entries path.dropLast = some .directory
  | .write path => tree.entries path = some .file
  | .remove path => (tree.entries path).isSome ∧ tree.Bare path
  | .rename old new => ∃ kind, tree.entries old = some kind ∧ ¬ old <+: new ∧ new ≠ [] ∧
      tree.entries new.dropLast = some .directory ∧
      (tree.entries new = none ∨ tree.entries new = some kind) ∧ tree.Bare new

/-- The tree after the operations of a burst. -/
def resultOf (tree : Tree) (operations : List Operation) : Tree :=
  operations.foldl Operation.result tree

/-- Every operation of a burst is possible where it happens. -/
def Truthful (tree : Tree) : List Operation → Prop
  | [] => True
  | operation :: rest => operation.Possible tree ∧ Truthful (operation.result tree) rest

/-! ## What the report claims -/

def visiblePaths (root : Path) (tree : Tree) : Set String :=
  { wire | ∃ path, normalizeWatchPath root path = some wire ∧ (tree.entries path).isSome }

/-- `Created`, `Modified`: the path exists.  `Removed`: it is gone.  `Renamed`: the old path is
gone, the path exists. -/
def applyChange (paths : Set String) (change : WorkspaceFileChange) : Set String :=
  match change.kind, change.oldPath with
  | .removed, _ => paths \ {change.path}
  | .renamed, some old => insert change.path (paths \ {old})
  | _, _ => insert change.path paths

structure ReportsFinalState (root : Path) (before after : Tree)
    (changes : List WorkspaceFileChange) : Prop where
  paths : changes.foldl applyChange (visiblePaths root before) = visiblePaths root after
  written : ∀ path wire, normalizeWatchPath root path = some wire → after.written path = true →
    (after.entries path).isSome → ∃ change ∈ changes, change.path = wire ∧ change.kind ≠ .removed

def report (root : Path) (operations : List Operation) : Bool × List WorkspaceFileChange :=
  normalizeWatchEvents root (operations.map fun operation => .ok operation.event)

/-- A burst on the entries of a tree that asks for no resync reports the state it leaves. -/
def Exact (root : Path) (entries : Path → Option EntryKind) (operations : List Operation) :
    Prop :=
  (report root operations).1 = false →
    ReportsFinalState root { entries } (resultOf { entries } operations)
      (report root operations).2

end Zeron.Workspace
