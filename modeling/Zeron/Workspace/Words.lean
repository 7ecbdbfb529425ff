import Zeron.Workspace.Watch

namespace Zeron.Workspace

open Zeron.Data

/-! # What the changes say of a path

It is read off the operations: the last creation, removal or reported arrival of the path
speaks for it, and the last removal of a path or reported rename onto it decides which
departure the change of that path tells.  A rename that leaves the visible paths, comes into
them from elsewhere or moves what is below a directory is told of none of these.
-/

/-- The creation, removal or reported arrival of a path: whether it is there after it. -/
def Operation.word (root : Path) (wire : String) : Operation → Option Bool
  | .create path _ => if normalizeWatchPath root path = some wire then some true else none
  | .write _ => none
  | .remove path => if normalizeWatchPath root path = some wire then some false else none
  | .rename old new =>
      if (normalizeWatchPathIncludingTemp root old).isSome ∧
        normalizeWatchPath root new = some wire then some true else none

def Operation.writes (root : Path) (wire : String) : Operation → Bool
  | .write path => normalizeWatchPath root path = some wire
  | _ => false

/-- The last word on a path; a write only speaks for a path nothing else was said of. -/
def lastWord (root : Path) (operations : List Operation) (wire : String) : Option Bool :=
  (operations.filterMap (Operation.word root wire)).getLast?.or
    (if operations.any (Operation.writes root wire) then some true else none)

/-- A removal of a path or a reported rename onto it, with the path the rename departs from. -/
def Operation.origin (root : Path) (wire : String) : Operation → Option (Option String)
  | .remove path => if normalizeWatchPath root path = some wire then some none else none
  | .rename old new =>
      if normalizeWatchPath root new = some wire then
        (normalizeWatchPathIncludingTemp root old).map fun oldPath =>
          if isInternalTempWirePath oldPath then none else some oldPath
      else none
  | .create _ _ | .write _ => none

def lastOrigin (root : Path) (operations : List Operation) (wire : String) : Option String :=
  (operations.filterMap (Operation.origin root wire)).getLast?.join

/-- The last that came onto `target` is the rename from `wire`. -/
def Departs (root : Path) (operations : List Operation) (wire target : String) : Prop :=
  lastOrigin root operations target = some wire

variable {root path old new : Path} {wire target : String} {operations : List Operation}
  {operation : Operation} {changes : Changes} {change : WorkspaceFileChange}
  {existing : Option WorkspaceFileChange} {tree : Tree}

theorem lastWord_concat (root : Path) (operations : List Operation) (operation : Operation)
    (wire : String) : lastWord root (operations ++ [operation]) wire =
      (operation.word root wire).or
        (if operation.writes root wire then (lastWord root operations wire).or (some true)
        else lastWord root operations wire) := by
  unfold lastWord
  rw [List.filterMap_append, List.any_append, List.any_cons, List.any_nil, Bool.or_false]
  generalize operations.filterMap (Operation.word root wire) = words
  cases said : operation.word root wire with
  | some there => simp [said]
  | none =>
      rw [List.filterMap_cons_none said, List.filterMap_nil, List.append_nil]
      cases operations.any (Operation.writes root wire) <;>
        cases operation.writes root wire <;> cases words.getLast? <;> rfl

theorem lastOrigin_concat (root : Path) (operations : List Operation) (operation : Operation)
    (wire : String) : lastOrigin root (operations ++ [operation]) wire =
      (operation.origin root wire).getD (lastOrigin root operations wire) := by
  unfold lastOrigin
  rw [List.filterMap_append]
  cases said : operation.origin root wire <;> simp [said]

/-! ## The change of one path -/

/-- Only a rename names an old path. -/
def WorkspaceFileChange.Formed (change : WorkspaceFileChange) : Prop :=
  change.oldPath.isSome → change.kind = .renamed

def WorkspaceFileChange.there (change : WorkspaceFileChange) : Bool := change.kind ≠ .removed

theorem coalesce_created (formed : ∀ change ∈ existing, change.Formed) (wire : String) :
    (coalesce existing { kind := .created, path := wire }).there = true ∧
      (coalesce existing { kind := .created, path := wire }).oldPath =
        existing.bind (·.oldPath) ∧
      (coalesce existing { kind := .created, path := wire }).Formed := by
  cases existing with
  | none => exact ⟨rfl, rfl, by simp [coalesce, WorkspaceFileChange.Formed]⟩
  | some held =>
      obtain ⟨kind, path, oldPath⟩ := held
      have named := formed _ rfl
      cases kind <;> cases oldPath <;>
        simp_all [coalesce, watchChangePriority, WorkspaceFileChange.Formed,
          WorkspaceFileChange.there]

theorem coalesce_modified (formed : ∀ change ∈ existing, change.Formed) (wire : String) :
    (coalesce existing { kind := .modified, path := wire }).there =
        (existing.map (·.there)).getD true ∧
      (coalesce existing { kind := .modified, path := wire }).oldPath =
        existing.bind (·.oldPath) ∧
      (coalesce existing { kind := .modified, path := wire }).Formed := by
  cases existing with
  | none => exact ⟨rfl, rfl, by simp [coalesce, WorkspaceFileChange.Formed]⟩
  | some held =>
      obtain ⟨kind, path, oldPath⟩ := held
      have named := formed _ rfl
      cases kind <;> cases oldPath <;>
        simp_all [coalesce, watchChangePriority, WorkspaceFileChange.Formed,
          WorkspaceFileChange.there]

/-- Nothing has a higher priority than a removal. -/
theorem coalesce_removed (existing : Option WorkspaceFileChange) (wire : String) :
    coalesce existing { kind := .removed, path := wire } =
      { kind := .removed, path := wire } := by
  cases existing with
  | none => rfl
  | some held =>
      obtain ⟨kind, path, oldPath⟩ := held
      cases kind <;> simp [coalesce, watchChangePriority]

theorem coalesce_path (incoming : WorkspaceFileChange)
    (keyed : ∀ change ∈ existing, change.path = incoming.path) :
    (coalesce existing incoming).path = incoming.path := by
  unfold coalesce
  split
  · rfl
  · split_ifs
    · rfl
    · exact keyed _ rfl
    · rfl

theorem get?_recordPath (root : Path) (kind : WorkspaceFileChangeKind) (changes : Changes)
    (path : Path) (wire : String) : (recordPath root kind changes path).get? wire =
      if normalizeWatchPath root path = some wire then
        some (coalesce (changes.get? wire) { kind, path := wire })
      else changes.get? wire := by
  unfold recordPath
  split
  · rename_i hidden
    rw [hidden, if_neg (by simp)]
  · rename_i shown normalized
    have named : (coalesce (changes.get? shown) { kind, path := shown }).path = shown :=
      coalesce_path _ fun change held => changes.key_of_get? held
    rw [KeyedTable.get?_put, named, normalized]
    by_cases same : shown = wire
    · subst same
      simp
    · simp [same]

theorem get?_recordRename (root : Path) (changes : Changes) (old new : Path) (wire : String) :
    (recordRename root changes old new).get? wire =
      if normalizeWatchPath root new = some wire then
        match normalizeWatchPathIncludingTemp root old with
        | none => changes.get? wire
        | some oldPath =>
            if isInternalTempWirePath oldPath then some { kind := .modified, path := wire }
            else some { kind := .renamed, path := wire, oldPath := some oldPath }
      else changes.get? wire := by
  unfold recordRename
  cases normalizeWatchPath root new with
  | none => cases normalizeWatchPathIncludingTemp root old <;> simp
  | some shown =>
      cases normalizeWatchPathIncludingTemp root old with
      | none => simp
      | some oldPath =>
          dsimp only
          by_cases same : shown = wire
          · subst same
            rw [if_pos rfl]
            split_ifs <;> simp
          · rw [if_neg fun equal => same (Option.some.inj equal)]
            split_ifs <;> simp [KeyedTable.get?_put, same]

/-- What the change of a path knows of the operations. -/
structure Knows (root : Path) (operations : List Operation) (wire : String)
    (change : Option WorkspaceFileChange) : Prop where
  formed : ∀ held ∈ change, held.Formed
  word : change.map (·.there) = lastWord root operations wire
  origin : change.bind (·.oldPath) = lastOrigin root operations wire

/-- An operation that says nothing of a path. -/
theorem Knows.unsaid (knows : Knows root operations wire existing)
    (word : operation.word root wire = none) (writes : operation.writes root wire = false)
    (origin : operation.origin root wire = none) :
    Knows root (operations ++ [operation]) wire existing where
  formed := knows.formed
  word := by
    rw [lastWord_concat, word, writes, knows.word]
    rfl
  origin := by
    rw [lastOrigin_concat, origin, knows.origin]
    rfl

theorem Knows.create (knows : Knows root operations wire existing) {kind : EntryKind}
    (same : normalizeWatchPath root path = some wire) :
    Knows root (operations ++ [.create path kind]) wire
      (some (coalesce existing { kind := .created, path := wire })) := by
  obtain ⟨there, origin, formed⟩ := coalesce_created knows.formed wire
  constructor
  · intro held member
    cases member
    exact formed
  · rw [lastWord_concat, Operation.word, if_pos same, Option.map_some, there]
    rfl
  · rw [lastOrigin_concat, ← knows.origin, Option.bind_some, origin]
    rfl

theorem Knows.write (knows : Knows root operations wire existing)
    (same : normalizeWatchPath root path = some wire) :
    Knows root (operations ++ [.write path]) wire
      (some (coalesce existing { kind := .modified, path := wire })) := by
  obtain ⟨there, origin, formed⟩ := coalesce_modified knows.formed wire
  constructor
  · intro held member
    cases member
    exact formed
  · have writes : Operation.writes root wire (.write path) = true := decide_eq_true same
    rw [lastWord_concat, if_pos writes, ← knows.word, Option.map_some, there]
    cases existing <;> rfl
  · rw [lastOrigin_concat, ← knows.origin, Option.bind_some, origin]
    rfl

theorem Knows.remove (existing : Option WorkspaceFileChange)
    (same : normalizeWatchPath root path = some wire) :
    Knows root (operations ++ [.remove path]) wire
      (some (coalesce existing { kind := .removed, path := wire })) := by
  rw [coalesce_removed]
  constructor
  · intro held member
    cases member
    simp [WorkspaceFileChange.Formed]
  · rw [lastWord_concat, Operation.word, if_pos same]
    rfl
  · rw [lastOrigin_concat, Operation.origin, if_pos same]
    rfl

theorem Knows.arrive (operations : List Operation) {oldPath : String}
    (read : normalizeWatchPathIncludingTemp root old = some oldPath)
    (same : normalizeWatchPath root new = some wire) :
    Knows root (operations ++ [.rename old new]) wire (some (
      if isInternalTempWirePath oldPath then { kind := .modified, path := wire }
      else { kind := .renamed, path := wire, oldPath := some oldPath })) := by
  constructor
  · intro held member
    cases member
    split_ifs <;> simp [WorkspaceFileChange.Formed]
  · have arrives : (normalizeWatchPathIncludingTemp root old).isSome ∧
        normalizeWatchPath root new = some wire := by
      rw [read]
      exact ⟨rfl, same⟩
    rw [lastWord_concat, Operation.word, if_pos arrives]
    cases isInternalTempWirePath oldPath <;> rfl
  · rw [lastOrigin_concat, Operation.origin, if_pos same, read]
    cases hidden : isInternalTempWirePath oldPath <;> simp [hidden]

/-- One operation, one event, one step of what the change of each path knows. -/
theorem Knows.step (knows : Knows root operations wire (changes.get? wire))
    (operation : Operation) : Knows root (operations ++ [operation]) wire
      ((recordEvent root changes operation.event).get? wire) := by
  cases operation with
  | create path kind =>
      change Knows _ _ _ ((recordPath root .created changes path).get? wire)
      rw [get?_recordPath]
      split_ifs with same
      · exact knows.create same
      · exact knows.unsaid (if_neg same) rfl rfl
  | write path =>
      change Knows _ _ _ ((recordPath root .modified changes path).get? wire)
      rw [get?_recordPath]
      split_ifs with same
      · exact knows.write same
      · exact knows.unsaid rfl (decide_eq_false same) rfl
  | remove path =>
      change Knows _ _ _ ((recordPath root .removed changes path).get? wire)
      rw [get?_recordPath]
      split_ifs with same
      · exact Knows.remove _ same
      · exact knows.unsaid (if_neg same) rfl (if_neg same)
  | rename old new =>
      change Knows _ _ _ ((recordRename root changes old new).get? wire)
      rw [get?_recordRename]
      split_ifs with same
      · cases read : normalizeWatchPathIncludingTemp root old with
        | none =>
            refine knows.unsaid (if_neg ?_) rfl ?_
            · simp [read]
            · simp [Operation.origin, read]
        | some oldPath =>
            have arrived := Knows.arrive operations read same
            rwa [apply_ite some] at arrived
      · exact knows.unsaid (if_neg fun both => same both.2) rfl (if_neg same)

/-! ## The whole report -/

def recordAll (root : Path) (operations : List Operation) : Changes :=
  operations.foldl (fun changes operation => recordEvent root changes operation.event) .empty

theorem report_eq (root : Path) (operations : List Operation) :
    report root operations = (false, (recordAll root operations).values) := by
  have folded : ∀ state : Bool × Changes,
      (operations.map fun operation => Except.ok operation.event).foldl (foldEvent root) state =
        (state.1, operations.foldl
          (fun changes operation => recordEvent root changes operation.event) state.2) := by
    induction operations with
    | nil =>
        intro state
        rfl
    | cons operation rest ih =>
        intro state
        exact ih _
  rw [report, normalizeWatchEvents, folded]
  rfl

theorem recordAll_knows (root : Path) (operations : List Operation) (wire : String) :
    Knows root operations wire ((recordAll root operations).get? wire) := by
  induction operations using List.reverseRecOn with
  | nil =>
      rw [recordAll, List.foldl_nil, KeyedTable.get?_empty]
      exact ⟨by simp, rfl, rfl⟩
  | append_singleton operations operation ih =>
      rw [recordAll, List.foldl_append]
      exact ih.step operation

theorem get?_of_mem (member : change ∈ (report root operations).2) :
    (recordAll root operations).get? change.path = some change := by
  rw [report_eq] at member
  exact KeyedTable.mem_values.mp member

theorem mem_of_get? (held : (recordAll root operations).get? wire = some change) :
    change ∈ (report root operations).2 ∧ change.path = wire := by
  have keyed := KeyedTable.key_of_get? held
  refine ⟨?_, keyed⟩
  rw [report_eq]
  exact KeyedTable.mem_values.mpr (by rwa [keyed])

theorem exists_there_iff (root : Path) (operations : List Operation) (wire : String) :
    (∃ change ∈ (report root operations).2, change.path = wire ∧ change.there = true) ↔
      lastWord root operations wire = some true := by
  rw [← (recordAll_knows root operations wire).word]
  constructor
  · rintro ⟨change, member, rfl, there⟩
    rw [get?_of_mem member, Option.map_some, there]
  · intro said
    obtain ⟨change, held, there⟩ := Option.map_eq_some_iff.mp said
    exact ⟨change, (mem_of_get? held).1, (mem_of_get? held).2, there⟩

theorem forall_path_ne_iff (root : Path) (operations : List Operation) (wire : String) :
    (∀ change ∈ (report root operations).2, change.path ≠ wire) ↔
      lastWord root operations wire = none := by
  rw [← (recordAll_knows root operations wire).word, Option.map_eq_none_iff]
  constructor
  · intro absent
    cases held : (recordAll root operations).get? wire with
    | none => rfl
    | some change => exact absurd (mem_of_get? held).2 (absent change (mem_of_get? held).1)
  · intro absent change member same
    rw [← same, get?_of_mem member] at absent
    cases absent

theorem exists_oldPath_iff (root : Path) (operations : List Operation) (wire target : String) :
    (∃ change ∈ (report root operations).2, change.path = target ∧ change.oldPath = some wire) ↔
      Departs root operations wire target := by
  rw [Departs, ← (recordAll_knows root operations target).origin]
  constructor
  · rintro ⟨change, member, rfl, named⟩
    rw [get?_of_mem member, Option.bind_some, named]
  · intro departs
    obtain ⟨change, held, named⟩ := Option.bind_eq_some_iff.mp departs
    exact ⟨change, (mem_of_get? held).1, (mem_of_get? held).2, named⟩

theorem report_formed (member : change ∈ (report root operations).2) : change.Formed :=
  (recordAll_knows root operations change.path).formed change (get?_of_mem member)

theorem report_sorted (root : Path) (operations : List Operation) :
    (report root operations).2.Pairwise fun a b => a.path < b.path := by
  rw [report_eq]
  exact (recordAll root operations).values_sorted.imp fun before => compare_lt_iff_lt.mp before

/-- A change of the report is a patch of the set of paths. -/
theorem mem_applyChange (formed : change.Formed) (paths : Set String) (wire : String) :
    wire ∈ applyChange paths change ↔
      patched WorkspaceFileChange.path WorkspaceFileChange.there WorkspaceFileChange.oldPath
        wire (wire ∈ paths) change := by
  obtain ⟨kind, path, oldPath⟩ := change
  unfold patched
  by_cases same : path = wire
  · subst same
    cases kind <;> cases oldPath <;> simp [applyChange, WorkspaceFileChange.there]
  · cases kind <;> cases oldPath <;>
      simp_all [applyChange, WorkspaceFileChange.Formed, Ne.symm same, eq_comm]

theorem mem_foldl_applyChange {list : List WorkspaceFileChange}
    (formed : ∀ change ∈ list, change.Formed) (paths : Set String) (wire : String) :
    wire ∈ list.foldl applyChange paths ↔
      list.foldl (patched WorkspaceFileChange.path WorkspaceFileChange.there
        WorkspaceFileChange.oldPath wire) (wire ∈ paths) := by
  induction list generalizing paths with
  | nil => exact Iff.rfl
  | cons change rest ih =>
      rw [List.foldl_cons, List.foldl_cons, ih (fun other member =>
        formed other (List.mem_cons_of_mem _ member)),
        propext (mem_applyChange (formed change List.mem_cons_self) paths wire)]

/-- A path is there after the report has been applied. -/
theorem mem_applied_iff (root : Path) (operations : List Operation) (paths : Set String)
    (wire : String) : wire ∈ (report root operations).2.foldl applyChange paths ↔
      (∀ target, wire < target → ¬ Departs root operations wire target) ∧
        (lastWord root operations wire = some true ∨
          lastWord root operations wire = none ∧
            (∀ target, ¬ Departs root operations wire target) ∧ wire ∈ paths) := by
  rw [mem_foldl_applyChange (fun _ member => report_formed member),
    foldl_patched wire _ (report_sorted root operations)]
  have departs : ∀ {change}, change ∈ (report root operations).2 →
      change.oldPath = some wire → Departs root operations wire change.path :=
    fun member named => (exists_oldPath_iff root operations wire _).mp ⟨_, member, rfl, named⟩
  constructor
  · rintro ⟨kept, said⟩
    constructor
    · intro target behind departing
      obtain ⟨change, member, rfl, named⟩ :=
        (exists_oldPath_iff root operations wire target).mpr departing
      exact kept change member behind named
    · rcases said with there | ⟨silent, held⟩
      · exact .inl ((exists_there_iff root operations wire).mp there)
      · refine .inr ⟨(forall_path_ne_iff root operations wire).mp
          fun change member => (silent change member).1, ?_, held⟩
        intro target departing
        obtain ⟨change, member, -, named⟩ :=
          (exists_oldPath_iff root operations wire target).mpr departing
        exact (silent change member).2 named
  · rintro ⟨kept, said⟩
    constructor
    · intro change member behind named
      exact kept change.path behind (departs member named)
    · rcases said with there | ⟨silent, stays, held⟩
      · exact .inl ((exists_there_iff root operations wire).mpr there)
      · refine .inr ⟨fun change member => ⟨?_, ?_⟩, held⟩
        · exact (forall_path_ne_iff root operations wire).mpr silent change member
        · exact fun named => stays change.path (departs member named)

end Zeron.Workspace
