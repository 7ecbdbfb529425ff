import Zeron.Workspace.Words

namespace Zeron.Workspace

open Zeron.Data

/-! # A burst reports the final state

Applying the changes of a burst gives what it leaves when its operations speak for every
visible path: the departures that are told and the last words are the final state.
-/

/-- The operations of a burst speak for what it leaves of a path. -/
structure Told (root : Path) (before : Tree) (operations : List Operation) (path : Path)
    (wire : String) : Prop where
  /-- A path that departs to a path listed behind it is gone. -/
  overruled : ∀ target, wire < target → Departs root operations wire target →
    (resultOf before operations).entries path = none
  /-- Otherwise the last word on a path is its final state. -/
  spoken : (∀ target, wire < target → ¬ Departs root operations wire target) →
    ∀ there, lastWord root operations wire = some there →
      ((resultOf before operations).entries path).isSome = there
  /-- A path that departs and of which nothing else is said is gone. -/
  departed : lastWord root operations wire = none →
    ∀ target, Departs root operations wire target →
      (resultOf before operations).entries path = none
  /-- A path of which nothing at all is said is there as before. -/
  silent : lastWord root operations wire = none →
    (∀ target, ¬ Departs root operations wire target) →
      ((resultOf before operations).entries path).isSome = (before.entries path).isSome
  /-- A file the burst wrote is spoken of where it is. -/
  written : (resultOf before operations).written path = true →
    ((resultOf before operations).entries path).isSome → lastWord root operations wire ≠ none

variable {root path old new : Path} {wire target : String} {operations : List Operation}
  {operation : Operation} {changes : Changes} {change : WorkspaceFileChange}
  {existing : Option WorkspaceFileChange} {tree : Tree}

/-! ## When the report is exact -/

theorem mem_visiblePaths (normalized : normalizeWatchPath root path = some wire) (tree : Tree) :
    wire ∈ visiblePaths root tree ↔ (tree.entries path).isSome := by
  constructor
  · rintro ⟨other, sameWire, there⟩
    rwa [normalizeWatchPath_injective normalized sameWire]
  · exact fun there => ⟨path, normalized, there⟩

theorem exists_path_of_origin (said : operation.origin root target = some (some wire)) :
    ∃ path, normalizeWatchPath root path = some wire := by
  cases operation with
  | create path kind => cases said
  | write path => cases said
  | remove path =>
      rw [Operation.origin] at said
      split_ifs at said
      cases said
  | rename old new =>
      rw [Operation.origin] at said
      split_ifs at said
      obtain ⟨oldPath, read, same⟩ := Option.map_eq_some_iff.mp said
      split_ifs at same with hidden
      cases same
      exact ⟨old, by rw [normalizeWatchPath, read, Option.filter_some]; simp [hidden]⟩

/-- Nothing is said of a wire path no path has. -/
theorem unsaid_of_unnamed (unnamed : ∀ path, normalizeWatchPath root path ≠ some wire)
    (operations : List Operation) : lastWord root operations wire = none ∧
      ∀ target, ¬ Departs root operations wire target := by
  induction operations using List.reverseRecOn with
  | nil => exact ⟨rfl, fun _ departs => by cases departs⟩
  | append_singleton operations operation ih =>
      constructor
      · have word : operation.word root wire = none := by
          cases operation <;> simp [Operation.word, unnamed]
        have writes : operation.writes root wire = false := by
          cases operation <;> simp [Operation.writes, unnamed]
        rw [lastWord_concat, word, writes, ih.1]
        rfl
      · intro target departs
        rw [Departs, lastOrigin_concat] at departs
        cases said : operation.origin root target with
        | none =>
            rw [said] at departs
            exact ih.2 target departs
        | some origin =>
            rw [said] at departs
            cases departs
            obtain ⟨path, normalized⟩ := exists_path_of_origin said
            exact unnamed path normalized

/-- The set of paths of a told path after the report was applied. -/
theorem Told.entries_iff (told : Told root tree operations path wire) :
    ((resultOf tree operations).entries path).isSome ↔
      (∀ target, wire < target → ¬ Departs root operations wire target) ∧
        (lastWord root operations wire = some true ∨
          lastWord root operations wire = none ∧
            (∀ target, ¬ Departs root operations wire target) ∧
              (tree.entries path).isSome) := by
  constructor
  · intro there
    have stays : ∀ target, wire < target → ¬ Departs root operations wire target := by
      intro target behind departs
      rw [told.overruled target behind departs] at there
      cases there
    refine ⟨stays, ?_⟩
    cases said : lastWord root operations wire with
    | some word =>
        rw [told.spoken stays word said] at there
        exact .inl (congrArg some there)
    | none =>
        have kept : ∀ target, ¬ Departs root operations wire target := by
          intro target departs
          rw [told.departed said target departs] at there
          cases there
        exact .inr ⟨rfl, kept, by rwa [told.silent said kept] at there⟩
  · rintro ⟨stays, said | ⟨said, kept, held⟩⟩
    · exact told.spoken stays true said
    · rwa [told.silent said kept]

theorem Told.of_entries_iff (there : ((resultOf tree operations).entries path).isSome ↔
      (∀ target, wire < target → ¬ Departs root operations wire target) ∧
        (lastWord root operations wire = some true ∨
          lastWord root operations wire = none ∧
            (∀ target, ¬ Departs root operations wire target) ∧
              (tree.entries path).isSome))
    (written : (resultOf tree operations).written path = true →
      ((resultOf tree operations).entries path).isSome →
        lastWord root operations wire ≠ none) :
    Told root tree operations path wire where
  overruled target behind departs := by
    rw [← Option.not_isSome_iff_eq_none, there]
    exact fun both => both.1 target behind departs
  spoken stays word said := by
    rw [Bool.eq_iff_iff, there, said, and_iff_right stays]
    simp
  departed said target departs := by
    rw [← Option.not_isSome_iff_eq_none, there, said]
    rintro ⟨-, absurd_ | ⟨-, kept, -⟩⟩
    · cases absurd_
    · exact kept target departs
  silent said kept := by
    rw [Bool.eq_iff_iff, there, said]
    simp [kept]
  written := written

theorem told_of_exact {entries : Path → Option EntryKind} (exact_ : Exact root entries operations)
    (normalized : normalizeWatchPath root path = some wire) :
    Told root { entries } operations path wire := by
  obtain ⟨paths, written⟩ := exact_ (by rw [report_eq])
  apply Told.of_entries_iff
  · rw [← mem_visiblePaths normalized, ← paths, mem_applied_iff, mem_visiblePaths normalized]
  · intro wrote there silent
    obtain ⟨change, member, same, -⟩ := written path wire normalized wrote there
    exact (forall_path_ne_iff root operations wire).mpr silent change member same

theorem exact_of_told {entries : Path → Option EntryKind}
    (told : ∀ path wire, normalizeWatchPath root path = some wire →
      Told root { entries } operations path wire) : Exact root entries operations := by
  intro resync
  constructor
  · ext wire
    rw [mem_applied_iff]
    by_cases named : ∃ path, normalizeWatchPath root path = some wire
    · obtain ⟨path, normalized⟩ := named
      rw [mem_visiblePaths normalized, mem_visiblePaths normalized]
      exact (told path wire normalized).entries_iff.symm
    · have unnamed : ∀ path, normalizeWatchPath root path ≠ some wire :=
        fun path normalized => named ⟨path, normalized⟩
      have nowhere : ∀ tree, wire ∉ visiblePaths root tree :=
        fun tree there => named ⟨there.choose, there.choose_spec.1⟩
      simp [unsaid_of_unnamed unnamed operations, nowhere]
  · intro path wire normalized wrote there
    have spoken := (told path wire normalized).entries_iff.mp there
    have said := (told path wire normalized).written wrote there
    rcases spoken.2 with present | ⟨silent, -⟩
    · obtain ⟨change, member, same, stated⟩ :=
        (exists_there_iff root operations wire).mpr present
      exact ⟨change, member, same, by simpa [WorkspaceFileChange.there] using stated⟩
    · exact absurd silent said

/-- A burst reports the final state exactly when its operations speak for every visible path. -/
theorem burst_exact_iff (root : Path) (entries : Path → Option EntryKind)
    (operations : List Operation) : Exact root entries operations ↔
      ∀ path wire, normalizeWatchPath root path = some wire →
        Told root { entries } operations path wire := by
  constructor
  · intro exact_ path wire normalized
    exact told_of_exact exact_ normalized
  · exact exact_of_told

def fileName (text : String) (plain : '/' ∉ text.toList) : Component := .utf8 ⟨text, plain⟩

def checkout : Path := [fileName "checkout" (by decide)]

theorem plain_a : '/' ∉ "a".toList := by decide

def fileA : Path := checkout ++ [fileName "a" plain_a]

def fileB : Path := checkout ++ [fileName "b" (by decide)]

/-- A checkout with the file `a`. -/
def withA (path : Path) : Option EntryKind :=
  if path = checkout then some .directory else if path = fileA then some .file else none

def lostRename : List Operation := [.rename fileA fileB, .remove fileB]

theorem lostRename_truthful : Truthful { entries := withA } lostRename := by
  have nothing : ∀ path, path ≠ checkout → path ≠ fileA → withA path = none :=
    fun path other another => (if_neg other).trans (if_neg another)
  have bareBefore : Tree.Bare { entries := withA } fileB := by
    rintro below ⟨rest, rfl⟩ -
    exact nothing (fileB ++ rest) (by simp [fileB, checkout])
      (by simp [fileA, fileB, checkout, fileName])
  have bareAfter : Tree.Bare ((Operation.rename fileA fileB).result { entries := withA })
      fileB := by
    rintro below ⟨rest, rfl⟩ proper
    have more : rest ≠ [] := fun empty => proper (by rw [empty, List.append_nil])
    have moved : movedFrom fileA fileB (fileB ++ rest) = some (fileA ++ rest) := by
      rw [movedFrom, if_pos (List.prefix_append _ _), List.drop_left]
    change (movedFrom fileA fileB (fileB ++ rest)).bind withA = none
    rw [moved]
    exact nothing (fileA ++ rest) (by simp [fileA, checkout]) (by simpa using more)
  exact ⟨⟨.file, by decide, by decide, by decide, by decide, .inl (by decide), bareBefore⟩,
    ⟨by decide, bareAfter⟩, trivial⟩

/-- `a` is renamed to `b` and `b` removed: nothing says that `a` is gone. -/
theorem not_exact : ¬ ∀ root entries operations,
    Truthful { entries } operations → Exact root entries operations := by
  intro always
  have reported := always checkout withA lostRename lostRename_truthful (by decide)
  have changes : (report checkout lostRename).2 = [{ kind := .removed, path := "b" }] := by
    decide
  have normalized : normalizeWatchPath checkout fileA = some "a" := by decide
  have stays : "a" ∈ (report checkout lostRename).2.foldl applyChange
      (visiblePaths checkout { entries := withA }) := by
    rw [changes]
    exact ⟨⟨fileA, normalized, by decide⟩, by simp⟩
  rw [reported.paths] at stays
  obtain ⟨path, sameWire, there⟩ := stays
  rw [normalizeWatchPath_injective sameWire normalized] at there
  revert there
  decide

/-! ## Bursts without renames -/

theorem resultOf_concat (tree : Tree) (operations : List Operation) (operation : Operation) :
    resultOf tree (operations ++ [operation]) = operation.result (resultOf tree operations) := by
  rw [resultOf, List.foldl_append]
  rfl

theorem truthful_concat (tree : Tree) (operations : List Operation) (operation : Operation) :
    Truthful tree (operations ++ [operation]) ↔
      Truthful tree operations ∧ operation.Possible (resultOf tree operations) := by
  induction operations generalizing tree with
  | nil => simp [Truthful, resultOf]
  | cons first rest ih =>
      rw [List.cons_append, Truthful, Truthful, ih, and_assoc]
      rfl

def Operation.isRename : Operation → Bool
  | .rename _ _ => true
  | .create _ _ | .write _ | .remove _ => false

/-- What has been said of a path while nothing was renamed. -/
structure Spoken (root : Path) (before : Tree) (operations : List Operation) (path : Path)
    (wire : String) : Prop where
  said : ∀ there, lastWord root operations wire = some there →
    ((resultOf before operations).entries path).isSome = there
  silent : lastWord root operations wire = none →
    (resultOf before operations).entries path = before.entries path ∧
      (resultOf before operations).written path = before.written path

theorem not_departs_of_no_rename (still : ∀ operation ∈ operations, operation.isRename = false)
    (target : String) : ¬ Departs root operations wire target := by
  induction operations using List.reverseRecOn with
  | nil => exact fun departs => by cases departs
  | append_singleton operations operation ih =>
      intro departs
      have earlier := ih fun other member => still other (List.mem_append_left _ member)
      have last := still operation (by simp)
      rw [Departs, lastOrigin_concat] at departs
      cases operation with
      | create path kind => exact earlier departs
      | write path => exact earlier departs
      | remove path =>
          rw [Operation.origin] at departs
          split_ifs at departs
          · cases departs
          · exact earlier departs
      | rename old new => cases last

/-- An operation elsewhere says nothing of the path and leaves it as it is. -/
theorem Spoken.elsewhere (spoken : Spoken root tree operations path wire)
    (word : operation.word root wire = none) (writes : operation.writes root wire = false)
    (entries : (operation.result (resultOf tree operations)).entries path =
      (resultOf tree operations).entries path)
    (written : (operation.result (resultOf tree operations)).written path =
      (resultOf tree operations).written path) :
    Spoken root tree (operations ++ [operation]) path wire := by
  have same : lastWord root (operations ++ [operation]) wire = lastWord root operations wire := by
    rw [lastWord_concat, word, writes]
    rfl
  constructor
  · intro there said
    rw [same] at said
    rw [resultOf_concat, entries]
    exact spoken.said there said
  · intro said
    rw [same] at said
    rw [resultOf_concat, entries, written]
    exact spoken.silent said

theorem Spoken.of_word {there : Bool} (word : operation.word root wire = some there)
    (result : ((operation.result (resultOf tree operations)).entries path).isSome = there) :
    Spoken root tree (operations ++ [operation]) path wire := by
  have said : lastWord root (operations ++ [operation]) wire = some there := by
    rw [lastWord_concat, word]
    rfl
  constructor
  · intro last same
    rw [said] at same
    cases same
    rw [resultOf_concat, result]
  · intro silent
    rw [said] at silent
    cases silent

theorem Spoken.write (spoken : Spoken root tree operations path wire)
    (normalized : normalizeWatchPath root path = some wire)
    (possible : (Operation.write path).Possible (resultOf tree operations)) :
    Spoken root tree (operations ++ [.write path]) path wire := by
  have writes : Operation.writes root wire (.write path) = true := decide_eq_true normalized
  have kept : ((resultOf tree (operations ++ [.write path])).entries path) = some .file := by
    rw [resultOf_concat]
    exact possible
  constructor
  · intro there said
    rw [lastWord_concat, if_pos writes] at said
    cases held : lastWord root operations wire with
    | none =>
        rw [held] at said
        cases said
        rw [kept]
        rfl
    | some before =>
        rw [held] at said
        cases said
        have was := spoken.said _ held
        rw [show (resultOf tree operations).entries path = some .file from possible] at was
        rw [kept]
        exact was
  · intro silent
    rw [lastWord_concat, if_pos writes] at silent
    cases held : lastWord root operations wire <;> rw [held] at silent <;> cases silent

theorem Spoken.step (spoken : Spoken root tree operations path wire)
    (normalized : normalizeWatchPath root path = some wire)
    (possible : operation.Possible (resultOf tree operations))
    (still : operation.isRename = false) :
    Spoken root tree (operations ++ [operation]) path wire := by
  have apart : ∀ {other : Path}, path ≠ other → normalizeWatchPath root other ≠ some wire :=
    fun different same => different (normalizeWatchPath_injective normalized same)
  cases operation with
  | create other kind =>
      by_cases same : path = other
      · subst same
        exact .of_word (if_pos normalized) (by simp [Operation.result])
      · exact spoken.elsewhere (if_neg (apart same)) rfl (Function.update_of_ne same _ _)
          (Function.update_of_ne same _ _)
  | write other =>
      by_cases same : path = other
      · subst same
        exact spoken.write normalized possible
      · exact spoken.elsewhere rfl (decide_eq_false (apart same)) rfl
          (Function.update_of_ne same _ _)
  | remove other =>
      by_cases same : path = other
      · subst same
        exact .of_word (if_pos normalized) (by simp [Operation.result])
      · exact spoken.elsewhere (if_neg (apart same)) rfl (Function.update_of_ne same _ _)
          (Function.update_of_ne same _ _)
  | rename old new => cases still

theorem spoken_of_no_rename (normalized : normalizeWatchPath root path = some wire)
    (truthful : Truthful tree operations)
    (still : ∀ operation ∈ operations, operation.isRename = false) :
    Spoken root tree operations path wire := by
  induction operations using List.reverseRecOn with
  | nil =>
      constructor
      · intro there said
        cases said
      · intro
        exact ⟨rfl, rfl⟩
  | append_singleton operations operation ih =>
      obtain ⟨earlier, possible⟩ := (truthful_concat tree operations operation).mp truthful
      have spoken := ih earlier fun other member => still other (List.mem_append_left _ member)
      exact spoken.step normalized possible (still operation (by simp))

/-- A burst that renames nothing is reported exactly. -/
theorem exact_of_no_rename {entries : Path → Option EntryKind}
    (truthful : Truthful { entries } operations)
    (still : ∀ operation ∈ operations, operation.isRename = false) :
    Exact root entries operations := by
  apply exact_of_told
  intro path wire normalized
  have spoken := spoken_of_no_rename normalized truthful still
  have stays : ∀ target, ¬ Departs root operations wire target :=
    not_departs_of_no_rename still
  constructor
  · intro target behind departs
    exact absurd departs (stays target)
  · intro
    exact spoken.said
  · intro silent target departs
    exact absurd departs (stays target)
  · intro silent _
    rw [(spoken.silent silent).1]
  · intro wrote there silent
    rw [(spoken.silent silent).2] at wrote
    cases wrote

theorem exact_of_no_rename_saved : Exact checkout withA [.write fileA] :=
  exact_of_no_rename ⟨(by decide : withA fileA = some .file), trivial⟩ (by decide)

end Zeron.Workspace
