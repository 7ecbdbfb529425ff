import Zeron.Data.Groups
import Zeron.Git.Readers

namespace Zeron.Git

open Zeron.Data

/-! # Whether the readers agree

Compared as sets of paths.  `git_status::parse` shows a path as untracked in
either column of its one merged file.
-/

variable {listing : List StatusRecord} {path : ByteString}

/-! ## The merged file of a path -/

def GitFileStatus.showsUntracked (file : GitFileStatus) : Bool :=
  file.index = .untracked || file.worktree = .untracked

/-- The records of a path that `git_status::parse` does not drop, in listing order. -/
def recordsOf (listing : List StatusRecord) (path : ByteString) : List StatusRecord :=
  listing.filter fun record => !record.nonUtf8 && record.path.bytes = path

/-- The last worktree letter that is not blank is the untracked one. -/
def endsUntracked (records : List StatusRecord) : Bool :=
  ((records.map (·.code.worktree)).filter (· ≠ .unchanged)).getLast? = some .untracked

/-- The first record is untracked, and no later one has an index letter. -/
def beginsUntracked : List StatusRecord → Bool
  | [] => false
  | first :: rest =>
      first.code = .untracked &&
        rest.all fun record => record.code.index = .unchanged || record.code.index = .untracked

theorem mergeFiles_eq_mergeRuns (previous : GitFileStatus) (files : List GitFileStatus) :
    mergeFiles previous files = mergeRuns GitFileStatus.path mergeFile previous files := by
  induction files generalizing previous with
  | nil => rfl
  | cons file rest ih =>
      rw [mergeFiles, mergeRuns, ih, ih]

theorem path_mergeFile (previous file : GitFileStatus) :
    (mergeFile previous file).path = previous.path := rfl

theorem filter_mergeAll {files : List GitFileStatus}
    (sorted : files.Pairwise fun first second => first.path ≤ second.path) (path : ByteString) :
    (mergeAll files).filter (·.path = path) =
      mergeGroup mergeFile (files.filter (·.path = path)) := by
  cases files with
  | nil => rfl
  | cons file rest =>
      rw [mergeAll, mergeFiles_eq_mergeRuns]
      exact filter_mergeRuns path_mergeFile path sorted

theorem parse_encodeStatus (listing : List StatusRecord) (truncated : Bool) (path : ByteString) :
    (parse (encodeStatus listing) truncated).1.filter (·.path = path) =
      mergeGroup mergeFile ((recordsOf listing path).map StatusRecord.status) := by
  have files : (parse (encodeStatus listing) truncated).1 =
      mergeAll (((listing.filter fun record => !record.nonUtf8).map StatusRecord.status).mergeSort
        (keyLe GitFileStatus.path)) := by
    unfold parse
    rw [splitOn_encodeStatus, parseLoop_listing]
    rfl
  rw [files, filter_mergeAll (mergeSort_pairwise _), filter_mergeSort, List.filter_map,
    List.filter_filter, recordsOf]
  congr 2
  apply List.filter_congr
  intro record _
  exact Bool.and_comm _ _

theorem worktree_foldl_mergeFile (file : GitFileStatus) (files : List GitFileStatus) :
    (files.foldl mergeFile file).worktree =
      ((((file :: files).map (·.worktree)).filter (· ≠ .unchanged)).getLast?).getD .unchanged := by
  induction files generalizing file with
  | nil => by_cases blank : file.worktree = .unchanged <;> simp [blank]
  | cons next rest ih =>
      rw [List.foldl_cons, ih]
      by_cases blank : next.worktree = .unchanged
      · simp [mergeFile, blank]
      · by_cases last : (rest.map (·.worktree)).filter (· ≠ .unchanged) = []
        · by_cases own : file.worktree = .unchanged <;> simp [mergeFile, blank, own]
        · by_cases own : file.worktree = .unchanged <;>
            simp [mergeFile, blank, own]

theorem index_foldl_mergeFile (file : GitFileStatus) (files : List GitFileStatus) :
    (files.foldl mergeFile file).index = .untracked ↔
      file.index = .untracked ∧
        ∀ next ∈ files, next.index = .unchanged ∨ next.index = .untracked := by
  induction files generalizing file with
  | nil => simp
  | cons next rest ih =>
      rw [List.foldl_cons, ih]
      by_cases quiet : next.index = .unchanged ∨ next.index = .untracked
      · simp [mergeFile, quiet]
      · obtain ⟨notBlank, notUntracked⟩ := not_or.mp quiet
        simp [mergeFile, notBlank, notUntracked]

theorem Code.index_untracked (code : Code) : code.index = .untracked ↔ code = .untracked := by
  cases code with
  | untracked => exact iff_of_true rfl rfl
  | tracked index worktree => cases index <;> simp [Code.index, Letter.state]

theorem showsUntracked_mergeGroup (records : List StatusRecord) :
    (mergeGroup mergeFile (records.map StatusRecord.status)).any GitFileStatus.showsUntracked =
      (endsUntracked records || beginsUntracked records) := by
  cases records with
  | nil => rfl
  | cons first rest =>
      have last := worktree_foldl_mergeFile first.status (rest.map StatusRecord.status)
      have begins := index_foldl_mergeFile first.status (rest.map StatusRecord.status)
      rw [List.map_cons, mergeGroup, List.any_cons, List.any_nil, Bool.or_false,
        GitFileStatus.showsUntracked, Bool.or_comm]
      congr 1
      · rw [last, endsUntracked, ← @List.map_cons _ _ StatusRecord.status, List.map_map]
        have shown : ∀ state : Option GitFileState,
            decide (state.getD .unchanged = .untracked) = decide (state = some .untracked) := by
          intro state
          cases state <;> simp
        exact shown _
      · rw [beginsUntracked, decide_eq_decide.mpr begins, Bool.decide_and]
        congr 1
        · exact decide_eq_decide.mpr (Code.index_untracked first.code)
        · simp [List.all_eq, StatusRecord.status]

/-- The paths `git_status::parse` shows as untracked. -/
def parsedUntracked (status : ByteString) (truncated : Bool) : List ByteString :=
  ((parse status truncated).1.filter GitFileStatus.showsUntracked).map GitFileStatus.path

theorem mem_parsedUntracked (listing : List StatusRecord) (truncated : Bool) (path : ByteString) :
    path ∈ parsedUntracked (encodeStatus listing) truncated ↔
      (endsUntracked (recordsOf listing path) || beginsUntracked (recordsOf listing path)) = true := by
  rw [← showsUntracked_mergeGroup, ← parse_encodeStatus listing truncated path, List.any_filter,
    List.any_eq_true, parsedUntracked, List.mem_map]
  constructor
  · rintro ⟨file, member, rfl⟩
    obtain ⟨inside, shows⟩ := List.mem_filter.mp member
    exact ⟨file, inside, by simp [shows]⟩
  · rintro ⟨file, inside, both⟩
    obtain ⟨same, shows⟩ := Bool.and_eq_true_iff.mp both
    exact ⟨file, List.mem_filter.mpr ⟨inside, shows⟩, of_decide_eq_true same⟩

/-! ## The other readers' paths -/

theorem mem_dedup {paths : List ByteString} : path ∈ dedup paths ↔ path ∈ paths := by
  induction paths using dedup.induct with
  | case1 first rest ih => 
      rw [dedup, if_pos rfl, ih]
      simp
  | case2 first second rest different ih =>
      rw [dedup, if_neg different, List.mem_cons, ih, ← List.mem_cons]
  | case3 paths short => rw [dedup]; exact short

theorem statusPaths_encodeStatus (listing : List StatusRecord) :
    (path ∈ (statusPaths (encodeStatus listing)).untracked ↔
      ∃ record ∈ listing, record.code = .untracked ∧ record.path.bytes = path) ∧
    (path ∈ (statusPaths (encodeStatus listing)).tracked ↔
      ∃ record ∈ listing, record.code ≠ .untracked ∧
        (record.path.bytes = path ∨ record.origin.map GitPath.bytes = some path)) := by
  have paths : statusLoop (((encodeStatus listing).splitOn 0).filter (· ≠ [])) =
      ⟨listing.flatMap StatusRecord.trackedPaths, listing.flatMap StatusRecord.untrackedPaths⟩ := by
    rw [filter_encodeStatus, statusLoop_listing]
  simp only [statusPaths, paths, mem_dedup, sortBytes, List.mem_mergeSort, List.mem_flatMap]
  constructor
  · apply exists_congr
    intro record
    by_cases untracked : record.code = .untracked <;>
      simp [StatusRecord.untrackedPaths, untracked, eq_comm]
  · apply exists_congr
    intro record
    by_cases untracked : record.code = .untracked <;>
      simp [StatusRecord.trackedPaths, untracked, eq_comm]

theorem captureUntracked_encodeStatus (quiet : ∀ record ∈ listing, record.Quiet) :
    ∃ paths, captureUntracked (encodeStatus listing) = some paths ∧
      ∀ path, path ∈ paths ↔ ∃ record ∈ listing, record.captured = some path := by
  refine ⟨sortBytes (listing.flatMap fun record => record.captured.toList), ?_, ?_⟩
  · rw [captureUntracked, splitZ, filter_encodeStatus, untrackedLoop_listing quiet]
    rfl
  · intro path
    simp [sortBytes, eq_comm]

/-! ## Agreement -/

/-- Every untracked path is UTF-8. -/
def Representable (listing : List StatusRecord) : Prop :=
  ∀ record ∈ listing, record.code = .untracked → Utf8.valid record.path.bytes = true

/-- The readers agree on a listing. -/
structure Agree (listing : List StatusRecord) : Prop where
  returns : captureUntracked (encodeStatus listing) ≠ none
  captured : Representable listing → ∀ paths, captureUntracked (encodeStatus listing) = some paths →
    ∀ path, path ∈ paths ↔ path ∈ (statusPaths (encodeStatus listing)).untracked
  parsed : Representable listing → ∀ truncated path,
    path ∈ parsedUntracked (encodeStatus listing) truncated ↔
      path ∈ (statusPaths (encodeStatus listing)).untracked
  tracked : ∀ path, path ∈ (statusPaths (encodeStatus listing)).tracked ↔
    ∃ record ∈ listing, record.code ≠ .untracked ∧
      (record.path.bytes = path ∨ record.origin.map GitPath.bytes = some path)
  foreign : hasNonUtf8StatusPath (encodeStatus listing) = true ↔
    ∃ record ∈ listing, record.nonUtf8 = true

/-- No untracked path begins with white space, and none is followed by another
record of the same path that hides it. -/
structure Plain (listing : List StatusRecord) : Prop where
  unspaced : Representable listing → ∀ record ∈ listing, record.code = .untracked →
    Utf8.leadingSpace record.path.bytes = none
  shown : Representable listing → ∀ record ∈ listing, record.code = .untracked →
    (endsUntracked (recordsOf listing record.path.bytes) ||
      beginsUntracked (recordsOf listing record.path.bytes)) = true

/-- A path shown as untracked has an untracked record. -/
theorem untracked_of_shown
    (shown : (endsUntracked (recordsOf listing path) || beginsUntracked (recordsOf listing path)) =
      true) : ∃ record ∈ listing, record.code = .untracked ∧ record.path.bytes = path := by
  have inside : ∀ record ∈ recordsOf listing path,
      record ∈ listing ∧ record.path.bytes = path := by
    intro record member
    obtain ⟨listed, kept⟩ := List.mem_filter.mp member
    exact ⟨listed, of_decide_eq_true (Bool.and_eq_true_iff.mp kept).2⟩
  rcases Bool.or_eq_true_iff.mp shown with ends | begins
  · have last := List.mem_of_getLast? (of_decide_eq_true ends)
    obtain ⟨record, member, untracked⟩ := List.mem_map.mp (List.mem_filter.mp last).1
    refine ⟨record, (inside record member).1, ?_, (inside record member).2⟩
    cases code : record.code with
    | untracked => rfl
    | tracked index worktree =>
        rw [code] at untracked
        cases worktree <;> cases untracked
  · cases records : recordsOf listing path with
    | nil =>
        rw [records] at begins
        cases begins
    | cons first rest =>
        rw [records] at begins inside
        have untracked := of_decide_eq_true (Bool.and_eq_true_iff.mp begins).1
        obtain ⟨listed, same⟩ := inside first List.mem_cons_self
        exact ⟨first, listed, untracked, same⟩

theorem readers_agree_iff (quiet : ∀ record ∈ listing, record.Quiet) :
    Agree listing ↔ Plain listing := by
  obtain ⟨paths, captured, collected⟩ := captureUntracked_encodeStatus quiet
  -- under UTF-8 the first reader's name of an untracked path is the path, trimmed
  have trimmed : Representable listing → ∀ record ∈ listing, record.code = .untracked →
      record.captured = some (Utf8.trimStart record.path.bytes) := by
    intro representable record member untracked
    rw [StatusRecord.captured, if_pos untracked,
      Utf8.lossy_of_valid (representable record member untracked)]
  have foreign : hasNonUtf8StatusPath (encodeStatus listing) = true ↔
      ∃ record ∈ listing, record.nonUtf8 = true := by
    rw [hasNonUtf8StatusPath, filter_encodeStatus, nonUtf8Loop_listing quiet, List.any_eq_true]
  constructor
  · intro agree
    constructor
    · intro representable record member untracked
      have listed : record.path.bytes ∈ (statusPaths (encodeStatus listing)).untracked :=
        (statusPaths_encodeStatus listing).1.mpr ⟨record, member, untracked, rfl⟩
      obtain ⟨other, inside, name⟩ := (collected _).mp
        ((agree.captured representable paths captured _).mpr listed)
      have code : other.code = .untracked := by
        by_contra tracked
        rw [StatusRecord.captured, if_neg tracked] at name
        cases name
      rw [trimmed representable other inside code] at name
      rw [← Option.some.inj name]
      exact Utf8.leadingSpace_trimStart _
    · intro representable record member untracked
      rw [← mem_parsedUntracked listing false, agree.parsed representable]
      exact (statusPaths_encodeStatus listing).1.mpr ⟨record, member, untracked, rfl⟩
  · intro plain
    refine ⟨by rw [captured]; simp, ?_, ?_, fun path => (statusPaths_encodeStatus listing).2, foreign⟩
    · intro representable others same path
      obtain rfl : paths = others := Option.some.inj (captured.symm.trans same)
      rw [collected, (statusPaths_encodeStatus listing).1]
      apply exists_congr
      intro record
      apply and_congr_right
      intro member
      by_cases untracked : record.code = .untracked
      · rw [trimmed representable record member untracked,
          Utf8.trimStart_of_none (plain.unspaced representable record member untracked)]
        simp [untracked]
      · simp [StatusRecord.captured, untracked]
    · intro representable truncated path
      rw [mem_parsedUntracked, (statusPaths_encodeStatus listing).1]
      constructor
      · exact untracked_of_shown
      · rintro ⟨record, member, untracked, rfl⟩
        exact plain.shown representable record member untracked

/-- A tracked file replaced by an untracked one, and a rename in the worktree. -/
def replacedListing : List StatusRecord :=
  [⟨.tracked .deleted .unmodified, ⟨[0x61], by decide, by decide⟩, none, rfl⟩,
    ⟨.tracked .unmodified .renamed, ⟨[0x62, 0x20], by decide, by decide⟩,
      some ⟨[0x20, 0x63, 0x2E, 0x64], by decide, by decide⟩, rfl⟩,
    ⟨.untracked, ⟨[0x61], by decide, by decide⟩, none, rfl⟩]

theorem readers_agree_replaced : Agree replacedListing := by
  have quiet : ∀ record ∈ replacedListing, record.Quiet := by
    intro record member
    simp only [replacedListing, List.mem_cons, List.not_mem_nil, or_false] at member
    rcases member with rfl | rfl | rfl
    · intro _ origin absent
      cases absent
    · intro _ origin stray
      obtain rfl := Option.some.inj stray
      exact ⟨by decide, .inr (by decide)⟩
    · intro _ origin absent
      cases absent
  exact (readers_agree_iff quiet).mpr ⟨fun _ => by decide, fun _ => by decide⟩

/-- The rename of `aé` in the worktree. -/
def strayListing : List StatusRecord :=
  [⟨.tracked .unmodified .renamed, ⟨[0x6E, 0x65, 0x77], by decide, by decide⟩,
    some ⟨[0x61, 0xC3, 0xA9], by decide, by decide⟩, rfl⟩]

/-- The untracked file ` x`. -/
def spacedListing : List StatusRecord :=
  [⟨.untracked, ⟨[0x20, 0x78], by decide, by decide⟩, none, rfl⟩]

theorem readers_disagree : ¬ Agree strayListing ∧ ¬ Agree spacedListing := by
  constructor
  · intro agree
    exact agree.returns (by decide)
  · intro agree
    have listed := agree.captured (by unfold Representable; decide) [[0x78]]
      (by decide +kernel) [0x78]
    exact absurd listed (by decide +kernel)

end Zeron.Git
