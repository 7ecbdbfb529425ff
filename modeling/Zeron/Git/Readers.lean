import Zeron.Git.Status

namespace Zeron.Git

open Zeron.Data

/-! # What the readers collect

Over a well-formed listing every loop takes a record's own field for a record.
What the first two take for a record besides is the origin of a move that only
the second column shows.
-/

variable {record : StatusRecord} {listing : List StatusRecord} {rest : List ByteString}

namespace Code

/-- A move shown in the first column, where every reader looks for it. -/
def leads : Code → Bool
  | .untracked => false
  | .tracked index _ => index.moved

@[simp] theorem length_bytes (code : Code) : code.bytes.length = 2 := by
  cases code <;> rfl

theorem bytes_ascii (code : Code) : ∃ first second, code.bytes = [first, second] ∧
    first < 0x80 ∧ second < 0x80 := by
  cases code with
  | untracked => exact ⟨_, _, rfl, by decide, by decide⟩
  | tracked index worktree =>
      refine ⟨_, _, rfl, ?_, ?_⟩
      · cases index <;> decide
      · cases worktree <;> decide

theorem bytes_eq_untracked (code : Code) : code.bytes = [0x3F, 0x3F] ↔ code = .untracked := by
  cases code with
  | untracked => simp [bytes]
  | tracked index worktree => cases index <;> simp [bytes, Letter.byte]

theorem bytes_ne_ignored (code : Code) : code.bytes ≠ [0x21, 0x21] := by
  cases code with
  | untracked => decide
  | tracked index worktree => cases index <;> simp [bytes, Letter.byte]

theorem contains_moved (code : Code) :
    (code.bytes.contains 0x52 || code.bytes.contains 0x43) = code.moved := by
  cases code with
  | untracked => decide
  | tracked index worktree => cases index <;> cases worktree <;> decide

theorem starts_moved (code : Code) (tail : ByteString) :
    (starts (code.bytes ++ tail) 0x52 || starts (code.bytes ++ tail) 0x43) = code.leads := by
  cases code with
  | untracked => simp [starts, bytes, leads]
  | tracked index worktree => cases index <;> simp [starts, bytes, leads, Letter.byte, Letter.moved]

theorem moved_of_leads {code : Code} (leads : code.leads = true) : code.moved = true := by
  cases code with
  | untracked => cases leads
  | tracked index worktree => exact Bool.or_eq_true_iff.mpr (.inl leads)

end Code

namespace StatusRecord

/-- Without an origin nothing has moved. -/
theorem leads_of_none (none : record.origin = none) : record.code.leads = false := by
  by_contra leads
  have follows := record.follows
  rw [none, Code.moved_of_leads (by simpa using leads)] at follows
  cases follows

theorem take_field (record : StatusRecord) : record.field.take 2 = record.code.bytes := by
  rw [field, List.take_left' record.code.length_bytes]

theorem drop_field (record : StatusRecord) : record.field.drop 3 = record.path.bytes := by
  obtain ⟨first, second, code, _⟩ := record.code.bytes_ascii
  simp [field, code]

theorem blank_field (record : StatusRecord) : record.field[2]? = some 0x20 := by
  obtain ⟨first, second, code, _⟩ := record.code.bytes_ascii
  simp [field, code]

theorem length_field (record : StatusRecord) : 4 ≤ record.field.length := by
  have path := List.length_pos_iff.mpr record.path.nonempty
  simp only [field, List.length_append, Code.length_bytes, List.length_cons]
  omega

theorem lossy_field (record : StatusRecord) :
    Utf8.lossy record.field = record.code.bytes ++ 0x20 :: Utf8.lossy record.path.bytes := by
  obtain ⟨first, second, code, low, high⟩ := record.code.bytes_ascii
  rw [field, code]
  simp only [List.cons_append, List.nil_append]
  rw [Utf8.lossy_cons_ascii low, Utf8.lossy_cons_ascii high, Utf8.lossy_cons_ascii (by decide)]

theorem plain_field (record : StatusRecord) : (0 : UInt8) ∉ record.field := by
  have code : (0 : UInt8) ∉ record.code.bytes := by
    cases record.code with
    | untracked => decide
    | tracked index worktree => cases index <;> cases worktree <;> decide
  simp only [field, List.mem_append, List.mem_cons, not_or]
  exact ⟨code, by decide, record.path.plain⟩

theorem field_ne_nil (record : StatusRecord) : record.field ≠ [] := by
  intro empty
  have length := record.length_field
  rw [empty] at length
  simp at length

theorem mem_fields {field : ByteString} (member : field ∈ record.fields) :
    field ≠ [] ∧ (0 : UInt8) ∉ field := by
  rcases List.mem_cons.mp member with rfl | origin
  · exact ⟨record.field_ne_nil, record.plain_field⟩
  · obtain ⟨path, _, rfl⟩ := List.mem_map.mp origin
    exact ⟨path.nonempty, path.plain⟩

end StatusRecord

theorem splitOn_fields {fields : List ByteString} (plain : ∀ field ∈ fields, (0 : UInt8) ∉ field) :
    (fields.flatMap fun field => field ++ [0]).splitOn 0 = fields ++ [[]] := by
  induction fields with
  | nil => simp
  | cons field fields ih =>
      rw [List.flatMap_cons, List.append_assoc, List.singleton_append, splitOn_append_sep,
        splitOn_plain (plain field List.mem_cons_self),
        ih fun other member => plain other (List.mem_cons_of_mem _ member)]
      rfl

theorem splitOn_encodeStatus (listing : List StatusRecord) :
    (encodeStatus listing).splitOn 0 = listing.flatMap StatusRecord.fields ++ [[]] := by
  apply splitOn_fields
  intro field member
  obtain ⟨record, _, inside⟩ := List.mem_flatMap.mp member
  exact (StatusRecord.mem_fields inside).2

/-- The three loops that drop empty fields see exactly the listing's. -/
theorem filter_encodeStatus (listing : List StatusRecord) :
    ((encodeStatus listing).splitOn 0).filter (· ≠ []) =
      listing.flatMap StatusRecord.fields := by
  rw [splitOn_encodeStatus, List.filter_append, List.filter_eq_self.mpr]
  · simp
  · intro field member
    obtain ⟨record, _, inside⟩ := List.mem_flatMap.mp member
    simpa using (StatusRecord.mem_fields inside).1

/-! ## Strays -/

/-- A field read as a record although it is an origin, without effect: UTF-8, and too short to
be a record or one whose first two characters are no code the readers act on. -/
def Inert (origin : ByteString) : Prop :=
  Utf8.valid origin = true ∧ (origin.length < 3 ∨
    Utf8.boundary origin 2 = true ∧ starts origin 0x52 = false ∧ starts origin 0x43 = false ∧
      origin.take 2 ≠ [0x3F, 0x3F])

/-- The origins of moves that only the second column shows are inert. -/
def StatusRecord.Quiet (record : StatusRecord) : Prop :=
  record.code.leads = false → ∀ origin, record.origin = some origin → Inert origin.bytes

/-- The fields after a record, without its origin where the loop skips one. -/
def skipOne (skips : Bool) (rest : List ByteString) : List ByteString :=
  if skips then rest.tail else rest

theorem untrackedLoop_cons (field : ByteString) (rest : List ByteString) :
    untrackedLoop (field :: rest) =
      if field.length < 3 then untrackedLoop rest
      else if Utf8.boundary field 2 = false then none
      else if field.take 2 = [0x3F, 0x3F] then
        (untrackedLoop (skipOne (starts field 0x52 || starts field 0x43) rest)).map fun paths =>
          Utf8.trimStart (field.drop 2) :: paths
      else untrackedLoop (skipOne (starts field 0x52 || starts field 0x43) rest) := by
  conv_lhs => unfold untrackedLoop
  have nil : untrackedLoop [] = some [] := rfl
  cases rest with
  | nil => simp [skipOne, nil]
  | cons origin after =>
      cases skips : (starts field 0x52 || starts field 0x43) <;> simp [skipOne]

theorem nonUtf8Loop_cons (field : ByteString) (rest : List ByteString) :
    nonUtf8Loop (field :: rest) =
      if field.length < 3 ∨ field[2]? ≠ some 0x20 then nonUtf8Loop rest
      else if Utf8.valid (field.drop 3) = false then true
      else if (starts field 0x52 || starts field 0x43) = true then
        rest.head?.any (fun origin => !Utf8.valid origin) || nonUtf8Loop rest.tail
      else nonUtf8Loop rest := by
  conv_lhs => unfold nonUtf8Loop
  cases rest with
  | nil => simp [nonUtf8Loop]
  | cons origin after => cases valid : Utf8.valid origin <;> simp [valid]

theorem statusLoop_cons (field : ByteString) (rest : List ByteString) :
    statusLoop (field :: rest) =
      if field.length < 4 ∨ field[2]? ≠ some 0x20 then statusLoop rest
      else if field.take 2 = [0x3F, 0x3F] then (statusLoop rest).prepend [] [field.drop 3]
      else if field.take 2 = [0x21, 0x21] then statusLoop rest
      else if ((field.take 2).contains 0x52 || (field.take 2).contains 0x43) = true then
        (statusLoop rest.tail).prepend (field.drop 3 :: rest.head?.toList) []
      else (statusLoop rest).prepend [field.drop 3] [] := by
  conv_lhs => unfold statusLoop
  cases rest with
  | nil => simp [statusLoop, StatusPaths.prepend]
  | cons origin after => simp

theorem parseLoop_cons {field : ByteString} (present : field ≠ []) (rest : List ByteString) :
    parseLoop (field :: rest) =
      if field.length < 4 ∨ field[2]? ≠ some 0x20 then { complete := false }
      else if ((field.take 2).contains 0x52 || (field.take 2).contains 0x43) = true then
        parseRecord field true rest.head? (parseLoop rest.tail)
      else parseRecord field false none (parseLoop rest) := by
  conv_lhs => unfold parseLoop
  have nil : parseLoop [] = {} := rfl
  cases moved : ((field.take 2).contains 0x52 || (field.take 2).contains 0x43) with
  | false =>
      cases rest <;> simp only [present, false_and, if_false, moved, nil, Bool.false_eq_true]
  | true =>
      cases rest <;> simp only [present, false_and, if_false, moved, nil, if_true, List.head?_nil,
        List.head?_cons, List.tail_nil, List.tail_cons]

theorem untrackedLoop_inert {origin : ByteString} (inert : Inert origin) :
    untrackedLoop (Utf8.lossy origin :: rest) = untrackedLoop rest := by
  rw [Utf8.lossy_of_valid inert.1, untrackedLoop_cons]
  split
  · rfl
  · rename_i long
    obtain ⟨inside, notR, notC, notUntracked⟩ := inert.2.resolve_left long
    simp [inside, notR, notC, notUntracked, skipOne]

/-- The name `capture_diff_against` collects from a record. -/
def StatusRecord.captured (record : StatusRecord) : Option ByteString :=
  if record.code = .untracked then some (Utf8.trimStart (Utf8.lossy record.path.bytes)) else none

theorem untrackedLoop_record (quiet : record.Quiet) (rest : List ByteString) :
    untrackedLoop (record.fields.map Utf8.lossy ++ rest) =
      (untrackedLoop rest).map fun paths => record.captured.toList ++ paths := by
  have long : ¬ (Utf8.lossy record.field).length < 3 := by
    rw [record.lossy_field, List.length_append, Code.length_bytes, List.length_cons]
    omega
  have inside : Utf8.boundary (Utf8.lossy record.field) 2 = true := by
    obtain ⟨first, second, code, _⟩ := record.code.bytes_ascii
    rw [record.lossy_field, code]
    simp [Utf8.boundary]
  have code : (Utf8.lossy record.field).take 2 = record.code.bytes := by
    rw [record.lossy_field, List.take_left' record.code.length_bytes]
  have name : (Utf8.lossy record.field).drop 2 = 0x20 :: Utf8.lossy record.path.bytes := by
    rw [record.lossy_field, List.drop_left' record.code.length_bytes]
  have skips : (starts (Utf8.lossy record.field) 0x52 || starts (Utf8.lossy record.field) 0x43) =
      record.code.leads := by
    rw [record.lossy_field, Code.starts_moved]
  -- what comes after the record's own field
  have after : untrackedLoop (skipOne record.code.leads
      ((record.origin.toList.map GitPath.bytes).map Utf8.lossy ++ rest)) = untrackedLoop rest := by
    cases origin : record.origin with
    | none =>
        rw [record.leads_of_none origin]
        rfl
    | some path =>
        cases leads : record.code.leads with
        | true => rfl
        | false => exact untrackedLoop_inert (quiet leads path origin)
  rw [StatusRecord.fields, List.map_cons, List.cons_append, untrackedLoop_cons, if_neg long,
    if_neg (by rw [inside]; decide), code, name, skips, after, Utf8.trimStart_space,
    StatusRecord.captured]
  simp only [Code.bytes_eq_untracked]
  split
  · simp
  · simp

theorem nonUtf8Loop_inert {origin : ByteString} (inert : Inert origin) :
    nonUtf8Loop (origin :: rest) = nonUtf8Loop rest := by
  rw [nonUtf8Loop_cons]
  split
  · rfl
  · rename_i record
    simp only [not_or, not_lt, not_not] at record
    have long : ¬ origin.length < 3 := by omega
    obtain ⟨_, notR, notC, _⟩ := inert.2.resolve_left long
    have valid : Utf8.valid (origin.drop 3) = true := by
      have split : origin = origin.take 2 ++ 0x20 :: origin.drop 3 := by
        obtain ⟨here, blank⟩ := List.getElem?_eq_some_iff.mp record.2
        conv_lhs => rw [← List.take_append_drop 2 origin]
        rw [List.drop_eq_getElem_cons here, blank]
      have well := inert.1
      rw [split] at well
      exact Utf8.valid_after_ascii (by decide) well
    simp [valid, notR, notC]

/-- A record with a path or an origin that is not UTF-8. -/
def StatusRecord.nonUtf8 (record : StatusRecord) : Bool :=
  !Utf8.valid record.path.bytes || record.origin.any fun origin => !Utf8.valid origin.bytes

theorem nonUtf8Loop_record (quiet : record.Quiet) (rest : List ByteString) :
    nonUtf8Loop (record.fields ++ rest) = (record.nonUtf8 || nonUtf8Loop rest) := by
  have whole : ¬ (record.field.length < 3 ∨ record.field[2]? ≠ some 0x20) := by
    have length := record.length_field
    simp only [record.blank_field, ne_eq, not_true_eq_false, or_false]
    omega
  have skips : (starts record.field 0x52 || starts record.field 0x43) = record.code.leads :=
    record.code.starts_moved _
  rw [StatusRecord.fields, List.cons_append, nonUtf8Loop_cons, if_neg whole, record.drop_field,
    skips, StatusRecord.nonUtf8]
  cases valid : Utf8.valid record.path.bytes with
  | false => rfl
  | true =>
      cases origin : record.origin with
      | none => simp [record.leads_of_none origin]
      | some path =>
          cases leads : record.code.leads with
          | true => simp
          | false =>
              have inert := quiet leads path origin
              simp [nonUtf8Loop_inert inert, inert.1]

/-- The paths `status_paths` takes from a record as tracked. -/
def StatusRecord.trackedPaths (record : StatusRecord) : List ByteString :=
  if record.code = .untracked then []
  else record.path.bytes :: record.origin.toList.map GitPath.bytes

def StatusRecord.untrackedPaths (record : StatusRecord) : List ByteString :=
  if record.code = .untracked then [record.path.bytes] else []

/-- An untracked record has no origin. -/
theorem StatusRecord.origin_of_not_moved (still : record.code.moved = false) :
    record.origin = none := by
  have follows := record.follows
  rw [still] at follows
  exact Option.not_isSome_iff_eq_none.mp (by rw [follows]; decide)

theorem StatusRecord.whole (record : StatusRecord) :
    ¬ (record.field.length < 4 ∨ record.field[2]? ≠ some 0x20) := by
  have length := record.length_field
  simp only [record.blank_field, ne_eq, not_true_eq_false, or_false]
  omega

theorem statusLoop_record (record : StatusRecord) (rest : List ByteString) :
    statusLoop (record.fields ++ rest) =
      (statusLoop rest).prepend record.trackedPaths record.untrackedPaths := by
  rw [StatusRecord.fields, List.cons_append, statusLoop_cons, if_neg record.whole,
    record.drop_field, record.take_field, Code.contains_moved, StatusRecord.trackedPaths,
    StatusRecord.untrackedPaths]
  simp only [Code.bytes_eq_untracked, Code.bytes_ne_ignored, if_false]
  by_cases untracked : record.code = .untracked
  · have none := record.origin_of_not_moved (by rw [untracked]; rfl)
    simp [untracked, none]
  · simp only [untracked, if_false]
    cases moved : record.code.moved with
    | false => simp [record.origin_of_not_moved moved]
    | true =>
        have follows := record.follows
        rw [moved] at follows
        obtain ⟨origin, present⟩ := Option.isSome_iff_exists.mp follows
        simp [present]

def Letter.state : Letter → GitFileState
  | .unmodified => .unchanged
  | .modified => .modified
  | .typeChanged => .typeChanged
  | .added => .added
  | .deleted => .deleted
  | .renamed => .renamed
  | .copied => .copied
  | .unmerged => .unmerged

def Code.index : Code → GitFileState
  | .untracked => .untracked
  | .tracked index _ => index.state

def Code.worktree : Code → GitFileState
  | .untracked => .untracked
  | .tracked _ worktree => worktree.state

theorem fileState_byte (letter : Letter) : fileState letter.byte = some letter.state := by
  cases letter <;> rfl

theorem fileState_code (code : Code) (tail : ByteString) :
    fileState ((code.bytes ++ tail).headD 0) = some code.index ∧
      fileState ((code.bytes ++ tail).getD 1 0) = some code.worktree := by
  cases code with
  | untracked => exact ⟨rfl, rfl⟩
  | tracked index worktree => exact ⟨fileState_byte index, fileState_byte worktree⟩

/-- What `git_status::parse` makes of a record. -/
def StatusRecord.status (record : StatusRecord) : GitFileStatus where
  path := record.path.bytes
  oldPath := record.origin.map GitPath.bytes
  index := record.code.index
  worktree := record.code.worktree

theorem parseRecord_field (renamed : Bool) (old : Option ByteString) (later : Parsed) :
    parseRecord record.field renamed old later =
      if Utf8.valid record.path.bytes = false then later.incomplete
      else if old.any (fun origin => Utf8.valid origin && origin ≠ []) ∨
          old = none ∧ renamed = false then
        { later with files := ⟨record.path.bytes, old, record.code.index,
          record.code.worktree⟩ :: later.files }
      else later.incomplete := by
  obtain ⟨index, worktree⟩ := fileState_code record.code (0x20 :: record.path.bytes)
  unfold parseRecord
  rw [record.drop_field, StatusRecord.field, index, worktree]
  cases old with
  | none => cases renamed <;> simp
  | some origin => simp

theorem parseLoop_record (record : StatusRecord) (rest : List ByteString) :
    parseLoop (record.fields ++ rest) =
      if record.nonUtf8 then (parseLoop rest).incomplete
      else { parseLoop rest with files := record.status :: (parseLoop rest).files } := by
  rw [StatusRecord.fields, List.cons_append, parseLoop_cons record.field_ne_nil,
    if_neg record.whole, record.take_field, Code.contains_moved, StatusRecord.status,
    StatusRecord.nonUtf8]
  cases moved : record.code.moved with
  | false =>
      rw [record.origin_of_not_moved moved, if_neg (by decide), parseRecord_field]
      cases Utf8.valid record.path.bytes <;> simp
  | true =>
      have follows := record.follows
      rw [moved] at follows
      obtain ⟨old, present⟩ := Option.isSome_iff_exists.mp follows
      rw [present, if_pos rfl, parseRecord_field]
      cases path : Utf8.valid record.path.bytes <;> cases origin : Utf8.valid old.bytes <;>
        simp [origin, old.nonempty]

/-! ## Whole listings -/

theorem untrackedLoop_listing (quiet : ∀ record ∈ listing, record.Quiet) :
    untrackedLoop ((listing.flatMap StatusRecord.fields).map Utf8.lossy) =
      some (listing.flatMap fun record => record.captured.toList) := by
  induction listing with
  | nil => rfl
  | cons record rest ih =>
      rw [List.flatMap_cons, List.map_append, untrackedLoop_record (quiet record List.mem_cons_self),
        ih fun other member => quiet other (List.mem_cons_of_mem _ member)]
      rfl

theorem nonUtf8Loop_listing (quiet : ∀ record ∈ listing, record.Quiet) :
    nonUtf8Loop (listing.flatMap StatusRecord.fields) = listing.any StatusRecord.nonUtf8 := by
  induction listing with
  | nil => rfl
  | cons record rest ih =>
      rw [List.flatMap_cons, nonUtf8Loop_record (quiet record List.mem_cons_self),
        ih fun other member => quiet other (List.mem_cons_of_mem _ member), List.any_cons]

theorem statusLoop_listing (listing : List StatusRecord) :
    statusLoop (listing.flatMap StatusRecord.fields) =
      ⟨listing.flatMap StatusRecord.trackedPaths, listing.flatMap StatusRecord.untrackedPaths⟩ := by
  induction listing with
  | nil => rfl
  | cons record rest ih =>
      rw [List.flatMap_cons, statusLoop_record, ih]
      rfl

theorem parseLoop_listing (listing : List StatusRecord) :
    parseLoop (listing.flatMap StatusRecord.fields ++ [[]]) =
      { files := (listing.filter fun record => !record.nonUtf8).map StatusRecord.status
        complete := listing.all fun record => !record.nonUtf8 } := by
  induction listing with
  | nil => simp [parseLoop]
  | cons record rest ih =>
      rw [List.flatMap_cons, List.append_assoc, parseLoop_record, ih]
      cases foreign : record.nonUtf8 with
      | true => simp [foreign, Parsed.incomplete]
      | false => simp [foreign]

end Zeron.Git
