import Zeron.Data.Lines
import Zeron.Data.Utf8

namespace Zeron.Git

open Zeron.Data

/-! # Readers of a Git status

A porcelain v1 listing with `-z`: fields ended by NUL, a record's two status
letters and its path in one field, and the origin of a rename or copy in the
next.  Four loops read it, each with its own rules.
-/

/-- A letter of one status column. -/
inductive Letter
  | unmodified
  | modified
  | typeChanged
  | added
  | deleted
  | renamed
  | copied
  | unmerged
deriving DecidableEq, Repr

def Letter.byte : Letter → UInt8
  | .unmodified => 0x20
  | .modified => 0x4D
  | .typeChanged => 0x54
  | .added => 0x41
  | .deleted => 0x44
  | .renamed => 0x52
  | .copied => 0x43
  | .unmerged => 0x55

def Letter.moved (letter : Letter) : Bool := letter = .renamed || letter = .copied

inductive Code
  | untracked
  | tracked (index worktree : Letter)
deriving DecidableEq, Repr

def Code.bytes : Code → ByteString
  | .untracked => [0x3F, 0x3F]
  | .tracked index worktree => [index.byte, worktree.byte]

def Code.moved : Code → Bool
  | .untracked => false
  | .tracked index worktree => index.moved || worktree.moved

/-- A path as Git knows it. -/
structure GitPath where
  bytes : ByteString
  nonempty : bytes ≠ []
  plain : (0 : UInt8) ∉ bytes

structure StatusRecord where
  code : Code
  path : GitPath
  origin : Option GitPath
  /-- An origin follows a rename or a copy, in either column, and nothing else. -/
  follows : origin.isSome = code.moved

/-- The first field of a record. -/
def StatusRecord.field (record : StatusRecord) : ByteString :=
  record.code.bytes ++ 0x20 :: record.path.bytes

def StatusRecord.fields (record : StatusRecord) : List ByteString :=
  record.field :: record.origin.toList.map GitPath.bytes

def encodeStatus (listing : List StatusRecord) : ByteString :=
  (listing.flatMap StatusRecord.fields).flatMap fun field => field ++ [0]

/-! ## The readers -/

def lexLe (left right : ByteString) : Bool := decide (left ≤ right)

def sortBytes (paths : List ByteString) : List ByteString := paths.mergeSort lexLe

/-- `Vec::dedup`. -/
def dedup : List ByteString → List ByteString
  | first :: second :: rest =>
      if first = second then dedup (second :: rest) else first :: dedup (second :: rest)
  | paths => paths

def splitZ (value : ByteString) : List ByteString :=
  ((value.splitOn 0).filter (· ≠ [])).map Utf8.lossy

def starts (field : ByteString) (letter : UInt8) : Bool := field.head? = some letter

/-- The untracked listing of `capture_diff_against`; `none` is the panic of a `split_at`
inside a character. -/
def untrackedLoop : List ByteString → Option (List ByteString)
  | [] => some []
  | record :: rest =>
      if record.length < 3 then untrackedLoop rest
      else if Utf8.boundary record 2 = false then none
      else
        let skips := starts record 0x52 || starts record 0x43
        let later :=
          match rest with
          | [] => some []
          | origin :: after => if skips then untrackedLoop after else untrackedLoop (origin :: after)
        if record.take 2 = [0x3F, 0x3F] then
          later.map fun paths => Utf8.trimStart (record.drop 2) :: paths
        else later

def captureUntracked (status : ByteString) : Option (List ByteString) :=
  (untrackedLoop (splitZ status)).map sortBytes

def nonUtf8Loop : List ByteString → Bool
  | [] => false
  | record :: rest =>
      if record.length < 3 ∨ record[2]? ≠ some 0x20 then nonUtf8Loop rest
      else if Utf8.valid (record.drop 3) = false then true
      else
        match rest with
        | [] => false
        | origin :: after =>
            if starts record 0x52 || starts record 0x43 then
              if Utf8.valid origin = false then true else nonUtf8Loop after
            else nonUtf8Loop (origin :: after)

def hasNonUtf8StatusPath (value : ByteString) : Bool :=
  nonUtf8Loop ((value.splitOn 0).filter (· ≠ []))

structure StatusPaths where
  tracked : List ByteString := []
  untracked : List ByteString := []

def StatusPaths.prepend (tracked untracked : List ByteString) (paths : StatusPaths) : StatusPaths :=
  ⟨tracked ++ paths.tracked, untracked ++ paths.untracked⟩

def statusLoop : List ByteString → StatusPaths
  | [] => {}
  | record :: rest =>
      if record.length < 4 ∨ record[2]? ≠ some 0x20 then statusLoop rest
      else
        let code := record.take 2
        let path := record.drop 3
        if code = [0x3F, 0x3F] then (statusLoop rest).prepend [] [path]
        else if code = [0x21, 0x21] then statusLoop rest
        else
          match rest with
          | [] => { tracked := [path] }
          | origin :: after =>
              if code.contains 0x52 || code.contains 0x43 then
                (statusLoop after).prepend [path, origin] []
              else (statusLoop (origin :: after)).prepend [path] []

def statusPaths (status : ByteString) : StatusPaths :=
  let paths := statusLoop ((status.splitOn 0).filter (· ≠ []))
  { tracked := dedup (sortBytes paths.tracked), untracked := dedup (sortBytes paths.untracked) }

inductive GitFileState
  | unchanged
  | added
  | modified
  | deleted
  | renamed
  | copied
  | unmerged
  | untracked
  | typeChanged
deriving DecidableEq, Repr

def fileState (code : UInt8) : Option GitFileState :=
  if code = 0x20 then some .unchanged
  else if code = 0x41 then some .added
  else if code = 0x4D then some .modified
  else if code = 0x44 then some .deleted
  else if code = 0x52 then some .renamed
  else if code = 0x43 then some .copied
  else if code = 0x55 then some .unmerged
  else if code = 0x3F then some .untracked
  else if code = 0x54 then some .typeChanged
  else none

structure GitFileStatus where
  path : ByteString
  oldPath : Option ByteString
  index : GitFileState
  worktree : GitFileState
deriving DecidableEq, Repr

structure Parsed where
  files : List GitFileStatus := []
  complete : Bool := true

def Parsed.incomplete (parsed : Parsed) : Parsed := { parsed with complete := false }

/-- One record of `git_status::parse`, its origin field already taken. -/
def parseRecord (record : ByteString) (renamed : Bool) (old : Option ByteString)
    (later : Parsed) : Parsed :=
  match fileState (record.headD 0), fileState (record.getD 1 0) with
  | some index, some worktree =>
      if Utf8.valid (record.drop 3) = false then later.incomplete
      else
        let file (oldPath : Option ByteString) : Parsed :=
          { later with files := ⟨record.drop 3, oldPath, index, worktree⟩ :: later.files }
        match old with
        | some origin =>
            if Utf8.valid origin = true ∧ origin ≠ [] then file (some origin) else later.incomplete
        | none => if renamed then later.incomplete else file none
  | _, _ => later.incomplete

def parseLoop : List ByteString → Parsed
  | [] => {}
  | record :: rest =>
      if record = [] ∧ rest = [] then {}
      else if record.length < 4 ∨ record[2]? ≠ some 0x20 then { complete := false }
      else
        let code := record.take 2
        let renamed := code.contains 0x52 || code.contains 0x43
        match rest with
        | [] => parseRecord record renamed none {}
        | old :: after =>
            if renamed then parseRecord record renamed (some old) (parseLoop after)
            else parseRecord record renamed none (parseLoop (old :: after))

/-- The second record of a path, merged into the first. -/
def mergeFile (previous file : GitFileStatus) : GitFileStatus :=
  { previous with
    index := if file.index = .unchanged ∨ file.index = .untracked then previous.index
      else file.index
    worktree := if file.worktree ≠ .unchanged then file.worktree else previous.worktree
    oldPath := previous.oldPath.or file.oldPath }

def mergeFiles (previous : GitFileStatus) : List GitFileStatus → List GitFileStatus
  | [] => [previous]
  | file :: rest =>
      if previous.path = file.path then mergeFiles (mergeFile previous file) rest
      else previous :: mergeFiles file rest

def mergeAll : List GitFileStatus → List GitFileStatus
  | [] => []
  | file :: rest => mergeFiles file rest

def parse (bytes : ByteString) (truncated : Bool) : List GitFileStatus × Bool :=
  let parsed := parseLoop (bytes.splitOn 0)
  let ended := !truncated && (bytes.isEmpty || bytes.getLast? = some 0)
  (mergeAll (parsed.files.mergeSort fun a b => lexLe a.path b.path), ended && parsed.complete)

end Zeron.Git
