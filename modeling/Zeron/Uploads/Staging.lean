import Zeron.Command.Host
import Zeron.Data.ByteOrder
import Zeron.Data.Lines

namespace Zeron.Uploads

open Zeron.Data

/-! # Attachment staging

Chunks of an upload are files of its staging directory; a commit joins them, writes the
file of the uploads directory and removes the staging directory.  A pending ref names the
bytes by the upload's id and the file's name, and resolves to that file.
-/

abbrev Bytes := List UInt8

def maxBytes : Nat := 32 * 1024 * 1024

def pendingRefPrefix : String := "pending://"

def pendingRef (uploadId fileName : String) : String :=
  pendingRefPrefix ++ uploadId ++ "/" ++ fileName

/-- `split_once('/')` on what follows the scheme. -/
def parsePendingRef (path : String) : Option (String × String) :=
  (path.toList.dropPrefix? pendingRefPrefix.toList).bind fun rest =>
    let id := rest.takeWhile (· ≠ '/')
    match rest.drop id.length with
    | _ :: name => if id ≠ [] ∧ name ≠ [] then some (String.ofList id, String.ofList name) else none
    | [] => none

/-! ## Names -/

/-- `Path::file_name`: the last component, unless it is `..`. -/
def fileNameOf (path : List Char) : Option (List Char) :=
  match (path.splitOn '/').reverse.dropWhile fun part => part = [] ∨ part = ['.'] with
  | part :: _ => if part = ['.', '.'] then none else some part
  | [] => none

def isSafe (c : Char) : Bool := c.isAlphanum || c == '.' || c == '-' || c == '_'

def sanitize (fileName : List Char) : List Char :=
  let base := (fileNameOf fileName).getD []
  let cleaned := base.map fun c => if isSafe c then c else '_'
  let tail := (cleaned.reverse.take 80).reverse
  if tail = [] then "upload".toList else tail

/-- The ids `staging_dir` takes. -/
def validId (uploadId : String) : Bool :=
  uploadId ≠ "" && decide (uploadId.toList.length ≤ 64) &&
    uploadId.toList.all fun c => c.isAlphanum || c == '-' || c == '_'

/-- The file a commit writes. -/
def committedName (uploadId fileName : String) : String :=
  String.ofList (uploadId.toList.take 8 ++ '-' :: sanitize fileName.toList)

/-- `pending_target`. -/
def pendingTarget (uploadId fileName : String) : String :=
  String.ofList (sanitize (uploadId.toList.take 8) ++ '-' :: sanitize fileName.toList)

/-! ## The directories -/

/-- The chunk files of a staging directory by their index. -/
abbrev Chunks := List (Nat × Bytes)

/-- `committed` is the bytes of the last completed commit of an id and a name. -/
structure Store where
  staging : String → Option Chunks
  files : String → Option Bytes
  committed : String × String → Option Bytes

def Store.start : Store := ⟨fun _ => none, fun _ => none, fun _ => none⟩

def nextFreeSeq (chunks : Chunks) : Nat := (chunks.map fun chunk => chunk.1 + 1).max?.getD 0

def writeChunk (chunks : Chunks) (index : Nat) (data : Bytes) : Chunks :=
  chunks.filter (·.1 ≠ index) ++ [(index, data)]

/-- Chunk files in order, none missing, each read as text and trimmed. -/
def joinFrom : Nat → Chunks → Option (List Char)
  | _, [] => some []
  | index, (seq, data) :: rest =>
      if seq = index then
        (fromUtf8 data).bind fun text =>
          (joinFrom (index + 1) rest).map (Command.trim text.toList ++ ·)
      else none

def joinChunks (chunks : Chunks) : Option (List Char) :=
  joinFrom 0 (chunks.mergeSort fun left right => decide (left.1 ≤ right.1))

/-- `expired` are the staging directories the sweep of an append reclaims; `count` is how many
bytes of the file being written are there when the process dies. -/
inductive Action where
  | append (uploadId : String) (data : String) (seq : Option Nat) (expired : List String)
  | commit (uploadId fileName : String)
  | crashAppend (uploadId : String) (data : String) (seq : Option Nat) (expired : List String)
      (count : Nat)
  | crashCommit (uploadId fileName : String) (count : Nat)
deriving DecidableEq

/-- The staging directory after the sweep, made if it is not there, and the index to write. -/
def Store.prepare (store : Store) (uploadId : String) (seq : Option Nat) (expired : List String) :
    Store × Chunks × Nat :=
  let swept := fun id => if id ∈ expired then none else store.staging id
  let chunks := (swept uploadId).getD []
  ({ store with staging := Function.update swept uploadId (some chunks) }, chunks,
    seq.getD (nextFreeSeq chunks))

/-- `landing` is what of the chunk reaches its file. -/
def Store.append (store : Store) (uploadId data : String) (seq : Option Nat)
    (expired : List String) (landing : Bytes → Bytes) : Store :=
  if validId uploadId then
    let (ready, chunks, index) := store.prepare uploadId seq expired
    if 1000000 < index then ready
    else
      let staged := ((chunks.filter (·.1 ≠ index)).map fun chunk => chunk.2.length).sum
      let kept :=
        if maxBytes < (staged + (utf8 data).length) * 3 / 4 then none
        else some (writeChunk chunks index (landing (utf8 data)))
      { ready with staging := Function.update ready.staging uploadId kept }
  else store

section steps

variable (decode : List Char → Option Bytes)

/-- The bytes a commit joins: none where it ends with an error before. -/
def Store.assembled (store : Store) (uploadId : String) : Option Bytes :=
  if validId uploadId then
    match store.staging uploadId with
    | some (first :: rest) => (joinChunks (first :: rest)).bind decode
    | _ => none
  else none

def Store.commit (store : Store) (uploadId fileName : String) : Store :=
  match store.assembled decode uploadId with
  | none => store
  | some bytes =>
      let staging := Function.update store.staging uploadId none
      if maxBytes < bytes.length then { store with staging }
      else
        let target := committedName uploadId fileName
        { staging
          files := Function.update store.files target (some bytes)
          committed := Function.update store.committed (uploadId, fileName) (some bytes) }

/-- A crash while the file is written, or before the staging directory is removed. -/
def Store.crashCommit (store : Store) (uploadId fileName : String) (count : Nat) : Option Store :=
  match store.assembled decode uploadId with
  | none => none
  | some bytes =>
      if maxBytes < bytes.length then none
      else
        let target := committedName uploadId fileName
        some { store with files := Function.update store.files target (some (bytes.take count)) }

def Store.step (store : Store) : Action → Option Store
  | .append uploadId data seq expired => some (store.append uploadId data seq expired id)
  | .commit uploadId fileName => some (store.commit decode uploadId fileName)
  | .crashAppend uploadId data seq expired count =>
      some (store.append uploadId data seq expired (List.take count))
  | .crashCommit uploadId fileName count => store.crashCommit decode uploadId fileName count

end steps

/-- The name of the file a ref resolves to, which exists. -/
def Store.resolvePending (store : Store) (path : String) : Option String :=
  (parsePendingRef path).bind fun ref =>
    let target := pendingTarget ref.1 ref.2
    if (store.files target).isSome then some target else none

end Zeron.Uploads
