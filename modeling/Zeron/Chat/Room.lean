import Zeron.Data.Json
import Zeron.Chat.Log

namespace Zeron.Chat

open Zeron.Data

/-! # The chat room

What one room answers over its two transports.  A room event runs to completion
before the next one, so each operation here is one atomic step.  Frames are the
values their encodings carry.
-/

structure StateHeader where
  headSeq : Nat
  seqFloor : Nat
  checkpointSeq : Nat
  checkpointSize : Nat
  rowCount : Nat
  rowBytes : Nat
deriving DecidableEq

inductive ClientFrame where
  | hello (cursor : Nat) (device : String)
  | rowsReq (after : Nat) (excludeOwn : Bool)
  | push (batchId : String) (payload : Bytes)
  | probe
deriving DecidableEq

inductive ServerFrame where
  | state (header : StateHeader) (frontier : Bytes)
  | row (seq : Nat) (device batchId : String) (payload : Bytes)
  | rowsDone (headSeq : Nat)
  | ack (batchId : String) (seq : Nat) (dup : Bool)
  | probeOk (headSeq : Nat)
  | error (code message batchId : String)
deriving DecidableEq

structure QuotaWindow where
  since : Int
  pushes : Nat
  bytes : Nat
deriving DecidableEq

/-- What the room attaches to one of its sockets. -/
structure SocketState where
  device : String
  /-- Set once a valid hello established the session. -/
  ready : Bool
deriving DecidableEq

structure ChatRoom where
  log : ChatLog
  quotas : List (String × QuotaWindow)
deriving DecidableEq

def LogRow.frame (row : LogRow) : ServerFrame := .row row.seq row.device row.batchId row.bytes

/-- `logStats`, as far as a state frame carries it. -/
def ChatLog.stats (log : ChatLog) : StateHeader where
  headSeq := log.headSeq
  seqFloor := log.seqFloor
  checkpointSeq := log.checkpointSeq
  checkpointSize := log.checkpointSize
  rowCount := log.rows.length
  rowBytes := (log.rows.map (·.bytes.length)).sum

namespace ChatRoom

def maxHeaderBytes : Nat := 4096

def quotaWindowMs : Int := 60000

def quotaMaxPushes : Nat := 300

def quotaMaxBytes : Nat := 8 * 1024 * 1024

def rowsBodyCap : Nat := 4 * 1024 * 1024

def maxCheckpointBytes : Nat := 32 * 1024 * 1024

def new : ChatRoom := ⟨ensureChatLog, []⟩

def stateFrame (room : ChatRoom) : ServerFrame :=
  .state room.log.stats (room.log.frontier.getD [])

/-- Rolling per-device quota: `true` is admitted. -/
def admitQuota (room : ChatRoom) (device : String) (bytes : Nat) (now : Int) : Bool × ChatRoom :=
  let key := if device = "" then "(unknown)" else device
  let held := (room.quotas.lookup key).filter fun window => ¬ now - window.since > quotaWindowMs
  let window := held.getD { since := now, pushes := 0, bytes := 0 }
  let window :=
    { window with pushes := window.pushes + 1, bytes := window.bytes + bytes }
  (window.pushes ≤ quotaMaxPushes ∧ window.bytes ≤ quotaMaxBytes,
    { room with quotas := (key, window) :: room.quotas.filter (·.1 ≠ key) })

/-! ## Pushes -/

/-- The answer to a push, the row it added and the room after it. -/
structure Pushed where
  answer : ServerFrame
  row : Option LogRow
  room : ChatRoom

/-- A push whose header passes, however it came: quota, then the log.  `none` is
an exception of the log. -/
def admitPush (room : ChatRoom) (device batchId : String) (payload : Bytes) (now : Int) :
    Option Pushed :=
  let (admitted, room) := room.admitQuota device payload.length now
  if admitted then
    (room.log.appendRow device batchId payload now).map fun (outcome, log) =>
      match outcome with
      | .error .tooLarge =>
          ⟨.error "too_large" "push rejected: too_large" batchId, none, { room with log }⟩
      | .error .empty => ⟨.error "empty" "push rejected: empty" batchId, none, { room with log }⟩
      | .ok seq true => ⟨.ack batchId seq true, none, { room with log }⟩
      | .ok seq false =>
          ⟨.ack batchId seq false, some ⟨seq, device, batchId, payload, now⟩, { room with log }⟩
  else some ⟨.error "quota" "per-device push quota exceeded" batchId, none, room⟩

/-- `decodeFrame` refuses a larger header. -/
def headerFits (batchId : String) : Bool :=
  utf8Length (Json.render (.object [("batchId", .string batchId)])) ≤ maxHeaderBytes

def handlePush (room : ChatRoom) (socket : SocketState) (batchId : String) (payload : Bytes)
    (now : Int) : Option Pushed :=
  if ¬ headerFits batchId then some ⟨.error "bad_frame" "malformed frame" "", none, room⟩
  else if ¬ socket.ready ∨ batchId = "" ∨ utf16Length batchId.toList > 128 then
    some ⟨.error "bad_push" "hello first / malformed push" batchId, none, room⟩
  else room.admitPush socket.device batchId payload now

/-- `POST /rows`.  A status that is not an acknowledgement reads as an error frame. -/
def postRows (room : ChatRoom) (device batchId : String) (payload : Bytes) (now : Int) :
    Option Pushed :=
  if batchId = "" ∨ utf16Length batchId.toList > 128 then
    some ⟨.error "bad_push" "" batchId, none, room⟩
  else if payload.length > maxRowBytes + 4096 then
    some ⟨.error "too_large" "" batchId, none, room⟩
  else room.admitPush device batchId payload now

/-! ## Checkpoints -/

/-- `POST /checkpoint`; a refused one changes nothing. -/
def postCheckpoint (room : ChatRoom) (seqCovered : Int) (frontier bytes : Bytes) (now : Int) :
    ChatRoom :=
  if seqCovered < 0 then room
  else if frontier.length = 0 ∧ seqCovered > 0 then room
  else if bytes.length > maxCheckpointBytes then room
  else { room with log := (room.log.commitCheckpoint seqCovered frontier bytes now).2 }

/-! ## Reads -/

def handleRowsReq (room : ChatRoom) (socket : SocketState) (after : Nat) (excludeOwn : Bool) :
    List ServerFrame :=
  if socket.ready then
    (room.log.rowsAfter after (if excludeOwn then some socket.device else none)).map (·.frame) ++
      [.rowsDone room.log.headSeq]
  else [.error "hello_first" "rows before hello" ""]

/-- The bytes of an encoded row frame. -/
def rowFrameBytes (row : LogRow) : Nat :=
  5 + utf8Length (Json.render (.object
    [("seq", .number row.seq), ("device", .string row.device), ("batchId", .string row.batchId)])) +
    row.bytes.length

/-- The rows that fit a body already holding `used` bytes; `true` when some did not. -/
def takeRows (used : Nat) : List LogRow → List LogRow × Bool
  | [] => ([], false)
  | row :: rest =>
      let used := used + (4 + rowFrameBytes row)
      if used > rowsBodyCap then ([], true)
      else ((row :: (takeRows used rest).1), (takeRows used rest).2)

/-- `GET /rows?after=`. -/
def getRows (room : ChatRoom) (after : Nat) : List ServerFrame :=
  let (rows, truncated) := takeRows 0 (room.log.rowsAfter after none)
  room.stateFrame :: (rows.map (·.frame) ++
    if truncated then [] else [.rowsDone room.log.headSeq])

end ChatRoom

end Zeron.Chat
