import Zeron.Registry.Doc
import Zeron.Edge.Notify

namespace Zeron.Edge

open Std Zeron.Data Zeron.Registry

/-! # The registry room

The server's state: the current rows, one `seq` per accepted batch, and the
tombstone-GC horizon.  A room event runs to completion before the next one, so
each operation here is one atomic step.
-/

structure Room where
  rows : RowTable
  seq : Nat
  gcFloor : Nat
  /-- Rows changed since the last nightly alarm. -/
  backupDirty : Bool
deriving DecidableEq

/-- The answer to a hello, and to a pull over plain HTTPS. -/
structure StateFrame where
  seq : Nat
  full : Bool
  gcFloor : Nat
  rows : List RegistryRow
deriving DecidableEq

/-- Merged rows broadcast to every ready socket. -/
structure RowsFrame where
  seq : Nat
  rows : List RegistryRow
deriving DecidableEq

inductive PushOutcome where
  | rejected (code message : String)
  | accepted (batch : String) (seq applied : Nat)
deriving DecidableEq

/-- Everything one push batch brings about. -/
structure Pushed where
  room : Room
  outcome : PushOutcome
  broadcast : Option RowsFrame
  notes : List Notification

/-- What a batch has done so far: touched rows in first-touch order, each
touched session row as it was before the batch, and the ops that applied. -/
structure PushState where
  touched : List RegistryRow
  sessionsBefore : List (String × Option RegistryRow)
  applied : Nat

namespace Room

def empty : Room := { rows := .empty, seq := 0, gcFloor := 0, backupDirty := false }

/-- Rows above a cursor, oldest seq first. -/
def rowsSince (room : Room) (cursor : Nat) : List RegistryRow :=
  (room.rows.values.filter fun row => row.seq > cursor).insertionSort fun a b => a.seq ≤ b.seq

/-- A cursor below the GC horizon or ahead of the room gets the full table. -/
def needsFull (room : Room) (cursor : Option Nat) : Bool :=
  cursor.all fun cursor => decide (cursor < room.gcFloor) || decide (cursor > room.seq)

def handleHello (room : Room) (cursor : Option Nat) : StateFrame :=
  let full := room.needsFull cursor
  { seq := room.seq, full, gcFloor := room.gcFloor
    rows := if full then room.rowsSince 0 else room.rowsSince (cursor.getD 0) }

/-- `GET /rows?since=`: the hello's exact answer. -/
def getRows (room : Room) (since : Nat) : StateFrame := room.handleHello (some since)

/-! ## Push -/

def maxBatchOps : Nat := 500

def touchedRow (touched : List RegistryRow) (key : RowKey) : Option RegistryRow :=
  touched.find? fun row => row.key = key

/-- `touched.get(key) ?? this.loadRow(kind, id)`. -/
def current (room : Room) (touched : List RegistryRow) (key : RowKey) : Option RegistryRow :=
  (touchedRow touched key).or (room.rows.get? key)

/-- `touched.set`: a row touched again keeps its place. -/
def setTouched (touched : List RegistryRow) (row : RegistryRow) : List RegistryRow :=
  if (touchedRow touched row.key).isSome then
    touched.map fun held => if held.key = row.key then row else held
  else touched ++ [row]

/-- One turn of the apply loop of `applyPushBatch`. -/
def pushOp (room : Room) (state : PushState) (op : RowOp) : PushState :=
  let before := room.current state.touched op.key
  let sessionsBefore :=
    if op.kind = kindSessions ∧ !state.sessionsBefore.any (·.1 = op.id) then
      state.sessionsBefore ++ [(op.id, before)]
    else state.sessionsBefore
  match applyOp before op with
  | (some row, true) =>
    { touched := setTouched state.touched { row with seq := room.seq + 1 }
      sessionsBefore
      applied := state.applied + 1 }
  | _ => { state with sessionsBefore }

/-- The notifications of one batch, read off each touched session before and
after it, labelled from the chat row after it. -/
def notifySessions (room : Room) (now : Int) (state : PushState) : List Notification :=
  state.sessionsBefore.filterMap fun (chatId, prev) => do
    let next ← touchedRow state.touched ⟨kindSessions, chatId⟩
    let category ← notificationFor prev next now
    let title ← chatForNotification (room.current state.touched ⟨kindChats, chatId⟩)
    return { chatId, title, category }

/-- The apply loop over a whole batch. -/
def applyBatch (room : Room) (ops : List RowOp) : PushState :=
  ops.foldl room.pushOp { touched := [], sessionsBefore := [], applied := 0 }

/-- The first op that does not validate, with its error. -/
def firstInvalid (ops : List RowOp) : Option String :=
  ops.findSome? fun op => (validateOp op).map fun error => op.kind ++ "/" ++ op.id ++ ": " ++ error

/-- Why a batch is refused, as code and message; refused batches are refused
whole. -/
def rejection (batch : String) (ops : List RowOp) : Option (String × String) :=
  if batch = "" then some ("bad_push", "malformed push")
  else if ops.length = 0 ∨ ops.length > maxBatchOps then
    some ("bad_push", "batch of " ++ toString ops.length ++ " ops")
  else (firstInvalid ops).map fun message => ("invalid_op", message)

/-- Validate and atomically apply one op batch. -/
def applyPushBatch (room : Room) (now : Int) (batch : String) (ops : List RowOp) : Pushed :=
  match rejection batch ops with
  | some (code, message) =>
    { room, outcome := .rejected code message, broadcast := none, notes := [] }
  | none =>
    let state := room.applyBatch ops
    if state.applied = 0 then
      { room, outcome := .accepted batch room.seq 0, broadcast := none, notes := [] }
    else
      let seq := room.seq + 1
      { room := { room with rows := room.rows.putAll state.touched, seq, backupDirty := true }
        outcome := .accepted batch seq state.applied
        broadcast := some { seq, rows := state.touched }
        notes := room.notifySessions now state }

/-! ## The nightly alarm and the operator wipe -/

def dayMs : Int := 24 * 60 * 60 * 1000

def tombstoneRetainMs : Int := 30 * dayMs

/-- The tombstone is older than the horizon. -/
def purges (horizonHlc : Hlc) (row : RegistryRow) : Bool :=
  row.deleted && row.delHlc.any fun hlc => decide (hlc < horizonHlc)

/-- Tombstone GC, raising the horizon to the newest purged seq. -/
def alarm (room : Room) (now : Int) : Room :=
  if !room.backupDirty then room
  else
    let horizonHlc :=
      String.ofList ((Json.numberText (now - tombstoneRetainMs)).leftpad 13 '0' ++ ['-'])
    let purgedMaxSeq :=
      (room.rows.values.filter (purges horizonHlc)).foldl (fun max row => Nat.max max row.seq) 0
    if purgedMaxSeq > 0 then
      { room with
        rows := room.rows.filter fun row => !purges horizonHlc row
        gcFloor := Nat.max room.gcFloor purgedMaxSeq
        backupDirty := false }
    else { room with backupDirty := false }

/-- `POST /reset`: rows and meta are wiped. -/
def reset (_room : Room) : Room := .empty

end Room

end Zeron.Edge
