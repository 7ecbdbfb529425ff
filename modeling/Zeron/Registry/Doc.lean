import Zeron.Registry.Coalesce

namespace Zeron.Registry

open Std Zeron.Data

/-! # The local replica

`RegistryDoc` holds the server's rows, the op batches not yet acked, and the
clock every local write is stamped from.  Functions that stamp several clocks
take the successive wall-clock readings as `now`.
-/

def kindChats : String := "chats"
def kindSessions : String := "sessions"

structure PendingBatch where
  batch : String
  ops : List RowOp
  /-- In flight on the current connection. -/
  inFlight : Bool
deriving DecidableEq

/-- What `applyState` decided about a `state` frame. -/
inductive StateOutcome where
  /-- Delta applied over existing authoritative rows. -/
  | delta
  /-- Full state replaced local authoritative rows. -/
  | replaced
  /-- Local rows the server lacks were enqueued for it. -/
  | reseeded
deriving DecidableEq

structure RegistryDoc where
  deviceId : String
  /-- Server truth. -/
  authoritative : RowTable
  serverSeq : Nat
  gcFloor : Nat
  clock : HlcClock
  pending : List PendingBatch
  /-- No server will ever ack: writes fold straight into `authoritative`. -/
  localOnly : Bool
  /-- Writes were folded into `authoritative` that no server has seen. -/
  localWrites : Bool
  /-- Bumped on every mutation. -/
  generation : Nat
deriving DecidableEq

/-- The order a hash map yields its rows in: any permutation of them. -/
structure IterOrder where
  arrange : List RegistryRow → List RegistryRow
  perm : ∀ rows, (arrange rows).Perm rows

/-- The iteration order that follows the keys. -/
def IterOrder.byKey : IterOrder := ⟨id, fun rows => .refl rows⟩

namespace RegistryDoc

def new (deviceId : String) : RegistryDoc where
  deviceId := deviceId
  authoritative := .empty
  serverSeq := 0
  gcFloor := 0
  clock := .default
  pending := []
  localOnly := false
  localWrites := false
  generation := 0

/-- The last server seq this replica has fully applied. -/
def cursor (doc : RegistryDoc) : Nat := doc.serverSeq

def putAuthoritative (doc : RegistryDoc) (row : RegistryRow) : RegistryDoc :=
  { doc with authoritative := doc.authoritative.put row }

/-- Apply one op straight to the authoritative row. -/
def foldOp (doc : RegistryDoc) (op : RowOp) : RegistryDoc :=
  match applyOp (doc.authoritative.get? op.key) op with
  | (some next, true) => doc.putAuthoritative next
  | _ => doc

def nextHlc (doc : RegistryDoc) (nowMs : Int) : Hlc × RegistryDoc :=
  let (hlc, clock) := doc.clock.next nowMs doc.deviceId
  (hlc, { doc with clock })

end RegistryDoc

/-! ## Compacting the unsent tail -/

/-- The `sessions` fields the room's push notifications switch on. -/
def sessionSignal (op : RowOp) : Option Json × Option Json :=
  let field := fun (name : String) => op.set.bind (fun set => set[name]?)
  (field "status", field "lastCompletedTurn")

/-- A `chats` op that can change what a session notification sees. -/
def chatGatesNotifications (op : RowOp) : Bool :=
  op.op != .update ||
    op.set.any fun set => ["title", "archived", "parentChatId"].any fun key => set.contains key

/-- Batch index, then op index within the batch. -/
abbrev OpPos := Nat × Nat

/-- Lexicographic `left > right` on positions. -/
def OpPos.after (left right : OpPos) : Bool :=
  decide (left.1 > right.1) || (left.1 == right.1 && decide (left.2 > right.2))

/-- A batch of the tail while it is compacted: removed ops leave a hole. -/
structure TailBatch where
  batch : String
  ops : List (Option RowOp)
  gained : Bool

def TailBatch.ofPending (batch : PendingBatch) : TailBatch :=
  { batch := batch.batch, ops := batch.ops.map some, gained := false }

def TailBatch.live (batch : TailBatch) : List RowOp := batch.ops.filterMap id

/-- The state of the loop of `coalesceUnsent`. -/
structure Compaction where
  tail : List TailBatch
  /-- Position of each row's latest live op, and whether that op heads a
  session-signal run. -/
  last : ExtTreeMap RowKey (OpPos × Bool)
  /-- Position of each chat's latest notification-gating chat op. -/
  gatingChat : BTreeMap OpPos
  folded : Nat

namespace Compaction

def opAt (tail : List TailBatch) (at_ : OpPos) : Option RowOp :=
  (tail[at_.1]?.bind fun batch => batch.ops[at_.2]?).join

def opCount (tail : List TailBatch) (index : Nat) : Nat :=
  (tail[index]?.map fun batch => batch.ops.length).getD 0

def setOp (tail : List TailBatch) (at_ : OpPos) (op : Option RowOp) : List TailBatch :=
  tail.modify at_.1 fun batch => { batch with ops := batch.ops.set at_.2 op }

def markGained (tail : List TailBatch) (index : Nat) : List TailBatch :=
  tail.modify index fun batch => { batch with gained := true }

/-- The live op recorded last for a row, with its position and run-head flag. -/
def prev (state : Compaction) (key : RowKey) : Option (OpPos × Bool × RowOp) :=
  state.last[key]?.bind fun entry =>
    (opAt state.tail entry.1).map fun op => (entry.1, entry.2, op)

/-- Whether `op` starts a run of equal session signals. -/
def isHead (state : Compaction) (op : RowOp) : Bool :=
  op.kind == kindSessions &&
    (state.prev op.key).all fun found =>
      found.2.2.op == .delete || sessionSignal found.2.2 != sessionSignal op

/-- Whether the earlier op may move to the later op's position without
crossing an op its row's notifications depend on. -/
def mayMove (state : Compaction) (op prevOp : RowOp) (at_ : OpPos) (prevHead : Bool) : Bool :=
  if op.kind == kindSessions then
    !state.isHead op && !prevHead && !(state.gatingChat[op.id]?.any fun chat => chat.after at_)
  else if op.kind == kindChats && chatGatesNotifications prevOp then
    !(state.last[(⟨kindSessions, op.id⟩ : RowKey)]?.any fun session => session.1.after at_)
  else true

/-- The earlier op's position and the op replacing the pair, if they merge. -/
def merge? (state : Compaction) (here : OpPos) (op : RowOp) : Option (OpPos × RowOp) :=
  (state.prev op.key).bind fun (at_, prevHead, prevOp) =>
    let single := opCount state.tail here.1 == 1 && opCount state.tail at_.1 == 1
    if single && state.mayMove op prevOp at_ prevHead then
      (coalesceOps prevOp op).map fun merged => (at_, merged)
    else none

/-- The body of the loop at one position. -/
def visit (state : Compaction) (here : OpPos) : Compaction :=
  match opAt state.tail here with
  | none => state
  | some op =>
    let (tail, folded, live) :=
      match state.merge? here op with
      | some (at_, merged) =>
        (markGained (setOp (setOp state.tail at_ none) here (some merged)) here.1,
          state.folded + 1, merged)
      | none => (state.tail, state.folded, op)
    { tail
      folded
      gatingChat :=
        if live.kind == kindChats && chatGatesNotifications live then
          state.gatingChat.insert live.id here
        else state.gatingChat
      last := state.last.insert op.key (here, state.isHead op) }

/-- Every position of the tail, in order. -/
def positions (tail : List TailBatch) : List OpPos :=
  (List.range tail.length).flatMap fun index =>
    (List.range (opCount tail index)).map fun op => (index, op)

def run (tail : List TailBatch) : Compaction :=
  (positions tail).foldl visit { tail, last := ∅, gatingChat := ∅, folded := 0 }

end Compaction

namespace RegistryDoc

/-- Where the unsent tail starts: right after the last in-flight batch. -/
def unsentStart (pending : List PendingBatch) : Nat :=
  match pending.reverse.findIdx? (·.inFlight) with
  | none => 0
  | some fromEnd => pending.length - fromEnd

/-- Put one compacted batch back.  Emptied batches go; a batch that gained
content takes a fresh id, so a stale ack for its old id retires nothing. -/
def restore (state : RegistryDoc × (Nat → Int)) (batch : TailBatch) :
    RegistryDoc × (Nat → Int) :=
  let (doc, now) := state
  if batch.live.isEmpty then state
  else if batch.gained then
    let (hlc, doc) := doc.nextHlc (now 0)
    ({ doc with pending := doc.pending ++
        [{ batch := "b-" ++ hlc, ops := batch.live, inFlight := false }] },
      fun index => now (index + 1))
  else
    ({ doc with pending := doc.pending ++
        [{ batch := batch.batch, ops := batch.live, inFlight := false }] }, now)

/-- Collapse repeated writes to one row across the unsent tail of `pending`;
returns how many ops were folded away. -/
def coalesceUnsent (doc : RegistryDoc) (now : Nat → Int) : Nat × RegistryDoc :=
  let start := unsentStart doc.pending
  if doc.pending.length - start < 2 then (0, doc)
  else
    let tail := (doc.pending.drop start).map TailBatch.ofPending
    let kept := { doc with pending := doc.pending.take start }
    let compacted := Compaction.run tail
    if compacted.folded == 0 then
      (0, { kept with pending := kept.pending ++ compacted.tail.map fun batch =>
              { batch := batch.batch, ops := batch.live, inFlight := false } })
    else
      let (restored, _) := compacted.tail.foldl restore (kept, now)
      (compacted.folded, { restored with generation := restored.generation + 1 })

/-! ## Local writes -/

def maxOpsPerBatch : Nat := 400

/-- Cut ops into batches the room accepts; `fuel` is their number at most. -/
def chunkOps : Nat → List RowOp → List (List RowOp)
  | 0, _ => []
  | _ + 1, [] => []
  | fuel + 1, ops => ops.take maxOpsPerBatch :: chunkOps fuel (ops.drop maxOpsPerBatch)

/-- Append one batch under a fresh id. -/
def pushBatch (state : RegistryDoc × (Nat → Int)) (ops : List RowOp) :
    RegistryDoc × (Nat → Int) :=
  let (hlc, doc) := state.1.nextHlc (state.2 0)
  ({ doc with pending := doc.pending ++ [{ batch := "b-" ++ hlc, ops, inFlight := false }] },
    fun index => state.2 (index + 1))

def enqueueOps (doc : RegistryDoc) (now : Nat → Int) (ops : List RowOp) : RegistryDoc :=
  if ops.isEmpty then doc
  else if doc.localOnly then
    ops.foldl foldOp { doc with generation := doc.generation + 1, localWrites := true }
  else
    let (doc, now) := (chunkOps ops.length ops).foldl pushBatch
      ({ doc with generation := doc.generation + 1 }, now)
    (doc.coalesceUnsent now).2

def write (doc : RegistryDoc) (now : Nat → Int) (kind id : String) (op : OpKind)
    (set : BTreeMap Json) : RegistryDoc :=
  let (hlc, doc) := doc.nextHlc (now 0)
  doc.enqueueOps (fun index => now (index + 1))
    [{ kind, id, op, set := some set, hlc, clocks := none }]

def deleteRowOps (doc : RegistryDoc) (now : Nat → Int) (keys : List RowKey) : RegistryDoc :=
  let (hlc, doc) := doc.nextHlc (now 0)
  doc.enqueueOps (fun index => now (index + 1))
    (keys.map fun key =>
      { kind := key.kind, id := key.id, op := .delete, set := none, hlc, clocks := none })

/-- Switch local-only mode.  Entering it folds queued batches into the rows;
leaving it after local-only writes re-seeds every row. -/
def setLocalOnly (doc : RegistryDoc) (now : Nat → Int) (order : IterOrder) (localOnly : Bool) :
    RegistryDoc :=
  let doc := { doc with localOnly }
  if localOnly then
    if doc.pending.isEmpty then doc
    else
      (doc.pending.flatMap (·.ops)).foldl foldOp
        { doc with pending := [], generation := doc.generation + 1, localWrites := true }
  else if doc.localWrites then
    { doc with localWrites := false }.enqueueOps now
      ((order.arrange doc.authoritative.values).map rowToSeedOp)
  else doc

/-! ## Server frames -/

/-- Apply a hello `state` frame. -/
def applyState (doc : RegistryDoc) (now : Nat → Int) (order : IterOrder) (seq : Nat)
    (full : Bool) (gcFloor : Nat) (rows : List RegistryRow) : StateOutcome × RegistryDoc :=
  let doc := { doc with generation := doc.generation + 1 }
  if !full then
    (.delta, { doc with
      authoritative := doc.authoritative.putAll rows, serverSeq := seq, gcFloor })
  else if seq < doc.serverSeq then
    -- The server lost state: local rows are the only copy.
    let seed := (order.arrange doc.authoritative.values).map rowToSeedOp
    let doc := { doc with
      authoritative := doc.authoritative.putAll rows, serverSeq := seq, gcFloor }
    (.reseeded, if seed.isEmpty then doc else doc.enqueueOps now seed)
  else
    let incoming : RowTable := KeyedTable.putAll .empty rows
    let seed := ((order.arrange doc.authoritative.values).filter
      fun row => (incoming.get? row.key).isNone).map rowToSeedOp
    let doc := { doc with authoritative := incoming, serverSeq := seq, gcFloor }
    if seed.isEmpty then (.replaced, doc) else (.reseeded, doc.enqueueOps now seed)

/-- Apply one broadcast batch; `false` on a seq gap, where the cursor holds. -/
def applyRows (doc : RegistryDoc) (seq : Nat) (rows : List RegistryRow) : Bool × RegistryDoc :=
  let doc := { doc with
    generation := doc.generation + 1, authoritative := doc.authoritative.putAll rows }
  if seq > doc.serverSeq + 1 then (false, doc)
  else if seq > doc.serverSeq then (true, { doc with serverSeq := seq })
  else (true, doc)

/-- Retire an acked batch.  The ack's seq never moves the cursor. -/
def ackBatch (doc : RegistryDoc) (batch : String) (_seq : Nat) : Bool × RegistryDoc :=
  let kept := doc.pending.filter fun held => held.batch != batch
  if kept.length ≠ doc.pending.length then
    (true, { doc with pending := kept, generation := doc.generation + 1 })
  else (false, { doc with pending := kept })

/-- Batches to push: everything not already in flight on this connection. -/
def takePushable (doc : RegistryDoc) : List PendingBatch × RegistryDoc :=
  ((doc.pending.filter (!·.inFlight)).map fun batch => { batch with inFlight := true },
    { doc with pending := doc.pending.map fun batch => { batch with inFlight := true } })

/-- Connection dropped: everything unacked becomes pushable again. -/
def markDisconnected (doc : RegistryDoc) : RegistryDoc :=
  { doc with pending := doc.pending.map fun batch => { batch with inFlight := false } }

/-! ## Overlay reads -/

def pendingOps (doc : RegistryDoc) : List RowOp := doc.pending.flatMap (·.ops)

end RegistryDoc

/-- Replay ops over a row; an op that yields no row leaves it as it was. -/
def replay (base : Option RegistryRow) (ops : List RowOp) : Option RegistryRow :=
  ops.foldl (fun row op => (applyOp row op).1.or row) base

/-- `replay`, with nothing to show for a missing row or a tombstone. -/
def overlay (base : Option RegistryRow) (ops : List RowOp) : Option RegistryRow :=
  (replay base ops).filter fun row => !row.deleted

/-- The row as this device displays it: authoritative plus pending ops. -/
def RegistryDoc.overlayRow (doc : RegistryDoc) (kind id : String) : Option RegistryRow :=
  overlay (doc.authoritative.get? ⟨kind, id⟩)
    (doc.pendingOps.filter fun op => op.kind == kind && op.id == id)

end Zeron.Registry
