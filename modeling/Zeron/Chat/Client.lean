import Zeron.Chat.Room

namespace Zeron.Chat

open Zeron.Data

/-! # The chat client's shared state

`Shared` is what the socket actor, the HTTPS sync and the API of one `ChatClient`
touch under one lock.  Each function here is one critical section of the source.
-/

def quotaRetry : Int := 5000

def maxPushBytes : Nat := 1024 * 1024 - 4096

inductive RowImportOutcome where
  | applied
  /-- Buffered until missing causal history arrives. -/
  | pendingDependencies
deriving DecidableEq

structure PendingPush where
  batchId : String
  bytes : Bytes
  durable : Bool
deriving DecidableEq

structure Shared where
  cursor : Nat
  caughtUp : Bool
  refreshRequested : Nat
  refreshCompleted : Nat
  pending : List PendingPush
  /-- Last view of the server log. -/
  server : Option StateHeader
  retryAt : Option Int
  quotaBlocked : Bool
  gapRepair : Bool
  rowsReqOutstanding : Bool
  replayingGap : Bool
  rowGapGeneration : Nat
  httpReplayEpoch : Nat
  httpLiveEpoch : Option Nat
  needsCheckpoint : Bool
  causalGapGeneration : Nat
deriving DecidableEq

/-! ## Catch-up planning -/

inductive CatchUpPlan where
  | rowsOnly (after : Nat)
  | checkpointThenRows (after : Nat)
deriving DecidableEq

namespace CatchUpPlan

def after : CatchUpPlan → Nat
  | rowsOnly after | checkpointThenRows after => after

def fetches : CatchUpPlan → Bool
  | rowsOnly _ => false
  | checkpointThenRows _ => true

end CatchUpPlan

def planCatchUp (cursor : Nat) (state : StateHeader) (frontierContained : Bool) : CatchUpPlan :=
  let cursor := if cursor > state.headSeq then 0 else cursor
  if state.checkpointSize = 0 then .rowsOnly cursor
  else if frontierContained then .rowsOnly (max cursor state.checkpointSeq)
  else .checkpointThenRows state.checkpointSeq

/-- What `contained` is computed from; `verdict` is the sink's. -/
def planContained (state : StateHeader) (repair verdict : Bool) : Bool :=
  state.checkpointSize = 0 || (!repair && verdict)

namespace Shared

def new (cursor : Nat) (pending : List PendingPush) : Shared where
  cursor
  caughtUp := false
  refreshRequested := 0
  refreshCompleted := 0
  pending
  server := none
  retryAt := none
  quotaBlocked := false
  gapRepair := false
  rowsReqOutstanding := false
  replayingGap := false
  rowGapGeneration := 0
  httpReplayEpoch := 0
  httpLiveEpoch := none
  needsCheckpoint := false
  causalGapGeneration := 0

/-- `ChatClient::caught_up`. -/
def isCaughtUp (shared : Shared) : Bool :=
  shared.caughtUp && !shared.needsCheckpoint && !shared.gapRepair &&
    shared.refreshCompleted ≥ shared.refreshRequested

def flagGap (shared : Shared) : Shared :=
  { shared with gapRepair := true, rowGapGeneration := shared.rowGapGeneration + 1 }

/-! ## The outbox -/

/-- An oversized batch is refused; a queued id is not queued again. -/
def enqueueBatch (shared : Shared) (batchId : String) (bytes : Bytes) (durable : Bool) : Shared :=
  if shared.pending.any (·.batchId = batchId) then shared
  else { shared with pending := shared.pending ++ [⟨batchId, bytes, durable⟩] }

/-- `pending.retain(|p| p.batch_id != batch_id)`. -/
def retire (shared : Shared) (batchId : String) : Shared :=
  { shared with pending := shared.pending.filter (·.batchId ≠ batchId) }

/-- The batches `ensure_durable` lets through, up to the first failed write. -/
def durablePrefix (persist : String → Bool) (batches : List PendingPush) : List PendingPush :=
  batches.takeWhile fun push => push.durable || persist push.batchId

def markDurable (shared : Shared) (batches : List PendingPush) : Shared :=
  { shared with
    pending := shared.pending.map fun push =>
      if batches.any (·.batchId = push.batchId) then { push with durable := true } else push }

/-- What `push_pending` sends: nothing while the quota drains. -/
def pushable (shared : Shared) (inFlight : List String) : List PendingPush :=
  if shared.quotaBlocked then []
  else shared.pending.filter fun push => push.batchId ∉ inFlight

/-! ## Rows and acknowledgements -/

/-- The first critical section of `apply_remote_row`, with the cursor it proposes. -/
def proposeRow (shared : Shared) (seq : Nat) : Nat × Shared :=
  if seq > shared.cursor + 1 then (shared.cursor, shared.flagGap)
  else (max shared.cursor seq, shared)

/-- Its second one, after the import. -/
def settleRow (shared : Shared) (outcome : RowImportOutcome) (cursor : Nat) : Shared :=
  match outcome with
  | .applied => { shared with cursor := max shared.cursor cursor }
  | .pendingDependencies =>
      { shared with
        needsCheckpoint := true
        causalGapGeneration := shared.causalGapGeneration + 1 }

/-- An acknowledgement over the socket. -/
def handleAck (shared : Shared) (acknowledged : Bool) (now : Int) (batchId : String) (seq : Nat) :
    Shared :=
  let shared :=
    if acknowledged then shared.retire batchId
    else { shared with retryAt := some (now + quotaRetry) }
  let shared :=
    if seq > shared.cursor + 1 then shared.flagGap
    else { shared with cursor := max shared.cursor seq }
  if shared.quotaBlocked then
    if shared.pending.isEmpty then { shared with quotaBlocked := false }
    else { shared with retryAt := some now }
  else shared

/-- An acknowledgement over HTTPS. -/
def httpAck (shared : Shared) (acknowledged : Bool) (batchId : String) (seq : Nat) : Shared :=
  let shared := if acknowledged then shared.retire batchId else shared
  if seq ≤ shared.cursor + 1 then { shared with cursor := max shared.cursor seq } else shared

/-- `none` is a protocol breakdown.  `rejected` is whether the sink kept the
rejected batch for a checkpoint. -/
def handleError (shared : Shared) (rejected : Bool) (now : Int) (code batchId : String) :
    Option Shared :=
  if code ∈ ["too_large", "empty", "bad_push"] ∧ batchId ≠ "" then
    if rejected then some (shared.retire batchId) else none
  else if code = "quota" then
    some { shared with quotaBlocked := true, retryAt := some (now + quotaRetry) }
  else some shared

/-! ## Catch-up -/

def clampTo (state : StateHeader) : Nat :=
  if state.checkpointSize > 0 then state.checkpointSeq else 0

/-- The critical section of `apply_cursor_amnesty`. -/
def clampCursor (shared : Shared) (state : StateHeader) : Shared :=
  if shared.cursor > clampTo state then { shared with cursor := clampTo state } else shared

/-- A new full catch-up resolves the causal gap it started from, not a newer one. -/
def clearRepair (shared : Shared) (generation : Nat) : Shared :=
  if shared.causalGapGeneration = generation then { shared with needsCheckpoint := false }
  else shared

/-- The end of a socket backfill. -/
def markCaughtUp (shared : Shared) (headSeq ticket : Nat) : Shared :=
  let shared := { shared with caughtUp := true }
  if !shared.gapRepair ∧ shared.cursor ≥ headSeq then
    { shared with refreshCompleted := max shared.refreshCompleted ticket }
  else shared

/-- `ROWS_DONE` in the steady loop, answering the refresh of `ticket`. -/
def finishRefresh (shared : Shared) (headSeq ticket : Nat) : Shared :=
  if shared.cursor ≥ headSeq ∧ !shared.needsCheckpoint ∧ !shared.gapRepair then
    { shared with refreshCompleted := max shared.refreshCompleted ticket }
  else if shared.cursor < headSeq then shared.flagGap
  else shared

/-- `ROWS_DONE` ends the request it answers. -/
def rowsDone (shared : Shared) : Shared :=
  { shared with replayingGap := false, rowsReqOutstanding := false }

/-- The cursor after the checkpoint of an HTTPS pull. -/
def settlePull (shared : Shared) (state : StateHeader) (after generation : Nat) : Shared :=
  Shared.clearRepair
    { shared with
      cursor := if shared.cursor > state.headSeq then after else max shared.cursor after }
    generation

/-- `ROWS_DONE` of an HTTPS pull. -/
def finishPull (shared : Shared) (headSeq epoch gapGeneration ticket : Nat) : Shared :=
  if shared.httpReplayEpoch = epoch ∧ shared.cursor ≥ headSeq ∧ !shared.needsCheckpoint then
    let shared := { shared with httpLiveEpoch := some epoch, caughtUp := true }
    let shared :=
      if shared.rowGapGeneration = gapGeneration then { shared with gapRepair := false } else shared
    if !shared.gapRepair then
      { shared with refreshCompleted := max shared.refreshCompleted ticket }
    else shared
  else shared

def noteCheckpoint (shared : Shared) (seqCovered size : Nat) : Shared :=
  { shared with
    server := shared.server.map fun server =>
      { server with
        checkpointSeq := seqCovered
        checkpointSize := size
        seqFloor := seqCovered
        rowCount := 0
        rowBytes := 0 } }

def noteHead (shared : Shared) (headSeq : Nat) : Shared :=
  { shared with
    server := shared.server.map fun server =>
      { server with headSeq := max server.headSeq headSeq } }

def bumpReplayEpoch (shared : Shared) : Shared :=
  { shared with httpReplayEpoch := shared.httpReplayEpoch + 1 }

end Shared

end Zeron.Chat
