import Zeron.Data.Runs
import Zeron.Chat.Client

namespace Zeron.Chat

open Zeron.Data

/-! # One client, its room and everyone else

The actor's WebSocket session, the HTTPS sync and the API of one `ChatClient`
share its state; the room also serves other devices.  An `Action` is one critical
section, one sink call or one room event, and whatever order they come in is a
run.  What the sink and the network do is part of the action.
-/

/-- A row between the critical sections of `apply_remote_row`. -/
structure RowImport where
  seq : Nat
  replay : Bool
  /-- The cursor proposed to the sink. -/
  cursor : Nat
  outcome : Option RowImportOutcome
deriving DecidableEq

/-- Where `run_session` stands. -/
inductive Stage where
  | hello
  | heard
  | clamping
  | amnestied
  | cursorRead
  | repairRead
  | planned
  | requested
  | fetching
  | downloaded
  | imported
  | clearing
  | replaying
  | backfilling
  | completing
  | marking
  /-- `maybe_repair_gap` is due. -/
  | checking
  | steady
deriving DecidableEq

/-- The locals of `run_session`, its socket and the frames on their way. -/
structure Session where
  stage : Stage
  header : StateHeader
  cursor : Nat
  repair : Bool
  generation : Nat
  plan : CatchUpPlan
  ticket : Nat
  /-- The seq the downloaded checkpoint covers. -/
  download : Nat
  buffered : List ServerFrame
  headSeq : Option Nat
  gapRepairs : Nat
  refresh : Option Nat
  inFlight : List String
  importing : Option RowImport
  socket : SocketState
  toRoom : List ClientFrame
  toClient : List ServerFrame
deriving DecidableEq

/-- Where the task of `spawn_offline_sync` stands. -/
inductive PullStage where
  | idle
  | spawned
  | pushing
  | posting
  | answered
  | pulling
  | pulled
  | clamping
  | amnestied
  | checked
  | repairRead
  | fetching
  | downloaded
  | settling
  | applying
deriving DecidableEq

/-- The locals of that task. -/
structure Pull where
  stage : PullStage
  batches : List PendingPush
  answer : Option (String × Nat)
  cursor : Nat
  epoch : Nat
  wasLive : Bool
  ticket : Nat
  gapGeneration : Nat
  header : StateHeader
  repair : Bool
  generation : Nat
  plan : CatchUpPlan
  download : Nat
  frames : List ServerFrame
  importing : Option RowImport
deriving DecidableEq

/-- What the local document holds of the room: rows its sink reported applied,
and every row a checkpoint covered. -/
structure Document where
  rows : List Nat
  covered : Nat
deriving DecidableEq

structure Config where
  deviceId : String
  /-- The batch ids minted on this client; no other device mints one of them. -/
  minted : String → Bool
  /-- `cursor_is_verified`. -/
  verified : Bool

structure System where
  room : ChatRoom
  shared : Shared
  connected : Bool
  nudge : Bool
  resumed : Bool
  amnestyDone : Bool
  session : Option Session
  pull : Pull
  doc : Document
  /-- Pushes of closed connections that may still reach the room. -/
  late : List (String × Bytes)
  /-- Every row the room ever appended. -/
  history : List LogRow
  /-- The largest head or row seq heard since the last dial. -/
  told : Nat
  /-- The checkpoint seq the cursor stands on before that checkpoint is in. -/
  owed : Nat
  /-- The head of the `CaughtUp` event the last action sent. -/
  announced : Option Nat

def emptyHeader : StateHeader := ⟨0, 0, 0, 0, 0, 0⟩

def Session.new (cursor : Nat) (deviceId : String) : Session where
  stage := .hello
  header := emptyHeader
  cursor := 0
  repair := false
  generation := 0
  plan := .rowsOnly 0
  ticket := 0
  download := 0
  buffered := []
  headSeq := none
  gapRepairs := 0
  refresh := none
  inFlight := []
  importing := none
  socket := ⟨"", false⟩
  toRoom := [.hello cursor deviceId]
  toClient := []

def Pull.new : Pull where
  stage := .idle
  batches := []
  answer := none
  cursor := 0
  epoch := 0
  wasLive := false
  ticket := 0
  gapGeneration := 0
  header := emptyHeader
  repair := false
  generation := 0
  plan := .rowsOnly 0
  download := 0
  frames := []
  importing := none

/-- The actor stands at a stage, with no row between its critical sections. -/
def Session.At (session : Session) (stage : Stage) : Prop :=
  session.stage = stage ∧ session.importing = none

instance (session : Session) (stage : Stage) : Decidable (session.At stage) :=
  inferInstanceAs (Decidable (_ ∧ _))

def Pull.At (pull : Pull) (stage : PullStage) : Prop := pull.stage = stage ∧ pull.importing = none

instance (pull : Pull) (stage : PullStage) : Decidable (pull.At stage) :=
  inferInstanceAs (Decidable (_ ∧ _))

def Document.Contains (doc : Document) (seq : Nat) : Prop := seq ∈ doc.rows ∨ seq ≤ doc.covered

instance (doc : Document) (seq : Nat) : Decidable (doc.Contains seq) :=
  inferInstanceAs (Decidable (seq ∈ doc.rows ∨ seq ≤ doc.covered))

/-- The head a frame names, as soon as it is handled; a row is told of once it
has been imported. -/
def ServerFrame.names : ServerFrame → Nat
  | .state header _ => header.headSeq
  | .row _ _ _ _ => 0
  | .rowsDone headSeq | .probeOk headSeq => headSeq
  | .ack _ seq _ => seq
  | .error _ _ _ => 0

def ClientFrame.pushed : ClientFrame → Option (String × Bytes)
  | .push batchId payload => some (batchId, payload)
  | _ => none

/-- What the sink answers while one frame is handled. -/
structure SinkAnswers where
  acknowledged : Bool
  rejected : Bool

inductive SessionAction where
  | hearState
  | swapAmnesty
  | clampCursor
  | readCursor
  | readRepair
  /-- `verdict` is `contains_frontier`. -/
  | plan (verdict : Bool)
  | requestRows
  | pushPending (persist : String → Bool)
  /-- A frame arrives during the checkpoint fetch. -/
  | buffer
  | importCheckpoint
  | mergeCursor
  | clearRepair
  | takeBuffered (sink : SinkAnswers) (now : Int)
  | receive (sink : SinkAnswers) (now : Int)
  | importRow (outcome : RowImportOutcome)
  | settleRow
  | complete
  | markCaughtUp
  | checkGap
  | refresh
  | takeNudge (persist : String → Bool)
  | retryTick (persist : String → Bool) (now : Int)
  | sendProbe

inductive PullAction where
  | spawn
  | start
  | post (persisted : Bool)
  /-- A request, or its answer, is lost. -/
  | lose
  | readAnswer (acknowledged : Bool)
  | snapshot
  | readState
  | clampCursor
  | checkCursor
  | readRepair
  | plan (verdict : Bool)
  | importCheckpoint
  /-- The checkpoint cannot be fetched or imported. -/
  | giveUp
  | settle
  | takeFrame
  | importRow (outcome : RowImportOutcome)
  | settleRow

inductive Action where
  | enqueueBatch (batchId : String) (bytes : Bytes) (persisted : Bool)
  | probe
  | requestCatchUp
  | noteCheckpoint (seqCovered size : Nat)
  | dial
  | hangUp
  | session (action : SessionAction)
  | pull (action : PullAction)
  /-- The room takes the next frame of the session. -/
  | serve (now : Int)
  | serveLate (batchId : String) (payload : Bytes) (now : Int)
  | servePost (now : Int)
  | servePull
  | serveCheckpoint
  | servePullCheckpoint
  | pushElsewhere (device batchId : String) (payload : Bytes) (now : Int)
  | commitCheckpoint (seqCovered : Int) (frontier bytes : Bytes) (now : Int)

namespace System

variable (config : Config)

def new (room : ChatRoom) (history : List LogRow) (late : List (String × Bytes)) (doc : Document)
    (cursor : Nat) (pending : List PendingPush) : System where
  room
  shared := .new cursor pending
  connected := false
  nudge := false
  resumed := false
  amnestyDone := false
  session := none
  pull := .new
  doc
  late
  history
  told := 0
  owed := 0
  announced := none

def hear (s : System) (seq : Nat) : System := { s with told := max s.told seq }

def onShared (s : System) (change : Shared → Shared) : System := { s with shared := change s.shared }

def setSession (s : System) (session : Session) : System := { s with session := some session }

def setPull (s : System) (pull : Pull) : System := { s with pull }

/-- An own write of this client, or a row in the document. -/
def Takes (s : System) (row : LogRow) : Prop :=
  config.minted row.batchId = true ∨ s.doc.Contains row.seq

/-- The document contains every row up to a seq. -/
def ContainsUpTo (s : System) (seq : Nat) : Prop :=
  ∀ row ∈ s.history, row.seq ≤ seq → s.Takes config row

instance (s : System) (row : LogRow) : Decidable (s.Takes config row) :=
  inferInstanceAs (Decidable (_ ∨ _))

instance (s : System) (seq : Nat) : Decidable (s.ContainsUpTo config seq) :=
  inferInstanceAs (Decidable (∀ row ∈ s.history, row.seq ≤ seq → s.Takes config row))

/-! ## Connections -/

def dial (s : System) : Option System :=
  if s.session = none then
    some { s with
      shared := { s.shared with replayingGap := false, rowsReqOutstanding := false }
      session := some (.new s.shared.cursor config.deviceId)
      told := 0 }
  else none

/-- `run_session` returns: the connection drops, a deadline passed, or the
protocol broke down. -/
def hangUp (s : System) : System :=
  match s.session with
  | none => s
  | some session =>
      { s with
        session := none
        connected := false
        shared := if s.connected then s.shared.bumpReplayEpoch else s.shared
        late := s.late ++ session.toRoom.filterMap ClientFrame.pushed }

/-! ## The session -/

/-- `handle_frame_with_replay`; `none` is a redial. -/
def handleFrame (shared : Shared) (session : Session) (replay : Bool) (sink : SinkAnswers)
    (now : Int) : ServerFrame → Option (Shared × Session)
  | .row seq _ _ _ =>
      let proposed := shared.proposeRow seq
      some (proposed.2, { session with
        importing := some ⟨seq, replay || shared.replayingGap, proposed.1, none⟩ })
  | .ack batchId seq _ => some (shared.handleAck sink.acknowledged now batchId seq, session)
  | .rowsDone _ => some (shared.rowsDone, session)
  | .probeOk headSeq => some (shared.noteHead headSeq, session)
  | .state header _ => some ({ shared with server := some header }, session)
  | .error code _ batchId =>
      (shared.handleError sink.rejected now code batchId).map fun shared => (shared, session)

/-- One frame through `handleFrame`, in the session it came on. -/
def takeFrame (s : System) (session : Session) (replay : Bool) (sink : SinkAnswers) (now : Int)
    (frame : ServerFrame) : System :=
  match handleFrame s.shared session replay sink now frame with
  | some (shared, session) => { s with shared, session := some session }.hear frame.names
  | none => (s.setSession session).hangUp

/-- Push frames of durable batches go out. -/
def sendPushes (s : System) (session : Session) (batches : List PendingPush) : System :=
  { s with
    shared := s.shared.markDurable batches
    session := some { session with
      toRoom := session.toRoom ++ batches.map fun push => .push push.batchId push.bytes } }

/-- `push_pending`; a batch that cannot be made durable ends the session. -/
def pushPending (s : System) (session : Session) (persist : String → Bool) : System :=
  let inFlight := session.inFlight.filter fun id => s.shared.pending.any (·.batchId = id)
  let batches := s.shared.pushable inFlight
  let sent := Shared.durablePrefix persist batches
  let pushed :=
    s.sendPushes { session with inFlight := inFlight ++ sent.map (·.batchId) } sent
  if sent.length < batches.length then pushed.hangUp else pushed

/-- `push_head`. -/
def pushHead (s : System) (session : Session) (persist : String → Bool) : System :=
  match s.shared.pending.head? with
  | none => s.setSession session
  | some push =>
      if push.durable || persist push.batchId then s.sendPushes session [push]
      else (s.setSession session).hangUp

def maxGapRepairsPerSession : Nat := 3

/-- `maybe_repair_gap`. -/
def checkGap (s : System) (session : Session) : System :=
  let session := { session with stage := .steady }
  if s.shared.needsCheckpoint then (s.setSession session).hangUp
  else if s.shared.rowsReqOutstanding then s.setSession session
  else if s.shared.gapRepair then
    let s := { s with
      shared :=
        { s.shared with gapRepair := false, replayingGap := true, rowsReqOutstanding := true } }
    if session.gapRepairs + 1 > maxGapRepairsPerSession then (s.setSession session).hangUp
    else s.setSession { session with
      gapRepairs := session.gapRepairs + 1
      toRoom := session.toRoom ++ [.rowsReq s.shared.cursor false] }
  else s.setSession session

/-- A frame of the steady loop. -/
def receiveSteady (s : System) (session : Session) (sink : SinkAnswers) (now : Int)
    (frame : ServerFrame) : System :=
  match frame with
  | .row _ _ _ _ => s.takeFrame session false sink now frame
  | .rowsDone headSeq =>
      let refreshed := s.takeFrame { session with stage := .checking, refresh := none } false
        sink now frame
      match session.refresh with
      | some ticket => refreshed.onShared (·.finishRefresh headSeq ticket)
      | none => refreshed
  | _ => s.takeFrame { session with stage := .checking } false sink now frame

/-- A frame of the backfill. -/
def receiveBackfill (s : System) (session : Session) (sink : SinkAnswers) (now : Int)
    (frame : ServerFrame) : System :=
  match frame with
  | .rowsDone headSeq =>
      (s.setSession { session with stage := .completing, headSeq := some headSeq }).hear headSeq
  | _ => s.takeFrame session true sink now frame

/-- A frame buffered during the checkpoint fetch. -/
def receiveBuffered (s : System) (session : Session) (sink : SinkAnswers) (now : Int)
    (frame : ServerFrame) : System :=
  match session.headSeq, frame with
  | none, .rowsDone headSeq =>
      (s.setSession { session with headSeq := some headSeq }).hear headSeq
  | _, _ => s.takeFrame session session.headSeq.isNone sink now frame

/-- `contains_frontier` answers `true` only for a frontier the document contains. -/
def Honest (s : System) (header : StateHeader) (verdict : Bool) : Prop :=
  verdict = true → s.ContainsUpTo config header.checkpointSeq

instance (s : System) (header : StateHeader) (verdict : Bool) :
    Decidable (s.Honest config header verdict) :=
  inferInstanceAs (Decidable (_ → _))

/-- The plan, and the cursor set to where it starts. -/
def planSession (s : System) (session : Session) (verdict : Bool) : System :=
  let contained := planContained session.header session.repair verdict
  let plan := planCatchUp session.cursor session.header contained
  { s with
    shared := { s.shared with cursor := plan.after }
    session := some { session with plan, stage := .planned }
    owed :=
      if plan.fetches then if s.shared.cursor < plan.after then max s.owed plan.after else s.owed
      else if verdict ∧ s.owed ≤ session.header.checkpointSeq then 0
      else s.owed }

def importRow (s : System) (row : RowImport) (outcome : RowImportOutcome) : Document :=
  match outcome with
  | .applied => { s.doc with rows := row.seq :: s.doc.rows }
  | .pendingDependencies => s.doc

/-- `apply_checkpoint` of a checkpoint that covers the rows up to `download`. -/
def importCheckpoint (s : System) (download : Nat) : System :=
  { s with
    doc := { s.doc with covered := max s.doc.covered download }
    owed := if s.owed ≤ download then 0 else s.owed }

/-- The import in progress of the session, or of the pull. -/
def settleRow (s : System) (row : RowImport) (outcome : RowImportOutcome) : System :=
  (s.onShared (·.settleRow outcome row.cursor)).hear row.seq

/-- The first state frame answers the hello; anything before it is stale. -/
def hearState (s : System) (session : Session) : ServerFrame → System
  | .state header _ =>
      { s with
        shared := { s.shared with
          server := some header, replayingGap := false, rowsReqOutstanding := false }
        session := some { session with header, stage := .heard } }.hear header.headSeq
  | _ => s.setSession session

/-- One action of the actor, in the session it runs. -/
def actor (s : System) (session : Session) : SessionAction → Option System
  | .hearState =>
      if session.At .hello then
        session.toClient.head?.map fun frame =>
          s.hearState { session with toClient := session.toClient.tail } frame
      else none
  | .swapAmnesty =>
      if session.At .heard then
        some { s with
          amnestyDone := true
          session := some { session with
            stage := if s.amnestyDone ∨ config.verified then .amnestied else .clamping } }
      else none
  | .clampCursor =>
      if session.At .clamping then
        some { s with
          shared := s.shared.clampCursor session.header
          session := some { session with stage := .amnestied } }
      else none
  | .readCursor =>
      if session.At .amnestied then
        some { s with
          connected := true
          session := some { session with cursor := s.shared.cursor, stage := .cursorRead } }
      else none
  | .readRepair =>
      if session.At .cursorRead then
        some (s.setSession { session with
          repair := s.shared.needsCheckpoint
          generation := s.shared.causalGapGeneration
          stage := .repairRead })
      else none
  | .plan verdict =>
      if session.At .repairRead ∧ s.Honest config session.header verdict then
        some (s.planSession session verdict)
      else none
  | .requestRows =>
      if session.At .planned then
        some (s.setSession { session with
          ticket := s.shared.refreshRequested
          toRoom := session.toRoom ++
            [.rowsReq session.plan.after (s.resumed && !session.repair)]
          stage := .requested })
      else none
  | .pushPending persist =>
      if session.At .requested then
        some (s.pushPending
          { session with stage := if session.plan.fetches then .fetching else .clearing } persist)
      else none
  | .buffer =>
      if session.At .fetching ∨ session.At .downloaded then
        session.toClient.head?.map fun frame =>
          s.setSession { session with
            toClient := session.toClient.tail, buffered := session.buffered ++ [frame] }
      else none
  | .importCheckpoint =>
      if session.At .downloaded then
        some ((s.importCheckpoint session.download).setSession { session with stage := .imported })
      else none
  | .mergeCursor =>
      if session.At .imported then
        some { s with
          shared := { s.shared with cursor := max s.shared.cursor session.header.checkpointSeq }
          session := some { session with stage := .clearing } }
      else none
  | .clearRepair =>
      if session.At .clearing then
        some { s with
          shared := s.shared.clearRepair session.generation
          session := some { session with stage := .replaying } }
      else none
  | .takeBuffered sink now =>
      if session.At .replaying then
        match session.buffered with
        | [] =>
            some (s.setSession { session with
              stage := if session.headSeq.isSome then .completing else .backfilling })
        | frame :: buffered => some (s.receiveBuffered { session with buffered } sink now frame)
      else none
  | .receive sink now =>
      match session.toClient with
      | [] => none
      | frame :: toClient =>
          if session.At .backfilling then
            some (s.receiveBackfill { session with toClient } sink now frame)
          else if session.At .steady then
            some (s.receiveSteady { session with toClient } sink now frame)
          else none
  | .importRow outcome =>
      session.importing.bind fun row =>
        if row.outcome = none then
          some { s with
            doc := s.importRow row outcome
            session := some { session with
              importing := some { row with outcome := some outcome } } }
        else none
  | .settleRow =>
      session.importing.bind fun row =>
        row.outcome.map fun outcome =>
          (s.settleRow row outcome).setSession { session with
            importing := none
            stage := if session.stage = .steady then .checking else session.stage }
  | .complete =>
      if session.At .completing then
        some { s with
          resumed := true
          session := some { session with
            stage := if s.shared.needsCheckpoint then .checking else .marking } }
      else none
  | .markCaughtUp =>
      if session.At .marking then
        session.headSeq.map fun headSeq =>
          { s with
            shared := s.shared.markCaughtUp headSeq session.ticket
            session := some { session with stage := .checking }
            announced := some headSeq }
      else none
  | .checkGap => if session.At .checking then some (s.checkGap session) else none
  | .refresh =>
      if session.At .steady ∧ session.refresh = none ∧
          s.shared.refreshRequested > s.shared.refreshCompleted ∧
          s.shared.rowsReqOutstanding = false then
        some { s with
          shared := { s.shared with rowsReqOutstanding := true }
          session := some { session with
            refresh := some s.shared.refreshRequested
            toRoom := session.toRoom ++ [.rowsReq s.shared.cursor false] } }
      else none
  | .takeNudge persist =>
      if session.At .steady ∧ s.nudge = true then
        some ({ s with nudge := false }.pushPending session persist)
      else none
  | .retryTick persist now =>
      if session.At .steady ∧ s.shared.retryAt.any (· ≤ now) = true then
        some ((s.onShared ({ · with retryAt := none })).pushHead session persist)
      else none
  | .sendProbe =>
      if session.At .steady then
        some (s.setSession { session with toRoom := session.toRoom ++ [.probe] })
      else none

/-! ## The HTTPS sync -/

def endPull (s : System) : System := s.setPull { s.pull with stage := .idle }

/-- `ensure_durable` of a batch of the snapshot: one that is queued no more needs
no write. -/
def ensureDurable (s : System) (push : PendingPush) (persisted : Bool) : Bool :=
  push.durable || !(s.shared.pending.any (·.batchId = push.batchId)) ||
    s.shared.pending.any (fun held => held.batchId = push.batchId ∧ held.durable) || persisted

/-- The state frame of a pull. -/
def readState (s : System) (frames : List ServerFrame) (header : StateHeader) : System :=
  { s with
    shared := { s.shared with server := some header }
    amnestyDone := true
    pull := { s.pull with
      header, frames
      stage := if s.amnestyDone ∨ config.verified then .amnestied else .clamping } }.hear
        header.headSeq

def planPull (s : System) (verdict : Bool) : System :=
  let pull := s.pull
  let plan := planCatchUp pull.cursor pull.header (planContained pull.header pull.repair verdict)
  s.setPull { pull with
    plan
    wasLive := pull.wasLive && !pull.repair && pull.cursor ≤ pull.header.headSeq && !plan.fetches
    stage := if plan.fetches then .fetching else .settling }

/-- One frame of the body of a pull. -/
def applyFrame (s : System) (frames : List ServerFrame) : ServerFrame → System
  | .row seq _ _ _ =>
      let replay := !s.pull.wasLive || s.shared.httpReplayEpoch ≠ s.pull.epoch ||
        s.shared.needsCheckpoint
      let proposed := s.shared.proposeRow seq
      { s with
        shared := proposed.2
        pull := { s.pull with frames, importing := some ⟨seq, replay, proposed.1, none⟩ } }
  | .rowsDone headSeq =>
      { s with
        shared :=
          s.shared.finishPull headSeq s.pull.epoch s.pull.gapGeneration s.pull.ticket
        pull := { s.pull with frames } }.hear headSeq
  | _ => s.setPull { s.pull with frames }

/-- One action of the task of `spawn_offline_sync`. -/
def sync (s : System) : PullAction → Option System
  | .spawn =>
      if s.pull.At .idle ∧ s.session = none then
        some (s.setPull { Pull.new with stage := .spawned })
      else none
  | .start =>
      if s.pull.At .spawned then
        some (s.setPull { s.pull with batches := s.shared.pending, stage := .pushing })
      else none
  | .post persisted =>
      if s.pull.At .pushing then
        s.pull.batches.head?.map fun push =>
          if s.ensureDurable push persisted then
            { s with
              shared := if push.durable then s.shared else s.shared.markDurable [push]
              pull := { s.pull with stage := .posting } }
          else s.setPull { s.pull with batches := [] }
      else none
  | .lose =>
      if s.pull.At .posting then
        some { s with
          late := s.late ++ (s.pull.batches.take 1).map fun push => (push.batchId, push.bytes)
          pull := { s.pull with batches := [], stage := .pushing } }
      else if s.pull.At .answered then
        some (s.setPull { s.pull with batches := [], stage := .pushing })
      else if s.pull.At .pulling ∨ s.pull.At .pulled then
        some (s.onShared (·.bumpReplayEpoch)).endPull
      else none
  | .readAnswer acknowledged =>
      if s.pull.At .answered then
        match s.pull.answer with
        | some (batchId, seq) =>
            some ({ s with
              shared := s.shared.httpAck acknowledged batchId seq
              pull := { s.pull with stage := .pushing } }.hear seq)
        | none => some (s.setPull { s.pull with batches := [], stage := .pushing })
      else none
  | .snapshot =>
      if s.pull.At .pushing ∧ s.pull.batches = [] then
        some { s with
          shared := { s.shared with httpLiveEpoch := none }
          pull := { s.pull with
            cursor := s.shared.cursor
            epoch := s.shared.httpReplayEpoch
            wasLive := s.shared.httpLiveEpoch = some s.shared.httpReplayEpoch
            ticket := s.shared.refreshRequested
            gapGeneration := s.shared.rowGapGeneration
            stage := .pulling } }
      else none
  | .readState =>
      if s.pull.At .pulled then
        match s.pull.frames with
        | .state header _ :: frames => some (s.readState config frames header)
        | _ => some s.endPull
      else none
  | .clampCursor =>
      if s.pull.At .clamping then
        some { s with
          shared := s.shared.clampCursor s.pull.header
          pull := { s.pull with stage := .amnestied } }
      else none
  | .checkCursor =>
      if s.pull.At .amnestied then
        if s.shared.cursor < s.pull.cursor ∧ s.pull.cursor ≤ s.pull.header.headSeq then
          some s.endPull
        else some (s.setPull { s.pull with stage := .checked })
      else none
  | .readRepair =>
      if s.pull.At .checked then
        some (s.setPull { s.pull with
          repair := s.shared.needsCheckpoint
          generation := s.shared.causalGapGeneration
          stage := .repairRead })
      else none
  | .plan verdict =>
      if s.pull.At .repairRead ∧ s.Honest config s.pull.header verdict then
        some (s.planPull verdict)
      else none
  | .importCheckpoint =>
      if s.pull.At .downloaded then
        some ((s.importCheckpoint s.pull.download).setPull { s.pull with stage := .settling })
      else none
  | .giveUp =>
      if s.pull.At .fetching ∨ s.pull.At .downloaded then some s.endPull else none
  | .settle =>
      if s.pull.At .settling then
        some { s with
          shared := s.shared.settlePull s.pull.header s.pull.plan.after s.pull.generation
          pull := { s.pull with stage := .applying } }
      else none
  | .takeFrame =>
      if s.pull.At .applying then
        match s.pull.frames with
        | [] => some s.endPull
        | frame :: frames => some (s.applyFrame frames frame)
      else none
  | .importRow outcome =>
      s.pull.importing.bind fun row =>
        if row.outcome = none then
          some { s with
            doc := s.importRow row outcome
            pull := { s.pull with importing := some { row with outcome := some outcome } } }
        else none
  | .settleRow =>
      s.pull.importing.bind fun row =>
        row.outcome.map fun outcome =>
          (s.settleRow row outcome).setPull { s.pull with importing := none }

/-! ## The room -/

/-- A frame the room sends into the session. -/
def send (s : System) (frames : List ServerFrame) : System :=
  { s with
    session := s.session.map fun session =>
      { session with toClient := session.toClient ++ frames } }

/-- A new row goes out to every other ready socket. -/
def relay (s : System) (row : Option LogRow) : System :=
  if s.session.any (·.socket.ready) then s.send (row.map (·.frame)).toList else s

/-- What a push did to the room. -/
def settlePush (s : System) (pushed : ChatRoom.Pushed) : System :=
  { s with room := pushed.room, history := s.history ++ pushed.row.toList }

/-- The room takes the next frame of the session. -/
def serve (s : System) (now : Int) : Option System :=
  s.session.bind fun session =>
    match session.toRoom with
    | [] => none
    | .hello _ device :: toRoom =>
        some ((s.setSession { session with
          toRoom
          socket := { device := if device = "" then session.socket.device else device
                      ready := true } }).send [s.room.stateFrame])
    | .rowsReq after excludeOwn :: toRoom =>
        some ((s.setSession { session with toRoom }).send
          (s.room.handleRowsReq session.socket after excludeOwn))
    | .push batchId payload :: toRoom =>
        (s.room.handlePush session.socket batchId payload now).map fun pushed =>
          ((s.setSession { session with toRoom }).settlePush pushed).send [pushed.answer]
    | .probe :: toRoom =>
        some ((s.setSession { session with toRoom }).send [.probeOk s.room.log.headSeq])

/-- A push of a closed connection reaches the room. -/
def serveLate (s : System) (batchId : String) (payload : Bytes) (now : Int) : Option System :=
  if (batchId, payload) ∈ s.late then
    (s.room.handlePush ⟨config.deviceId, true⟩ batchId payload now).map fun pushed =>
      ({ s with late := s.late.erase (batchId, payload) }.settlePush pushed).relay pushed.row
  else none

/-- The room takes the post of the HTTPS sync. -/
def servePost (s : System) (now : Int) : Option System :=
  match s.pull.stage, s.pull.batches with
  | .posting, push :: rest =>
      (s.room.postRows config.deviceId push.batchId push.bytes now).map fun pushed =>
        let answer :=
          match pushed.answer with
          | .ack batchId seq _ => some (batchId, seq)
          | _ => none
        ((s.settlePush pushed).relay pushed.row).setPull
          { s.pull with batches := rest, answer, stage := .answered }
  | _, _ => none

/-- `GET /checkpoint`: what it covers, while there is one. -/
def checkpointCovers (s : System) : Option Nat :=
  s.room.log.checkpoint.map fun _ => s.room.log.checkpointSeq

def step (s : System) (action : Action) : Option System :=
  let s := { s with announced := none }
  match action with
  | .enqueueBatch batchId bytes persisted =>
      if bytes.length > maxPushBytes then some s
      else if config.minted batchId then
        some { s with shared := s.shared.enqueueBatch batchId bytes persisted, nudge := true }
      else none
  | .probe => some (s.onShared (·.bumpReplayEpoch))
  | .requestCatchUp =>
      some (s.onShared fun shared =>
        { shared with refreshRequested := shared.refreshRequested + 1 })
  | .noteCheckpoint seqCovered size => some (s.onShared (·.noteCheckpoint seqCovered size))
  | .dial => s.dial config
  | .hangUp =>
      s.session.bind fun session => if session.importing.isNone then some s.hangUp else none
  | .session action => s.session.bind fun session => s.actor config session action
  | .pull action => s.sync config action
  | .serve now => s.serve now
  | .serveLate batchId payload now => s.serveLate config batchId payload now
  | .servePost now => s.servePost config now
  | .servePull =>
      if s.pull.stage = .pulling then
        some (s.setPull { s.pull with frames := s.room.getRows s.pull.cursor, stage := .pulled })
      else none
  | .serveCheckpoint =>
      s.session.bind fun session =>
        if session.stage = .fetching then
          s.checkpointCovers.map fun download =>
            s.setSession { session with download, stage := .downloaded }
        else none
  | .servePullCheckpoint =>
      if s.pull.stage = .fetching then
        s.checkpointCovers.map fun download =>
          s.setPull { s.pull with download, stage := .downloaded }
      else none
  | .pushElsewhere device batchId payload now =>
      if config.minted batchId then none
      else
        (s.room.handlePush ⟨device, true⟩ batchId payload now).map fun pushed =>
          (s.settlePush pushed).relay pushed.row
  | .commitCheckpoint seqCovered frontier bytes now =>
      some { s with room := s.room.postCheckpoint seqCovered frontier bytes now }

end System

end Zeron.Chat
