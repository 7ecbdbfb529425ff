import Zeron.Data.Runs
import Zeron.Registry.Sidebar
import Zeron.Command.Evaluate

namespace Zeron.Command

/-! # The host of a chat executes its commands

Drain passes, relayed ingests and retries of one chat run side by side on the
host.  Each is a task that makes one document read, one ledger call or one lock
section at a time; whatever order their steps come in is a run.  What a call
answers, the clock and what `execute` returns are part of the action.
-/

def SessionCommandPayload.isPrompt : SessionCommandPayload → Bool
  | .run _ _ | .steer _ _ => true
  | .interrupt | .respondInput _ _ => false

def SessionCommandEntry.isPrompt (entry : SessionCommandEntry) : Bool := entry.payload.isPrompt

/-! ## Attachments still in transit -/

def isPendingRef (path : List Char) : Bool := "pending://".toList.isPrefixOf path

def trimStart (text : List Char) : List Char := text.dropWhile Registry.SidebarM.isWhitespace

def trim (text : List Char) : List Char := (trimStart (trimStart text).reverse).reverse

/-- The refs a text lists on its `- pending://…` lines. -/
def pendingRefsIn (text : String) : List String :=
  (text.toList.splitOn '\n').filterMap fun line =>
    match (trimStart line).dropPrefix? "- ".toList with
    | some path => if isPendingRef (trim path) then some (String.ofList (trim path)) else none
    | none => none

/-- The refs whose bytes are not on this device; `landed` is the uploads store, when
there is one. -/
def missingAttachments (landed : Option (List String)) (entry : SessionCommandEntry) :
    List String :=
  let refs := match entry.payload with
    | .run request _ => request.attachments.filter fun (path : String) => isPendingRef path.toList
    | .steer prompt _ => pendingRefsIn prompt
    | _ => []
  match landed with
  | some landed => refs.filter fun path => path ∉ landed
  | none => []

def attachmentWaitMaxMs : Int := 15 * 60 * 1000

/-! ## The document's ledger rows -/

/-- `set_command_status`: the first row under the id takes the status. -/
def setCommandStatus (id : String) (status : SessionCommandStatus) (resolution : Option String) :
    List SessionCommandEntry → Option (List SessionCommandEntry)
  | [] => none
  | row :: rest =>
      if row.id = id then
        some ({ row with status, resolution := resolution.or row.resolution } :: rest)
      else (setCommandStatus id status resolution rest).map (row :: ·)

/-- The status of the row `set_command_status` writes. -/
def commandStatus (id : String) (commands : List SessionCommandEntry) :
    Option SessionCommandStatus :=
  (commands.find? fun row => row.id = id).map SessionCommandEntry.status

/-! ## What the tasks share -/

structure Shared where
  commands : List SessionCommandEntry
  /-- The ids of the transcript's messages. -/
  messages : List String
  /-- The processed ledger, which survives a crash. -/
  processed : List String
  executing : List String
  /-- The task that holds `command_drain_lock`. -/
  promptLock : Option Nat
  /-- History: the commands `execute` was entered for. -/
  entered : List String
  /-- History: the commands whose `execute` returned `Ok` with `Applied`. -/
  applied : List String
  /-- History: those of them a relayed ingest executed. -/
  relayed : List String
  /-- History: the statuses the host wrote. -/
  outcomes : List (String × SessionCommandStatus)
deriving DecidableEq

/-- The one access to what is shared a step makes. -/
inductive Effect where
  | idle
  | acquire
  | release (guard : Bool)
  | claim (id : String)
  | unclaim (id : String)
  | mark (id : String)
  | enter (id : String)
  | apply (id : String) (relayed : Bool)
  | write (id : String) (status : SessionCommandStatus) (resolution : Option String)
deriving DecidableEq

def Shared.after (shared : Shared) (task : Nat) : Effect → Shared
  | .idle => shared
  | .acquire => { shared with promptLock := some task }
  | .release guard => { shared with promptLock := if guard then none else shared.promptLock }
  | .claim id => { shared with executing := id :: shared.executing }
  | .unclaim id => { shared with executing := shared.executing.filter (· ≠ id) }
  | .mark id => { shared with processed := shared.processed.insert id }
  | .enter id => { shared with entered := shared.entered ++ [id] }
  | .apply id relayed =>
      { shared with
        applied := id :: shared.applied
        relayed := if relayed then id :: shared.relayed else shared.relayed }
  | .write id status resolution =>
      match setCommandStatus id status resolution shared.commands with
      | some commands =>
          { shared with commands, outcomes := shared.outcomes ++ [(id, status)] }
      | none => shared

/-- What `execute` says it did. -/
inductive Executed where
  | applied
  | rejected
deriving DecidableEq

def Executed.status : Executed → SessionCommandStatus
  | .applied => .applied
  | .rejected => .rejected

/-- What the outside answers one step: whether its call goes through, the clock, the
uploads that have landed, what `execute` returns, and where a map's iteration goes. -/
structure Reply where
  ok : Bool
  nowMs : Int64
  landed : Option (List String)
  outcome : Except String (Executed × Option String)
  pick : Nat

def Reply.isProcessed (reply : Reply) (shared : Shared) (id : String) : Bool :=
  reply.ok && decide (id ∈ shared.processed)

def Reply.context (reply : Reply) (shared : Shared) (commands : List SessionCommandEntry)
    (messages : List String) : EvaluationContext :=
  { isProcessed := reply.isProcessed shared, nowMs := reply.nowMs, entries := commands,
    currentTurnId := messages.getLast?, turnIsPast := fun turnId => decide (turnId ∈ messages) }

/-! ## `drain_command_kind` -/

inductive PassStage where
  | starting
  | reading
  /-- The dead-command sweep is at the head of `rest`. -/
  | sweeping (commands rest : List SessionCommandEntry)
  /-- The ledger holds the command; is it executing? -/
  | suspecting (commands : List SessionCommandEntry) (entry : SessionCommandEntry)
      (rest : List SessionCommandEntry)
  | rejecting (commands : List SessionCommandEntry) (entry : SessionCommandEntry)
      (rest : List SessionCommandEntry)
  | finding (commands rest : List SessionCommandEntry)
  | waiting
  | chosen (commands : List SessionCommandEntry) (entry : SessionCommandEntry)
  | evaluating (commands : List SessionCommandEntry) (entry : SessionCommandEntry)
      (messages : List String)
  | gating (entry : SessionCommandEntry)
  | refusing (entry : SessionCommandEntry)
  | refused (entry : SessionCommandEntry)
  | claiming (entry : SessionCommandEntry) (disposition : CommandDisposition)
  | marking (entry : SessionCommandEntry) (disposition : CommandDisposition)
  | abandoning (entry : SessionCommandEntry)
  | marked (entry : SessionCommandEntry) (disposition : CommandDisposition)
  | executing (entry : SessionCommandEntry)
  | resolving (entry : SessionCommandEntry) (executed : Executed) (resolution : Option String)
  | releasing (entry : SessionCommandEntry)
  | leaving
deriving DecidableEq

structure Pass where
  controlsOnly : Bool
  /-- `prompt_guard` is held. -/
  guard : Bool
  skipped : List String
  stage : PassStage
deriving DecidableEq

def Pass.skip (pass : Pass) (id : String) (stage : PassStage) : Pass :=
  { pass with skipped := id :: pass.skipped, stage }

def Pass.next (shared : Shared) (pass : Pass) (reply : Reply) : Option (Effect × Option Pass) :=
  let goto (stage : PassStage) : Option (Effect × Option Pass) :=
    some (.idle, some { pass with stage })
  let act (effect : Effect) (stage : PassStage) : Option (Effect × Option Pass) :=
    some (effect, some { pass with stage })
  match pass.stage with
  | .starting =>
      if !reply.ok then some (.idle, none)
      else if pass.controlsOnly || shared.promptLock.isSome then goto .reading
      else some (.acquire, some { pass with guard := true, stage := .reading })
  | .reading =>
      if reply.ok then goto (.sweeping shared.commands shared.commands) else goto .leaving
  | .sweeping commands [] => goto (.finding commands commands)
  | .sweeping commands (entry :: rest) =>
      if entry.status = .pending ∧ entry.id ∉ pass.skipped ∧ reply.isProcessed shared entry.id then
        goto (.suspecting commands entry rest)
      else goto (.sweeping commands rest)
  | .suspecting commands entry rest =>
      if entry.id ∈ shared.executing then goto (.sweeping commands rest)
      else goto (.rejecting commands entry rest)
  | .rejecting commands entry rest =>
      some (.write entry.id .rejected (some "interrupted before completion — retry to send again"),
        some (pass.skip entry.id (.sweeping commands rest)))
  | .finding _ [] =>
      if !pass.guard && !pass.controlsOnly then goto .waiting else goto .leaving
  | .finding commands (entry :: rest) =>
      if entry.status = .pending ∧ entry.id ∉ pass.skipped ∧
          ¬ reply.isProcessed shared entry.id ∧ (pass.guard ∨ ¬ entry.isPrompt) then
        goto (.chosen commands entry)
      else goto (.finding commands rest)
  | .waiting =>
      -- After the wait the ledger is read again: a prompt may have been appended.
      if shared.promptLock.isSome then none
      else some (.acquire, some { pass with guard := true, stage := .reading })
  | .chosen commands entry =>
      goto (.evaluating commands entry (if reply.ok then shared.messages else []))
  | .evaluating commands entry messages =>
      match evaluateCommand entry (reply.context shared commands messages) with
      | .execute => goto (.gating entry)
      | disposition => goto (.claiming entry disposition)
  | .gating entry =>
      if missingAttachments reply.landed entry = [] then goto (.claiming entry .execute)
      else if reply.nowMs.toInt - entry.issuedAt.toInt < attachmentWaitMaxMs then goto .leaving
      else goto (.refusing entry)
  | .refusing entry =>
      if reply.ok then act (.mark entry.id) (.refused entry) else goto .leaving
  | .refused entry => act (.write entry.id .rejected (some "attachments never arrived")) .reading
  | .claiming entry disposition =>
      if entry.id ∈ shared.executing then some (.idle, some (pass.skip entry.id .reading))
      else act (.claim entry.id) (.marking entry disposition)
  | .marking entry disposition =>
      -- The answer of the mark is not read.
      if reply.ok then act (.mark entry.id) (.marked entry disposition)
      else goto (.abandoning entry)
  | .abandoning entry => act (.unclaim entry.id) .leaving
  | .marked entry disposition =>
      match disposition with
      | .skip => some (.idle, some (pass.skip entry.id (.releasing entry)))
      | .expired => act (.write entry.id .expired none) (.releasing entry)
      | .superseded => act (.write entry.id .superseded none) (.releasing entry)
      | .execute => act (.enter entry.id) (.executing entry)
  | .executing entry =>
      match reply.outcome with
      | .ok (.applied, resolution) =>
          act (.apply entry.id false) (.resolving entry .applied resolution)
      | .ok (.rejected, resolution) => goto (.resolving entry .rejected resolution)
      | .error message => goto (.resolving entry .rejected (some message))
  | .resolving entry executed resolution =>
      act (.write entry.id executed.status resolution) (.releasing entry)
  | .releasing entry => act (.unclaim entry.id) .reading
  | .leaving => some (.release pass.guard, none)

/-! ## `ingest_relayed_command` -/

inductive RelayResult where
  | executed
  | expired
  | superseded
  | duplicate
  | failed (error : String)
deriving DecidableEq

inductive RelayStage where
  | arriving
  | waiting
  | reading
  | viewing (commands : List SessionCommandEntry)
  | evaluating (commands : List SessionCommandEntry) (messages : List String)
  | claiming (disposition : CommandDisposition)
  | marking (disposition : CommandDisposition)
  | marked (disposition : CommandDisposition)
  | executing
  | releasing (result : RelayResult)
  | leaving (result : RelayResult)
deriving DecidableEq

structure Relay where
  entry : SessionCommandEntry
  guard : Bool
  stage : RelayStage
deriving DecidableEq

def Relay.next (shared : Shared) (relay : Relay) (reply : Reply) :
    Option (Effect × Option Relay) :=
  let goto (stage : RelayStage) : Option (Effect × Option Relay) :=
    some (.idle, some { relay with stage })
  let act (effect : Effect) (stage : RelayStage) : Option (Effect × Option Relay) :=
    some (effect, some { relay with stage })
  match relay.stage with
  | .arriving =>
      if missingAttachments reply.landed relay.entry ≠ [] then
        goto (.leaving (.failed "attachments not landed yet"))
      else if !reply.ok then goto (.leaving (.failed "executor unavailable"))
      else if relay.entry.isPrompt then goto .waiting
      else goto .reading
  | .waiting =>
      if shared.promptLock.isSome then none
      else some (.acquire, some { relay with guard := true, stage := .reading })
  | .reading =>
      if reply.ok then goto (.viewing shared.commands)
      else goto (.leaving (.failed "document"))
  | .viewing commands => goto (.evaluating commands (if reply.ok then shared.messages else []))
  | .evaluating commands messages =>
      match evaluateCommand relay.entry (reply.context shared commands messages) with
      | .skip => goto (.leaving .duplicate)
      | disposition => goto (.claiming disposition)
  | .claiming disposition =>
      if relay.entry.id ∈ shared.executing then goto (.leaving .duplicate)
      else act (.claim relay.entry.id) (.marking disposition)
  | .marking disposition =>
      if !reply.ok then goto (.releasing (.failed "store"))
      else if relay.entry.id ∈ shared.processed then goto (.releasing .duplicate)
      else act (.mark relay.entry.id) (.marked disposition)
  | .marked disposition =>
      match disposition with
      | .skip => goto (.releasing .duplicate)
      | .expired => goto (.releasing .expired)
      | .superseded => goto (.releasing .superseded)
      | .execute => act (.enter relay.entry.id) .executing
  | .executing =>
      match reply.outcome with
      | .ok (.applied, _) => act (.apply relay.entry.id true) (.releasing .executed)
      | .ok (.rejected, _) => goto (.releasing .executed)
      | .error message => goto (.releasing (.failed message))
  | .releasing result => act (.unclaim relay.entry.id) (.leaving result)
  | .leaving _ => some (.release relay.guard, none)

/-! ## `retry_delivery` -/

def SessionCommandPayload.messageId : SessionCommandPayload → Option String
  | .run _ messageId => some messageId
  | .steer _ messageId => messageId
  | _ => none

/-- Another pending attempt of the same message, not yet processed. -/
def liveAttempt (isProcessed : String → Bool) (commands : List SessionCommandEntry)
    (entry : SessionCommandEntry) : Bool :=
  commands.any fun other =>
    other.id != entry.id && other.status == .pending && !isProcessed other.id &&
      other.kind == entry.kind && other.payload.messageId == entry.payload.messageId

/-- One dead attempt a message: the latest speaks for it. -/
def keepLatest (entry : SessionCommandEntry) : List SessionCommandEntry → List SessionCommandEntry
  | [] => [entry]
  | held :: rest =>
      if held.payload.messageId = entry.payload.messageId then
        (if held.issuedAt < entry.issuedAt then entry else held) :: rest
      else held :: keepLatest entry rest

inductive RetryStage where
  | reading
  | viewing (commands : List SessionCommandEntry)
  | scanning (commands : List SessionCommandEntry) (messages : List String)
      (rest dead : List SessionCommandEntry)
  | suspecting (commands : List SessionCommandEntry) (messages : List String)
      (entry : SessionCommandEntry) (rest dead : List SessionCommandEntry)
  | weighing (commands : List SessionCommandEntry) (messages : List String)
      (entry : SessionCommandEntry) (rest dead : List SessionCommandEntry)
  | closing (dead : List SessionCommandEntry)
deriving DecidableEq

def RetryStage.next (shared : Shared) (stage : RetryStage) (reply : Reply) :
    Option (Effect × Option RetryStage) :=
  match stage with
  | .reading => some (.idle, if reply.ok then some (.viewing shared.commands) else none)
  | .viewing commands =>
      some (.idle, some (.scanning commands (if reply.ok then shared.messages else []) commands []))
  | .scanning _ _ [] dead => some (.idle, some (.closing dead))
  | .scanning commands messages (entry :: rest) dead =>
      let skip := some (.idle, some (.scanning commands messages rest dead))
      match entry.payload.messageId with
      | none => skip
      | some messageId =>
          if messageId ∈ messages then skip
          else match entry.status with
            | .rejected | .expired =>
                some (.idle, some (.weighing commands messages entry rest dead))
            | .pending =>
                if reply.isProcessed shared entry.id then
                  some (.idle, some (.suspecting commands messages entry rest dead))
                else skip
            | _ => skip
  | .suspecting commands messages entry rest dead =>
      if entry.id ∈ shared.executing then
        some (.idle, some (.scanning commands messages rest dead))
      else some (.idle, some (.weighing commands messages entry rest dead))
  | .weighing commands messages entry rest dead =>
      if liveAttempt (reply.isProcessed shared) commands entry then
        some (.idle, some (.scanning commands messages rest dead))
      else some (.idle, some (.scanning commands messages rest (keepLatest entry dead)))
  | .closing dead =>
      match dead[reply.pick]? with
      | none => if dead = [] then some (.idle, none) else none
      | some old =>
          let rest := some (.closing (dead.eraseIdx reply.pick))
          if old.status = .pending then
            some (.write old.id .rejected
              (some "interrupted before completion — superseded by retry"), rest)
          else some (.idle, rest)

/-! ## The host -/

inductive Task where
  | drain (pass : Pass)
  | relay (call : Relay)
  | retry (stage : RetryStage)
deriving DecidableEq

def Task.next (shared : Shared) (task : Task) (reply : Reply) : Option (Effect × Option Task) :=
  match task with
  | .drain pass => (pass.next shared reply).map fun (effect, next) => (effect, next.map .drain)
  | .relay call => (call.next shared reply).map fun (effect, next) => (effect, next.map .relay)
  | .retry stage => (stage.next shared reply).map fun (effect, next) => (effect, next.map .retry)

structure System where
  shared : Shared
  /-- Every task ever started; `none` once it has returned. -/
  tasks : List (Option Task)
deriving DecidableEq

def System.task (s : System) (index : Nat) : Option Task := s.tasks[index]?.join

inductive Action where
  | drain (controlsOnly : Bool)
  | relay (entry : SessionCommandEntry)
  | retry
  | advance (index : Nat) (reply : Reply)
  /-- The document changes: other devices' rows arrive, a composer cancels, a turn
  writes its messages. -/
  | sync (commands : List SessionCommandEntry) (messages : List String)
  /-- The process dies and starts again on the document it had saved. -/
  | crash (commands : List SessionCommandEntry) (messages : List String)

def System.spawn (s : System) (task : Task) : System := { s with tasks := s.tasks ++ [some task] }

def System.step (s : System) : Action → Option System
  | .drain controlsOnly =>
      some (s.spawn (.drain { controlsOnly, guard := false, skipped := [], stage := .starting }))
  | .relay entry => some (s.spawn (.relay { entry, guard := false, stage := .arriving }))
  | .retry => some (s.spawn (.retry .reading))
  | .advance index reply =>
      match s.task index with
      | none => none
      | some task =>
          (task.next s.shared reply).map fun (effect, next) =>
            { shared := s.shared.after index effect, tasks := s.tasks.set index next }
  | .sync commands messages => some { s with shared := { s.shared with commands, messages } }
  | .crash commands messages =>
      some { shared := { s.shared with commands, messages, executing := [], promptLock := none },
             tasks := s.tasks.map fun _ => none }

end Zeron.Command
