import Zeron.Data.Runs
import Zeron.Git.Status

namespace Zeron.Diff

open Zeron.Git

/-! # Checkout diff sync

Every tracked checkout has an entry and a task that answers kicks with a
`sync_entry`; a discard runs one of its own.  Reconcile passes, one at a time,
group the chats by checkout and mark, drop, update and add entries.  A step ends
where a lock is released or an await may switch tasks.
-/

structure DiffFileSummary where
  path : String
  oldPath : Option String
  status : String
  additions : Nat
  deletions : Nat
  binary : Bool
deriving DecidableEq

structure DiffSnapshot where
  gitStatus : Option (List GitFileStatus × Bool)
  branch : String
  headSha : Option String
  patch : String
  files : List DiffFileSummary
  additions : Nat
  deletions : Nat
  truncated : Bool
  checksum : String
deriving DecidableEq

structure CheckoutDiff where
  checkoutId : String
  patch : String
  files : List DiffFileSummary
  additions : Nat
  deletions : Nat
  truncated : Bool
  checksum : String
deriving DecidableEq

structure CheckoutGitStatus where
  checkoutId : String
  complete : Bool
  files : List GitFileStatus
deriving DecidableEq

structure DiffSidecar where
  chatId : String
  branch : Option String
  headSha : Option String
  patch : String
  files : List DiffFileSummary
  additions : Nat
  deletions : Nat
  truncated : Bool
deriving DecidableEq

def DiffSnapshot.diff (snapshot : DiffSnapshot) (checkoutId : String) : CheckoutDiff :=
  { checkoutId, patch := snapshot.patch, files := snapshot.files, additions := snapshot.additions
    deletions := snapshot.deletions, truncated := snapshot.truncated, checksum := snapshot.checksum }

def DiffSnapshot.sidecar (snapshot : DiffSnapshot) (chatId : String) : DiffSidecar :=
  { chatId, branch := some snapshot.branch, headSha := snapshot.headSha, patch := snapshot.patch
    files := snapshot.files, additions := snapshot.additions, deletions := snapshot.deletions
    truncated := snapshot.truncated }

/-! ## Entries -/

/-- Where an entry's task stands. -/
inductive Task
  | waiting
  | debouncing
  /-- The burst is over; `orphaned_since` is read next. -/
  | settled
  /-- The entry was found orphaned; the flag is stored next. -/
  | skipping
  | syncing
  | ended
deriving DecidableEq

structure CheckoutEntry where
  checkout : String
  chats : List String
  checksum : Option String := none
  orphanedSince : Option Nat := none
  skippedWhileOrphaned : Bool := false
  /-- What the kick channel holds. -/
  kicks : Nat := 0
  task : Task := .waiting
  /-- Whether a `sync_entry` has started since the last kick was sent. -/
  synced : Bool := true

/-! ## Syncs -/

/-- Who runs a `sync_entry`. -/
inductive Syncer
  | task (entry : Nat)
  | discard (number : Nat)
deriving DecidableEq

inductive SyncStage
  | discarding
  | capturing
  | failed
  | captured (snapshot : DiffSnapshot)
  | comparing (snapshot : DiffSnapshot)
  | storing (snapshot : DiffSnapshot)
  | checking (snapshot : DiffSnapshot)
  | sampling (snapshot : DiffSnapshot)
  | publishing (snapshot : DiffSnapshot) (live : List String)
  | published (snapshot : DiffSnapshot)
  | posting (snapshot : DiffSnapshot) (left : List String)
  /-- The sync of a discard is over; its kick is sent next. -/
  | discarded

structure Sync where
  entry : Nat
  stage : SyncStage

/-! ## Reconcile passes -/

inductive PassStage
  | grouped
  /-- From here to the end of the visits the pass holds the lock of the entries. -/
  | visiting (left : List (String × Nat)) (removed : List String)
  | cleared (entry : Nat) (left : List (String × Nat)) (removed : List String)
  | catchingUp (entry : Nat) (left : List (String × Nat)) (removed : List String)
  | removed
  | sampled (live : List String)
  | diffsPublished
  | statusesSampled (live : List String)
  | updating (left : List (String × List String))
  /-- An entry with a new chat, or a new entry; its kick is sent next. -/
  | joining (entry : Nat) (left : List (String × List String))

structure Pass where
  groups : List (String × List String)
  archived : List String
  now : Nat
  stage : PassStage

/-- The last diff of a checkout that went to the channel. -/
structure Publication where
  snapshot : DiffSnapshot
  entry : Nat
  syncer : Syncer
  /-- The chats that are sent it, once they have been read. -/
  recipients : Option (List String) := none

structure Engine where
  entries : List (String × Nat) := []
  arena : Nat → CheckoutEntry := fun _ => { checkout := "", chats := [], task := .ended }
  created : Nat := 0
  syncs : Syncer → Option Sync := fun _ => none
  discardLock : Option Nat := none
  pass : Option Pass := none
  diffs : List CheckoutDiff := []
  statuses : List CheckoutGitStatus := []
  publications : String → Option Publication := fun _ => none
  sent : List DiffSidecar := []

/-! ## Channels -/

/-- The row of an id replaced, or a new one at the end. -/
def upsert {row : Type} (idOf : row → String) (next : row) (rows : List row) : List row :=
  match rows.findIdx? (idOf · = idOf next) with
  | some index => rows.set index next
  | none => rows ++ [next]

def sortById {row : Type} (idOf : row → String) (rows : List row) : List row :=
  rows.mergeSort fun left right => decide (idOf left ≤ idOf right)

/-- The modification made by `publish_watch_with`. -/
def publishDiffs (live : List String) (updated : Option CheckoutDiff) (diffs : List CheckoutDiff) :
    List CheckoutDiff :=
  let kept := diffs.filter (·.checkoutId ∈ live)
  sortById (·.checkoutId) <|
    match updated with
    | some updated => upsert (·.checkoutId) updated kept
    | none => kept

/-- The modification made by `git_status::publish`. -/
def publishStatus (next : CheckoutGitStatus) (statuses : List CheckoutGitStatus) :
    List CheckoutGitStatus :=
  match statuses.findIdx? (·.checkoutId = next.checkoutId) with
  | some index => statuses.set index next
  | none => sortById (·.checkoutId) (statuses ++ [next])

namespace Engine

def live (engine : Engine) : List String := engine.entries.map Prod.fst

def update (engine : Engine) (entry : Nat) (change : CheckoutEntry → CheckoutEntry) : Engine :=
  { engine with arena := Function.update engine.arena entry (change (engine.arena entry)) }

def kick (engine : Engine) (entry : Nat) : Engine :=
  engine.update entry fun held => { held with kicks := held.kicks + 1, synced := false }

def setSync (engine : Engine) (syncer : Syncer) (sync : Option Sync) : Engine :=
  { engine with syncs := Function.update engine.syncs syncer sync }

/-- Whether the lock of the entries is free. -/
def unlocked (engine : Engine) : Bool :=
  match engine.pass.map Pass.stage with
  | some (.visiting _ _) | some (.cleared _ _ _) | some (.catchingUp _ _ _) => false
  | _ => true

/-! ## The task of an entry -/

def taskStep (engine : Engine) (entry : Nat) : Option Engine :=
  let held := engine.arena entry
  match held.task with
  | .waiting | .debouncing =>
      if held.kicks = 0 then none
      else some (engine.update entry fun held => { held with kicks := held.kicks - 1, task := .debouncing })
  | .settled =>
      if held.orphanedSince.isSome then
        some (engine.update entry fun held => { held with task := .skipping })
      else
        some ((engine.update entry fun held => { held with task := .syncing, synced := true }).setSync
          (.task entry) (some ⟨entry, .capturing⟩))
  | .skipping =>
      some (engine.update entry fun held => { held with task := .waiting, skippedWhileOrphaned := true })
  | .syncing | .ended => none

/-- No kick within the debounce. -/
def timeout (engine : Engine) (entry : Nat) : Option Engine :=
  if (engine.arena entry).task = .debouncing then
    some (engine.update entry fun held => { held with task := .settled })
  else none

/-- The task of a dropped entry ends: no sender, or no entry, is left. -/
def close (engine : Engine) (entry : Nat) : Option Engine :=
  let held := engine.arena entry
  if entry ∉ engine.entries.map Prod.snd ∧
      (held.task = .waiting ∨ held.task = .debouncing ∨ held.task = .settled) then
    some (engine.update entry fun held => { held with task := .ended })
  else none

/-! ## One sync -/

/-- The end of a `sync_entry`. -/
def finish (engine : Engine) (syncer : Syncer) (sync : Sync) : Engine :=
  match syncer with
  | .task entry => (engine.setSync syncer none).update entry fun held => { held with task := .waiting }
  | .discard _ => engine.setSync syncer (some { sync with stage := .discarded })

/-- `git_status::publish`. -/
def publishStatus (engine : Engine) (checkoutId : String) (files : List GitFileStatus)
    (complete : Bool) : Engine :=
  if checkoutId ∈ engine.live then
    { engine with statuses := Diff.publishStatus { checkoutId, complete, files } engine.statuses }
  else engine

/-- The chats a publication goes to, unless another has taken its place. -/
def address (engine : Engine) (checkoutId : String) (syncer : Syncer) (chats : List String) : Engine :=
  { engine with
    publications := Function.update engine.publications checkoutId <|
      (engine.publications checkoutId).map fun last =>
        if last.syncer = syncer then { last with recipients := some chats } else last }

/-- A step of a sync; `captured` and `posted` say what came of its awaits. -/
def syncStep (engine : Engine) (syncer : Syncer) (captured : Option DiffSnapshot) (posted : Bool) :
    Option Engine :=
  match engine.syncs syncer with
  | none => none
  | some sync =>
      let checkoutId := (engine.arena sync.entry).checkout
      let goOn (stage : SyncStage) : Engine := engine.setSync syncer (some { sync with stage })
      match sync.stage with
      | .discarding =>
          match syncer, engine.discardLock with
          | .discard number, none =>
              some { (engine.update sync.entry fun held => { held with synced := true }).setSync
                  syncer (some { sync with stage := .capturing }) with
                discardLock := some number }
          | _, _ => none
      | .capturing =>
          match captured with
          | none => some (goOn .failed)
          | some snapshot => some (goOn (.captured snapshot))
      | .failed =>
          if engine.unlocked then some ((engine.publishStatus checkoutId [] false).finish syncer sync)
          else none
      | .captured snapshot =>
          match snapshot.gitStatus with
          | none => some (goOn (.comparing snapshot))
          | some (files, complete) =>
              if engine.unlocked then
                some ((engine.publishStatus checkoutId files complete).setSync syncer
                  (some { sync with stage := .comparing snapshot }))
              else none
      | .comparing snapshot =>
          if (engine.arena sync.entry).checksum = some snapshot.checksum then
            some (engine.finish syncer sync)
          else some (goOn (.storing snapshot))
      | .storing snapshot =>
          some ((engine.update sync.entry fun held =>
            { held with checksum := some snapshot.checksum }).setSync syncer
              (some { sync with stage := .checking snapshot }))
      | .checking snapshot =>
          if engine.unlocked then
            if checkoutId ∈ engine.live then some (goOn (.sampling snapshot))
            else some (engine.finish syncer sync)
          else none
      | .sampling snapshot =>
          if engine.unlocked then some (goOn (.publishing snapshot engine.live)) else none
      | .publishing snapshot live =>
          some { engine.setSync syncer (some { sync with stage := .published snapshot }) with
            diffs := publishDiffs live (some (snapshot.diff checkoutId)) engine.diffs
            publications := Function.update engine.publications checkoutId
              (some { snapshot, entry := sync.entry, syncer }) }
      | .published snapshot =>
          let chats := (engine.arena sync.entry).chats
          some ((engine.address checkoutId syncer chats).setSync syncer
            (some { sync with stage := .posting snapshot chats }))
      | .posting snapshot (chat :: left) =>
          some { engine.setSync syncer (some { sync with stage := .posting snapshot left }) with
            sent := if posted then snapshot.sidecar chat :: engine.sent else engine.sent }
      | .posting _ [] => some (engine.finish syncer sync)
      | .discarded => some { (engine.kick sync.entry).setSync syncer none with discardLock := none }

/-! ## One pass -/

/-- A step of the pass; `order` is that in which the entries are visited. -/
def passStep (grace : Nat) (engine : Engine) (order : List (String × Nat)) : Option Engine :=
  match engine.pass with
  | none => none
  | some pass =>
      let goOn (engine : Engine) (stage : PassStage) : Option Engine :=
        some { engine with pass := some { pass with stage } }
      match pass.stage with
      | .grouped => if order.Perm engine.entries then goOn engine (.visiting order []) else none
      | .visiting ((id, entry) :: left) removed =>
          let held := engine.arena entry
          if (pass.groups.lookup id).isSome then
            if held.orphanedSince.isSome then
              goOn (engine.update entry fun held => { held with orphanedSince := none })
                (.cleared entry left removed)
            else goOn engine (.visiting left removed)
          else if held.chats ≠ [] ∧ ∀ chat ∈ held.chats, chat ∈ pass.archived then
            goOn engine (.visiting left (removed ++ [id]))
          else
            match held.orphanedSince with
            | none =>
                goOn (engine.update entry fun held => { held with orphanedSince := some pass.now })
                  (.visiting left removed)
            | some since =>
                goOn engine
                  (.visiting left (if grace ≤ pass.now - since then removed ++ [id] else removed))
      | .cleared entry left removed =>
          if (engine.arena entry).skippedWhileOrphaned then
            goOn (engine.update entry fun held => { held with skippedWhileOrphaned := false })
              (.catchingUp entry left removed)
          else goOn engine (.visiting left removed)
      | .catchingUp entry left removed => goOn (engine.kick entry) (.visiting left removed)
      | .visiting [] removed =>
          goOn { engine with entries := engine.entries.filter (·.1 ∉ removed) }
            (if removed = [] then .updating pass.groups else .removed)
      | .removed => goOn engine (.sampled engine.live)
      | .sampled live =>
          goOn { engine with diffs := publishDiffs live none engine.diffs } .diffsPublished
      | .diffsPublished => goOn engine (.statusesSampled engine.live)
      | .statusesSampled live =>
          goOn { engine with statuses := engine.statuses.filter (·.checkoutId ∈ live) }
            (.updating pass.groups)
      | .updating [] => some { engine with pass := none }
      | .updating ((id, chats) :: left) =>
          match engine.entries.lookup id with
          | some entry =>
              goOn (engine.update entry fun held => { held with chats })
                (if chats.any (· ∉ (engine.arena entry).chats) then .joining entry left
                  else .updating left)
          | none =>
              let entry := engine.created
              goOn { (engine.update entry fun _ => { checkout := id, chats }) with
                  entries := (id, entry) :: engine.entries
                  created := entry + 1 }
                (.joining entry left)
      | .joining entry left => goOn (engine.kick entry) (.updating left)

end Engine

/-! ## The system -/

inductive Action
  /-- A change under the watched roots, or a repair. -/
  | kick (entry : Nat)
  | task (entry : Nat)
  | timeout (entry : Nat)
  | close (entry : Nat)
  | discard (number : Nat) (checkoutId : String)
  | sync (syncer : Syncer) (captured : Option DiffSnapshot) (posted : Bool)
  | reconcile (groups : List (String × List String)) (archived : List String) (now : Nat)
  | pass (order : List (String × Nat))

def Engine.step (grace : Nat) (engine : Engine) : Action → Option Engine
  | .kick entry => if entry < engine.created then some (engine.kick entry) else none
  | .task entry => engine.taskStep entry
  | .timeout entry => engine.timeout entry
  | .close entry => engine.close entry
  | .discard number checkoutId =>
      match engine.syncs (.discard number), engine.entries.lookup checkoutId with
      | none, some entry =>
          if engine.unlocked then
            some (engine.setSync (.discard number) (some ⟨entry, .discarding⟩))
          else none
      | _, _ => none
  | .sync syncer captured posted => engine.syncStep syncer captured posted
  | .reconcile groups archived now =>
      if engine.pass.isNone ∧ (groups.map Prod.fst).Nodup then
        some { engine with pass := some { groups, archived, now, stage := .grouped } }
      else none
  | .pass order => engine.passStep grace order

end Zeron.Diff
