import Zeron.Edge.Room

namespace Zeron.Sync

open Zeron.Data Zeron.Registry Zeron.Edge

/-! # Clients and their room

One room and any number of clients.  A client reaches the room over two
transports that know nothing of each other: a WebSocket session, whose frames
arrive in order until it drops, and an HTTPS cycle, which pushes the queue and
pulls once.  Every event of the source that runs under one lock, or as one room
event, is one `Action`; whatever order they come in is a run.
-/

inductive ClientFrame where
  | hello (cursor : Option Nat)
  | push (batch : PendingBatch)
deriving DecidableEq

inductive ServerFrame where
  | state (frame : StateFrame)
  | rows (frame : RowsFrame)
  | ack (batch : String) (seq : Nat)
  | error (code message : String)
deriving DecidableEq

/-- One WebSocket session, with the frames on their way in each direction. -/
structure Session where
  /-- The cursor this session's hello carried. -/
  cursor : Option Nat
  /-- The client has applied the state frame answering its hello. -/
  joined : Bool
  /-- The room has seen the hello. -/
  ready : Bool
  toRoom : List ClientFrame
  toClient : List ServerFrame
deriving DecidableEq

/-- Where the HTTPS cycle of `spawn_offline_sync` stands. -/
inductive Cycle where
  | idle
  /-- Spawned while the socket was down; not running yet. -/
  | spawned
  /-- Batches still to be posted, the next one first. -/
  | pushing (batches : List PendingBatch)
  /-- The answer to a post is on its way; `rest` is still to be posted. -/
  | answered (outcome : PushOutcome) (rest : List PendingBatch)
  /-- The pull asked for rows above `since`. -/
  | pulling (since : Nat)
  /-- The answer to that pull is on its way. -/
  | pulled (since : Nat) (frame : StateFrame)
deriving DecidableEq

structure Client where
  doc : RegistryDoc
  session : Option Session
  cycle : Cycle
deriving DecidableEq

/-- The cursor a hello carries: none from a replica that never held anything. -/
def helloCursor (doc : RegistryDoc) : Option Nat :=
  if doc.cursor = 0 ∧ doc.pending.isEmpty ∧ doc.generation = 0 then none else some doc.cursor

namespace Client

def onDoc (client : Client) (change : RegistryDoc → RegistryDoc) : Client :=
  { client with doc := change client.doc }

/-! ## The WebSocket session -/

def connect (client : Client) : Option Client :=
  match client.session with
  | some _ => none
  | none =>
    let cursor := helloCursor client.doc
    some { client with
      session := some
        { cursor, joined := false, ready := false, toRoom := [.hello cursor], toClient := [] } }

/-- The session ends; whatever it still carried is lost. -/
def disconnect (client : Client) : Client :=
  { client with session := none, doc := client.doc.markDisconnected }

/-- `push_pending`: send every batch not in flight. -/
def pushPending (client : Client) : Option Client :=
  client.session.bind fun session =>
    if session.joined then
      let (batches, doc) := client.doc.takePushable
      some { client with
        doc
        session := some { session with toRoom := session.toRoom ++ batches.map .push } }
    else none

/-- A frame the room sends into the session. -/
def send (client : Client) (frame : ServerFrame) : Client :=
  { client with
    session := client.session.map fun session =>
      { session with toClient := session.toClient ++ [frame] } }

/-- A broadcast reaches only ready sessions. -/
def broadcast (client : Client) (frame : RowsFrame) : Client :=
  if client.session.any (·.ready) then client.send (.rows frame) else client

/-- The next frame arrives.  Before the state frame everything else is
skipped; a seq gap ends the session. -/
def receive (client : Client) (now : Nat → Int) (order : IterOrder) : Option Client :=
  client.session.bind fun session =>
    match session.toClient with
    | [] => none
    | frame :: toClient =>
      let session := { session with toClient }
      let client := { client with session := some session }
      some <|
        match frame with
        | .state frame =>
          let (_, doc) :=
            client.doc.applyState now order frame.seq frame.full frame.gcFloor frame.rows
          { client with doc, session := some { session with joined := true } }
        | .rows frame =>
          if session.joined then
            let (contiguous, doc) := client.doc.applyRows frame.seq frame.rows
            if contiguous then { client with doc } else { client with doc }.disconnect
          else client
        | .ack batch seq =>
          if session.joined then client.onDoc fun doc => (doc.ackBatch batch seq).2 else client
        | .error _ _ => client

/-! ## The HTTPS cycle -/

/-- One cycle at a time, and only while there is no session. -/
def spawnCycle (client : Client) : Option Client :=
  match client.session, client.cycle with
  | none, .idle => some { client with cycle := .spawned }
  | _, _ => none

def startCycle (client : Client) : Option Client :=
  match client.cycle with
  | .spawned =>
    let (batches, doc) := client.doc.takePushable
    some { client with doc, cycle := .pushing batches }
  | _ => none

/-- A failed post: unmark everything and go on to the pull. -/
def failPush (client : Client) : Client :=
  { client with doc := client.doc.markDisconnected, cycle := .pushing [] }

/-- The answer to a post arrives. -/
def readAnswer (client : Client) : Option Client :=
  match client.cycle with
  | .answered (.accepted batch seq _) rest =>
    some { client with doc := (client.doc.ackBatch batch seq).2, cycle := .pushing rest }
  | .answered (.rejected _ _) _ => some client.failPush
  | _ => none

/-- A post, or its answer, is lost. -/
def loseAnswer (client : Client) : Option Client :=
  match client.cycle with
  | .pushing (_ :: _) | .answered _ _ => some client.failPush
  | _ => none

/-- Done posting: ask for rows above the cursor. -/
def startPull (client : Client) : Option Client :=
  match client.cycle with
  | .pushing [] => some { client with cycle := .pulling client.doc.cursor }
  | _ => none

/-- The pulled rows arrive, and are applied exactly as a state frame. -/
def readPull (client : Client) (now : Nat → Int) (order : IterOrder) : Option Client :=
  match client.cycle with
  | .pulled _ frame =>
    let (_, doc) := client.doc.applyState now order frame.seq frame.full frame.gcFloor frame.rows
    some { client with doc, cycle := .idle }
  | _ => none

/-- The pull, or its answer, is lost. -/
def losePull (client : Client) : Option Client :=
  match client.cycle with
  | .pulling _ | .pulled _ _ => some { client with cycle := .idle }
  | _ => none

end Client

/-! ## What a client does by itself -/

inductive ClientAction where
  /-- A local write of one row. -/
  | write (now : Nat → Int) (kind id : String) (op : OpKind) (set : BTreeMap Json)
  /-- A local (cascade) delete. -/
  | deleteRows (now : Nat → Int) (keys : List RowKey)
  | connect
  | pushPending
  /-- Take the next frame of the session. -/
  | receive (now : Nat → Int) (order : IterOrder)
  | disconnect
  | spawnCycle
  | startCycle
  | readAnswer
  | loseAnswer
  | startPull
  | readPull (now : Nat → Int) (order : IterOrder)
  | losePull

def Client.act (client : Client) : ClientAction → Option Client
  | .write now kind id op set => some (client.onDoc fun doc => doc.write now kind id op set)
  | .deleteRows now keys => some (client.onDoc fun doc => doc.deleteRowOps now keys)
  | .connect => client.connect
  | .pushPending => client.pushPending
  | .receive now order => client.receive now order
  | .disconnect => client.session.map fun _ => client.disconnect
  | .spawnCycle => client.spawnCycle
  | .startCycle => client.startCycle
  | .readAnswer => client.readAnswer
  | .loseAnswer => client.loseAnswer
  | .startPull => client.startPull
  | .readPull now order => client.readPull now order
  | .losePull => client.losePull

/-! ## The whole system -/

structure System (ι : Type) where
  room : Room
  client : ι → Client

inductive Action (ι : Type) where
  | client (i : ι) (action : ClientAction)
  /-- The room takes the next frame of a session. -/
  | serve (i : ι) (now : Int)
  /-- The room takes the next post of a cycle. -/
  | servePush (i : ι) (now : Int)
  /-- The room answers the pull of a cycle. -/
  | servePull (i : ι)
  /-- A batch from elsewhere: another device, or a post repeated on its way. -/
  | push (now : Int) (batch : String) (ops : List RowOp)
  | alarm (now : Int)
  | reset

def Action.isReset {ι : Type} : Action ι → Bool
  | .reset => true
  | _ => false

namespace System

variable {ι : Type} [DecidableEq ι]

def setClient (system : System ι) (i : ι) (client : Client) : System ι :=
  { system with client := Function.update system.client i client }

@[simp] theorem setClient_room (system : System ι) (i : ι) (client : Client) :
    (system.setClient i client).room = system.room := rfl

@[simp] theorem setClient_client_self (system : System ι) (i : ι) (client : Client) :
    (system.setClient i client).client i = client := by
  simp [setClient]

theorem setClient_client_of_ne (system : System ι) {i j : ι} (other : j ≠ i) (client : Client) :
    (system.setClient i client).client j = system.client j := by
  simp [setClient, other]

/-- One batch reaches the room; merged rows go out to every ready session. -/
def pushBatch (system : System ι) (now : Int) (batch : String) (ops : List RowOp) :
    System ι × PushOutcome :=
  let pushed := system.room.applyPushBatch now batch ops
  ({ room := pushed.room
     client := fun i =>
       pushed.broadcast.elim (system.client i) fun frame => (system.client i).broadcast frame },
    pushed.outcome)

omit [DecidableEq ι] in
/-- A broadcast touches nothing of a client but the frames on their way. -/
theorem pushBatch_client (system : System ι) (now : Int) (batch : String) (ops : List RowOp)
    (i : ι) :
    ((system.pushBatch now batch ops).1.client i).doc = (system.client i).doc ∧
    ((system.pushBatch now batch ops).1.client i).cycle = (system.client i).cycle ∧
    ∀ session ∈ ((system.pushBatch now batch ops).1.client i).session,
      ∃ old ∈ (system.client i).session, session.cursor = old.cursor ∧
        session.joined = old.joined ∧ session.ready = old.ready ∧ session.toRoom = old.toRoom := by
  unfold pushBatch
  dsimp only
  cases (system.room.applyPushBatch now batch ops).broadcast with
  | none => exact ⟨rfl, rfl, fun session open_ => ⟨session, open_, rfl, rfl, rfl, rfl⟩⟩
  | some frame =>
      simp only [Option.elim_some, Client.broadcast]
      split
      · refine ⟨rfl, rfl, fun session open_ => ?_⟩
        obtain ⟨old, wasOpen, rfl⟩ := Option.map_eq_some_iff.mp open_
        exact ⟨old, wasOpen, rfl, rfl, rfl, rfl⟩
      · exact ⟨rfl, rfl, fun session open_ => ⟨session, open_, rfl, rfl, rfl, rfl⟩⟩

def replyFrame : PushOutcome → ServerFrame
  | .accepted batch seq _ => .ack batch seq
  | .rejected code message => .error code message

/-- The room takes the next frame of client `i`'s session. -/
def serve (system : System ι) (i : ι) (now : Int) : Option (System ι) :=
  let client := system.client i
  client.session.bind fun session =>
    match session.toRoom with
    | [] => none
    | .hello cursor :: toRoom =>
      let answered := { client with session := some { session with toRoom, ready := true } }
      some (system.setClient i (answered.send (.state (system.room.handleHello cursor))))
    | .push batch :: toRoom =>
      let taken := system.setClient i { client with session := some { session with toRoom } }
      if session.ready then
        let (system, outcome) := taken.pushBatch now batch.batch batch.ops
        some (system.setClient i ((system.client i).send (replyFrame outcome)))
      else
        some (taken.setClient i
          ((taken.client i).send (.error "bad_push" "hello first / malformed push")))

/-- The room takes the next post of client `i`'s cycle. -/
def servePush (system : System ι) (i : ι) (now : Int) : Option (System ι) :=
  match (system.client i).cycle with
  | .pushing (batch :: rest) =>
    let (system, outcome) := system.pushBatch now batch.batch batch.ops
    some (system.setClient i { system.client i with cycle := .answered outcome rest })
  | _ => none

def servePull (system : System ι) (i : ι) : Option (System ι) :=
  match (system.client i).cycle with
  | .pulling since =>
    some (system.setClient i
      { system.client i with cycle := .pulled since (system.room.getRows since) })
  | _ => none

def step (system : System ι) : Action ι → Option (System ι)
  | .client i action => ((system.client i).act action).map (system.setClient i)
  | .serve i now => system.serve i now
  | .servePush i now => system.servePush i now
  | .servePull i => system.servePull i
  | .push now batch ops => some (system.pushBatch now batch ops).1
  | .alarm now => some { system with room := system.room.alarm now }
  | .reset =>
    some { room := system.room.reset
           client := fun i =>
             if (system.client i).session.isSome then (system.client i).disconnect
             else system.client i }

/-- Reachability through steps that all meet a condition on the state before
them. -/
def Reaches (allowed : System ι → Action ι → Prop) : System ι → System ι → Prop :=
  Relation.ReflTransGen fun before after =>
    ∃ action, allowed before action ∧ before.step action = some after

/-- The actions of a run, one after the other, each allowed where it is taken. -/
def run (allowed : System ι → Action ι → Prop) [∀ system action, Decidable (allowed system action)]
    (system : System ι) (actions : List (Action ι)) : Option (System ι) :=
  actions.foldlM (fun system action => if allowed system action then system.step action else none)
    system

theorem reaches_of_run {allowed : System ι → Action ι → Prop}
    [∀ system action, Decidable (allowed system action)] {actions : List (Action ι)}
    {start finish : System ι} (ran : start.run allowed actions = some finish) :
    Reaches allowed start finish := by
  induction actions generalizing start with
  | nil =>
      cases ran
      exact .refl
  | cons action rest ih =>
      simp only [run, List.foldlM_cons] at ran
      obtain ⟨next, stepped, ran⟩ := Option.bind_eq_some_iff.mp ran
      obtain ⟨permitted, stepped⟩ := Option.ite_none_right_eq_some.mp stepped
      exact .head ⟨action, permitted, stepped⟩ (ih ran)

end System

end Zeron.Sync
