import Zeron.Registry.Queue
import Zeron.Edge.Push
import Zeron.Sync.System

namespace Zeron.Sync

open Zeron.Data Zeron.Registry Zeron.Edge

/-! # What is on its way to the room

A batch a client has queued may also be in the session's frames and among the
posts of the HTTPS cycle, all at once.  Whatever a client does, it queues some
new ops, and otherwise only moves and forgets batches it already had; and the
room changes by one batch at a time.
-/

def Session.pushes (session : Session) : List PendingBatch :=
  session.toRoom.filterMap fun
    | .push batch => some batch
    | .hello _ => none

theorem pushes_append (session : Session) (batches : List PendingBatch) :
    Session.pushes { session with toRoom := session.toRoom ++ batches.map .push } =
      session.pushes ++ batches := by
  simp [Session.pushes, List.filterMap_map]

def Cycle.batches : Cycle → List PendingBatch
  | .pushing batches | .answered _ batches => batches
  | .idle | .spawned | .pulling _ | .pulled _ _ => []

/-- What a batch says, whether in flight or not. -/
def contents (batches : List PendingBatch) : List (String × List RowOp) :=
  batches.map fun batch => (batch.batch, batch.ops)

@[simp] theorem contents_nil : contents [] = [] := rfl

@[simp] theorem contents_append (first second : List PendingBatch) :
    contents (first ++ second) = contents first ++ contents second :=
  List.map_append

@[simp] theorem contents_markDisconnected (doc : RegistryDoc) :
    contents doc.markDisconnected.pending = contents doc.pending := by
  simp [RegistryDoc.markDisconnected, contents]

@[simp] theorem contents_takePushable (doc : RegistryDoc) :
    contents doc.takePushable.2.pending = contents doc.pending := by
  simp [RegistryDoc.takePushable, contents]

theorem contents_takePushable_subset (doc : RegistryDoc) :
    contents doc.takePushable.1 ⊆ contents doc.pending := by
  intro content member
  simp only [RegistryDoc.takePushable, contents, List.map_map] at member
  obtain ⟨batch, pushable, rfl⟩ := List.mem_map.mp member
  exact List.mem_map.mpr ⟨batch, List.mem_of_mem_filter pushable, rfl⟩

theorem clock_ackBatch (doc : RegistryDoc) (batch : String) (seq : Nat) :
    (doc.ackBatch batch seq).2.clock = doc.clock := by
  unfold RegistryDoc.ackBatch
  dsimp only
  split <;> rfl

theorem pending_ackBatch (doc : RegistryDoc) (batch : String) (seq : Nat) :
    (doc.ackBatch batch seq).2.pending = doc.pending.filter fun held => held.batch != batch := by
  unfold RegistryDoc.ackBatch
  dsimp only
  split <;> rfl

theorem mem_pendingOps {doc : RegistryDoc} {op : RowOp} :
    op ∈ doc.pendingOps ↔ ∃ content ∈ contents doc.pending, op ∈ content.2 := by
  simp [RegistryDoc.pendingOps, contents]

namespace Client

/-- Batches handed to a transport that the room has not taken yet. -/
def inTransit (client : Client) : List PendingBatch :=
  (client.session.map Session.pushes).getD [] ++ client.cycle.batches

/-- Every batch the client still means to deliver, or is delivering. -/
def outbound (client : Client) : List PendingBatch := client.doc.pending ++ client.inTransit

/-- The frame an action applies as a state frame. -/
def stateFrame (client : Client) : ClientAction → Option StateFrame
  | .receive _ _ =>
      client.session.bind fun session =>
        match session.toClient with
        | .state frame :: _ => some frame
        | _ => none
  | .readPull _ _ =>
      match client.cycle with
      | .pulled _ frame => some frame
      | _ => none
  | _ => none

/-- The ops an action queues: a local write, or what a state frame re-seeds. -/
def enqueues (client : Client) (action : ClientAction) : List RowOp :=
  match action with
  | .write now kind id op set =>
      [{ kind, id, op, set := some set, hlc := (client.doc.nextHlc (now 0)).1, clocks := none }]
  | .deleteRows now keys =>
      keys.map fun key =>
        { kind := key.kind, id := key.id, op := .delete, set := none
          hlc := (client.doc.nextHlc (now 0)).1, clocks := none }
  | .receive _ order | .readPull _ order =>
      ((client.stateFrame action).map fun frame =>
        (client.doc.seedRows order frame.seq frame.full frame.rows).map rowToSeedOp).getD []
  | _ => []

/-- The batches whose acks are on their way to the client. -/
def acks (client : Client) : List String :=
  ((client.session.map fun session => session.toClient.filterMap fun
      | .ack batch _ => some batch
      | _ => none).getD []) ++
    match client.cycle with
    | .answered (.accepted batch _ _) _ => [batch]
    | _ => []

/-- What an action does to the outbound batches: acked ones are retired, `ops`
are queued, and the transports carry copies. -/
structure Sends (client after : Client) (ops : List RowOp) : Prop where
  intro ::
  queue : ∃ (doc : RegistryDoc) (now : Nat → Int) (acked : List String),
    after.doc = doc.enqueueOps now ops ∧ doc.localOnly = client.doc.localOnly ∧
    Grows client.doc.clock doc.clock ∧ acked ⊆ client.acks ∧
    contents doc.pending = contents (client.doc.pending.filter fun held => held.batch ∉ acked)
  transit : contents after.inTransit ⊆ contents client.outbound
  acks : after.acks ⊆ client.acks

/-- Steps that only move batches about. -/
theorem Sends.of_contents {client after : Client}
    (sameMode : after.doc.localOnly = client.doc.localOnly)
    (sameClock : after.doc.clock = client.doc.clock)
    (pending : contents after.doc.pending = contents client.doc.pending)
    (transit : contents after.inTransit ⊆ contents client.outbound)
    (acks : after.acks ⊆ client.acks) : Sends client after [] :=
  ⟨⟨after.doc, fun _ => 0, [], rfl, sameMode, fun _ => sameClock ▸ id, List.nil_subset _,
    by simpa using pending⟩, transit, acks⟩

theorem contents_inTransit_subset (client : Client) :
    contents client.inTransit ⊆ contents client.outbound := by
  simp [outbound]

theorem contents_pending_subset (client : Client) :
    contents client.doc.pending ⊆ contents client.outbound := by
  simp [outbound]

theorem sends_disconnect (client : Client) : Sends client client.disconnect [] := by
  refine .of_contents rfl rfl (contents_markDisconnected _) ?_ (by simp [disconnect, acks])
  refine List.Subset.trans ?_ client.contents_inTransit_subset
  simp [disconnect, inTransit]

theorem sends_failPush (client : Client) : Sends client client.failPush [] := by
  refine .of_contents rfl rfl (contents_markDisconnected _) ?_ (by simp [failPush, acks])
  refine List.Subset.trans ?_ client.contents_inTransit_subset
  simp [failPush, inTransit, Cycle.batches]

/-- An ack retires its batch, wherever it arrived. -/
theorem sends_ackBatch {client after : Client} {batch : String} {seq : Nat}
    (doc : after.doc = (client.doc.ackBatch batch seq).2) (acked : batch ∈ client.acks)
    (transit : contents after.inTransit ⊆ contents client.outbound)
    (acks : after.acks ⊆ client.acks) : Sends client after [] := by
  refine ⟨⟨after.doc, fun _ => 0, [batch], rfl, ?_, ?_, by simpa using acked, ?_⟩, transit, acks⟩
  · rw [doc]
    exact (client.doc.ackBatch_sameTable batch seq).localOnly
  · rw [doc, clock_ackBatch]
    exact fun _ => id
  · rw [doc, pending_ackBatch]
    congr 1
    exact List.filter_congr fun held _ => by simp [bne, beq_eq_decide]

theorem sends_applyState {client after : Client} {frame : StateFrame} {now : Nat → Int}
    {order : IterOrder}
    (doc : after.doc =
      (client.doc.applyState now order frame.seq frame.full frame.gcFloor frame.rows).2)
    (transit : contents after.inTransit ⊆ contents client.outbound)
    (acks : after.acks ⊆ client.acks) :
    Sends client after
      ((client.doc.seedRows order frame.seq frame.full frame.rows).map rowToSeedOp) :=
  ⟨⟨_, now, [], doc.trans (RegistryDoc.applyState_eq ..), rfl, fun _ => id, List.nil_subset _,
    by simp⟩, transit, acks⟩

theorem sends_connect {client after : Client} (connected : client.connect = some after) :
    Sends client after [] := by
  unfold connect at connected
  split at connected
  · cases connected
  · cases connected
    refine .of_contents rfl rfl rfl (List.Subset.trans ?_ client.contents_inTransit_subset) ?_
    · simp [inTransit, Session.pushes]
    · simp [acks]

theorem sends_pushPending {client after : Client} (pushed : client.pushPending = some after) :
    Sends client after [] := by
  obtain ⟨session, open_, sends⟩ := Option.bind_eq_some_iff.mp pushed
  split at sends
  · cases sends
    refine .of_contents rfl rfl (contents_takePushable _) ?_ (by simp [acks, open_])
    have taken := contents_takePushable_subset client.doc
    intro content member
    simp only [inTransit, Option.map_some, Option.getD_some, pushes_append, contents_append,
      List.mem_append] at member
    simp only [outbound, inTransit, open_, Option.map_some, Option.getD_some, contents_append,
      List.mem_append]
    rcases member with (sent | new) | posted
    · exact .inr (.inl sent)
    · exact .inl (taken new)
    · exact .inr (.inr posted)
  · cases sends

theorem sends_receive {client after : Client} {now : Nat → Int} {order : IterOrder}
    (received : client.receive now order = some after) :
    Sends client after (client.enqueues (.receive now order)) := by
  obtain ⟨session, open_, next⟩ := Option.bind_eq_some_iff.mp received
  cases queue : session.toClient with
  | nil => simp [queue] at next
  | cons frame rest =>
      simp only [queue, Option.some.injEq] at next
      have transit : ∀ joined,
          contents (inTransit { client with session := some { session with toClient := rest, joined } }) ⊆
            contents client.outbound := by
        intro joined
        refine List.Subset.trans ?_ client.contents_inTransit_subset
        simp [inTransit, open_, Session.pushes]
      have fewer : ∀ joined,
          acks { client with session := some { session with toClient := rest, joined } } ⊆
            client.acks := by
        intro joined batch acked
        simp only [acks, open_, Option.map_some, Option.getD_some, List.mem_append, queue] at acked ⊢
        refine acked.imp (fun waiting => ?_) id
        obtain ⟨sent, isSent, isAck⟩ := List.mem_filterMap.mp waiting
        exact List.mem_filterMap.mpr ⟨sent, List.mem_cons_of_mem _ isSent, isAck⟩
      cases frame with
      | state frame =>
          subst next
          have seeds : client.enqueues (.receive now order) =
              (client.doc.seedRows order frame.seq frame.full frame.rows).map rowToSeedOp := by
            simp [enqueues, stateFrame, open_, queue]
          rw [seeds]
          exact sends_applyState rfl (transit true) (fewer true)
      | rows frame =>
          rw [show client.enqueues (.receive now order) = [] by
            simp [enqueues, stateFrame, open_, queue]]
          have applied := RegistryDoc.applyRows_pending client.doc frame.seq frame.rows
          have sameClock := RegistryDoc.applyRows_clock client.doc frame.seq frame.rows
          dsimp only at next
          split at next
          · split at next
            · subst next
              exact .of_contents (RegistryDoc.applyRows_table ..).2.2 sameClock (by rw [applied])
                (transit session.joined) (fewer session.joined)
            · -- A gap: the rows are kept, and the session ends.
              subst next
              refine .of_contents (RegistryDoc.applyRows_table ..).2.2 sameClock ?_ ?_ ?_
              · rw [disconnect, contents_markDisconnected, applied]
              · refine List.Subset.trans ?_ client.contents_inTransit_subset
                simp [disconnect, inTransit]
              · simp [disconnect, acks]
          · subst next
            exact .of_contents rfl rfl rfl (transit session.joined) (fewer session.joined)
      | ack batch seq =>
          rw [show client.enqueues (.receive now order) = [] by
            simp [enqueues, stateFrame, open_, queue]]
          dsimp only at next
          split at next
          · subst next
            exact sends_ackBatch rfl (by simp [acks, open_, queue]) (transit session.joined)
              (fewer session.joined)
          · subst next
            exact .of_contents rfl rfl rfl (transit session.joined) (fewer session.joined)
      | error code message =>
          rw [show client.enqueues (.receive now order) = [] by
            simp [enqueues, stateFrame, open_, queue]]
          subst next
          exact .of_contents rfl rfl rfl (transit session.joined) (fewer session.joined)

theorem sends_readAnswer {client after : Client} (read : client.readAnswer = some after) :
    Sends client after [] := by
  unfold readAnswer at read
  split at read
  · rename_i batch seq _ rest answered
    cases read
    refine sends_ackBatch rfl (by simp [acks, answered]) ?_ (by simp [acks])
    refine List.Subset.trans ?_ client.contents_inTransit_subset
    simp [inTransit, answered, Cycle.batches]
  · cases read
    exact client.sends_failPush
  · cases read

/-- Whatever a client does is queueing, retiring acked batches, and copying. -/
theorem act_sends {client after : Client} {action : ClientAction}
    (acted : client.act action = some after) : Sends client after (client.enqueues action) := by
  cases action with
  | write now kind id op set =>
      cases acted
      exact ⟨⟨(client.doc.nextHlc (now 0)).2, fun index => now (index + 1), [], rfl, rfl,
        grows_next client.doc.clock (now 0) client.doc.deviceId, List.nil_subset _,
        by simp [RegistryDoc.nextHlc]⟩, client.contents_inTransit_subset, List.Subset.refl _⟩
  | deleteRows now keys =>
      cases acted
      exact ⟨⟨(client.doc.nextHlc (now 0)).2, fun index => now (index + 1), [], rfl, rfl,
        grows_next client.doc.clock (now 0) client.doc.deviceId, List.nil_subset _,
        by simp [RegistryDoc.nextHlc]⟩, client.contents_inTransit_subset, List.Subset.refl _⟩
  | connect => exact sends_connect acted
  | pushPending => exact sends_pushPending acted
  | receive now order => exact sends_receive acted
  | disconnect =>
      obtain ⟨_, _, rfl⟩ := Option.map_eq_some_iff.mp acted
      exact client.sends_disconnect
  | spawnCycle =>
      simp only [act, spawnCycle] at acted
      split at acted
      · rename_i closed idle
        cases acted
        exact .of_contents rfl rfl rfl (by simp [inTransit, Cycle.batches, closed]) (by simp [acks])
      · cases acted
  | startCycle =>
      simp only [act, startCycle] at acted
      split at acted
      · rename_i spawned
        cases acted
        refine .of_contents rfl rfl (contents_takePushable _) ?_ (by simp [acks])
        have taken := contents_takePushable_subset client.doc
        simp only [inTransit, outbound, spawned, Cycle.batches, contents_append]
        exact List.append_subset.mpr ⟨by simp, List.Subset.trans taken (by simp)⟩
      · cases acted
  | readAnswer => exact sends_readAnswer acted
  | loseAnswer =>
      simp only [act, loseAnswer] at acted
      split at acted
      · cases acted
        exact client.sends_failPush
      · cases acted
        exact client.sends_failPush
      · cases acted
  | startPull =>
      simp only [act, startPull] at acted
      split at acted
      · cases acted
        exact .of_contents rfl rfl rfl (by simp [inTransit, outbound, Cycle.batches]) (by simp [acks])
      · cases acted
  | readPull now order =>
      simp only [act, readPull] at acted
      split at acted
      · rename_i since frame pulled
        cases acted
        rw [show client.enqueues (.readPull now order) =
            (client.doc.seedRows order frame.seq frame.full frame.rows).map rowToSeedOp by
          simp [enqueues, stateFrame, pulled]]
        exact sends_applyState rfl (by simp [inTransit, outbound, Cycle.batches]) (by simp [acks])
      · cases acted
  | losePull =>
      simp only [act, losePull] at acted
      split at acted
      · cases acted
        exact .of_contents rfl rfl rfl (by simp [inTransit, outbound, Cycle.batches]) (by simp [acks])
      · cases acted
        exact .of_contents rfl rfl rfl (by simp [inTransit, outbound, Cycle.batches]) (by simp [acks])
      · cases acted

end Client

/-! ## What the room takes -/

namespace System

variable {ι : Type} [DecidableEq ι]

/-- The batch a step brings to the room. -/
def delivers (system : System ι) : Action ι → Option (String × List RowOp)
  | .serve i _ =>
      (system.client i).session.bind fun session =>
        match session.toRoom with
        | .push batch :: _ => if session.ready then some (batch.batch, batch.ops) else none
        | _ => none
  | .servePush i _ =>
      match (system.client i).cycle with
      | .pushing (batch :: _) => some (batch.batch, batch.ops)
      | _ => none
  | .push _ batch ops => some (batch, ops)
  | .client _ _ | .servePull _ | .alarm _ | .reset => none

omit [DecidableEq ι] in
/-- A batch a client's transport brings is one that client had on its way. -/
theorem delivers_of_inTransit {system : System ι} {action : Action ι} {batch : String}
    {ops : List RowOp} (delivers : system.delivers action = some (batch, ops)) :
    (∃ now, action = .push now batch ops) ∨
      ∃ i, (batch, ops) ∈ contents (system.client i).inTransit := by
  cases action with
  | serve i now =>
      refine .inr ⟨i, ?_⟩
      obtain ⟨session, open_, head⟩ := Option.bind_eq_some_iff.mp delivers
      split at head
      · rename_i sent rest queue
        obtain ⟨_, same⟩ := Option.ite_none_right_eq_some.mp head
        simp [Client.inTransit, open_, Session.pushes, queue, contents, Option.some.inj same]
      · cases head
  | servePush i now =>
      refine .inr ⟨i, ?_⟩
      simp only [System.delivers] at delivers
      split at delivers
      · rename_i sent rest posting
        simp [Client.inTransit, posting, Cycle.batches, contents, Option.some.inj delivers]
      · cases delivers
  | push now sent sentOps =>
      cases delivers
      exact .inl ⟨now, rfl⟩
  | client | servePull | alarm | reset => cases delivers

/-- The room changes by the batch a step brings, by its alarm, or by a reset. -/
theorem step_room {system after : System ι} {action : Action ι}
    (stepped : system.step action = some after) :
    (∃ now batch ops, system.delivers action = some (batch, ops) ∧
      after.room = (system.room.applyPushBatch now batch ops).room) ∨
    after.room = system.room ∨ (∃ now, after.room = system.room.alarm now) ∨
    after.room = .empty := by
  cases action with
  | client i action =>
      obtain ⟨client, _, rfl⟩ := Option.map_eq_some_iff.mp stepped
      exact .inr (.inl rfl)
  | serve i now =>
      obtain ⟨session, open_, next⟩ := Option.bind_eq_some_iff.mp stepped
      split at next
      · cases next
      · cases next
        exact .inr (.inl rfl)
      · rename_i batch rest queue
        split at next
        · rename_i ready
          cases next
          refine .inl ⟨now, batch.batch, batch.ops, ?_, rfl⟩
          simp [delivers, open_, queue, ready]
        · cases next
          exact .inr (.inl rfl)
  | servePush i now =>
      simp only [step, servePush] at stepped
      split at stepped
      · rename_i batch rest posting
        cases stepped
        refine .inl ⟨now, batch.batch, batch.ops, ?_, rfl⟩
        simp [delivers, posting]
      · cases stepped
  | servePull i =>
      simp only [step, servePull] at stepped
      split at stepped
      · cases stepped
        exact .inr (.inl rfl)
      · cases stepped
  | push now batch ops =>
      cases stepped
      exact .inl ⟨now, batch, ops, rfl, rfl⟩
  | alarm now =>
      cases stepped
      exact .inr (.inr (.inl ⟨now, rfl⟩))
  | reset =>
      cases stepped
      exact .inr (.inr (.inr rfl))

/-! ## What the other clients notice -/

/-- A client that did not act itself: at most its session ended, batches were
taken from its transports, and an ack was sent to it for the one taken. -/
structure Bystands (client after : Client) (acked : String → Prop) : Prop where
  doc : after.doc = client.doc ∨ after.doc = client.doc.markDisconnected
  transit : contents after.inTransit ⊆ contents client.inTransit
  acks : ∀ batch ∈ after.acks, batch ∈ client.acks ∨ acked batch

theorem Bystands.pending {client after : Client} {acked : String → Prop}
    (bystands : Bystands client after acked) :
    contents after.doc.pending = contents client.doc.pending := by
  rcases bystands.doc with same | marked
  · rw [same]
  · rw [marked, contents_markDisconnected]

theorem Bystands.refl (client : Client) (acked : String → Prop) : Bystands client client acked :=
  ⟨.inl rfl, List.Subset.refl _, fun _ => .inl⟩

theorem Bystands.trans {a b c : Client} {acked : String → Prop} (first : Bystands a b acked)
    (same : b.doc = a.doc) (second : Bystands b c acked) : Bystands a c acked where
  doc := by simpa [same] using second.doc
  transit := List.Subset.trans second.transit first.transit
  acks batch sent := (second.acks batch sent).elim (first.acks batch) .inr

theorem bystands_send (client : Client) (frame : ServerFrame) (acked : String → Prop)
    (answers : ∀ batch seq, frame = .ack batch seq → acked batch) :
    Bystands client (client.send frame) acked := by
  cases open_ : client.session with
  | none =>
      have same : client.send frame = client := by
        cases client
        simp only at open_
        simp [Client.send, open_]
      rw [same]
      exact .refl client acked
  | some session =>
      refine ⟨.inl rfl, by simp [Client.send, Client.inTransit, open_, Session.pushes], ?_⟩
      intro batch sent
      simp only [Client.acks, Client.send, open_, Option.map_some, Option.getD_some,
        List.filterMap_append, List.mem_append] at sent ⊢
      rcases sent with (old | new) | posted
      · exact .inl (.inl old)
      · cases frame with
        | ack other seq =>
            have same : batch = other := by simpa using new
            exact .inr (same ▸ answers other seq rfl)
        | state | rows | error => simp at new
      · exact .inl (.inr posted)

theorem bystands_broadcast (client : Client) (frame : RowsFrame) (acked : String → Prop) :
    Bystands client (client.broadcast frame) acked := by
  unfold Client.broadcast
  split
  · exact bystands_send client _ acked nofun
  · exact .refl client acked

omit [DecidableEq ι] in
theorem bystands_pushBatch (system : System ι) (now : Int) (batch : String) (ops : List RowOp)
    (i : ι) (acked : String → Prop) :
    Bystands (system.client i) ((system.pushBatch now batch ops).1.client i) acked ∧
      ((system.pushBatch now batch ops).1.client i).doc = (system.client i).doc := by
  unfold pushBatch
  dsimp only
  cases (system.room.applyPushBatch now batch ops).broadcast with
  | none => exact ⟨.refl _ acked, rfl⟩
  | some frame =>
      refine ⟨bystands_broadcast _ frame acked, ?_⟩
      simp only [Option.elim_some, Client.broadcast]
      split <;> rfl

/-- The batches a step has acked. -/
def acksOf (system : System ι) (action : Action ι) (batch : String) : Prop :=
  ∃ ops, system.delivers action = some (batch, ops) ∧ (Room.rejection batch ops).isNone = true

theorem accepted_outcome {room : Room} {now : Int} {batch acked : String} {ops : List RowOp}
    {seq applied : Nat}
    (accepted : (room.applyPushBatch now batch ops).outcome = .accepted acked seq applied) :
    acked = batch ∧ (Room.rejection batch ops).isNone = true := by
  unfold Room.applyPushBatch at accepted
  cases refused : Room.rejection batch ops with
  | some reason =>
      rw [refused] at accepted
      cases accepted
  | none =>
      rw [refused] at accepted
      dsimp only at accepted
      split at accepted
      · cases accepted
        exact ⟨rfl, rfl⟩
      · cases accepted
        exact ⟨rfl, rfl⟩

theorem bystands_serve {system after : System ι} {i : ι} {now : Int}
    (served : system.serve i now = some after) (j : ι) :
    Bystands (system.client j) (after.client j) (system.acksOf (.serve i now)) := by
  obtain ⟨session, open_, next⟩ := Option.bind_eq_some_iff.mp served
  -- Popping the front frame leaves the others on their way.
  have popped : ∀ {frame : ClientFrame} {toRoom : List ClientFrame} (ready : Bool),
      session.toRoom = frame :: toRoom →
      Bystands (system.client i)
        { system.client i with session := some { session with toRoom, ready } }
        (system.acksOf (.serve i now)) := by
    intro frame toRoom ready queue
    refine ⟨.inl rfl, ?_, fun batch sent => .inl ?_⟩
    · have fewer : (toRoom.filterMap fun
          | .push batch => some batch
          | .hello _ => none) ⊆ session.pushes := by
        rw [Session.pushes, queue]
        exact ((List.sublist_cons_self frame toRoom).filterMap _).subset
      simp only [Client.inTransit, open_, Session.pushes, Option.map_some, Option.getD_some,
        contents_append]
      exact List.append_subset.mpr
        ⟨List.subset_append_of_subset_left _ (List.map_subset _ fewer),
          List.subset_append_right ..⟩
    · simpa [Client.acks, open_] using sent
  cases queue : session.toRoom with
  | nil => simp [queue] at next
  | cons frame toRoom =>
      by_cases other : j = i
      · subst other
        cases frame with
        | hello cursor =>
            simp only [queue, Option.some.injEq] at next
            subst next
            rw [setClient_client_self]
            exact (popped true queue).trans rfl (bystands_send _ _ _ nofun)
        | push batch =>
            simp only [queue] at next
            split at next
            · rename_i ready
              cases next
              rw [setClient_client_self]
              obtain ⟨others, sameDoc⟩ := bystands_pushBatch
                (system.setClient j { system.client j with session := some { session with toRoom } })
                now batch.batch batch.ops j (system.acksOf (.serve j now))
              rw [setClient_client_self] at others sameDoc
              refine (popped session.ready queue).trans rfl
                (others.trans sameDoc (bystands_send _ _ _ fun acked seq reply => ?_))
              unfold replyFrame at reply
              split at reply
              · rename_i outcome
                cases reply
                obtain ⟨rfl, accepted⟩ := accepted_outcome outcome
                exact ⟨batch.ops, by simp [delivers, open_, queue, ready], accepted⟩
              · cases reply
            · cases next
              simp only [setClient_client_self]
              exact (popped session.ready queue).trans rfl (bystands_send _ _ _ nofun)
      · cases frame with
        | hello cursor =>
            simp only [queue, Option.some.injEq] at next
            subst next
            rw [setClient_client_of_ne _ other]
            exact .refl _ _
        | push batch =>
            simp only [queue] at next
            split at next
            · cases next
              rw [setClient_client_of_ne _ other]
              have others := (bystands_pushBatch
                (system.setClient i { system.client i with session := some { session with toRoom } })
                now batch.batch batch.ops j (system.acksOf (.serve i now))).1
              rw [setClient_client_of_ne _ other] at others
              exact others
            · cases next
              rw [setClient_client_of_ne _ other, setClient_client_of_ne _ other]
              exact .refl _ _

theorem bystands_servePush {system after : System ι} {i : ι} {now : Int}
    (served : system.servePush i now = some after) (j : ι) :
    Bystands (system.client j) (after.client j) (system.acksOf (.servePush i now)) := by
  unfold servePush at served
  split at served
  · rename_i batch rest posting
    cases served
    obtain ⟨others, sameDoc⟩ := bystands_pushBatch system now batch.batch batch.ops j
      (system.acksOf (.servePush i now))
    by_cases mine : j = i
    · subst mine
      rw [setClient_client_self]
      have cycle := (system.pushBatch_client now batch.batch batch.ops j).2.1
      rw [posting] at cycle
      refine others.trans sameDoc ⟨.inl rfl, ?_, fun acked sent => ?_⟩
      · simp only [Client.inTransit, cycle, Cycle.batches, contents_append]
        exact List.append_subset.mpr ⟨List.subset_append_left ..,
          List.subset_append_of_subset_right _ (List.map_subset _ (List.subset_cons_self ..))⟩
      · simp only [Client.acks, cycle, List.mem_append] at sent ⊢
        rcases sent with old | new
        · exact .inl (.inl old)
        · split at new
          · rename_i acceptedBatch seq applied _ answered
            obtain ⟨outcome, rfl⟩ : (system.room.applyPushBatch now batch.batch batch.ops).outcome =
                .accepted acceptedBatch seq applied ∧ _ := by
              simpa [pushBatch] using answered
            obtain ⟨rfl, accepted⟩ := accepted_outcome outcome
            rw [List.mem_singleton.mp new]
            exact .inr ⟨batch.ops, by simp [delivers, posting], accepted⟩
          · cases new
    · rw [setClient_client_of_ne _ mine]
      exact others
  · cases served

/-- A step is a client's own, or all it does is stand by. -/
theorem step_client {system after : System ι} {action : Action ι}
    (stepped : system.step action = some after) (j : ι) :
    (∃ own, action = .client j own ∧ (system.client j).act own = some (after.client j)) ∨
      Bystands (system.client j) (after.client j) (system.acksOf action) := by
  cases action with
  | client i own =>
      obtain ⟨client, acted, rfl⟩ := Option.map_eq_some_iff.mp stepped
      by_cases mine : j = i
      · subst mine
        rw [setClient_client_self]
        exact .inl ⟨own, rfl, acted⟩
      · rw [setClient_client_of_ne _ mine]
        exact .inr (.refl _ _)
  | serve i now => exact .inr (bystands_serve stepped j)
  | servePush i now => exact .inr (bystands_servePush stepped j)
  | servePull i =>
      simp only [step, servePull] at stepped
      split at stepped
      · rename_i since pulling
        cases stepped
        by_cases mine : j = i
        · subst mine
          rw [setClient_client_self]
          exact .inr ⟨.inl rfl, by simp [Client.inTransit, pulling, Cycle.batches],
            fun batch sent => .inl (by simpa [Client.acks, pulling] using sent)⟩
        · rw [setClient_client_of_ne _ mine]
          exact .inr (.refl _ _)
      · cases stepped
  | push now batch ops =>
      cases stepped
      exact .inr (bystands_pushBatch system now batch ops j _).1
  | alarm now =>
      cases stepped
      exact .inr (.refl _ _)
  | reset =>
      cases stepped
      dsimp only
      split
      · refine .inr ⟨.inr rfl, ?_, fun batch sent => .inl ?_⟩
        · simp [Client.disconnect, Client.inTransit]
        · simp only [Client.disconnect, Client.acks, Option.map_none, Option.getD_none,
            List.nil_append] at sent
          exact List.mem_append_right _ sent
      · exact .inr (.refl _ _)

/-- A property merging keeps holds of everything outbound as long as it holds of
what is newly queued. -/
theorem step_outbound {property : RowOp → Prop} (closed : MergeClosed property)
    {system after : System ι} {action : Action ι} {j : ι}
    (online : (system.client j).doc.localOnly = false) (stepped : system.step action = some after)
    (before : ∀ content ∈ contents (system.client j).outbound, ∀ op ∈ content.2, property op)
    (queued : ∀ own, action = .client j own → ∀ op ∈ (system.client j).enqueues own, property op) :
    (after.client j).doc.localOnly = false ∧
      ∀ content ∈ contents (after.client j).outbound, ∀ op ∈ content.2, property op := by
  rcases step_client stepped j with ⟨own, isOwn, acted⟩ | bystands
  · have sends := Client.act_sends acted
    obtain ⟨doc, now, acked, enqueued, mode, _, _, pending⟩ := sends.queue
    have docOnline : doc.localOnly = false := mode.trans online
    have held : ∀ op ∈ doc.pendingOps, property op := by
      intro op member
      obtain ⟨content, inQueue, inContent⟩ := mem_pendingOps.mp member
      rw [pending] at inQueue
      refine before content ?_ op inContent
      exact (system.client j).contents_pending_subset
        (List.map_subset _ (List.filter_sublist.subset) inQueue)
    have all := RegistryDoc.enqueueOps_forall closed docOnline now held (queued own isOwn)
    refine ⟨?_, fun content member op inContent => ?_⟩
    · rw [enqueued]
      exact (RegistryDoc.enqueueOps_sameTable docOnline now _).localOnly.trans docOnline
    · rw [Client.outbound, contents_append, List.mem_append] at member
      rcases member with inQueue | onWay
      · rw [enqueued] at inQueue
        exact all op (mem_pendingOps.mpr ⟨content, inQueue, inContent⟩)
      · exact before content (sends.transit onWay) op inContent
  · refine ⟨?_, fun content member => ?_⟩
    · rcases bystands.doc with same | marked
      · rw [same]
        exact online
      · rw [marked]
        exact online
    · refine before content ?_
      rw [Client.outbound, contents_append, List.mem_append] at member ⊢
      rw [← bystands.pending]
      exact member.imp id fun onWay => bystands.transit onWay

end System

end Zeron.Sync
