import Zeron.Sync.Cursor

namespace Zeron.Sync

open Zeron.Data Zeron.Registry Zeron.Edge

/-! # After a reset

A wiped room starts counting from zero, and a client notices only by finding
its cursor ahead of the room.  Once one full answer has reached it, the session
brings every later row in order, so a client that has heard everything sent to
it holds every room row.  Nothing here is about the HTTPS cycle: the sessions
alone are enough to go right, and to go wrong.
-/

/-- A client's own steps, less those of the HTTPS cycle. -/
def ClientAction.onSocket : ClientAction → Bool
  | .write _ _ _ _ _ | .deleteRows _ _ | .connect | .pushPending | .receive _ _ | .disconnect => true
  | .spawnCycle | .startCycle | .readAnswer | .loseAnswer | .startPull | .readPull _ _
  | .losePull => false

/-- Everything but the HTTPS cycle and another reset. -/
def Action.onSocket {ι : Type} : Action ι → Bool
  | .client _ action => action.onSocket
  | .serve _ _ | .push _ _ _ | .alarm _ => true
  | .servePush _ _ | .servePull _ | .reset => false

/-! ## A session as a stream -/

/-- The frames after `seq`: broadcasts of consecutive seqs up to the room's. -/
def Stream (room : Room) : Nat → List ServerFrame → Prop
  | seq, [] => seq = room.seq
  | seq, .rows frame :: rest =>
      frame.seq = seq + 1 ∧ RowsTrue room frame ∧ Stream room (seq + 1) rest
  | seq, .ack _ _ :: rest | seq, .error _ _ :: rest => Stream room seq rest
  | _, .state _ :: _ => False

theorem Stream.le {room : Room} {seq : Nat} {frames : List ServerFrame}
    (stream : Stream room seq frames) : seq ≤ room.seq := by
  induction frames generalizing seq with
  | nil => exact Nat.le_of_eq stream
  | cons frame rest ih =>
      cases frame with
      | state frame => exact stream.elim
      | rows frame => exact Nat.le_of_succ_le (ih stream.2.2)
      | ack batch other => exact ih stream
      | error code message => exact ih stream

/-- The room moves on without a broadcast. -/
theorem Stream.advance {before after : Room} {seq : Nat} {frames : List ServerFrame}
    (stream : Stream before seq frames) (advances : Advances before after)
    (same : after.seq = before.seq) : Stream after seq frames := by
  induction frames generalizing seq with
  | nil => exact Eq.trans stream same.symm
  | cons frame rest ih =>
      cases frame with
      | state frame => exact stream
      | rows frame =>
          exact ⟨stream.1, @FrameTrue.advance _ _ none (.rows frame) stream.2.1 advances,
            ih stream.2.2⟩
      | ack batch other => exact @ih seq stream
      | error code message => exact @ih seq stream

/-- A reply is appended without disturbing the count. -/
theorem Stream.reply {room : Room} {seq : Nat} {frames : List ServerFrame}
    (stream : Stream room seq frames) (outcome : PushOutcome) :
    Stream room seq (frames ++ [System.replyFrame outcome]) := by
  induction frames generalizing seq with
  | nil => cases outcome <;> exact stream
  | cons frame rest ih =>
      cases frame with
      | state frame => exact stream
      | rows frame => exact ⟨stream.1, stream.2.1, ih stream.2.2⟩
      | ack batch other => exact @ih seq stream
      | error code message => exact @ih seq stream

/-- The room moves on with a broadcast. -/
theorem Stream.broadcast {before after : Room} {seq : Nat} {frames : List ServerFrame}
    (stream : Stream before seq frames) (advances : Advances before after) {frame : RowsFrame}
    (next : frame.seq = before.seq + 1) (counts : after.seq = before.seq + 1)
    (true_ : RowsTrue after frame) : Stream after seq (frames ++ [.rows frame]) := by
  induction frames generalizing seq with
  | nil =>
      have reached : seq = before.seq := stream
      exact ⟨by omega, true_, by rw [Stream]; omega⟩
  | cons head rest ih =>
      cases head with
      | state frame => exact stream
      | rows frame =>
          exact ⟨stream.1, @FrameTrue.advance _ _ none (.rows frame) stream.2.1 advances,
            ih stream.2.2⟩
      | ack batch other => exact @ih seq stream
      | error code message => exact @ih seq stream

/-! ## Where a client stands -/

/-- A session is waiting for its hello to be taken, for the answer to arrive,
or steadily following the room. -/
inductive Phase (room : Room) (doc : RegistryDoc) (caughtUp : Prop) : Session → Prop where
  | greeting {cursor : Option Nat} (known : caughtUp → ∀ seq ∈ cursor, seq ≤ doc.cursor) :
      Phase room doc caughtUp ⟨cursor, false, false, [.hello cursor], []⟩
  | answered {cursor : Option Nat} {frame : StateFrame} {rest : List ServerFrame}
      (true_ : StateTrue room cursor frame) (stream : Stream room frame.seq rest)
      (known : frame.full = true ∨ ∀ seq ∈ cursor, seq ≤ room.seq ∧ HoldsUpTo room doc seq) :
      Phase room doc caughtUp ⟨cursor, false, true, [], .state frame :: rest⟩
  | steady {cursor : Option Nat} {toRoom : List ClientFrame} {toClient : List ServerFrame}
      (follows : caughtUp) (pushes : ∀ frame ∈ toRoom, ∃ batch, frame = .push batch)
      (stream : Stream room doc.cursor toClient) :
      Phase room doc caughtUp ⟨cursor, true, true, toRoom, toClient⟩

/-- A client and its session; `caughtUp` once an answer has reached it. -/
structure Follows (room : Room) (caughtUp : Prop) (client : Client) : Prop where
  online : client.doc.localOnly = false
  holds : caughtUp → client.doc.cursor ≤ room.seq ∧ Holds room client.doc
  phase : ∀ session ∈ client.session, Phase room client.doc caughtUp session

theorem Follows.advance {before after : Room} {caughtUp : Prop} {client : Client}
    (follows : Follows before caughtUp client) (advances : Advances before after)
    (same : after.seq = before.seq) : Follows after caughtUp client where
  online := follows.online
  holds caught := ⟨(follows.holds caught).1.trans advances.seq,
    HoldsUpTo.advance (follows.holds caught).2 (follows.holds caught).1 advances⟩
  phase session open_ := by
    cases follows.phase session open_ with
    | greeting known => exact .greeting known
    | answered true_ stream known =>
        refine .answered (@FrameTrue.advance _ _ _ (.state _) true_ advances)
          (stream.advance advances same) (known.imp id fun all seq asked => ?_)
        exact ⟨(all seq asked).1.trans advances.seq, (all seq asked).2.advance (all seq asked).1 advances⟩
    | steady caught pushes stream => exact .steady caught pushes (stream.advance advances same)

theorem Follows.broadcast {before after : Room} {caughtUp : Prop} {client : Client}
    (follows : Follows before caughtUp client) (advances : Advances before after)
    {frame : RowsFrame} (next : frame.seq = before.seq + 1) (counts : after.seq = before.seq + 1)
    (true_ : RowsTrue after frame) : Follows after caughtUp (client.broadcast frame) := by
  have table : (client.broadcast frame).doc = client.doc := by
    unfold Client.broadcast
    split <;> rfl
  refine ⟨by rw [table]; exact follows.online, fun caught => ?_, fun session open_ => ?_⟩
  · rw [table]
    exact ⟨(follows.holds caught).1.trans advances.seq,
      HoldsUpTo.advance (follows.holds caught).2 (follows.holds caught).1 advances⟩
  · rw [table]
    cases was : client.session with
    | none => simp [Client.broadcast, was] at open_
    | some before =>
        cases follows.phase before was with
        | greeting known =>
            simp only [Client.broadcast, was, Option.any_some, Bool.false_eq_true, if_false,
              Option.mem_def, Option.some.injEq] at open_
            subst open_
            exact .greeting known
        | answered stateTrue stream known =>
            simp only [Client.broadcast, Client.send, was, Option.any_some, if_true,
              Option.map_some, Option.mem_def, Option.some.injEq] at open_
            subst open_
            refine .answered (@FrameTrue.advance _ _ _ (.state _) stateTrue advances)
              (stream.broadcast advances next counts true_) (known.imp id fun all seq asked => ?_)
            exact ⟨(all seq asked).1.trans advances.seq,
              (all seq asked).2.advance (all seq asked).1 advances⟩
        | steady caught pushes stream =>
            simp only [Client.broadcast, Client.send, was, Option.any_some, if_true,
              Option.map_some, Option.mem_def, Option.some.injEq] at open_
            subst open_
            exact .steady caught pushes (stream.broadcast advances next counts true_)

/-- The room replies to a push, which only a ready session can send. -/
theorem Follows.reply {room : Room} {caughtUp : Prop} {client : Client}
    (follows : Follows room caughtUp client)
    (ready : ∀ session ∈ client.session, session.ready = true) (outcome : PushOutcome) :
    Follows room caughtUp (client.send (System.replyFrame outcome)) := by
  refine ⟨follows.online, follows.holds, fun session open_ => ?_⟩
  obtain ⟨before, wasOpen, rfl⟩ := Option.map_eq_some_iff.mp open_
  have isReady := ready before wasOpen
  cases follows.phase before wasOpen with
  | greeting known => cases isReady
  | answered true_ stream known => exact .answered true_ (stream.reply outcome) known
  | steady caught pushes stream => exact .steady caught pushes (stream.reply outcome)

/-- Queue work on the replica. -/
theorem Follows.sameTable {room : Room} {caughtUp : Prop} {client : Client}
    (follows : Follows room caughtUp client) {doc : RegistryDoc}
    (same : SameTable client.doc doc) : Follows room caughtUp { client with doc } := by
  have cursor : doc.cursor = client.doc.cursor := same.serverSeq
  refine ⟨same.localOnly.trans follows.online, fun caught => ?_, fun session open_ => ?_⟩
  · exact ⟨cursor ▸ (follows.holds caught).1, (follows.holds caught).2.sameTable same⟩
  · cases follows.phase session open_ with
    | greeting known => exact .greeting fun caught seq asked => cursor ▸ known caught seq asked
    | answered true_ stream known =>
        exact .answered true_ stream
          (known.imp id fun all seq asked => ⟨(all seq asked).1, (all seq asked).2.sameTable same⟩)
    | steady caught pushes stream => exact .steady caught pushes (cursor ▸ stream)

theorem Follows.disconnect {room : Room} {caughtUp : Prop} {client : Client}
    (follows : Follows room caughtUp client) : Follows room caughtUp client.disconnect := by
  have marked := follows.sameTable client.doc.markDisconnected_sameTable
  exact ⟨marked.online, marked.holds, nofun⟩

theorem Follows.connect {room : Room} {caughtUp : Prop} {client after : Client}
    (follows : Follows room caughtUp client) (connected : client.connect = some after) :
    Follows room caughtUp after := by
  unfold Client.connect at connected
  split at connected
  · cases connected
  · cases connected
    refine ⟨follows.online, follows.holds, fun session open_ => ?_⟩
    cases open_
    refine .greeting fun _ seq asked => ?_
    unfold helloCursor at asked
    split at asked
    · cases asked
    · cases asked
      exact Nat.le_refl _

theorem Follows.pushPending {room : Room} {caughtUp : Prop} {client after : Client}
    (follows : Follows room caughtUp client) (pushed : client.pushPending = some after) :
    Follows room caughtUp after := by
  obtain ⟨session, open_, sends⟩ := Option.bind_eq_some_iff.mp pushed
  have marked := follows.sameTable client.doc.takePushable_sameTable
  cases phase : marked.phase session open_ with
  | greeting known => cases sends
  | answered true_ stream known => cases sends
  | steady caught pushes stream =>
      cases sends
      refine ⟨marked.online, marked.holds, fun after isOpen => ?_⟩
      cases isOpen
      refine .steady caught (fun frame waiting => ?_) stream
      rcases List.mem_append.mp waiting with old | new
      · exact pushes frame old
      · obtain ⟨batch, _, rfl⟩ := List.mem_map.mp new
        exact ⟨batch, rfl⟩

/-- The first frame to arrive is the answer, and from then on the client has
caught up. -/
theorem Follows.receive {room : Room} {caughtUp : Prop} {client after : Client}
    (follows : Follows room caughtUp client) (wellStamped : WellStamped room)
    {now : Nat → Int} {order : IterOrder} (received : client.receive now order = some after) :
    Follows room True after := by
  obtain ⟨session, open_, next⟩ := Option.bind_eq_some_iff.mp received
  cases follows.phase session open_ with
  | greeting known => cases next
  | @answered cursor frame rest true_ stream known =>
      cases next
      obtain ⟨_, reached, online⟩ := RegistryDoc.applyState_table follows.online now order frame.seq
        frame.full frame.gcFloor frame.rows
      have holds := holds_applyState wellStamped follows.online true_
        (known.imp id fun all seq asked => (all seq asked).2) now order
      refine ⟨online, fun _ => ⟨?_, holds⟩, fun session isOpen => ?_⟩
      · simp only
        rw [reached]
        exact stream.le
      · cases isOpen
        refine .steady trivial nofun ?_
        simp only
        rw [reached]
        exact stream
  | @steady cursor toRoom toClient caught pushes stream =>
      obtain ⟨behind, holds⟩ := follows.holds caught
      cases toClient with
      | nil => cases next
      | cons frame rest =>
          cases frame with
          | state frame => exact stream.elim
          | rows frame =>
              obtain ⟨isNext, true_, later⟩ := stream
              obtain ⟨_, reached, online⟩ :=
                RegistryDoc.applyRows_table client.doc frame.seq frame.rows
              rw [if_pos isNext] at reached
              have contiguous : (client.doc.applyRows frame.seq frame.rows).1 = true := by
                have cursor : client.doc.serverSeq + 1 = frame.seq := isNext.symm
                simp [RegistryDoc.applyRows, ← cursor]
              have timely : ∀ row ∈ frame.rows, ∀ held,
                  client.doc.authoritative.get? row.key = some held →
                  held.seq ≤ client.doc.cursor → held.seq ≤ row.seq := by
                intro row member held _ within
                have stamp := true_.stamped row member
                omega
              have kept := holds.applyRows true_ timely
              simp only [contiguous, if_true, Option.some.injEq] at next
              subst next
              refine ⟨online.trans follows.online, fun _ => ⟨?_, kept⟩, fun session isOpen => ?_⟩
              · simp only
                rw [reached]
                exact true_.snapshot.behind
              · cases isOpen
                refine .steady trivial pushes ?_
                simp only
                rw [reached, isNext]
                exact later
          | ack batch seq =>
              cases next
              let taken : Client :=
                { client with session := some ⟨cursor, true, true, toRoom, rest⟩ }
              have kept : Follows room True taken :=
                ⟨follows.online, fun _ => ⟨behind, holds⟩, fun session isOpen => by
                  cases isOpen
                  exact .steady trivial pushes stream⟩
              exact kept.sameTable (client.doc.ackBatch_sameTable batch seq)
          | error code message =>
              cases next
              exact ⟨follows.online, fun _ => ⟨behind, holds⟩, fun session isOpen => by
                cases isOpen
                exact .steady trivial pushes stream⟩

/-- Everything else a client does on its session. -/
theorem Follows.act {room : Room} {caughtUp : Prop} {client after : Client}
    (follows : Follows room caughtUp client) {action : ClientAction}
    (quiet : ∀ now order, action ≠ .receive now order)
    (socket : action.onSocket = true) (acted : client.act action = some after) :
    Follows room caughtUp after := by
  cases action with
  | write now kind id op set =>
      cases acted
      exact follows.sameTable (RegistryDoc.write_sameTable follows.online now kind id op set)
  | deleteRows now keys =>
      cases acted
      exact follows.sameTable (RegistryDoc.deleteRowOps_sameTable follows.online now keys)
  | connect => exact follows.connect acted
  | pushPending => exact follows.pushPending acted
  | receive now order => exact absurd rfl (quiet now order)
  | disconnect =>
      obtain ⟨_, _, rfl⟩ := Option.map_eq_some_iff.mp acted
      exact follows.disconnect
  | spawnCycle | startCycle | readAnswer | loseAnswer | startPull | readPull | losePull =>
      cases socket

/-! ## One client of the system -/

variable {ι : Type} [DecidableEq ι]

structure Tracks (system : System ι) (caughtUp : Prop) (i : ι) : Prop where
  wellStamped : WellStamped system.room
  follows : Follows system.room caughtUp (system.client i)

/-- The frame the room takes next is no hello, or one it answers with the whole
table: below the GC horizon, ahead of the room, or asking from zero. -/
def helloCovers (room : Room) (session : Session) : Bool :=
  match session.toRoom with
  | .hello cursor :: _ => room.needsFull cursor || cursor = some 0
  | _ => true

omit [DecidableEq ι] in
theorem Tracks.pushBatch {system : System ι} {caughtUp : Prop} {i : ι}
    (tracks : Tracks system caughtUp i) (now : Int) (batch : String) (ops : List RowOp) :
    Tracks (system.pushBatch now batch ops).1 caughtUp i := by
  unfold System.pushBatch
  dsimp only
  rcases system.room.applyPushBatch_cases now batch ops with
    ⟨same, silent⟩ | ⟨touched, stamped, sent, changed⟩
  · rw [same, silent]
    exact tracks
  · rw [sent, changed]
    exact ⟨tracks.wellStamped.touched stamped true,
      tracks.follows.broadcast (advances_touched stamped true) rfl rfl
        (broadcast_true tracks.wellStamped stamped true)⟩

theorem Tracks.setOther {system : System ι} {caughtUp : Prop} {i j : ι}
    (tracks : Tracks system caughtUp i) (other : j ≠ i) (client : Client) :
    Tracks (system.setClient j client) caughtUp i := by
  refine ⟨tracks.wellStamped, ?_⟩
  rw [System.setClient_client_of_ne _ other.symm]
  exact tracks.follows

theorem Tracks.setClient {system : System ι} {caughtUp later : Prop} {i : ι} {client : Client}
    (tracks : Tracks system caughtUp i) (follows : Follows system.room later client) :
    Tracks (system.setClient i client) later i := by
  refine ⟨tracks.wellStamped, ?_⟩
  rw [System.setClient_client_self]
  exact follows

/-- A room event for some other client. -/
theorem Tracks.serveOther {system after : System ι} {caughtUp : Prop} {i j : ι} {now : Int}
    (tracks : Tracks system caughtUp i) (other : j ≠ i) (served : system.serve j now = some after) :
    Tracks after caughtUp i := by
  obtain ⟨session, _, next⟩ := Option.bind_eq_some_iff.mp served
  cases queue : session.toRoom with
  | nil => simp [queue] at next
  | cons frame toRoom =>
      cases frame with
      | hello cursor =>
          simp only [queue, Option.some.injEq] at next
          subst next
          exact tracks.setOther other _
      | push batch =>
          simp only [queue] at next
          split at next
          · cases next
            exact ((tracks.setOther other _).pushBatch now batch.batch batch.ops).setOther other _
          · cases next
            exact (tracks.setOther other _).setOther other _

theorem Tracks.serve {system after : System ι} {caughtUp : Prop} {i : ι} {now : Int}
    (tracks : Tracks system caughtUp i)
    (covers : caughtUp ∨ ∀ session ∈ (system.client i).session,
      helloCovers system.room session = true)
    (served : system.serve i now = some after) : Tracks after caughtUp i := by
  obtain ⟨session, open_, next⟩ := Option.bind_eq_some_iff.mp served
  have follows := tracks.follows
  cases follows.phase session open_ with
  | @greeting cursor known =>
      cases next
      refine tracks.setClient ⟨follows.online, follows.holds, fun after isOpen => ?_⟩
      cases isOpen
      refine .answered (handleHello_true system.room cursor) rfl ?_
      cases full : system.room.needsFull cursor with
      | true => exact .inl full
      | false =>
          refine .inr fun seq asked => ?_
          cases asked
          simp only [Room.needsFull, Option.all_some, Bool.or_eq_false_iff,
            decide_eq_false_iff_not, not_lt] at full
          refine ⟨full.2, ?_⟩
          rcases covers with caught | covers
          · exact HoldsUpTo.mono (follows.holds caught).2 (known caught seq rfl)
          · have zero : seq = 0 := by
              simpa [helloCovers, Room.needsFull, Nat.not_lt.mpr full.1, Nat.not_lt.mpr full.2]
                using covers _ open_
            subst zero
            intro key row found within
            have stamp := tracks.wellStamped key row found
            omega
  | answered true_ stream known => cases next
  | @steady cursor toRoom toClient caught pushes stream =>
      cases toRoom with
      | nil => cases next
      | cons frame rest =>
          obtain ⟨batch, rfl⟩ := pushes frame (by simp)
          have taken : Tracks (system.setClient i { system.client i with
              session := some ⟨cursor, true, true, rest, toClient⟩ }) caughtUp i := by
            refine tracks.setClient ⟨follows.online, follows.holds, fun after isOpen => ?_⟩
            cases isOpen
            exact .steady caught (fun frame waiting => pushes frame (List.mem_cons_of_mem _ waiting))
              stream
          cases next
          have pushed := taken.pushBatch now batch.batch batch.ops
          refine pushed.setClient (pushed.follows.reply (fun session isOpen => ?_) _)
          obtain ⟨_, wasOpen, _, _, ready, _⟩ := (System.pushBatch_client _ now batch.batch
            batch.ops i).2.2 session isOpen
          rw [System.setClient_client_self] at wasOpen
          cases wasOpen
          exact ready

/-! ## From the reset on -/

def Action.receivedBy (i : ι) : Action ι → Bool
  | .client j (.receive _ _) => i = j
  | _ => false

def Action.servedTo (i : ι) : Action ι → Bool
  | .serve j _ => i = j
  | _ => false

/-- Any step on the sockets. -/
def OnSocket (_ : System ι) (action : Action ι) : Prop := action.onSocket = true

/-- Until an answer reaches client `i`: it receives nothing, and every hello of
its that the room takes is answered with the whole table. -/
structure Unanswered (i : ι) (system : System ι) (action : Action ι) : Prop where
  socket : action.onSocket = true
  quiet : action.receivedBy i = false
  covers : action.servedTo i = true → ∀ session ∈ (system.client i).session,
    helloCovers system.room session = true

theorem Action.eq_receive {i : ι} {action : Action ι} (heard : action.receivedBy i = true) :
    ∃ now order, action = .client i (.receive now order) := by
  unfold Action.receivedBy at heard
  split at heard
  · rename_i j now order
    cases of_decide_eq_true heard
    exact ⟨now, order, rfl⟩
  · cases heard

instance (system : System ι) (action : Action ι) : Decidable (OnSocket system action) :=
  inferInstanceAs (Decidable (action.onSocket = true))

instance (i : ι) (system : System ι) (action : Action ι) :
    Decidable (Unanswered i system action) :=
  decidable_of_iff
    (action.onSocket = true ∧ action.receivedBy i = false ∧
      (action.servedTo i = true → ∀ session ∈ (system.client i).session,
        helloCovers system.room session = true))
    ⟨fun ⟨socket, quiet, covers⟩ => ⟨socket, quiet, covers⟩,
      fun all => ⟨all.socket, all.quiet, all.covers⟩⟩

theorem Tracks.step {system after : System ι} {caughtUp : Prop} {i : ι} {action : Action ι}
    (tracks : Tracks system caughtUp i) (socket : action.onSocket = true)
    (quiet : action.receivedBy i = false)
    (covers : action.servedTo i = true → caughtUp ∨ ∀ session ∈ (system.client i).session,
      helloCovers system.room session = true)
    (stepped : system.step action = some after) : Tracks after caughtUp i := by
  cases action with
  | client j action =>
      obtain ⟨client, acted, rfl⟩ := Option.map_eq_some_iff.mp stepped
      by_cases mine : j = i
      · subst mine
        refine tracks.setClient (tracks.follows.act (fun now order same => ?_) socket acted)
        subst same
        simp [Action.receivedBy] at quiet
      · exact tracks.setOther mine client
  | serve j now =>
      by_cases mine : j = i
      · subst mine
        exact tracks.serve (covers (by simp [Action.servedTo])) stepped
      · exact tracks.serveOther mine stepped
  | push now batch ops =>
      cases stepped
      exact tracks.pushBatch now batch ops
  | alarm now =>
      cases stepped
      exact ⟨tracks.wellStamped.alarm now,
        tracks.follows.advance (alarm_advances system.room now) (alarm_removes system.room now).1⟩
  | servePush | servePull | reset => cases socket

theorem Tracks.receive {system after : System ι} {caughtUp : Prop} {i : ι} {now : Nat → Int}
    {order : IterOrder} (tracks : Tracks system caughtUp i)
    (stepped : system.step (.client i (.receive now order)) = some after) :
    Tracks after True i := by
  obtain ⟨client, acted, rfl⟩ := Option.map_eq_some_iff.mp stepped
  exact tracks.setClient (tracks.follows.receive tracks.wellStamped acted)

theorem Tracks.unanswered {start finish : System ι} {i : ι} (tracks : Tracks start False i)
    (reaches : System.Reaches (Unanswered i) start finish) : Tracks finish False i := by
  induction reaches with
  | refl => exact tracks
  | tail _ stepped ih =>
      obtain ⟨action, allowed, stepped⟩ := stepped
      exact ih.step allowed.socket allowed.quiet (fun served => .inr (allowed.covers served)) stepped

theorem Tracks.onSocket {start finish : System ι} {i : ι} (tracks : Tracks start True i)
    (reaches : System.Reaches OnSocket start finish) : Tracks finish True i := by
  induction reaches with
  | refl => exact tracks
  | tail _ stepped ih =>
      obtain ⟨action, socket, stepped⟩ := stepped
      cases heard : action.receivedBy i with
      | false => exact ih.step socket heard (fun _ => .inl trivial) stepped
      | true =>
          obtain ⟨now, order, rfl⟩ := Action.eq_receive heard
          exact ih.receive stepped

/-- The room as a reset leaves it: wiped, and every socket closed.  The clients
hold whatever they held. -/
structure Wiped (system : System ι) : Prop where
  room : system.room = .empty
  closed : ∀ i, (system.client i).session = none
  online : ∀ i, (system.client i).doc.localOnly = false

/-- Two clients that joined a room of two chats, and then the room is reset. -/
def resetPair : Option (System Bool) :=
  let receive := ClientAction.receive (fun _ => 3000) .byKey
  System.run (fun _ _ => True)
    { room := .empty, client := fun i => newClient (if i then "dev-b" else "dev-a") }
    [.push 1000 "b-1" [titled "chat-1" 1000 "one"], .push 2000 "b-2" [titled "chat-2" 2000 "two"],
     .client true .connect, .serve true 2000, .client true receive,
     .client false .connect, .serve false 2000, .client false receive, .reset]

/-- The second client comes back first, finds the room behind, and re-seeds it. -/
def reseeds : List (Action Bool) :=
  let receive := ClientAction.receive (fun _ => 5000) .byKey
  [.client true .pushPending, .serve true 5000, .client true receive, .client true receive]

/-- It then writes one chat more, so the room has regrown to the first client's
cursor when that one comes back. -/
def regrown : List (Action Bool) :=
  let receive := ClientAction.receive (fun _ => 6000) .byKey
  [.client true .connect, .serve true 4000, .client true receive] ++ reseeds ++
  [.client true (.write (fun _ => 6000) kindChats "chat-3" .upsert
     (fields [("title", .string "three")])),
   .client true .pushPending, .serve true 6000,
   .client false .connect, .serve false 7000, .client false receive]

end Zeron.Sync
