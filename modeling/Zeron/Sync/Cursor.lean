import Zeron.Registry.Queue
import Zeron.Edge.Push
import Zeron.Sync.System

namespace Zeron.Sync

open Zeron.Data Zeron.Registry Zeron.Edge

/-! # What the cursor promises

A client's cursor claims that every room row at or below it is in the client's
table.  Frames are snapshots of the room: true when they are made, and true
enough ever after, because the room only ever writes above its own seq.  The
claim survives every delivery but two: a broadcast older than a row the client
already holds, and a delta computed for a cursor the client has since fallen
behind.
-/

/-! ## Snapshots -/

/-- The room only writes above the seq it had. -/
structure Advances (before after : Room) : Prop where
  seq : before.seq ≤ after.seq
  rows : ∀ key row, after.rows.get? key = some row →
    before.rows.get? key = some row ∨ before.seq < row.seq

/-- Every row carries the seq of a batch the room has counted. -/
def WellStamped (room : Room) : Prop :=
  ∀ key row, room.rows.get? key = some row → 0 < row.seq ∧ row.seq ≤ room.seq

/-- All rows between two seqs, as the room still has them or has overwritten
them since. -/
structure Snapshot (room : Room) (base seq : Nat) (rows : List RegistryRow) : Prop where
  behind : seq ≤ room.seq
  distinct : rows.Pairwise fun a b => a.key ≠ b.key
  complete : ∀ key row, room.rows.get? key = some row → base < row.seq → row.seq ≤ seq → row ∈ rows
  current : ∀ row ∈ rows, ∀ held, room.rows.get? row.key = some held → held = row ∨ seq < held.seq

theorem Snapshot.advance {before after : Room} {base seq : Nat} {rows : List RegistryRow}
    (snapshot : Snapshot before base seq rows) (advances : Advances before after) :
    Snapshot after base seq rows where
  behind := snapshot.behind.trans advances.seq
  distinct := snapshot.distinct
  complete := by
    intro key row found above within
    rcases advances.rows key row found with old | new
    · exact snapshot.complete key row old above within
    · have := snapshot.behind
      omega
  current := by
    intro row member held found
    rcases advances.rows row.key held found with old | new
    · exact snapshot.current row member held old
    · have := snapshot.behind
      exact .inr (by omega)

/-- Written over a table, a snapshot leaves every room row within it in place,
given those at or below its base were there. -/
theorem Snapshot.get?_putAll {room : Room} {base seq : Nat} {rows : List RegistryRow}
    (snapshot : Snapshot room base seq rows) {table : RowTable} {key : RowKey} {row : RegistryRow}
    (found : room.rows.get? key = some row) (within : row.seq ≤ seq)
    (known : base < row.seq ∨ table.get? key = some row) :
    (table.putAll rows).get? key = some row := by
  have here : row.key = key := KeyedTable.key_of_get? found
  by_cases listed : ∃ other ∈ rows, other.key = key
  · obtain ⟨other, member, sameKey⟩ := listed
    rcases snapshot.current other member row (sameKey ▸ found) with same | newer
    · subst same
      rw [← here]
      exact KeyedTable.get?_putAll_of_mem snapshot.distinct member table
    · omega
  · rcases known with above | held
    · exact absurd ⟨row, snapshot.complete key row found above within, here⟩ listed
    · rw [KeyedTable.get?_putAll_of_not_mem fun other member sameKey =>
        listed ⟨other, member, sameKey⟩]
      exact held

/-! ## What the room sends -/

/-- A state frame answers the cursor it was asked with. -/
def StateTrue (room : Room) (since : Option Nat) (frame : StateFrame) : Prop :=
  ∃ base, Snapshot room base frame.seq frame.rows ∧
    if frame.full then base = 0 else since = some base

/-- A broadcast carries exactly the rows of its own seq. -/
structure RowsTrue (room : Room) (frame : RowsFrame) : Prop where
  positive : 0 < frame.seq
  snapshot : Snapshot room (frame.seq - 1) frame.seq frame.rows
  stamped : ∀ row ∈ frame.rows, row.seq = frame.seq

def FrameTrue (room : Room) (since : Option Nat) : ServerFrame → Prop
  | .state frame => StateTrue room since frame
  | .rows frame => RowsTrue room frame
  | .ack _ _ | .error _ _ => True

theorem FrameTrue.advance {before after : Room} {since : Option Nat} {frame : ServerFrame}
    (holds : FrameTrue before since frame) (advances : Advances before after) :
    FrameTrue after since frame := by
  cases frame with
  | state frame =>
      obtain ⟨base, snapshot, full⟩ := holds
      exact ⟨base, snapshot.advance advances, full⟩
  | rows frame => exact ⟨holds.positive, holds.snapshot.advance advances, holds.stamped⟩
  | ack batch seq => trivial
  | error code message => trivial

theorem mem_rowsSince {room : Room} {cursor : Nat} {row : RegistryRow} :
    row ∈ room.rowsSince cursor ↔ room.rows.get? row.key = some row ∧ cursor < row.seq := by
  simp [Room.rowsSince, KeyedTable.mem_values]

theorem rowsSince_snapshot (room : Room) (cursor : Nat) :
    Snapshot room cursor room.seq (room.rowsSince cursor) where
  behind := Nat.le_refl _
  distinct := by
    refine List.Perm.pairwise (List.perm_insertionSort _ _).symm
      (room.rows.values_distinct.filter _) (fun {_ _} apart => apart.symm)
  complete := by
    intro key row found above _
    rw [mem_rowsSince]
    exact ⟨(KeyedTable.key_of_get? found).symm ▸ found, above⟩
  current := by
    intro row member held found
    rw [(mem_rowsSince.mp member).1] at found
    exact .inl (Option.some.inj found).symm

theorem handleHello_true (room : Room) (cursor : Option Nat) :
    StateTrue room cursor (room.handleHello cursor) := by
  cases full : room.needsFull cursor with
  | true => exact ⟨0, by simpa [Room.handleHello, full] using rowsSince_snapshot room 0,
      by simp [Room.handleHello, full]⟩
  | false =>
      cases cursor with
      | none => cases full
      | some cursor =>
          exact ⟨cursor, by simpa [Room.handleHello, full] using rowsSince_snapshot room cursor,
            by simp [Room.handleHello, full]⟩

/-! ## The room advances -/

theorem advances_touched {room : Room} {touched : List RegistryRow}
    (stamped : Room.Stamped (room.seq + 1) touched) (dirty : Bool) :
    Advances room
      { room with rows := room.rows.putAll touched, seq := room.seq + 1, backupDirty := dirty } where
  seq := Nat.le_succ _
  rows := by
    intro key row found
    rw [Room.get?_putAll_touched stamped.distinct] at found
    rcases Option.or_eq_some_iff.mp found with touchedHere | ⟨_, stored⟩
    · have new := stamped.seq row (List.mem_of_find?_eq_some touchedHere)
      exact .inr (by omega)
    · exact .inl stored

/-- The nightly alarm only removes rows. -/
theorem alarm_removes (room : Room) (now : Int) :
    (room.alarm now).seq = room.seq ∧
      ∀ key row, (room.alarm now).rows.get? key = some row → room.rows.get? key = some row := by
  unfold Room.alarm
  split
  · exact ⟨rfl, fun _ _ => id⟩
  · dsimp only
    split
    · refine ⟨rfl, fun key row found => ?_⟩
      simp only [KeyedTable.get?_filter] at found
      exact (Option.filter_eq_some_iff.mp found).1
    · exact ⟨rfl, fun _ _ => id⟩

theorem alarm_advances (room : Room) (now : Int) : Advances room (room.alarm now) :=
  ⟨(alarm_removes room now).1.ge, fun key row found => .inl ((alarm_removes room now).2 key row found)⟩

theorem WellStamped.touched {room : Room} (wellStamped : WellStamped room)
    {touched : List RegistryRow} (stamped : Room.Stamped (room.seq + 1) touched) (dirty : Bool) :
    WellStamped
      { room with rows := room.rows.putAll touched, seq := room.seq + 1, backupDirty := dirty } := by
  intro key row found
  rw [Room.get?_putAll_touched stamped.distinct] at found
  rcases Option.or_eq_some_iff.mp found with touchedHere | ⟨_, stored⟩
  · have new := stamped.seq row (List.mem_of_find?_eq_some touchedHere)
    exact ⟨by omega, by simp only; omega⟩
  · have old := wellStamped key row stored
    exact ⟨old.1, by simp only; omega⟩

theorem WellStamped.alarm {room : Room} (wellStamped : WellStamped room) (now : Int) :
    WellStamped (room.alarm now) := by
  intro key row found
  rw [(alarm_removes room now).1]
  exact wellStamped key row ((alarm_removes room now).2 key row found)

theorem broadcast_true {room : Room} {touched : List RegistryRow}
    (wellStamped : WellStamped room) (stamped : Room.Stamped (room.seq + 1) touched)
    (dirty : Bool) :
    RowsTrue
      { room with rows := room.rows.putAll touched, seq := room.seq + 1, backupDirty := dirty }
      ⟨room.seq + 1, touched⟩ where
  positive := Nat.succ_pos _
  stamped := stamped.seq
  snapshot :=
    { behind := Nat.le_refl _
      distinct := stamped.distinct
      complete := by
        intro key row found above within
        rw [Room.get?_putAll_touched stamped.distinct] at found
        rcases Option.or_eq_some_iff.mp found with touchedHere | ⟨_, stored⟩
        · exact List.mem_of_find?_eq_some touchedHere
        · have old := wellStamped key row stored
          simp only at above
          omega
      current := by
        intro row member held found
        rw [KeyedTable.get?_putAll_of_mem stamped.distinct member] at found
        exact .inl (Option.some.inj found).symm }

/-! ## The promise -/

/-- Every room row at or below `seq` is in the table, exactly. -/
def HoldsUpTo (room : Room) (doc : RegistryDoc) (seq : Nat) : Prop :=
  ∀ key row, room.rows.get? key = some row → row.seq ≤ seq →
    doc.authoritative.get? key = some row

/-- What the cursor claims. -/
def Holds (room : Room) (doc : RegistryDoc) : Prop := HoldsUpTo room doc doc.cursor

theorem HoldsUpTo.advance {before after : Room} {doc : RegistryDoc} {seq : Nat}
    (holds : HoldsUpTo before doc seq) (behind : seq ≤ before.seq)
    (advances : Advances before after) : HoldsUpTo after doc seq := by
  intro key row found within
  rcases advances.rows key row found with old | new
  · exact holds key row old within
  · omega

theorem HoldsUpTo.mono {room : Room} {doc : RegistryDoc} {seq less : Nat}
    (holds : HoldsUpTo room doc seq) (below : less ≤ seq) : HoldsUpTo room doc less :=
  fun key row found within => holds key row found (within.trans below)

theorem HoldsUpTo.sameTable {room : Room} {doc after : RegistryDoc} {seq : Nat}
    (holds : HoldsUpTo room doc seq) (same : SameTable doc after) : HoldsUpTo room after seq := by
  intro key row found within
  rw [same.authoritative]
  exact holds key row found within

theorem Holds.sameTable {room : Room} {doc after : RegistryDoc} (holds : Holds room doc)
    (same : SameTable doc after) : Holds room after := by
  have cursor : after.cursor = doc.cursor := same.serverSeq
  rw [Holds, cursor]
  exact HoldsUpTo.sameTable holds same

/-- A state frame makes the promise good, given the client knows what a delta
leaves out. -/
theorem holds_applyState {room : Room} {doc : RegistryDoc} (wellStamped : WellStamped room)
    (online : doc.localOnly = false) {since : Option Nat} {frame : StateFrame}
    (true_ : StateTrue room since frame)
    (known : frame.full = true ∨ ∀ cursor ∈ since, HoldsUpTo room doc cursor)
    (now : Nat → Int) (order : IterOrder) :
    Holds room
      (doc.applyState now order frame.seq frame.full frame.gcFloor frame.rows).2 := by
  obtain ⟨table, cursor, _⟩ := RegistryDoc.applyState_table online now order frame.seq frame.full
    frame.gcFloor frame.rows
  obtain ⟨base, snapshot, asked⟩ := true_
  intro key row found within
  rw [cursor] at within
  rw [table, RegistryDoc.tableAfter]
  cases full : frame.full with
  | true =>
      rw [full, if_pos rfl] at asked
      have above : base < row.seq := asked ▸ (wellStamped key row found).1
      split
      · exact snapshot.get?_putAll found within (.inl above)
      · exact snapshot.get?_putAll found within (.inl above)
  | false =>
      simp only [full, Bool.false_eq_true, if_false, false_or] at asked known
      simp only [Bool.not_false, Bool.true_or, if_true]
      refine snapshot.get?_putAll found within ?_
      by_cases above : base < row.seq
      · exact .inl above
      · exact .inr (known base asked key row found (by omega))

/-- A broadcast keeps the promise unless it is older than a row the cursor
already covers. -/
theorem Holds.applyRows {room : Room} {doc : RegistryDoc} (holds : Holds room doc)
    {frame : RowsFrame} (true_ : RowsTrue room frame)
    (timely : ∀ row ∈ frame.rows, ∀ held, doc.authoritative.get? row.key = some held →
      held.seq ≤ doc.cursor → held.seq ≤ row.seq) :
    Holds room (doc.applyRows frame.seq frame.rows).2 := by
  obtain ⟨table, cursor, _⟩ := RegistryDoc.applyRows_table doc frame.seq frame.rows
  intro key row found within
  rw [cursor] at within
  rw [table]
  have positive := true_.positive
  by_cases next : frame.seq = doc.cursor + 1
  · rw [if_pos next] at within
    refine true_.snapshot.get?_putAll found within ?_
    by_cases above : frame.seq - 1 < row.seq
    · exact .inl above
    · exact .inr (holds key row found (by omega))
  · rw [if_neg next] at within
    have held := holds key row found within
    have here : row.key = key := KeyedTable.key_of_get? found
    by_cases listed : ∃ other ∈ frame.rows, other.key = key
    · obtain ⟨other, member, sameKey⟩ := listed
      have notOlder : row.seq ≤ other.seq := timely other member row (sameKey ▸ held) within
      rcases true_.snapshot.current other member row (sameKey ▸ found) with same | newer
      · subst same
        rw [← here]
        exact KeyedTable.get?_putAll_of_mem true_.snapshot.distinct member _
      · have := true_.stamped other member
        omega
    · rw [KeyedTable.get?_putAll_of_not_mem fun other member sameKey =>
        listed ⟨other, member, sameKey⟩]
      exact held

/-! ## One client -/

/-- What holds of a client and everything on its way to it. -/
structure Synced (room : Room) (client : Client) : Prop where
  online : client.doc.localOnly = false
  behind : client.doc.cursor ≤ room.seq
  holds : Holds room client.doc
  hello : ∀ session ∈ client.session, ∀ cursor, .hello cursor ∈ session.toRoom →
    cursor = session.cursor
  frames : ∀ session ∈ client.session, ∀ frame ∈ session.toClient,
    FrameTrue room session.cursor frame
  pulled : ∀ since frame, client.cycle = .pulled since frame → StateTrue room (some since) frame

theorem Synced.advance {before after : Room} {client : Client} (synced : Synced before client)
    (advances : Advances before after) : Synced after client where
  online := synced.online
  behind := synced.behind.trans advances.seq
  holds := HoldsUpTo.advance synced.holds synced.behind advances
  hello := synced.hello
  frames session open_ frame sent := (synced.frames session open_ frame sent).advance advances
  pulled since frame answered :=
    @FrameTrue.advance _ _ _ (.state frame) (synced.pulled since frame answered) advances

/-- Queue work on the replica. -/
theorem Synced.sameTable {room : Room} {client : Client} (synced : Synced room client)
    {doc : RegistryDoc} (same : SameTable client.doc doc) :
    Synced room { client with doc } where
  online := same.localOnly.trans synced.online
  behind := by
    have cursor : doc.cursor = client.doc.cursor := same.serverSeq
    exact cursor ▸ synced.behind
  holds := synced.holds.sameTable same
  hello := synced.hello
  frames := synced.frames
  pulled := synced.pulled

theorem Synced.send {room : Room} {client : Client} (synced : Synced room client)
    {frame : ServerFrame}
    (true_ : ∀ session ∈ client.session, FrameTrue room session.cursor frame) :
    Synced room (client.send frame) where
  online := synced.online
  behind := synced.behind
  holds := synced.holds
  hello := by
    intro session open_ cursor waiting
    obtain ⟨before, wasOpen, rfl⟩ := Option.map_eq_some_iff.mp open_
    exact synced.hello before wasOpen cursor waiting
  frames := by
    intro session open_ other sent
    obtain ⟨before, wasOpen, rfl⟩ := Option.map_eq_some_iff.mp open_
    rcases List.mem_append.mp sent with old | new
    · exact synced.frames before wasOpen other old
    · rw [List.mem_singleton.mp new]
      exact true_ before wasOpen
  pulled := synced.pulled

theorem Synced.broadcast {room : Room} {client : Client} (synced : Synced room client)
    {frame : RowsFrame} (true_ : RowsTrue room frame) : Synced room (client.broadcast frame) := by
  unfold Client.broadcast
  split
  · exact synced.send fun _ _ => true_
  · exact synced

theorem Synced.disconnect {room : Room} {client : Client} (synced : Synced room client) :
    Synced room client.disconnect := by
  have marked := synced.sameTable client.doc.markDisconnected_sameTable
  exact ⟨marked.online, marked.behind, marked.holds, nofun, nofun, marked.pulled⟩

/-- A cycle that has no pull answered yet. -/
theorem Synced.cycle {room : Room} {client : Client} (synced : Synced room client) {cycle : Cycle}
    (unanswered : ∀ since frame, cycle ≠ .pulled since frame) :
    Synced room { client with cycle } :=
  ⟨synced.online, synced.behind, synced.holds, synced.hello, synced.frames,
    fun since frame same => absurd same (unanswered since frame)⟩

theorem Synced.applyState {room : Room} {client : Client} (synced : Synced room client)
    (wellStamped : WellStamped room) {since : Option Nat} {frame : StateFrame}
    (true_ : StateTrue room since frame)
    (timely : frame.full = true ∨ ∀ cursor ∈ since, cursor ≤ client.doc.cursor)
    (now : Nat → Int) (order : IterOrder) :
    Synced room { client with
      doc := (client.doc.applyState now order frame.seq frame.full frame.gcFloor frame.rows).2 } := by
  obtain ⟨_, cursor, online⟩ := RegistryDoc.applyState_table synced.online now order frame.seq
    frame.full frame.gcFloor frame.rows
  have known := timely.imp id fun behind cursor asked =>
    HoldsUpTo.mono synced.holds (behind cursor asked)
  refine ⟨online, ?_, holds_applyState wellStamped synced.online true_ known now order,
    synced.hello, synced.frames, synced.pulled⟩
  obtain ⟨_, snapshot, _⟩ := true_
  simp only
  rw [cursor]
  exact snapshot.behind

theorem Synced.applyRows {room : Room} {client : Client} (synced : Synced room client)
    {frame : RowsFrame} (true_ : RowsTrue room frame)
    (timely : ∀ row ∈ frame.rows, ∀ held, client.doc.authoritative.get? row.key = some held →
      held.seq ≤ client.doc.cursor → held.seq ≤ row.seq) :
    Synced room { client with doc := (client.doc.applyRows frame.seq frame.rows).2 } := by
  obtain ⟨_, cursor, online⟩ := RegistryDoc.applyRows_table client.doc frame.seq frame.rows
  refine ⟨online.trans synced.online, ?_, synced.holds.applyRows true_ timely, synced.hello,
    synced.frames, synced.pulled⟩
  simp only
  rw [cursor]
  split
  · exact true_.snapshot.behind
  · exact synced.behind

/-- Everything after the frame taken is still on its way. -/
theorem Synced.take {room : Room} {client : Client} {session : Session} {frame : ServerFrame}
    {toClient : List ServerFrame} (synced : Synced room client)
    (open_ : client.session = some session) (next : session.toClient = frame :: toClient)
    (joined : Bool) :
    FrameTrue room session.cursor frame ∧
      Synced room { client with session := some { session with toClient, joined } } := by
  have frames := synced.frames session open_
  rw [next] at frames
  refine ⟨frames frame (by simp), synced.online, synced.behind, synced.holds, ?_, ?_, synced.pulled⟩
  · intro after isOpen cursor waiting
    cases isOpen
    exact synced.hello session open_ cursor waiting
  · intro after isOpen other sent
    cases isOpen
    exact frames other (List.mem_cons_of_mem _ sent)

/-! ## Timely deliveries -/

/-- The frame does not reach back behind what the client's cursor covers. -/
def TimelyFrame (doc : RegistryDoc) (session : Session) : ServerFrame → Prop
  | .state frame => frame.full = true ∨ ∀ cursor ∈ session.cursor, cursor ≤ doc.cursor
  | .rows frame => ∀ row ∈ frame.rows, ∀ held ∈ doc.authoritative.get? row.key,
      held.seq ≤ doc.cursor → held.seq ≤ row.seq
  | .ack _ _ | .error _ _ => True

instance (doc : RegistryDoc) (session : Session) :
    (frame : ServerFrame) → Decidable (TimelyFrame doc session frame)
  | .state frame =>
      inferInstanceAs (Decidable (frame.full = true ∨ ∀ cursor ∈ session.cursor, _))
  | .rows frame => inferInstanceAs (Decidable (∀ row ∈ frame.rows, ∀ held ∈ _, _ → _))
  | .ack _ _ | .error _ _ => .isTrue trivial

/-- A pulled delta is not for a cursor the client has fallen behind. -/
def TimelyPull (doc : RegistryDoc) : Cycle → Prop
  | .pulled since frame => frame.full = true ∨ since ≤ doc.cursor
  | _ => True

instance (doc : RegistryDoc) : (cycle : Cycle) → Decidable (TimelyPull doc cycle)
  | .pulled since frame => inferInstanceAs (Decidable (frame.full = true ∨ since ≤ doc.cursor))
  | .idle | .spawned | .pushing _ | .answered _ _ | .pulling _ => .isTrue trivial

def TimelyAction (client : Client) : ClientAction → Prop
  | .receive _ _ => ∀ session ∈ client.session, ∀ frame ∈ session.toClient.head?,
      TimelyFrame client.doc session frame
  | .readPull _ _ => TimelyPull client.doc client.cycle
  | _ => True

instance (client : Client) : (action : ClientAction) → Decidable (TimelyAction client action)
  | .receive _ _ =>
      inferInstanceAs (Decidable (∀ session ∈ client.session, ∀ frame ∈ session.toClient.head?, _))
  | .readPull _ _ => inferInstanceAs (Decidable (TimelyPull client.doc client.cycle))
  | .write _ _ _ _ _ | .deleteRows _ _ | .connect | .pushPending | .disconnect | .spawnCycle
  | .startCycle | .readAnswer | .loseAnswer | .startPull | .losePull => .isTrue trivial

/-- No reset, and every delivery is timely. -/
def Timely {ι : Type} (system : System ι) : Action ι → Prop
  | .client i action => TimelyAction (system.client i) action
  | .reset => False
  | _ => True

instance {ι : Type} (system : System ι) : (action : Action ι) → Decidable (Timely system action)
  | .client i action => inferInstanceAs (Decidable (TimelyAction (system.client i) action))
  | .reset => .isFalse id
  | .serve _ _ | .servePush _ _ | .servePull _ | .push _ _ _ | .alarm _ => .isTrue trivial

theorem Synced.receive {room : Room} {client after : Client} (synced : Synced room client)
    (wellStamped : WellStamped room)
    (timely : ∀ session ∈ client.session, ∀ frame ∈ session.toClient.head?,
      TimelyFrame client.doc session frame)
    {now : Nat → Int} {order : IterOrder} (received : client.receive now order = some after) :
    Synced room after := by
  obtain ⟨session, open_, next⟩ := Option.bind_eq_some_iff.mp received
  cases queue : session.toClient with
  | nil => simp [queue] at next
  | cons frame toClient =>
      have arrives := timely session open_ frame (by simp [queue])
      simp only [queue, Option.some.injEq] at next
      subst next
      obtain ⟨true_, taken⟩ := synced.take open_ queue session.joined
      cases frame with
      | state frame =>
          obtain ⟨_, joining⟩ := synced.take open_ queue true
          exact joining.applyState wellStamped true_ arrives now order
      | rows frame =>
          have applied := taken.applyRows true_ arrives
          dsimp only
          split
          · split
            · exact applied
            · exact applied.disconnect
          · exact taken
      | ack batch seq =>
          dsimp only
          split
          · exact taken.sameTable (client.doc.ackBatch_sameTable batch seq)
          · exact taken
      | error code message => exact taken

theorem Synced.connect {room : Room} {client after : Client} (synced : Synced room client)
    (connected : client.connect = some after) : Synced room after := by
  unfold Client.connect at connected
  split at connected
  · cases connected
  · cases connected
    refine ⟨synced.online, synced.behind, synced.holds, ?_, ?_, synced.pulled⟩
    · intro session open_ cursor waiting
      cases open_
      simpa using waiting
    · intro session open_ frame sent
      cases open_
      cases sent

theorem Synced.pushPending {room : Room} {client after : Client} (synced : Synced room client)
    (pushed : client.pushPending = some after) : Synced room after := by
  obtain ⟨session, open_, sends⟩ := Option.bind_eq_some_iff.mp pushed
  split at sends
  · cases sends
    have marked := synced.sameTable client.doc.takePushable_sameTable
    refine ⟨marked.online, marked.behind, marked.holds, ?_, ?_, marked.pulled⟩
    · intro after isOpen cursor waiting
      cases isOpen
      have old : .hello cursor ∈ session.toRoom := by simpa using waiting
      exact synced.hello session open_ cursor old
    · intro after isOpen frame sent
      cases isOpen
      exact synced.frames session open_ frame sent
  · cases sends

theorem Synced.failPush {room : Room} {client : Client} (synced : Synced room client) :
    Synced room client.failPush :=
  (synced.sameTable client.doc.markDisconnected_sameTable).cycle (by simp)

theorem Synced.readAnswer {room : Room} {client after : Client} (synced : Synced room client)
    (read : client.readAnswer = some after) : Synced room after := by
  unfold Client.readAnswer at read
  split at read
  · rename_i batch seq _ rest _
    cases read
    exact (synced.sameTable (client.doc.ackBatch_sameTable batch seq)).cycle (by simp)
  · cases read
    exact synced.failPush
  · cases read

theorem Synced.readPull {room : Room} {client after : Client} (synced : Synced room client)
    (wellStamped : WellStamped room) (timely : TimelyPull client.doc client.cycle)
    {now : Nat → Int} {order : IterOrder} (read : client.readPull now order = some after) :
    Synced room after := by
  unfold Client.readPull at read
  split at read
  · rename_i since frame pulled
    cases read
    rw [pulled] at timely
    have arrives : frame.full = true ∨ ∀ cursor ∈ some since, cursor ≤ client.doc.cursor := by
      simpa [TimelyPull] using timely
    exact (synced.applyState wellStamped (synced.pulled since frame pulled) arrives now order).cycle
      (by simp)
  · cases read

/-- Whatever a client does by itself keeps its promise, as long as the frames
it takes are timely. -/
theorem Synced.act {room : Room} {client after : Client} (synced : Synced room client)
    (wellStamped : WellStamped room) {action : ClientAction}
    (timely : TimelyAction client action) (acted : client.act action = some after) :
    Synced room after := by
  cases action with
  | write now kind id op set =>
      cases acted
      exact synced.sameTable (RegistryDoc.write_sameTable synced.online now kind id op set)
  | deleteRows now keys =>
      cases acted
      exact synced.sameTable (RegistryDoc.deleteRowOps_sameTable synced.online now keys)
  | connect => exact synced.connect acted
  | pushPending => exact synced.pushPending acted
  | receive now order => exact synced.receive wellStamped timely acted
  | disconnect =>
      obtain ⟨_, _, rfl⟩ := Option.map_eq_some_iff.mp acted
      exact synced.disconnect
  | spawnCycle =>
      simp only [Client.act, Client.spawnCycle] at acted
      split at acted
      · cases acted
        exact synced.cycle (by simp)
      · cases acted
  | startCycle =>
      simp only [Client.act, Client.startCycle] at acted
      split at acted
      · cases acted
        exact (synced.sameTable client.doc.takePushable_sameTable).cycle (by simp)
      · cases acted
  | readAnswer => exact synced.readAnswer acted
  | loseAnswer =>
      simp only [Client.act, Client.loseAnswer] at acted
      split at acted
      · cases acted
        exact synced.failPush
      · cases acted
        exact synced.failPush
      · cases acted
  | startPull =>
      simp only [Client.act, Client.startPull] at acted
      split at acted
      · cases acted
        exact synced.cycle (by simp)
      · cases acted
  | readPull now order => exact synced.readPull wellStamped timely acted
  | losePull =>
      simp only [Client.act, Client.losePull] at acted
      split at acted
      · cases acted
        exact synced.cycle (by simp)
      · cases acted
        exact synced.cycle (by simp)
      · cases acted

/-! ## The whole system -/

variable {ι : Type} [DecidableEq ι]

structure InSync (system : System ι) : Prop where
  wellStamped : WellStamped system.room
  synced : ∀ i, Synced system.room (system.client i)

theorem InSync.setClient {system : System ι} (inSync : InSync system) (i : ι) {client : Client}
    (synced : Synced system.room client) : InSync (system.setClient i client) := by
  refine ⟨inSync.wellStamped, fun j => ?_⟩
  by_cases same : j = i
  · subst same
    simpa using synced
  · rw [System.setClient_client_of_ne _ same]
    exact inSync.synced j

omit [DecidableEq ι] in
theorem InSync.pushBatch {system : System ι} (inSync : InSync system) (now : Int)
    (batch : String) (ops : List RowOp) : InSync (system.pushBatch now batch ops).1 := by
  unfold System.pushBatch
  dsimp only
  rcases system.room.applyPushBatch_cases now batch ops with
    ⟨same, silent⟩ | ⟨touched, stamped, sent, changed⟩
  · rw [same, silent]
    exact inSync
  · rw [sent, changed]
    refine ⟨inSync.wellStamped.touched stamped true, fun i => ?_⟩
    exact ((inSync.synced i).advance (advances_touched stamped true)).broadcast
      (broadcast_true inSync.wellStamped stamped true)

theorem InSync.serve {system after : System ι} (inSync : InSync system) {i : ι} {now : Int}
    (served : system.serve i now = some after) : InSync after := by
  obtain ⟨session, open_, next⟩ := Option.bind_eq_some_iff.mp served
  have synced := inSync.synced i
  -- Taking a frame off the session's queue shortens it from the front.
  have shorter : ∀ {frame : ClientFrame} {toRoom : List ClientFrame} (ready : Bool),
      session.toRoom = frame :: toRoom →
      Synced system.room
        { system.client i with session := some { session with toRoom, ready } } := by
    intro frame toRoom ready queue
    refine ⟨synced.online, synced.behind, synced.holds, ?_, ?_, synced.pulled⟩
    · intro after isOpen cursor waiting
      cases isOpen
      exact synced.hello session open_ cursor (by rw [queue]; exact List.mem_cons_of_mem _ waiting)
    · intro after isOpen frame sent
      cases isOpen
      exact synced.frames session open_ frame sent
  cases queue : session.toRoom with
  | nil => simp [queue] at next
  | cons frame toRoom =>
      cases frame with
      | hello cursor =>
          simp only [queue, Option.some.injEq] at next
          subst next
          have asked := synced.hello session open_ cursor (by simp [queue])
          refine inSync.setClient i ((shorter true queue).send fun answered isOpen => ?_)
          cases isOpen
          rw [asked]
          exact handleHello_true system.room session.cursor
      | push batch =>
          simp only [queue] at next
          have taken := inSync.setClient i (shorter session.ready queue)
          cases ready : session.ready with
          | false =>
              rw [ready] at next taken
              simp only [Bool.false_eq_true, if_false, Option.some.injEq] at next
              subst next
              exact taken.setClient i ((taken.synced i).send fun _ _ => trivial)
          | true =>
              rw [ready] at next taken
              simp only [if_true, Option.some.injEq] at next
              subst next
              have pushed := taken.pushBatch now batch.batch batch.ops
              refine pushed.setClient i ((pushed.synced i).send fun _ _ => ?_)
              unfold System.replyFrame
              split <;> trivial

theorem InSync.servePush {system after : System ι} (inSync : InSync system) {i : ι} {now : Int}
    (served : system.servePush i now = some after) : InSync after := by
  unfold System.servePush at served
  split at served
  · rename_i batch rest _
    cases served
    have pushed := inSync.pushBatch now batch.batch batch.ops
    exact pushed.setClient i ((pushed.synced i).cycle (by simp))
  · cases served

theorem InSync.servePull {system after : System ι} (inSync : InSync system) {i : ι}
    (served : system.servePull i = some after) : InSync after := by
  unfold System.servePull at served
  split at served
  · rename_i since _
    cases served
    have synced := inSync.synced i
    refine inSync.setClient i ⟨synced.online, synced.behind, synced.holds, synced.hello,
      synced.frames, fun asked frame answered => ?_⟩
    cases answered
    exact handleHello_true system.room (some since)
  · cases served

/-- One timely step keeps every client's promise. -/
theorem InSync.step {system after : System ι} (inSync : InSync system) {action : Action ι}
    (timely : Timely system action) (stepped : system.step action = some after) :
    InSync after := by
  cases action with
  | client i action =>
      obtain ⟨client, acted, rfl⟩ := Option.map_eq_some_iff.mp stepped
      exact inSync.setClient i ((inSync.synced i).act inSync.wellStamped timely acted)
  | serve i now => exact inSync.serve stepped
  | servePush i now => exact inSync.servePush stepped
  | servePull i => exact inSync.servePull stepped
  | push now batch ops =>
      cases stepped
      exact inSync.pushBatch now batch ops
  | alarm now =>
      cases stepped
      exact ⟨inSync.wellStamped.alarm now, fun i =>
        (inSync.synced i).advance (alarm_advances system.room now)⟩
  | reset => exact timely.elim

/-- Nothing on its way, and every client's promise holds: a brand-new system,
or one that has settled. -/
structure Settled (system : System ι) : Prop where
  wellStamped : WellStamped system.room
  quiet : ∀ i, (system.client i).session = none ∧ (system.client i).cycle = .idle
  online : ∀ i, (system.client i).doc.localOnly = false
  behind : ∀ i, (system.client i).doc.cursor ≤ system.room.seq
  holds : ∀ i, Holds system.room (system.client i).doc

omit [DecidableEq ι] in
theorem Settled.inSync {system : System ι} (settled : Settled system) : InSync system := by
  refine ⟨settled.wellStamped, fun i => ?_⟩
  obtain ⟨closed, idle⟩ := settled.quiet i
  exact ⟨settled.online i, settled.behind i, settled.holds i, by simp [closed], by simp [closed],
    by simp [idle]⟩

theorem InSync.reaches {start finish : System ι} (inSync : InSync start)
    (reaches : System.Reaches Timely start finish) : InSync finish := by
  induction reaches with
  | refl => exact inSync
  | tail _ stepped ih =>
      obtain ⟨action, timely, stepped⟩ := stepped
      exact ih.step timely stepped

/-- In every run whose deliveries are all timely, every room row at or below a
client's cursor is in that client's table with exactly that content. -/
theorem cursor_complete {start finish : System ι} (settled : Settled start)
    (reaches : System.Reaches Timely start finish) (i : ι) {key : RowKey} {row : RegistryRow}
    (found : finish.room.rows.get? key = some row)
    (covered : row.seq ≤ (finish.client i).doc.cursor) :
    (finish.client i).doc.authoritative.get? key = some row :=
  ((settled.inSync.reaches reaches).synced i).holds key row found covered

/-- A title written to a chat by another device. -/
def titled (id : String) (ms : Int) (title : String) : RowOp :=
  { kind := kindChats, id, op := .upsert, hlc := encodeHlc ms 0 "dev-b"
    set := some (fields [("title", .string title)]), clocks := none }

def newClient (device : String) : Client := { doc := .new device, session := none, cycle := .idle }

/-- A new client of an empty room. -/
def newSystem : System Unit := { room := .empty, client := fun _ => newClient "dev-a" }

theorem newSystem_settled : Settled newSystem where
  wellStamped key row found := by
    simp [newSystem, Room.empty] at found
  quiet _ := ⟨rfl, rfl⟩
  online _ := rfl
  behind _ := Nat.le_refl _
  holds _ key row found := by
    simp [newSystem, Room.empty] at found

/-- A client that joined and heard of one chat, and then of nothing more. -/
def joinedOnce : List (Action Unit) :=
  [.push 1000 "b-1" [titled "chat-1" 1000 "one"], .client () .connect, .serve () 2000,
   .client () (.receive (fun _ => 3000) .byKey), .push 4000 "b-2" [titled "chat-2" 4000 "two"]]

theorem cursor_complete_joinedOnce :
    ∃ finish, newSystem.run Timely joinedOnce = some finish ∧
      ∃ row, finish.room.rows.get? ⟨kindChats, "chat-1"⟩ = some row ∧
        (finish.client ()).doc.authoritative.get? ⟨kindChats, "chat-1"⟩ = some row := by
  have runs : (newSystem.run Timely joinedOnce).any (fun finish =>
      (finish.room.rows.get? ⟨kindChats, "chat-1"⟩).any fun row =>
        row.seq ≤ (finish.client ()).doc.cursor) = true := by
    decide +kernel
  obtain ⟨finish, ran, held⟩ := (Option.any_eq_true _ _).mp runs
  obtain ⟨row, found, covered⟩ := (Option.any_eq_true _ _).mp held
  exact ⟨finish, ran, row, found, cursor_complete newSystem_settled (System.reaches_of_run ran) ()
    found (of_decide_eq_true covered)⟩

/-- A pull asked before the socket came up is answered after two more renames,
and read before their broadcasts. -/
def overtaken : List (Action Unit) :=
  [.push 1000 "b-1" [titled "chat-1" 1000 "one"], .client () .spawnCycle, .client () .startCycle,
   .client () .startPull, .client () .connect, .serve () 2000,
   .client () (.receive (fun _ => 3000) .byKey),
   .push 4000 "b-2" [titled "chat-1" 4000 "two"], .push 5000 "b-3" [titled "chat-1" 5000 "three"],
   .servePull (), .client () (.readPull (fun _ => 6000) .byKey),
   .client () (.receive (fun _ => 7000) .byKey)]

/-- The broadcast of the first rename then overwrites the second, below the
cursor. -/
theorem cursor_incomplete_overtaken :
    Settled newSystem ∧
    ∃ finish, System.Reaches (fun _ action => action.isReset = false) newSystem finish ∧
      ∃ row, finish.room.rows.get? ⟨kindChats, "chat-1"⟩ = some row ∧
        row.seq ≤ (finish.client ()).doc.cursor ∧
        (finish.client ()).doc.authoritative.get? ⟨kindChats, "chat-1"⟩ ≠ some row := by
  have runs : (newSystem.run (fun _ action => action.isReset = false) overtaken).any (fun finish =>
      (finish.room.rows.get? ⟨kindChats, "chat-1"⟩).any fun row =>
        row.seq ≤ (finish.client ()).doc.cursor ∧
        (finish.client ()).doc.authoritative.get? ⟨kindChats, "chat-1"⟩ ≠ some row) = true := by
    decide +kernel
  obtain ⟨finish, ran, held⟩ := (Option.any_eq_true _ _).mp runs
  obtain ⟨row, found, stale⟩ := (Option.any_eq_true _ _).mp held
  exact ⟨newSystem_settled, finish, System.reaches_of_run ran, row, found, of_decide_eq_true stale⟩

end Zeron.Sync
