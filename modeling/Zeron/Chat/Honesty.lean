import Zeron.Chat.System

namespace Zeron.Chat

open Zeron.Data

/-! # The cursor is honest

Five paths move the cursor: a row, an acknowledgement over either transport, and
the catch-up plan of either transport.  Each of them moves it to a seq up to
which every row is in the document, this client's own, or covered by the room's
checkpoint; and what is accounted for so stays accounted for, whatever happens
meanwhile.
-/

/-! ## What a push does to the room -/

namespace ChatRoom

/-- A push is refused, repeats a stored row, or adds a row at the head. -/
def PushEffect (room : ChatRoom) (batchId : String) (pushed : Pushed) : Prop :=
  (pushed.room.log = room.log ∧ pushed.row = none ∧
    ((∃ code message id, pushed.answer = .error code message id) ∨
      ∃ row ∈ room.log.rows, row.batchId = batchId ∧ pushed.answer = .ack batchId row.seq true)) ∨
  ∃ row, pushed.row = some row ∧ row.batchId = batchId ∧ row.seq = room.log.headSeq + 1 ∧
    (∀ stored ∈ room.log.rows, stored.batchId ≠ batchId) ∧
    pushed.room.log = room.log.appended row.device batchId row.bytes row.receivedAt ∧
    pushed.answer = .ack batchId row.seq false

theorem admitQuota_log (room : ChatRoom) (device : String) (bytes : Nat) (now : Int) :
    (room.admitQuota device bytes now).2.log = room.log := rfl

variable {room : ChatRoom} {device batchId : String} {payload : Bytes} {now : Int} {pushed : Pushed}

theorem admitPush_effect (contiguous : room.log.Contiguous)
    (taken : room.admitPush device batchId payload now = some pushed) :
    room.PushEffect batchId pushed := by
  unfold admitPush at taken
  dsimp only at taken
  split at taken
  · rw [admitQuota_log] at taken
    obtain ⟨⟨outcome, log⟩, appended, rfl⟩ := Option.map_eq_some_iff.mp taken
    rcases contiguous.appendRow_cases device batchId payload now with
      ⟨_, error, result⟩ | ⟨row, stored, same, result⟩ | ⟨unused, result⟩
    · cases appended.symm.trans result
      refine .inl ?_
      cases error with
      | tooLarge => exact ⟨rfl, rfl, .inl ⟨_, _, _, rfl⟩⟩
      | empty => exact ⟨rfl, rfl, .inl ⟨_, _, _, rfl⟩⟩
    · cases appended.symm.trans result
      exact .inl ⟨rfl, rfl, .inr ⟨row, stored, same, rfl⟩⟩
    · cases appended.symm.trans result
      exact .inr ⟨_, rfl, rfl, rfl, unused, rfl, rfl⟩
  · cases taken
    exact .inl ⟨rfl, rfl, .inl ⟨_, _, _, rfl⟩⟩

theorem handlePush_effect {socket : SocketState} (contiguous : room.log.Contiguous)
    (taken : room.handlePush socket batchId payload now = some pushed) :
    room.PushEffect batchId pushed := by
  unfold handlePush at taken
  split at taken
  · cases taken
    exact .inl ⟨rfl, rfl, .inl ⟨_, _, _, rfl⟩⟩
  · split at taken
    · cases taken
      exact .inl ⟨rfl, rfl, .inl ⟨_, _, _, rfl⟩⟩
    · exact admitPush_effect contiguous taken

theorem postRows_effect (contiguous : room.log.Contiguous)
    (taken : room.postRows device batchId payload now = some pushed) :
    room.PushEffect batchId pushed := by
  unfold postRows at taken
  split at taken
  · cases taken
    exact .inl ⟨rfl, rfl, .inl ⟨_, _, _, rfl⟩⟩
  · split at taken
    · cases taken
      exact .inl ⟨rfl, rfl, .inl ⟨_, _, _, rfl⟩⟩
    · exact admitPush_effect contiguous taken

theorem takeRows_subset (used : Nat) (rows : List LogRow) : (takeRows used rows).1 ⊆ rows := by
  induction rows generalizing used with
  | nil => exact List.Subset.refl _
  | cons row rest ih =>
      rw [takeRows]
      split
      · exact List.nil_subset _
      · exact List.cons_subset_cons _ (ih _)

end ChatRoom

theorem ChatLog.rowsAfter_subset (log : ChatLog) (after : Nat) (exclude : Option String) :
    log.rowsAfter after exclude ⊆ log.rows := by
  unfold rowsAfter
  split
  · split
    · exact List.filter_sublist.subset
    · exact List.filter_sublist.subset
  · exact List.filter_sublist.subset

namespace System

variable (config : Config) {s after : System}

/-! ## What the room keeps -/

/-- The log and the history of every row it ever appended. -/
structure Recorded (s : System) : Prop where
  contiguous : s.room.log.Contiguous
  sized : 0 < s.room.log.checkpointSeq → s.room.log.checkpointSize ≠ 0
  seqs : s.history.map (·.seq) = List.range' 1 s.room.log.headSeq
  stored : ∀ row ∈ s.room.log.rows, row ∈ s.history

theorem Recorded.le_head (recorded : s.Recorded) {row : LogRow} (appended : row ∈ s.history) :
    row.seq ≤ s.room.log.headSeq := by
  have listed := List.mem_map_of_mem (f := LogRow.seq) appended
  rw [recorded.seqs, List.mem_range'_1] at listed
  omega

theorem Recorded.positive (recorded : s.Recorded) {row : LogRow} (appended : row ∈ s.history) :
    0 < row.seq := by
  have listed := List.mem_map_of_mem (f := LogRow.seq) appended
  rw [recorded.seqs, List.mem_range'_1] at listed
  omega

theorem Recorded.unique (recorded : s.Recorded) {row other : LogRow} (appended : row ∈ s.history)
    (also : other ∈ s.history) (same : row.seq = other.seq) : row = other := by
  have distinct : (s.history.map (·.seq)).Nodup := by
    rw [recorded.seqs]
    exact List.nodup_range'
  exact List.inj_on_of_nodup_map distinct appended also same

theorem Recorded.checkpoint_le (recorded : s.Recorded) :
    s.room.log.checkpointSeq ≤ s.room.log.headSeq :=
  recorded.contiguous.covers.trans_le recorded.contiguous.floor

/-- Nothing the room recorded and nothing the document holds is lost. -/
structure Grows (s after : System) : Prop where
  head : s.room.log.headSeq ≤ after.room.log.headSeq
  kept : ∀ row ∈ s.history, row ∈ after.history
  fresh : ∀ row ∈ after.history, row ∈ s.history ∨ s.room.log.headSeq < row.seq
  checkpoint : s.room.log.checkpointSeq ≤ after.room.log.checkpointSeq
  holds : ∀ seq, s.doc.Contains seq → after.doc.Contains seq

/-! ## Honest cursors -/

/-- An own row, a row in the document, or one the room's checkpoint covers. -/
def Held (s : System) (row : LogRow) : Prop :=
  s.Takes config row ∨ row.seq ≤ s.room.log.checkpointSeq

/-- Every row up to a seq is held. -/
structure Fair (s : System) (seq : Nat) : Prop where
  le : seq ≤ s.room.log.headSeq
  held : ∀ row ∈ s.history, row.seq ≤ seq → s.Held config row

/-- A frame the room really sent. -/
def Genuine (s : System) : ServerFrame → Prop
  | .state header _ =>
      header.checkpointSeq ≤ s.room.log.checkpointSeq ∧ header.headSeq ≤ s.room.log.headSeq
  | .row seq _ _ _ => seq ≤ s.room.log.headSeq
  | .ack _ seq _ =>
      seq ≤ s.room.log.headSeq ∧
        ∀ row ∈ s.history, row.seq = seq → config.minted row.batchId = true
  | .rowsDone headSeq | .probeOk headSeq => headSeq ≤ s.room.log.headSeq
  | .error _ _ _ => True

/-- A row whose import has begun: its proposal is honest but for the row itself. -/
structure ImportFair (s : System) (row : RowImport) : Prop where
  seq : row.seq ≤ s.room.log.headSeq
  le : row.cursor ≤ s.room.log.headSeq
  held : ∀ other ∈ s.history, other.seq ≤ row.cursor → s.Held config other ∨ other.seq = row.seq
  applied : row.outcome = some .applied → s.doc.Contains row.seq

structure SessionFair (s : System) (session : Session) : Prop where
  header : session.header.checkpointSeq ≤ s.room.log.checkpointSeq
  cursor : s.Fair config session.cursor
  sent : ∀ frame ∈ session.toClient, s.Genuine config frame
  buffered : ∀ frame ∈ session.buffered, s.Genuine config frame
  pushes : ∀ batchId payload, .push batchId payload ∈ session.toRoom →
    config.minted batchId = true
  importing : ∀ row ∈ session.importing, s.ImportFair config row

structure PullFair (s : System) (pull : Pull) : Prop where
  header : pull.header.checkpointSeq ≤ s.room.log.checkpointSeq
  cursor : s.Fair config pull.cursor
  plan : s.Fair config pull.plan.after
  frames : ∀ frame ∈ pull.frames, s.Genuine config frame
  answer : ∀ batchId seq, (batchId, seq) ∈ pull.answer → s.Genuine config (.ack batchId seq false)
  batches : ∀ push ∈ pull.batches, config.minted push.batchId = true
  importing : ∀ row ∈ pull.importing, s.ImportFair config row

/-- The invariant of every run. -/
structure CursorFair (s : System) : Prop where
  recorded : s.Recorded
  cursor : s.Fair config s.shared.cursor
  pending : ∀ push ∈ s.shared.pending, config.minted push.batchId = true
  session : ∀ session ∈ s.session, s.SessionFair config session
  pull : s.PullFair config s.pull

/-! ## What grows stays honest -/

variable {config}

theorem Takes.grows {row : LogRow} (takes : s.Takes config row) (grows : s.Grows after) :
    after.Takes config row :=
  takes.imp id (grows.holds row.seq)

theorem Held.grows {row : LogRow} (held : s.Held config row) (grows : s.Grows after) :
    after.Held config row :=
  held.imp (·.grows grows) fun covered => covered.trans grows.checkpoint

theorem Fair.grows {seq : Nat} (fair : s.Fair config seq) (grows : s.Grows after) :
    after.Fair config seq where
  le := fair.le.trans grows.head
  held row appended within := by
    rcases grows.fresh row appended with old | new
    · exact (fair.held row old within).grows grows
    · exact absurd (within.trans fair.le) (Nat.not_le.mpr new)

theorem Genuine.grows {frame : ServerFrame} (genuine : s.Genuine config frame)
    (grows : s.Grows after) : after.Genuine config frame := by
  cases frame with
  | state header frontier =>
      exact ⟨genuine.1.trans grows.checkpoint, genuine.2.trans grows.head⟩
  | row seq device batchId payload => exact Nat.le_trans genuine grows.head
  | rowsDone headSeq => exact Nat.le_trans genuine grows.head
  | probeOk headSeq => exact Nat.le_trans genuine grows.head
  | error code message batchId => trivial
  | ack batchId seq dup =>
      refine ⟨genuine.1.trans grows.head, fun row appended same => ?_⟩
      rcases grows.fresh row appended with old | new
      · exact genuine.2 row old same
      · have le := genuine.1
        omega

theorem ImportFair.grows {row : RowImport} (fair : s.ImportFair config row)
    (grows : s.Grows after) : after.ImportFair config row where
  seq := fair.seq.trans grows.head
  le := fair.le.trans grows.head
  held other appended within := by
    rcases grows.fresh other appended with old | new
    · exact (fair.held other old within).imp_left (·.grows grows)
    · exact absurd (within.trans fair.le) (Nat.not_le.mpr new)
  applied outcome := grows.holds _ (fair.applied outcome)

theorem SessionFair.grows {session : Session} (fair : s.SessionFair config session)
    (grows : s.Grows after) : after.SessionFair config session where
  header := fair.header.trans grows.checkpoint
  cursor := fair.cursor.grows grows
  sent frame member := (fair.sent frame member).grows grows
  buffered frame member := (fair.buffered frame member).grows grows
  pushes := fair.pushes
  importing row member := (fair.importing row member).grows grows

theorem PullFair.grows {pull : Pull} (fair : s.PullFair config pull) (grows : s.Grows after) :
    after.PullFair config pull where
  header := fair.header.trans grows.checkpoint
  cursor := fair.cursor.grows grows
  plan := fair.plan.grows grows
  frames frame member := (fair.frames frame member).grows grows
  answer batchId seq member := (fair.answer batchId seq member).grows grows
  batches := fair.batches
  importing row member := (fair.importing row member).grows grows

/-! ## Moving the cursor -/

theorem fair_zero (recorded : s.Recorded) : s.Fair config 0 where
  le := Nat.zero_le _
  held _ appended within := absurd within (Nat.not_le.mpr (recorded.positive appended))

theorem fair_checkpoint (recorded : s.Recorded) {seq : Nat}
    (covered : seq ≤ s.room.log.checkpointSeq) : s.Fair config seq where
  le := covered.trans recorded.checkpoint_le
  held _ _ within := .inr (within.trans covered)

theorem Fair.both {a b : Nat} (left : s.Fair config a) (right : s.Fair config b) :
    s.Fair config (max a b) := by
  rcases Nat.le_total a b with le | le
  · rwa [Nat.max_eq_right le]
  · rwa [Nat.max_eq_left le]

/-- The contiguity rule: one step past an honest cursor, onto an own row. -/
theorem Fair.next {cursor seq : Nat} (fair : s.Fair config cursor) (next : seq ≤ cursor + 1)
    {batchId : String} {dup : Bool} (genuine : s.Genuine config (.ack batchId seq dup)) :
    s.Fair config (max cursor seq) where
  le := Nat.max_le.mpr ⟨fair.le, genuine.1⟩
  held row appended within := by
    by_cases inside : row.seq ≤ cursor
    · exact fair.held row appended inside
    · have same : row.seq = seq := by
        have bound : row.seq ≤ max cursor seq := within
        omega
      exact .inl (.inl (genuine.2 row appended same))

theorem Fair.plan {cursor : Nat} {header : StateHeader} (recorded : s.Recorded)
    (fair : s.Fair config cursor) (covered : header.checkpointSeq ≤ s.room.log.checkpointSeq)
    (contained : Bool) : s.Fair config (planCatchUp cursor header contained).after := by
  have checkpoint : s.Fair config header.checkpointSeq := fair_checkpoint recorded covered
  have base : s.Fair config (if cursor > header.headSeq then 0 else cursor) := by
    split
    · exact fair_zero recorded
    · exact fair
  unfold planCatchUp
  dsimp only
  split
  · exact base
  · split
    · exact base.both checkpoint
    · exact checkpoint

theorem fair_clampTo {header : StateHeader} (recorded : s.Recorded)
    (covered : header.checkpointSeq ≤ s.room.log.checkpointSeq) :
    s.Fair config (Shared.clampTo header) := by
  unfold Shared.clampTo
  split
  · exact fair_checkpoint recorded covered
  · exact fair_zero recorded

end System

end Zeron.Chat
