import Zeron.Chat.Cursor

namespace Zeron.Chat

open Zeron.Data

/-! # Honest cursors over whole runs

The HTTPS sync and the room keep the invariant as the actor does; so it holds in
every state a run reaches.
-/

namespace System

variable {config : Config} {s after : System} {shared : Shared}

/-! ## Actions of the HTTPS sync -/

theorem CursorFair.endPull (fair : s.CursorFair config) : s.endPull.CursorFair config := by
  apply fair.setPull
  exact { fair.pull with }

theorem finishPull_cursor (headSeq epoch gapGeneration ticket : Nat) :
    (shared.finishPull headSeq epoch gapGeneration ticket).cursor = shared.cursor ∧
      (shared.finishPull headSeq epoch gapGeneration ticket).pending = shared.pending := by
  unfold Shared.finishPull
  dsimp only
  split
  · split <;> split <;> exact ⟨rfl, rfl⟩
  · exact ⟨rfl, rfl⟩

theorem clearRepair_cursor (generation : Nat) :
    (shared.clearRepair generation).cursor = shared.cursor ∧
      (shared.clearRepair generation).pending = shared.pending := by
  unfold Shared.clearRepair
  split <;> exact ⟨rfl, rfl⟩

theorem settlePull_cursor (state : StateHeader) (planned generation : Nat) :
    (shared.settlePull state planned generation).cursor =
        (if shared.cursor > state.headSeq then planned else max shared.cursor planned) ∧
      (shared.settlePull state planned generation).pending = shared.pending := by
  unfold Shared.settlePull
  rw [(clearRepair_cursor generation).1, (clearRepair_cursor generation).2]
  exact ⟨rfl, rfl⟩

theorem CursorFair.applyFrame (fair : s.CursorFair config) {frame : ServerFrame}
    {frames : List ServerFrame} (waiting : s.pull.frames = frame :: frames) :
    (s.applyFrame frames frame).CursorFair config := by
  have genuine : s.Genuine config frame := fair.pull.frames frame (waiting ▸ List.mem_cons_self ..)
  have rest : s.PullFair config { s.pull with frames } :=
    { fair.pull with
      frames := fun other member => fair.pull.frames other (waiting ▸ List.mem_cons_of_mem _ member) }
  cases frame with
  | row seq device batchId payload =>
      have kept := @proposeRow_snd s.shared seq
      refine fair.update ⟨rfl, rfl, rfl⟩ (kept.1.symm ▸ fair.cursor) (kept.2.symm ▸ fair.pending)
        fair.session ?_
      · refine { rest with importing := ?_ }
        rintro _ ⟨⟩
        exact fair.cursor.propose genuine _
  | rowsDone headSeq =>
      have kept := @finishPull_cursor s.shared headSeq s.pull.epoch
        s.pull.gapGeneration s.pull.ticket
      apply CursorFair.hear
      exact fair.update ⟨rfl, rfl, rfl⟩ (kept.1.symm ▸ fair.cursor) (kept.2.symm ▸ fair.pending)
        fair.session rest
  | state header frontier => exact fair.setPull rest
  | ack batchId seq dup => exact fair.setPull rest
  | probeOk headSeq => exact fair.setPull rest
  | error code message batchId => exact fair.setPull rest

/-- Every action of the HTTPS sync keeps the cursor honest. -/
theorem CursorFair.sync (fair : s.CursorFair config) {action : PullAction}
    (acted : s.sync config action = some after) : after.CursorFair config := by
  cases action with
  | spawn =>
      simp only [System.sync, Option.ite_none_right_eq_some, Option.some.injEq] at acted
      obtain ⟨_, rfl⟩ := acted
      apply fair.setPull
      exact { PullFair.started fair.recorded with }
  | start =>
      simp only [System.sync, Option.ite_none_right_eq_some, Option.some.injEq] at acted
      obtain ⟨_, rfl⟩ := acted
      apply fair.setPull
      exact { fair.pull with batches := fair.pending }
  | post persisted =>
      simp only [System.sync, Option.ite_none_right_eq_some, Option.map_eq_some_iff] at acted
      obtain ⟨_, push, _, rfl⟩ := acted
      split
      · refine fair.update ⟨rfl, rfl, rfl⟩ ?_ ?_ fair.session { fair.pull with }
        · dsimp only
          split <;> exact fair.cursor
        · dsimp only
          split
          · exact fair.pending
          · exact fair.durable _
      · apply fair.setPull
        exact { fair.pull with batches := by simp }
  | lose =>
      simp only [System.sync] at acted
      split at acted
      · cases acted
        exact fair.update ⟨rfl, rfl, rfl⟩ fair.cursor fair.pending fair.session
          { fair.pull with batches := by simp }
      · split at acted
        · cases acted
          apply fair.setPull
          exact { fair.pull with batches := by simp }
        · obtain ⟨_, acted⟩ := Option.ite_none_right_eq_some.mp acted
          cases acted
          exact (fair.onShared fair.cursor fair.pending).endPull
  | readAnswer acknowledged =>
      simp only [System.sync, Option.ite_none_right_eq_some] at acted
      obtain ⟨_, acted⟩ := acted
      split at acted
      · rename_i batchId seq answered
        cases acted
        apply CursorFair.hear
        refine fair.update ⟨rfl, rfl, rfl⟩ ?_ ?_ fair.session { fair.pull with }
        · dsimp only
          rw [httpAck_cursor]
          exact fair.acked (fair.pull.answer batchId seq answered)
        · dsimp only
          rw [httpAck_pending]
          exact fair.retired _ _
      · cases acted
        apply fair.setPull
        exact { fair.pull with batches := by simp }
  | snapshot =>
      simp only [System.sync, Option.ite_none_right_eq_some, Option.some.injEq] at acted
      obtain ⟨_, rfl⟩ := acted
      exact fair.update ⟨rfl, rfl, rfl⟩ fair.cursor fair.pending fair.session
        { fair.pull with cursor := fair.cursor }
  | readState =>
      simp only [System.sync, Option.ite_none_right_eq_some] at acted
      obtain ⟨_, acted⟩ := acted
      split at acted
      · rename_i header frontier frames waiting
        cases acted
        have genuine := fair.pull.frames _ (waiting ▸ List.mem_cons_self ..)
        apply CursorFair.hear
        refine fair.update ⟨rfl, rfl, rfl⟩ fair.cursor fair.pending fair.session ?_
        exact
          { fair.pull with
            header := genuine.1
            frames := fun other member =>
              fair.pull.frames other (waiting ▸ List.mem_cons_of_mem _ member) }
      · cases acted
        exact fair.endPull
  | clampCursor =>
      simp only [System.sync, Option.ite_none_right_eq_some, Option.some.injEq] at acted
      obtain ⟨_, rfl⟩ := acted
      refine fair.update ⟨rfl, rfl, rfl⟩ ?_ ?_ fair.session { fair.pull with }
      · dsimp only [Shared.clampCursor]
        split
        · exact fair_clampTo fair.recorded fair.pull.header
        · exact fair.cursor
      · dsimp only [Shared.clampCursor]
        split <;> exact fair.pending
  | checkCursor =>
      simp only [System.sync, Option.ite_none_right_eq_some] at acted
      obtain ⟨_, acted⟩ := acted
      split at acted
      · cases acted
        exact fair.endPull
      · cases acted
        apply fair.setPull
        exact { fair.pull with }
  | readRepair =>
      simp only [System.sync, Option.ite_none_right_eq_some, Option.some.injEq] at acted
      obtain ⟨_, rfl⟩ := acted
      apply fair.setPull
      exact { fair.pull with }
  | plan verdict =>
      simp only [System.sync, Option.ite_none_right_eq_some, Option.some.injEq] at acted
      obtain ⟨_, rfl⟩ := acted
      apply fair.setPull
      exact
        { fair.pull with
          plan := fair.pull.cursor.plan fair.recorded fair.pull.header _ }
  | importCheckpoint =>
      simp only [System.sync, Option.ite_none_right_eq_some, Option.some.injEq] at acted
      obtain ⟨_, rfl⟩ := acted
      have grows := grows_importCheckpoint (s := s) s.pull.download
      have imported := fair.grow grows rfl rfl rfl
        (fun session member => (fair.session session member).grows grows) (fair.pull.grows grows)
      apply imported.setPull
      exact { fair.pull.grows grows with }
  | giveUp =>
      simp only [System.sync, Option.ite_none_right_eq_some, Option.some.injEq] at acted
      obtain ⟨_, rfl⟩ := acted
      exact fair.endPull
  | settle =>
      simp only [System.sync, Option.ite_none_right_eq_some, Option.some.injEq] at acted
      obtain ⟨_, rfl⟩ := acted
      have settled := @settlePull_cursor s.shared s.pull.header s.pull.plan.after
        s.pull.generation
      refine fair.update ⟨rfl, rfl, rfl⟩ ?_ ?_ fair.session { fair.pull with }
      · dsimp only
        rw [settled.1]
        split
        · exact fair.pull.plan
        · exact fair.cursor.both fair.pull.plan
      · dsimp only
        rw [settled.2]
        exact fair.pending
  | takeFrame =>
      simp only [System.sync, Option.ite_none_right_eq_some] at acted
      obtain ⟨_, acted⟩ := acted
      split at acted
      · cases acted
        exact fair.endPull
      · rename_i frame frames waiting
        cases acted
        exact fair.applyFrame waiting
  | importRow outcome =>
      simp only [System.sync, Option.bind_eq_some_iff, Option.ite_none_right_eq_some,
        Option.some.injEq] at acted
      obtain ⟨row, begun, _, rfl⟩ := acted
      have grows := grows_importRow (s := s) row outcome
      refine fair.grow (grows.trans_same ⟨rfl, rfl, rfl⟩) rfl rfl rfl ?_ ?_
      · intro session member
        exact (fair.session session member).grows (grows.trans_same ⟨rfl, rfl, rfl⟩)
      · refine PullFair.grows ?_ (Same.grows (s := { s with doc := s.importRow row outcome })
          ⟨rfl, rfl, rfl⟩)
        refine { fair.pull.grows grows with importing := ?_ }
        rintro _ ⟨⟩
        exact (fair.pull.importing row begun).answered outcome
  | settleRow =>
      simp only [System.sync, Option.bind_eq_some_iff, Option.map_eq_some_iff] at acted
      obtain ⟨row, begun, outcome, answered, rfl⟩ := acted
      have settled := fair.settleRow (fair.pull.importing row begun) answered
      apply settled.setPull
      refine PullFair.grows ?_ (Same.grows (s := s) ⟨rfl, rfl, rfl⟩)
      refine { fair.pull with importing := ?_ }
      rintro _ ⟨⟩

/-! ## Actions of the room -/

/-- The room's frames reach the session. -/
theorem CursorFair.send (fair : s.CursorFair config) {frames : List ServerFrame}
    (genuine : ∀ frame ∈ frames, s.Genuine config frame) : (s.send frames).CursorFair config := by
  refine fair.update ⟨rfl, rfl, rfl⟩ fair.cursor fair.pending ?_ fair.pull
  intro next sent
  obtain ⟨session, current, rfl⟩ := Option.map_eq_some_iff.mp sent
  refine { fair.session session current with sent := ?_ }
  intro frame carried
  rcases List.mem_append.mp carried with old | new
  · exact (fair.session session current).sent frame old
  · exact genuine frame new

theorem Recorded.genuine_row (recorded : s.Recorded) {row : LogRow} (appended : row ∈ s.history) :
    s.Genuine config row.frame := recorded.le_head appended

theorem CursorFair.relay (fair : s.CursorFair config) {row : Option LogRow}
    (appended : ∀ new ∈ row, new ∈ s.history) : (s.relay row).CursorFair config := by
  unfold System.relay
  split
  · apply fair.send
    intro frame carried
    cases row with
    | none => cases carried
    | some new =>
        cases List.mem_singleton.mp carried
        exact fair.recorded.genuine_row (appended new rfl)
  · exact fair

/-- What any push does to an honest system. -/
theorem CursorFair.settlePush (fair : s.CursorFair config) {batchId : String}
    {pushed : ChatRoom.Pushed} (effect : s.room.PushEffect batchId pushed) :
    (s.settlePush pushed).CursorFair config ∧ s.Grows (s.settlePush pushed) ∧
      (∀ new ∈ pushed.row, new ∈ (s.settlePush pushed).history) ∧
      (config.minted batchId = true → (s.settlePush pushed).Genuine config pushed.answer) := by
  obtain ⟨contiguous, sized, seqs, stored⟩ := fair.recorded
  rcases effect with ⟨log, row, answer⟩ | ⟨row, new, batch, seq, unused, log, answer⟩
  · have history : (s.settlePush pushed).history = s.history := by
      simp [System.settlePush, row]
    have head : (s.settlePush pushed).room.log = s.room.log := log
    have grows : s.Grows (s.settlePush pushed) := by
      constructor
      · rw [head]
      · intro kept appended
        rwa [history]
      · intro fresh appended
        exact .inl (by rwa [history] at appended)
      · rw [head]
      · exact fun _ held => held
    refine ⟨⟨⟨by rwa [head], by rwa [head], by rwa [head, history], by rwa [head, history]⟩,
      fair.cursor.grows grows, fair.pending,
      fun session current => (fair.session session current).grows grows,
      fair.pull.grows grows⟩, grows, by simp [row], ?_⟩
    intro own
    rcases answer with ⟨code, message, id, answer⟩ | ⟨existing, member, same, answer⟩
    · rw [answer]
      trivial
    · rw [answer]
      refine ⟨?_, fun other appended equal => ?_⟩
      · rw [head]
        exact fair.recorded.le_head (stored existing member)
      · rw [history] at appended
        rw [fair.recorded.unique appended (stored existing member) equal, same]
        exact own
  · have history : (s.settlePush pushed).history = s.history ++ [row] := by
      simp [System.settlePush, new]
    have room : (s.settlePush pushed).room.log =
        s.room.log.appended row.device batchId row.bytes row.receivedAt := log
    have head : (s.settlePush pushed).room.log.headSeq = s.room.log.headSeq + 1 := by
      rw [room]
      rfl
    have checkpoint : (s.settlePush pushed).room.log.checkpointSeq = s.room.log.checkpointSeq := by
      rw [room]
      rfl
    have grows : s.Grows (s.settlePush pushed) := by
      constructor
      · rw [head]
        exact Nat.le_succ _
      · intro kept appended
        rw [history]
        exact List.mem_append_left _ appended
      · intro fresh appended
        rw [history] at appended
        rcases List.mem_append.mp appended with old | last
        · exact .inl old
        · rw [List.mem_singleton.mp last, seq]
          exact .inr (Nat.lt_succ_self _)
      · rw [checkpoint]
      · exact fun _ held => held
    have recorded : (s.settlePush pushed).Recorded := by
      constructor
      · rw [room]
        exact contiguous.appended unused _ _ _
      · rw [room]
        exact sized
      · rw [history, head, List.map_append, seqs, List.range'_1_concat, Nat.add_comm 1]
        simp [seq]
      · intro kept member
        rw [room] at member
        rw [history]
        rcases List.mem_append.mp member with old | last
        · exact List.mem_append_left _ (stored kept old)
        · apply List.mem_append_right
          rw [List.mem_singleton.mp last, List.mem_singleton, ← seq, ← batch]
    refine ⟨⟨recorded, fair.cursor.grows grows, fair.pending,
      fun session current => (fair.session session current).grows grows,
      fair.pull.grows grows⟩, grows, ?_, ?_⟩
    · intro added isNew
      rw [new] at isNew
      cases isNew
      rw [history]
      exact List.mem_append_right _ (List.mem_singleton.mpr rfl)
    · intro own
      have appended : row ∈ (s.settlePush pushed).history := by
        rw [history]
        exact List.mem_append_right _ (List.mem_singleton.mpr rfl)
      rw [answer]
      refine ⟨recorded.le_head appended, fun other also equal => ?_⟩
      rw [recorded.unique also appended equal, batch]
      exact own

theorem CursorFair.enqueueBatch (fair : s.CursorFair config) {batchId : String}
    (own : config.minted batchId = true) (bytes : Bytes) (durable : Bool) :
    ∀ push ∈ (s.shared.enqueueBatch batchId bytes durable).pending,
      config.minted push.batchId = true := by
  intro push queued
  unfold Shared.enqueueBatch at queued
  split at queued
  · exact fair.pending push queued
  · rcases List.mem_append.mp queued with old | new
    · exact fair.pending push old
    · rw [List.mem_singleton.mp new]
      exact own

/-- A checkpoint only moves the floor up. -/
theorem CursorFair.commitCheckpoint (fair : s.CursorFair config) (seqCovered : Int)
    (frontier bytes : Bytes) (now : Int) :
    System.CursorFair config
      { s with room := s.room.postCheckpoint seqCovered frontier bytes now } := by
  have unchanged : System.CursorFair config { s with room := s.room } := fair
  unfold ChatRoom.postCheckpoint
  split
  · exact unchanged
  · split
    · exact unchanged
    · split
      · exact unchanged
      · rcases s.room.log.commitCheckpoint_cases seqCovered frontier bytes now with
          ⟨error, refused⟩ | ⟨covered, count, _, above, below, committed⟩
        · rw [refused]
          exact unchanged
        · rw [committed]
          obtain ⟨contiguous, sized, seqs, stored⟩ := fair.recorded
          have grows : s.Grows { s with
              room := { s.room with log := s.room.log.pruned covered frontier bytes now } } :=
            { head := Nat.le_refl _
              kept := fun _ appended => appended
              fresh := fun _ appended => .inl appended
              checkpoint := contiguous.covers.trans_le above
              holds := fun _ held => held }
          have nonempty : bytes.length ≠ 0 := by
            intro empty
            simp [ChatLog.commitCheckpoint, empty] at committed
          exact
            { recorded :=
                { contiguous := contiguous.pruned above below frontier bytes now
                  sized := fun _ => nonempty
                  seqs := seqs
                  stored := fun row member => stored row (List.mem_of_mem_filter member) }
              cursor := fair.cursor.grows grows
              pending := fair.pending
              session := fun session current => (fair.session session current).grows grows
              pull := fair.pull.grows grows }

theorem genuine_stateFrame (config : Config) (s : System) :
    s.Genuine config s.room.stateFrame := ⟨Nat.le_refl _, Nat.le_refl _⟩

theorem Recorded.genuine_rows (recorded : s.Recorded) {rows : List LogRow}
    (stored : rows ⊆ s.room.log.rows) :
    ∀ frame ∈ rows.map (·.frame), s.Genuine config frame := by
  intro frame carried
  obtain ⟨row, member, rfl⟩ := List.mem_map.mp carried
  exact recorded.genuine_row (recorded.stored row (stored member))

theorem Recorded.genuine_rowsReq (recorded : s.Recorded) (socket : SocketState) (cursor : Nat)
    (excludeOwn : Bool) :
    ∀ frame ∈ s.room.handleRowsReq socket cursor excludeOwn, s.Genuine config frame := by
  intro frame carried
  unfold ChatRoom.handleRowsReq at carried
  split at carried
  · rcases List.mem_append.mp carried with row | last
    · exact recorded.genuine_rows (s.room.log.rowsAfter_subset _ _) frame row
    · cases List.mem_singleton.mp last
      exact Nat.le_refl s.room.log.headSeq
  · cases List.mem_singleton.mp carried
    trivial

theorem Recorded.genuine_getRows (recorded : s.Recorded) (cursor : Nat) :
    ∀ frame ∈ s.room.getRows cursor, s.Genuine config frame := by
  intro frame carried
  unfold ChatRoom.getRows at carried
  rcases List.mem_cons.mp carried with rfl | carried
  · exact genuine_stateFrame config s
  · rcases List.mem_append.mp carried with row | last
    · refine recorded.genuine_rows ?_ frame row
      exact List.Subset.trans (ChatRoom.takeRows_subset _ _) (s.room.log.rowsAfter_subset _ _)
    · split at last
      · cases last
      · cases List.mem_singleton.mp last
        exact Nat.le_refl s.room.log.headSeq

theorem CursorFair.serve (fair : s.CursorFair config) {now : Int}
    (served : s.serve now = some after) : after.CursorFair config := by
  unfold System.serve at served
  obtain ⟨session, current, served⟩ := Option.bind_eq_some_iff.mp served
  have sessionFair := fair.session session current
  split at served
  · cases served
  · rename_i device toRoom waiting
    cases served
    refine (fair.setSession ?_).send (fun frame sent => ?_)
    · exact
        { sessionFair with
          pushes := fun batchId payload carried =>
            sessionFair.pushes batchId payload (waiting ▸ List.mem_cons_of_mem _ carried) }
    · rw [List.mem_singleton.mp sent]
      exact genuine_stateFrame config (s.setSession _)
  · rename_i cursor excludeOwn toRoom waiting
    cases served
    refine (fair.setSession ?_).send ?_
    · exact
        { sessionFair with
          pushes := fun batchId payload carried =>
            sessionFair.pushes batchId payload (waiting ▸ List.mem_cons_of_mem _ carried) }
    · exact (fair.recorded.same ⟨rfl, rfl, rfl⟩).genuine_rowsReq session.socket cursor excludeOwn
  · rename_i batchId payload toRoom waiting
    obtain ⟨pushed, handled, rfl⟩ := Option.map_eq_some_iff.mp served
    have own := sessionFair.pushes batchId payload (waiting ▸ List.mem_cons_self ..)
    have taken : (s.setSession { session with toRoom }).CursorFair config := by
      apply fair.setSession
      exact
        { sessionFair with
          pushes := fun batchId payload carried =>
            sessionFair.pushes batchId payload (waiting ▸ List.mem_cons_of_mem _ carried) }
    obtain ⟨settled, _, _, genuine⟩ :=
      taken.settlePush (ChatRoom.handlePush_effect fair.recorded.contiguous handled)
    apply settled.send
    intro frame sent
    rw [List.mem_singleton.mp sent]
    exact genuine own
  · rename_i toRoom waiting
    cases served
    refine (fair.setSession ?_).send (fun frame sent => ?_)
    · exact
        { sessionFair with
          pushes := fun batchId payload carried =>
            sessionFair.pushes batchId payload (waiting ▸ List.mem_cons_of_mem _ carried) }
    · cases List.mem_singleton.mp sent
      exact Nat.le_refl s.room.log.headSeq

/-- A push from outside the session, relayed to it. -/
theorem CursorFair.relayed (fair : s.CursorFair config) {batchId : String}
    {pushed : ChatRoom.Pushed} (effect : s.room.PushEffect batchId pushed) :
    ((s.settlePush pushed).relay pushed.row).CursorFair config := by
  obtain ⟨settled, _, appended, _⟩ := fair.settlePush effect
  exact settled.relay appended

theorem relay_same (row : Option LogRow) : s.Same (s.relay row) := by
  unfold System.relay
  split <;> exact ⟨rfl, rfl, rfl⟩

theorem CursorFair.servePost (fair : s.CursorFair config) {now : Int}
    (served : s.servePost config now = some after) : after.CursorFair config := by
  unfold System.servePost at served
  split at served
  · rename_i push rest stage waiting
    obtain ⟨pushed, handled, rfl⟩ := Option.map_eq_some_iff.mp served
    have own := fair.pull.batches push (waiting ▸ List.mem_cons_self ..)
    have effect := ChatRoom.postRows_effect fair.recorded.contiguous handled
    obtain ⟨settled, grows, appended, genuine⟩ := fair.settlePush effect
    have relayed := settled.relay appended
    have same : (s.settlePush pushed).Same ((s.settlePush pushed).relay pushed.row) :=
      relay_same _
    apply relayed.setPull
    refine
      { fair.pull.grows (grows.trans_same same) with
        batches := fun other member =>
          fair.pull.batches other (waiting ▸ List.mem_cons_of_mem _ member)
        answer := ?_ }
    intro batchId seq answered
    dsimp only at answered
    split at answered
    · rename_i ackId ackSeq dup answer
      cases answered
      have sent := genuine own
      rw [answer] at sent
      exact @Genuine.grows _ _ _ (.ack _ _ dup) sent same.grows
    · cases answered
  · cases served

/-- Every action keeps the cursor honest. -/
theorem CursorFair.step (fair : s.CursorFair config) {action : Action}
    (stepped : s.step config action = some after) : after.CursorFair config := by
  have quiet : System.CursorFair config { s with announced := none } :=
    fair.update ⟨rfl, rfl, rfl⟩ fair.cursor fair.pending fair.session fair.pull
  unfold System.step at stepped
  dsimp only at stepped
  cases action with
  | enqueueBatch batchId bytes persisted =>
      dsimp only at stepped
      split at stepped
      · cases stepped
        exact quiet
      · obtain ⟨own, stepped⟩ := Option.ite_none_right_eq_some.mp stepped
        cases stepped
        refine quiet.update ⟨rfl, rfl, rfl⟩ ?_ (quiet.enqueueBatch own _ _) quiet.session quiet.pull
        dsimp only [Shared.enqueueBatch]
        split <;> exact quiet.cursor
  | probe =>
      cases stepped
      exact quiet.onShared quiet.cursor quiet.pending
  | requestCatchUp =>
      cases stepped
      exact quiet.onShared quiet.cursor quiet.pending
  | noteCheckpoint seqCovered size =>
      cases stepped
      exact quiet.onShared quiet.cursor quiet.pending
  | dial =>
      simp only [System.dial, Option.ite_none_right_eq_some, Option.some.injEq] at stepped
      obtain ⟨_, rfl⟩ := stepped
      refine quiet.update ⟨rfl, rfl, rfl⟩ quiet.cursor quiet.pending ?_ quiet.pull
      rintro _ ⟨⟩
      exact .started quiet.recorded _ _
  | hangUp =>
      obtain ⟨session, _, stepped⟩ := Option.bind_eq_some_iff.mp stepped
      obtain ⟨_, stepped⟩ := Option.ite_none_right_eq_some.mp stepped
      cases stepped
      exact quiet.hangUp
  | session action =>
      obtain ⟨session, current, stepped⟩ := Option.bind_eq_some_iff.mp stepped
      exact quiet.actor current stepped
  | pull action => exact quiet.sync stepped
  | serve now => exact quiet.serve stepped
  | serveLate batchId payload now =>
      simp only [System.serveLate, Option.ite_none_right_eq_some] at stepped
      obtain ⟨_, stepped⟩ := stepped
      obtain ⟨pushed, handled, rfl⟩ := Option.map_eq_some_iff.mp stepped
      have taken : System.CursorFair config
          { s with announced := none, late := s.late.erase (batchId, payload) } :=
        quiet.update ⟨rfl, rfl, rfl⟩ quiet.cursor quiet.pending quiet.session quiet.pull
      exact taken.relayed (ChatRoom.handlePush_effect fair.recorded.contiguous handled)
  | servePost now => exact quiet.servePost stepped
  | servePull =>
      obtain ⟨_, stepped⟩ := Option.ite_none_right_eq_some.mp stepped
      cases stepped
      apply quiet.setPull
      exact { quiet.pull with frames := quiet.recorded.genuine_getRows _ }
  | serveCheckpoint =>
      obtain ⟨session, current, stepped⟩ := Option.bind_eq_some_iff.mp stepped
      obtain ⟨_, stepped⟩ := Option.ite_none_right_eq_some.mp stepped
      obtain ⟨download, _, rfl⟩ := Option.map_eq_some_iff.mp stepped
      apply quiet.setSession
      exact { quiet.session session current with }
  | servePullCheckpoint =>
      obtain ⟨_, stepped⟩ := Option.ite_none_right_eq_some.mp stepped
      obtain ⟨download, _, rfl⟩ := Option.map_eq_some_iff.mp stepped
      apply quiet.setPull
      exact { quiet.pull with }
  | pushElsewhere device batchId payload now =>
      dsimp only at stepped
      split at stepped
      · cases stepped
      · obtain ⟨pushed, handled, rfl⟩ := Option.map_eq_some_iff.mp stepped
        exact quiet.relayed (ChatRoom.handlePush_effect fair.recorded.contiguous handled)
  | commitCheckpoint seqCovered frontier bytes now =>
      cases stepped
      exact quiet.commitCheckpoint seqCovered frontier bytes now

/-! ## Every run -/

/-- A client starts on a document and the cursor stored with it, over whatever
the room has recorded so far. -/
structure Starts (config : Config) (start : System) : Prop where
  fresh : start = .new start.room start.history start.late start.doc start.shared.cursor
    start.shared.pending
  recorded : start.Recorded
  cursor : start.Fair config start.shared.cursor
  pending : ∀ push ∈ start.shared.pending, config.minted push.batchId = true

theorem Starts.cursorFair {start : System} (starts : start.Starts config) :
    start.CursorFair config := by
  have session : start.session = none := by
    rw [starts.fresh]
    rfl
  have pull : start.pull = .new := by
    rw [starts.fresh]
    rfl
  refine ⟨starts.recorded, starts.cursor, starts.pending, ?_, ?_⟩
  · rw [session]
    rintro _ ⟨⟩
  · rw [pull]
    exact .started starts.recorded

theorem CursorFair.reaches {start : System} (starts : start.Starts config)
    (runs : Reaches (System.step config) (fun _ _ => True) start s) : s.CursorFair config :=
  runs.keeps starts.cursorFair fun _ _ _ fair _ stepped => fair.step stepped

/-- The next catch-up plan fetches the room's checkpoint. -/
def MustFetch (config : Config) (s : System) : Prop :=
  ∀ cursor repair verdict, s.Honest config s.room.log.stats verdict →
    (planCatchUp cursor s.room.log.stats
      (planContained s.room.log.stats repair verdict)).fetches = true

/-- A checkpoint is contained, or the next plan fetches it. -/
theorem Recorded.contained_or_fetched (recorded : s.Recorded)
    (present : 0 < s.room.log.checkpointSeq) :
    s.ContainsUpTo config s.room.log.checkpointSeq ∨ s.MustFetch config := by
  by_cases contained : s.ContainsUpTo config s.room.log.checkpointSeq
  · exact .inl contained
  · right
    intro cursor repair verdict honest
    have sized : s.room.log.stats.checkpointSize ≠ 0 := recorded.sized present
    have refused : verdict = false := by
      cases verdict with
      | false => rfl
      | true => exact absurd (honest rfl) contained
    simp [planCatchUp, planContained, sized, refused, CatchUpPlan.fetches]

def ServerFrame.IsRow : ServerFrame → Prop
  | .row _ _ _ _ => True
  | _ => False

/-- The steps of a row import: it begins, the sink is called, and it ends after
the sink reported missing dependencies. -/
def Parks (s : System) : Action → Prop
  | .session (.receive _ _) =>
      ∃ session ∈ s.session, ∃ frame ∈ session.toClient.head?, ServerFrame.IsRow frame
  | .session (.takeBuffered _ _) =>
      ∃ session ∈ s.session, ∃ frame ∈ session.buffered.head?, ServerFrame.IsRow frame
  | .pull .takeFrame => ∃ frame ∈ s.pull.frames.head?, ServerFrame.IsRow frame
  | .session (.importRow _) | .pull (.importRow _) => True
  | .session .settleRow =>
      ∃ session ∈ s.session, ∃ row ∈ session.importing, row.outcome = some .pendingDependencies
  | .pull .settleRow => ∃ row ∈ s.pull.importing, row.outcome = some .pendingDependencies
  | _ => False

theorem takeFrame_row_cursor {session : Session} (replay : Bool) (sink : SinkAnswers) (now : Int)
    {frame : ServerFrame} (row : ServerFrame.IsRow frame) :
    (s.takeFrame session replay sink now frame).shared.cursor = s.shared.cursor := by
  cases frame with
  | row seq device batchId payload => exact (proposeRow_snd seq).1
  | _ => exact row.elim

/-- A parked row moves no cursor. -/
theorem step_parks {action : Action} (parks : s.Parks action)
    (stepped : s.step config action = some after) : after.shared.cursor = s.shared.cursor := by
  cases action with
  | session action =>
      obtain ⟨session, current, stepped⟩ := Option.bind_eq_some_iff.mp stepped
      have current : s.session = some session := current
      cases action with
      | receive sink now =>
          obtain ⟨_, isCurrent, frame, first, row⟩ := parks
          cases current.symm.trans isCurrent
          simp only [System.actor] at stepped
          split at stepped
          · cases stepped
          · rename_i head rest waiting
            rw [waiting] at first
            cases first
            split at stepped
            · cases stepped
              unfold receiveBackfill
              split
              · exact row.elim
              · exact takeFrame_row_cursor _ _ _ row
            · obtain ⟨_, stepped⟩ := Option.ite_none_right_eq_some.mp stepped
              cases stepped
              cases frame with
              | row seq device batchId payload =>
                  exact takeFrame_row_cursor (s := { s with announced := none }) _ _ _ trivial
              | _ => exact row.elim
      | takeBuffered sink now =>
          obtain ⟨_, isCurrent, frame, first, row⟩ := parks
          cases current.symm.trans isCurrent
          simp only [System.actor, Option.ite_none_right_eq_some] at stepped
          obtain ⟨_, stepped⟩ := stepped
          split at stepped
          · rename_i waiting
            rw [waiting] at first
            cases first
          · rename_i head rest waiting
            rw [waiting] at first
            cases first
            cases stepped
            unfold receiveBuffered
            split
            · exact row.elim
            · exact takeFrame_row_cursor _ _ _ row
      | importRow outcome =>
          simp only [System.actor, Option.bind_eq_some_iff, Option.ite_none_right_eq_some,
            Option.some.injEq] at stepped
          obtain ⟨row, _, _, rfl⟩ := stepped
          rfl
      | settleRow =>
          obtain ⟨_, isCurrent, row, begun, pending⟩ := parks
          cases current.symm.trans isCurrent
          simp only [System.actor, Option.bind_eq_some_iff, Option.map_eq_some_iff] at stepped
          obtain ⟨_, same, outcome, answered, rfl⟩ := stepped
          cases begun.symm.trans same
          cases pending.symm.trans answered
          rfl
      | _ => exact parks.elim
  | pull action =>
      have stepped : System.sync config { s with announced := none } action = some after := stepped
      cases action with
      | takeFrame =>
          obtain ⟨frame, first, row⟩ := parks
          simp only [System.sync, Option.ite_none_right_eq_some] at stepped
          obtain ⟨_, stepped⟩ := stepped
          split at stepped
          · rename_i waiting
            have waiting : s.pull.frames = [] := waiting
            rw [waiting] at first
            cases first
          · rename_i head rest waiting
            have waiting : s.pull.frames = head :: rest := waiting
            rw [waiting] at first
            cases first
            cases stepped
            cases frame with
            | row seq device batchId payload => exact (proposeRow_snd seq).1
            | _ => exact row.elim
      | importRow outcome =>
          simp only [System.sync, Option.bind_eq_some_iff, Option.ite_none_right_eq_some,
            Option.some.injEq] at stepped
          obtain ⟨row, _, _, rfl⟩ := stepped
          rfl
      | settleRow =>
          obtain ⟨row, begun, pending⟩ := parks
          simp only [System.sync, Option.bind_eq_some_iff, Option.map_eq_some_iff] at stepped
          obtain ⟨_, same, outcome, answered, rfl⟩ := stepped
          cases begun.symm.trans same
          cases pending.symm.trans answered
          rfl
      | _ => exact parks.elim
  | _ => exact parks.elim

/-- A new client of a new room. -/
def newRoom (pending : List PendingPush) : System := .new .new [] [] ⟨[], 0⟩ 0 pending

theorem newRoom_starts (config : Config) {pending : List PendingPush}
    (own : ∀ push ∈ pending, config.minted push.batchId = true) :
    (newRoom pending).Starts config := by
  have recorded : (newRoom pending).Recorded :=
    ⟨ChatLog.contiguous_ensureChatLog, fun present => absurd present (Nat.lt_irrefl 0), rfl,
      fun _ stored => absurd stored (List.not_mem_nil)⟩
  exact ⟨rfl, recorded, fair_zero recorded, own⟩

/-- One device, with a sink that keeps what it is given. -/
def soleConfig : Config := ⟨"dev-a", fun batchId => batchId = "mine-1" ∨ batchId = "mine-2", true⟩

def obliging : SinkAnswers := ⟨true, true⟩

/-- A session up to its backfill request. -/
def joinActions : List Action :=
  [.dial, .serve 0, .session .hearState, .session .swapAmnesty, .session .readCursor,
    .session .readRepair, .session (.plan false), .session .requestRows,
    .session (.pushPending fun _ => true)]

/-- The row of another device, backfilled. -/
def backfillActions : List Action :=
  .pushElsewhere "dev-b" "b-1" [1] 0 :: joinActions ++
    [.serve 0, .session .clearRepair, .session (.takeBuffered obliging 0),
      .session (.receive obliging 0), .session (.importRow .applied), .session .settleRow]

end System

end Zeron.Chat
