import Zeron.Chat.Honesty

namespace Zeron.Chat

open Zeron.Data

/-! # What the client does to an honest cursor

Each critical section, each sink call and each action of the actor keeps the
invariant of `CursorFair`.
-/

namespace System

variable {config : Config} {s after : System} {shared : Shared}

/-! ## Critical sections -/

theorem handleAck_cursor (acknowledged : Bool) (now : Int) (batchId : String) (seq : Nat) :
    (shared.handleAck acknowledged now batchId seq).cursor =
      if seq > shared.cursor + 1 then shared.cursor else max shared.cursor seq := by
  unfold Shared.handleAck
  cases acknowledged <;> by_cases gap : seq > shared.cursor + 1 <;>
    simp only [Shared.retire, Shared.flagGap, gap, if_true, if_false, Bool.false_eq_true] <;>
    split <;> (try split) <;> rfl

theorem httpAck_cursor (acknowledged : Bool) (batchId : String) (seq : Nat) :
    (shared.httpAck acknowledged batchId seq).cursor =
      if seq > shared.cursor + 1 then shared.cursor else max shared.cursor seq := by
  unfold Shared.httpAck
  cases acknowledged <;> by_cases gap : seq ≤ shared.cursor + 1 <;>
    simp [Shared.retire, gap]

theorem handleAck_pending (acknowledged : Bool) (now : Int) (batchId : String) (seq : Nat) :
    (shared.handleAck acknowledged now batchId seq).pending =
      if acknowledged then (shared.retire batchId).pending else shared.pending := by
  unfold Shared.handleAck
  cases acknowledged <;> by_cases gap : seq > shared.cursor + 1 <;>
    simp only [Shared.retire, Shared.flagGap, gap, if_true, if_false, Bool.false_eq_true] <;>
    split <;> (try split) <;> rfl

theorem httpAck_pending (acknowledged : Bool) (batchId : String) (seq : Nat) :
    (shared.httpAck acknowledged batchId seq).pending =
      if acknowledged then (shared.retire batchId).pending else shared.pending := by
  unfold Shared.httpAck
  cases acknowledged <;> by_cases gap : seq ≤ shared.cursor + 1 <;>
    simp [Shared.retire, gap]

theorem handleError_cursor {after : Shared} {rejected : Bool} {now : Int} {code batchId : String}
    (handled : shared.handleError rejected now code batchId = some after) :
    after.cursor = shared.cursor ∧ after.pending ⊆ shared.pending := by
  unfold Shared.handleError at handled
  split at handled
  · obtain ⟨_, kept⟩ := Option.ite_none_right_eq_some.mp handled
    cases kept
    exact ⟨rfl, List.filter_sublist.subset⟩
  · split at handled
    · cases handled
      exact ⟨rfl, List.Subset.refl _⟩
    · cases handled
      exact ⟨rfl, List.Subset.refl _⟩

/-- Marking a batch durable leaves its id. -/
theorem mem_markDurable {batches : List PendingPush} {push : PendingPush}
    (queued : push ∈ (shared.markDurable batches).pending) :
    ∃ old ∈ shared.pending, old.batchId = push.batchId := by
  obtain ⟨old, member, rfl⟩ := List.mem_map.mp queued
  refine ⟨old, member, ?_⟩
  split <;> rfl

theorem proposeRow_snd (seq : Nat) :
    (shared.proposeRow seq).2.cursor = shared.cursor ∧
      (shared.proposeRow seq).2.pending = shared.pending := by
  unfold Shared.proposeRow
  split <;> exact ⟨rfl, rfl⟩

/-- The proposal of a row runs ahead of the cursor by that row alone. -/
theorem Fair.propose (fair : s.Fair config shared.cursor) {seq : Nat}
    (sent : seq ≤ s.room.log.headSeq) (replay : Bool) :
    s.ImportFair config ⟨seq, replay, (shared.proposeRow seq).1, none⟩ := by
  unfold Shared.proposeRow
  split
  · exact ⟨sent, fair.le, fun other appended within => .inl (fair.held other appended within),
      by simp⟩
  · rename_i near
    refine ⟨sent, Nat.max_le.mpr ⟨fair.le, sent⟩, fun other appended within => ?_, by simp⟩
    by_cases inside : other.seq ≤ shared.cursor
    · exact .inl (fair.held other appended inside)
    · have within : other.seq ≤ max shared.cursor seq := within
      exact .inr (show other.seq = seq by omega)

/-- An applied row makes its proposal honest. -/
theorem ImportFair.settled {row : RowImport} (fair : s.ImportFair config row)
    (applied : row.outcome = some .applied) : s.Fair config row.cursor where
  le := fair.le
  held other appended within := by
    rcases fair.held other appended within with held | same
    · exact held
    · exact .inl (.inr (same ▸ fair.applied applied))

/-! ## Actions of the client -/

/-- The room, its history and the document stay as they are. -/
structure Same (s after : System) : Prop where
  room : after.room = s.room
  history : after.history = s.history
  doc : after.doc = s.doc

theorem Same.grows (same : s.Same after) : s.Grows after where
  head := by rw [same.room]
  kept row appended := by rwa [same.history]
  fresh row appended := .inl (by rwa [same.history] at appended)
  checkpoint := by rw [same.room]
  holds seq held := by rwa [same.doc]

/-- What a step leaves alone grows with it. -/
theorem Grows.trans_same {middle : System} (grows : s.Grows middle) (same : middle.Same after) :
    s.Grows after where
  head := grows.head.trans same.grows.head
  kept row appended := same.grows.kept row (grows.kept row appended)
  fresh row appended := grows.fresh row (same.history ▸ appended)
  checkpoint := grows.checkpoint.trans same.grows.checkpoint
  holds seq held := same.grows.holds seq (grows.holds seq held)

theorem Recorded.same (recorded : s.Recorded) (same : s.Same after) : after.Recorded where
  contiguous := by
    rw [same.room]
    exact recorded.contiguous
  sized := by
    rw [same.room]
    exact recorded.sized
  seqs := by
    rw [same.room, same.history]
    exact recorded.seqs
  stored := by
    rw [same.room, same.history]
    exact recorded.stored

/-- What an action of the client has to show. -/
theorem CursorFair.update (fair : s.CursorFair config) (same : s.Same after)
    (cursor : s.Fair config after.shared.cursor)
    (pending : ∀ push ∈ after.shared.pending, config.minted push.batchId = true)
    (session : ∀ session ∈ after.session, s.SessionFair config session)
    (pull : s.PullFair config after.pull) : after.CursorFair config where
  recorded := fair.recorded.same same
  cursor := cursor.grows same.grows
  pending := pending
  session next isNext := (session next isNext).grows same.grows
  pull := pull.grows same.grows

theorem CursorFair.setSession (fair : s.CursorFair config) {session : Session}
    (sessionFair : s.SessionFair config session) : (s.setSession session).CursorFair config := by
  refine fair.update ⟨rfl, rfl, rfl⟩ fair.cursor fair.pending ?_ fair.pull
  rintro _ ⟨⟩
  exact sessionFair

theorem CursorFair.setPull (fair : s.CursorFair config) {pull : Pull}
    (pullFair : s.PullFair config pull) : (s.setPull pull).CursorFair config :=
  fair.update ⟨rfl, rfl, rfl⟩ fair.cursor fair.pending fair.session pullFair

theorem CursorFair.hear (fair : s.CursorFair config) (seq : Nat) :
    (s.hear seq).CursorFair config :=
  fair.update ⟨rfl, rfl, rfl⟩ fair.cursor fair.pending fair.session fair.pull

theorem CursorFair.onShared (fair : s.CursorFair config) {change : Shared → Shared}
    (cursor : s.Fair config (change s.shared).cursor)
    (pending : ∀ push ∈ (change s.shared).pending, config.minted push.batchId = true) :
    (s.onShared change).CursorFair config :=
  fair.update ⟨rfl, rfl, rfl⟩ cursor pending fair.session fair.pull

theorem CursorFair.hangUp (fair : s.CursorFair config) : s.hangUp.CursorFair config := by
  unfold System.hangUp
  split
  · exact fair
  · refine fair.update ⟨rfl, rfl, rfl⟩ ?_ ?_ ?_ fair.pull
    · dsimp only
      split <;> exact fair.cursor
    · dsimp only
      split <;> exact fair.pending
    · rintro _ ⟨⟩

theorem CursorFair.durable (fair : s.CursorFair config) (batches : List PendingPush) :
    ∀ push ∈ (s.shared.markDurable batches).pending, config.minted push.batchId = true := by
  intro push queued
  obtain ⟨old, member, same⟩ := mem_markDurable queued
  exact same ▸ fair.pending old member

theorem CursorFair.retired (fair : s.CursorFair config) (acknowledged : Bool) (batchId : String) :
    ∀ push ∈ if acknowledged then (s.shared.retire batchId).pending else s.shared.pending,
      config.minted push.batchId = true := by
  intro push queued
  split at queued
  · exact fair.pending push (List.mem_of_mem_filter queued)
  · exact fair.pending push queued

theorem CursorFair.acked (fair : s.CursorFair config) {batchId : String} {seq : Nat} {dup : Bool}
    (genuine : s.Genuine config (.ack batchId seq dup)) :
    s.Fair config (if seq > s.shared.cursor + 1 then s.shared.cursor else max s.shared.cursor seq) := by
  split
  · exact fair.cursor
  · exact fair.cursor.next (by omega) genuine

theorem CursorFair.handleFrame (fair : s.CursorFair config) {session next : Session}
    (sessionFair : s.SessionFair config session) {replay : Bool} {sink : SinkAnswers} {now : Int}
    {frame : ServerFrame} (genuine : s.Genuine config frame) {shared : Shared}
    (handled : handleFrame s.shared session replay sink now frame = some (shared, next)) :
    s.Fair config shared.cursor ∧
      (∀ push ∈ shared.pending, config.minted push.batchId = true) ∧
      s.SessionFair config next := by
  cases frame with
  | state header frontier =>
      cases handled
      exact ⟨fair.cursor, fair.pending, sessionFair⟩
  | row seq device batchId payload =>
      simp only [System.handleFrame, Option.some.injEq, Prod.mk.injEq] at handled
      obtain ⟨rfl, rfl⟩ := handled
      have kept := @proposeRow_snd s.shared seq
      refine ⟨?_, ?_, { sessionFair with importing := ?_ }⟩
      · rw [kept.1]
        exact fair.cursor
      · rw [kept.2]
        exact fair.pending
      · rintro _ ⟨⟩
        exact fair.cursor.propose genuine _
  | rowsDone headSeq =>
      cases handled
      exact ⟨fair.cursor, fair.pending, sessionFair⟩
  | ack batchId seq dup =>
      cases handled
      refine ⟨?_, ?_, sessionFair⟩
      · rw [handleAck_cursor]
        exact fair.acked genuine
      · rw [handleAck_pending]
        exact fair.retired _ _
  | probeOk headSeq =>
      cases handled
      exact ⟨fair.cursor, fair.pending, sessionFair⟩
  | error code message batchId =>
      obtain ⟨after, rejected, same⟩ := Option.map_eq_some_iff.mp handled
      cases same
      obtain ⟨cursor, pending⟩ := handleError_cursor rejected
      exact ⟨cursor ▸ fair.cursor, fun push queued => fair.pending push (pending queued),
        sessionFair⟩

theorem CursorFair.takeFrame (fair : s.CursorFair config) {session : Session}
    (sessionFair : s.SessionFair config session) (replay : Bool) (sink : SinkAnswers) (now : Int)
    {frame : ServerFrame} (genuine : s.Genuine config frame) :
    (s.takeFrame session replay sink now frame).CursorFair config := by
  unfold System.takeFrame
  split
  · rename_i shared next handled
    obtain ⟨cursor, pending, nextFair⟩ := fair.handleFrame sessionFair genuine handled
    apply CursorFair.hear
    refine fair.update ⟨rfl, rfl, rfl⟩ cursor pending ?_ fair.pull
    rintro _ ⟨⟩
    exact nextFair
  · exact (fair.setSession sessionFair).hangUp

theorem SessionFair.sends {session : Session} (fair : s.SessionFair config session)
    {frames : List ClientFrame} (pushes : ∀ batchId payload, .push batchId payload ∈ frames →
      config.minted batchId = true) :
    s.SessionFair config { session with toRoom := session.toRoom ++ frames } where
  header := fair.header
  cursor := fair.cursor
  sent := fair.sent
  buffered := fair.buffered
  pushes batchId payload carried := by
    rcases List.mem_append.mp carried with old | new
    · exact fair.pushes batchId payload old
    · exact pushes batchId payload new
  importing := fair.importing

/-- Pushes of queued batches carry own ids. -/
theorem CursorFair.sendPushes (fair : s.CursorFair config) {session : Session}
    (sessionFair : s.SessionFair config session) {batches : List PendingPush}
    (queued : ∀ push ∈ batches, push ∈ s.shared.pending) :
    (s.sendPushes session batches).CursorFair config := by
  refine fair.update ⟨rfl, rfl, rfl⟩ fair.cursor (fair.durable _) ?_ fair.pull
  rintro _ ⟨⟩
  refine sessionFair.sends ?_
  intro batchId payload carried
  obtain ⟨push, member, same⟩ := List.mem_map.mp carried
  cases same
  exact fair.pending push (queued push member)

theorem mem_durablePrefix {persist : String → Bool} {inFlight : List String} {push : PendingPush}
    (sent : push ∈ Shared.durablePrefix persist (shared.pushable inFlight)) :
    shared.quotaBlocked = false ∧ push ∈ shared.pending ∧ push.batchId ∉ inFlight := by
  have pushable := (List.takeWhile_sublist _).subset sent
  unfold Shared.pushable at pushable
  split at pushable
  · cases pushable
  · rename_i free
    obtain ⟨queued, outside⟩ := List.mem_filter.mp pushable
    exact ⟨by simpa using free, queued, by simpa using outside⟩

theorem CursorFair.pushPending (fair : s.CursorFair config) {session : Session}
    (sessionFair : s.SessionFair config session) (persist : String → Bool) :
    (s.pushPending session persist).CursorFair config := by
  unfold System.pushPending
  dsimp only
  split
  · apply CursorFair.hangUp
    refine fair.sendPushes ?_ fun push sent => (mem_durablePrefix sent).2.1
    exact { sessionFair with }
  · refine fair.sendPushes ?_ fun push sent => (mem_durablePrefix sent).2.1
    exact { sessionFair with }

theorem CursorFair.pushHead (fair : s.CursorFair config) {session : Session}
    (sessionFair : s.SessionFair config session) (persist : String → Bool) :
    (s.pushHead session persist).CursorFair config := by
  unfold System.pushHead
  split
  · exact fair.setSession sessionFair
  · rename_i push first
    split
    · refine fair.sendPushes sessionFair ?_
      intro sent isSent
      exact List.mem_singleton.mp isSent ▸ List.mem_of_head? first
    · exact (fair.setSession sessionFair).hangUp

theorem CursorFair.checkGap (fair : s.CursorFair config) {session : Session}
    (sessionFair : s.SessionFair config session) : (s.checkGap session).CursorFair config := by
  have still : s.SessionFair config { session with stage := .steady } := { sessionFair with }
  unfold System.checkGap
  dsimp only
  split
  · exact (fair.setSession still).hangUp
  · split
    · exact fair.setSession still
    · split
      · split
        · apply CursorFair.hangUp
          refine fair.update ⟨rfl, rfl, rfl⟩ fair.cursor fair.pending ?_ fair.pull
          rintro _ ⟨⟩
          exact still
        · refine fair.update ⟨rfl, rfl, rfl⟩ fair.cursor fair.pending ?_ fair.pull
          rintro _ ⟨⟩
          exact { still.sends (by simp) with }
      · exact fair.setSession still

theorem CursorFair.receiveSteady (fair : s.CursorFair config) {session : Session}
    (sessionFair : s.SessionFair config session) (sink : SinkAnswers) (now : Int)
    {frame : ServerFrame} (genuine : s.Genuine config frame) :
    (s.receiveSteady session sink now frame).CursorFair config := by
  have checking : s.SessionFair config { session with stage := .checking } := { sessionFair with }
  cases frame with
  | row seq device batchId payload => exact fair.takeFrame sessionFair false sink now genuine
  | rowsDone headSeq =>
      have handled : (s.takeFrame { session with stage := .checking, refresh := none } false
          sink now (.rowsDone headSeq)).CursorFair config := by
        refine fair.takeFrame ?_ false sink now genuine
        exact { sessionFair with }
      unfold System.receiveSteady
      dsimp only
      split
      · refine handled.onShared ?_ ?_
        · unfold Shared.finishRefresh
          split
          · exact handled.cursor
          · split <;> exact handled.cursor
        · unfold Shared.finishRefresh
          split
          · exact handled.pending
          · split <;> exact handled.pending
      · exact handled
  | state header frontier => exact fair.takeFrame checking false sink now genuine
  | ack batchId seq dup => exact fair.takeFrame checking false sink now genuine
  | probeOk headSeq => exact fair.takeFrame checking false sink now genuine
  | error code message batchId => exact fair.takeFrame checking false sink now genuine

theorem CursorFair.receiveBackfill (fair : s.CursorFair config) {session : Session}
    (sessionFair : s.SessionFair config session) (sink : SinkAnswers) (now : Int)
    {frame : ServerFrame} (genuine : s.Genuine config frame) :
    (s.receiveBackfill session sink now frame).CursorFair config := by
  unfold System.receiveBackfill
  split
  · apply CursorFair.hear
    apply fair.setSession
    exact { sessionFair with }
  · exact fair.takeFrame sessionFair _ _ _ genuine

theorem CursorFair.receiveBuffered (fair : s.CursorFair config) {session : Session}
    (sessionFair : s.SessionFair config session) (sink : SinkAnswers) (now : Int)
    {frame : ServerFrame} (genuine : s.Genuine config frame) :
    (s.receiveBuffered session sink now frame).CursorFair config := by
  unfold System.receiveBuffered
  split
  · apply CursorFair.hear
    apply fair.setSession
    exact { sessionFair with }
  · exact fair.takeFrame sessionFair _ _ _ genuine

/-! ## What reaches the document -/

theorem grows_importRow (row : RowImport) (outcome : RowImportOutcome) :
    s.Grows { s with doc := s.importRow row outcome } where
  head := Nat.le_refl _
  kept _ appended := appended
  fresh _ appended := .inl appended
  checkpoint := Nat.le_refl _
  holds seq held := by
    cases outcome with
    | applied => exact held.imp_left (List.mem_cons_of_mem _)
    | pendingDependencies => exact held

theorem grows_importCheckpoint (download : Nat) : s.Grows (s.importCheckpoint download) where
  head := Nat.le_refl _
  kept _ appended := appended
  fresh _ appended := .inl appended
  checkpoint := Nat.le_refl _
  holds _ held := held.imp_right fun covered => covered.trans (Nat.le_max_left _ _)

/-- The document took something in. -/
theorem CursorFair.grow (fair : s.CursorFair config) (grows : s.Grows after)
    (room : after.room = s.room) (history : after.history = s.history)
    (shared : after.shared = s.shared)
    (session : ∀ session ∈ after.session, after.SessionFair config session)
    (pull : after.PullFair config after.pull) : after.CursorFair config where
  recorded := by
    obtain ⟨contiguous, sized, seqs, stored⟩ := fair.recorded
    constructor <;> simpa only [room, history]
  cursor := by
    rw [shared]
    exact fair.cursor.grows grows
  pending := by
    rw [shared]
    exact fair.pending
  session := session
  pull := pull

/-- The sink's answer to an import. -/
theorem ImportFair.answered {row : RowImport} (fair : s.ImportFair config row)
    (outcome : RowImportOutcome) :
    System.ImportFair config { s with doc := s.importRow row outcome }
      { row with outcome := some outcome } := by
  have grown := fair.grows (grows_importRow row outcome)
  refine ⟨grown.seq, grown.le, grown.held, ?_⟩
  rintro ⟨⟩
  exact .inl (List.mem_cons_self ..)

theorem CursorFair.settleRow (fair : s.CursorFair config) {row : RowImport}
    (rowFair : s.ImportFair config row) {outcome : RowImportOutcome}
    (answered : row.outcome = some outcome) : (s.settleRow row outcome).CursorFair config := by
  apply CursorFair.hear
  cases outcome with
  | applied => exact fair.onShared (fair.cursor.both (rowFair.settled answered)) fair.pending
  | pendingDependencies => exact fair.onShared fair.cursor fair.pending

theorem SessionFair.started (recorded : s.Recorded) (cursor : Nat) (deviceId : String) :
    s.SessionFair config (.new cursor deviceId) where
  header := Nat.zero_le _
  cursor := fair_zero recorded
  sent _ sent := by cases sent
  buffered _ buffered := by cases buffered
  pushes batchId payload carried := by
    cases List.mem_singleton.mp carried
  importing _ begun := by cases begun

theorem PullFair.started (recorded : s.Recorded) : s.PullFair config .new where
  header := Nat.zero_le _
  cursor := fair_zero recorded
  plan := fair_zero recorded
  frames _ sent := by cases sent
  answer _ _ answered := by cases answered
  batches _ queued := by cases queued
  importing _ begun := by cases begun

/-- Every action of the actor keeps the cursor honest. -/
theorem CursorFair.actor (fair : s.CursorFair config) {session : Session}
    (current : s.session = some session) {action : SessionAction}
    (acted : s.actor config session action = some after) : after.CursorFair config := by
  have sessionFair : s.SessionFair config session := fair.session session current
  have tail : s.SessionFair config { session with toClient := session.toClient.tail } :=
    { sessionFair with sent := fun frame sent => sessionFair.sent frame (List.mem_of_mem_tail sent) }
  cases action with
  | hearState =>
      simp only [System.actor, Option.ite_none_right_eq_some, Option.map_eq_some_iff] at acted
      obtain ⟨_, frame, first, rfl⟩ := acted
      have genuine := sessionFair.sent frame (List.mem_of_head? first)
      unfold System.hearState
      split
      · rename_i header frontier
        apply CursorFair.hear
        refine fair.update ⟨rfl, rfl, rfl⟩ fair.cursor fair.pending ?_ fair.pull
        rintro _ ⟨⟩
        exact { tail with header := genuine.1 }
      · exact fair.setSession tail
  | swapAmnesty =>
      simp only [System.actor, Option.ite_none_right_eq_some, Option.some.injEq] at acted
      obtain ⟨_, rfl⟩ := acted
      refine fair.update ⟨rfl, rfl, rfl⟩ fair.cursor fair.pending ?_ fair.pull
      rintro _ ⟨⟩
      exact { sessionFair with }
  | clampCursor =>
      simp only [System.actor, Option.ite_none_right_eq_some, Option.some.injEq] at acted
      obtain ⟨_, rfl⟩ := acted
      refine fair.update ⟨rfl, rfl, rfl⟩ ?_ ?_ ?_ fair.pull
      · dsimp only [Shared.clampCursor]
        split
        · exact fair_clampTo fair.recorded sessionFair.header
        · exact fair.cursor
      · dsimp only [Shared.clampCursor]
        split <;> exact fair.pending
      · rintro _ ⟨⟩
        exact { sessionFair with }
  | readCursor =>
      simp only [System.actor, Option.ite_none_right_eq_some, Option.some.injEq] at acted
      obtain ⟨_, rfl⟩ := acted
      refine fair.update ⟨rfl, rfl, rfl⟩ fair.cursor fair.pending ?_ fair.pull
      rintro _ ⟨⟩
      exact { sessionFair with cursor := fair.cursor }
  | readRepair =>
      simp only [System.actor, Option.ite_none_right_eq_some, Option.some.injEq] at acted
      obtain ⟨_, rfl⟩ := acted
      apply fair.setSession
      exact { sessionFair with }
  | plan verdict =>
      simp only [System.actor, Option.ite_none_right_eq_some, Option.some.injEq] at acted
      obtain ⟨_, rfl⟩ := acted
      refine fair.update ⟨rfl, rfl, rfl⟩ ?_ fair.pending ?_ fair.pull
      · exact sessionFair.cursor.plan fair.recorded sessionFair.header _
      · rintro _ ⟨⟩
        exact { sessionFair with }
  | requestRows =>
      simp only [System.actor, Option.ite_none_right_eq_some, Option.some.injEq] at acted
      obtain ⟨_, rfl⟩ := acted
      apply fair.setSession
      exact { sessionFair.sends (by simp) with }
  | pushPending persist =>
      simp only [System.actor, Option.ite_none_right_eq_some, Option.some.injEq] at acted
      obtain ⟨_, rfl⟩ := acted
      apply fair.pushPending
      exact { sessionFair with }
  | buffer =>
      simp only [System.actor, Option.ite_none_right_eq_some, Option.map_eq_some_iff] at acted
      obtain ⟨_, frame, first, rfl⟩ := acted
      apply fair.setSession
      refine { tail with buffered := ?_ }
      intro other buffered
      rcases List.mem_append.mp buffered with old | new
      · exact sessionFair.buffered other old
      · exact List.mem_singleton.mp new ▸ sessionFair.sent frame (List.mem_of_head? first)
  | importCheckpoint =>
      simp only [System.actor, Option.ite_none_right_eq_some, Option.some.injEq] at acted
      obtain ⟨_, rfl⟩ := acted
      have grows := grows_importCheckpoint (s := s) session.download
      have imported := fair.grow grows rfl rfl rfl
        (fun session member => (fair.session session member).grows grows) (fair.pull.grows grows)
      apply imported.setSession
      exact { sessionFair.grows grows with }
  | mergeCursor =>
      simp only [System.actor, Option.ite_none_right_eq_some, Option.some.injEq] at acted
      obtain ⟨_, rfl⟩ := acted
      refine fair.update ⟨rfl, rfl, rfl⟩ ?_ fair.pending ?_ fair.pull
      · exact fair.cursor.both (fair_checkpoint fair.recorded sessionFair.header)
      · rintro _ ⟨⟩
        exact { sessionFair with }
  | clearRepair =>
      simp only [System.actor, Option.ite_none_right_eq_some, Option.some.injEq] at acted
      obtain ⟨_, rfl⟩ := acted
      refine fair.update ⟨rfl, rfl, rfl⟩ ?_ ?_ ?_ fair.pull
      · dsimp only [Shared.clearRepair]
        split <;> exact fair.cursor
      · dsimp only [Shared.clearRepair]
        split <;> exact fair.pending
      · rintro _ ⟨⟩
        exact { sessionFair with }
  | takeBuffered sink now =>
      simp only [System.actor, Option.ite_none_right_eq_some] at acted
      obtain ⟨_, acted⟩ := acted
      split at acted
      · cases acted
        apply fair.setSession
        exact { sessionFair with }
      · rename_i frame rest waiting
        cases acted
        have genuine := sessionFair.buffered frame (waiting ▸ List.mem_cons_self ..)
        refine fair.receiveBuffered ?_ sink now genuine
        refine { sessionFair with buffered := fun other member => ?_ }
        exact sessionFair.buffered other (waiting ▸ List.mem_cons_of_mem _ member)
  | receive sink now =>
      simp only [System.actor] at acted
      split at acted
      · cases acted
      · rename_i frame rest waiting
        have genuine := sessionFair.sent frame (waiting ▸ List.mem_cons_self ..)
        have taken : s.SessionFair config { session with toClient := rest } :=
          { sessionFair with
            sent := fun other member =>
              sessionFair.sent other (waiting ▸ List.mem_cons_of_mem _ member) }
        split at acted
        · cases acted
          exact fair.receiveBackfill taken sink now genuine
        · obtain ⟨_, acted⟩ := Option.ite_none_right_eq_some.mp acted
          cases acted
          exact fair.receiveSteady taken sink now genuine
  | importRow outcome =>
      simp only [System.actor, Option.bind_eq_some_iff, Option.ite_none_right_eq_some,
        Option.some.injEq] at acted
      obtain ⟨row, begun, _, rfl⟩ := acted
      have grows := grows_importRow (s := s) row outcome
      refine fair.grow (grows.trans_same ⟨rfl, rfl, rfl⟩) rfl rfl rfl ?_ ?_
      · rintro _ ⟨⟩
        refine SessionFair.grows ?_ (Same.grows (s := { s with doc := s.importRow row outcome })
          ⟨rfl, rfl, rfl⟩)
        refine { sessionFair.grows grows with importing := ?_ }
        rintro _ ⟨⟩
        exact (sessionFair.importing row begun).answered outcome
      · exact fair.pull.grows (grows.trans_same ⟨rfl, rfl, rfl⟩)
  | settleRow =>
      simp only [System.actor, Option.bind_eq_some_iff, Option.map_eq_some_iff] at acted
      obtain ⟨row, begun, outcome, answered, rfl⟩ := acted
      have settled := fair.settleRow (sessionFair.importing row begun) answered
      apply settled.setSession
      refine SessionFair.grows ?_ (Same.grows (s := s) ⟨rfl, rfl, rfl⟩)
      refine { sessionFair with importing := ?_ }
      rintro _ ⟨⟩
  | complete =>
      simp only [System.actor, Option.ite_none_right_eq_some, Option.some.injEq] at acted
      obtain ⟨_, rfl⟩ := acted
      refine fair.update ⟨rfl, rfl, rfl⟩ fair.cursor fair.pending ?_ fair.pull
      rintro _ ⟨⟩
      exact { sessionFair with }
  | markCaughtUp =>
      simp only [System.actor, Option.ite_none_right_eq_some, Option.map_eq_some_iff] at acted
      obtain ⟨_, headSeq, _, rfl⟩ := acted
      refine fair.update ⟨rfl, rfl, rfl⟩ ?_ ?_ ?_ fair.pull
      · dsimp only [Shared.markCaughtUp]
        split <;> exact fair.cursor
      · dsimp only [Shared.markCaughtUp]
        split <;> exact fair.pending
      · rintro _ ⟨⟩
        exact { sessionFair with }
  | checkGap =>
      simp only [System.actor, Option.ite_none_right_eq_some, Option.some.injEq] at acted
      obtain ⟨_, rfl⟩ := acted
      exact fair.checkGap sessionFair
  | refresh =>
      simp only [System.actor, Option.ite_none_right_eq_some, Option.some.injEq] at acted
      obtain ⟨_, rfl⟩ := acted
      refine fair.update ⟨rfl, rfl, rfl⟩ fair.cursor fair.pending ?_ fair.pull
      rintro _ ⟨⟩
      exact { sessionFair.sends (by simp) with }
  | takeNudge persist =>
      simp only [System.actor, Option.ite_none_right_eq_some, Option.some.injEq] at acted
      obtain ⟨_, rfl⟩ := acted
      have taken : ({ s with nudge := false } : System).CursorFair config :=
        fair.update ⟨rfl, rfl, rfl⟩ fair.cursor fair.pending fair.session fair.pull
      exact taken.pushPending (sessionFair.grows (Same.grows ⟨rfl, rfl, rfl⟩)) persist
  | retryTick persist now =>
      simp only [System.actor, Option.ite_none_right_eq_some, Option.some.injEq] at acted
      obtain ⟨_, rfl⟩ := acted
      have taken : (s.onShared ({ · with retryAt := none })).CursorFair config :=
        fair.onShared fair.cursor fair.pending
      exact taken.pushHead (sessionFair.grows (Same.grows ⟨rfl, rfl, rfl⟩)) persist
  | sendProbe =>
      simp only [System.actor, Option.ite_none_right_eq_some, Option.some.injEq] at acted
      obtain ⟨_, rfl⟩ := acted
      apply fair.setSession
      exact sessionFair.sends (by simp)

end System

end Zeron.Chat
