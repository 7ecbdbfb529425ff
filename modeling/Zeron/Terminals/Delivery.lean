import Zeron.Terminals.Live

namespace Zeron.Terminals

/-! # What the subscribers receive

Every event that was emitted since a subscription, and of those before it what the window
still holds and the subscriber asked for, reaches it once and in order.
-/

section Events

variable {emitted : List TerminalEvent}

def sizes (events : List TerminalEvent) : Nat := (events.map TerminalEvent.size).sum

/-- The events carry their place in the whole sequence, from one on. -/
def Numbered (emitted : List TerminalEvent) : Prop :=
  ∀ index event, emitted[index]? = some event → event.seq = index + 1

/-- The bytes that the data events of a sequence decode to. -/
def decoded (base64 : Base64) : List TerminalEvent → List UInt8
  | [] => []
  | .data _ text :: rest => (base64.decode text).getD [] ++ decoded base64 rest
  | .exit _ _ _ :: rest => decoded base64 rest

theorem decoded_append (base64 : Base64) (front back : List TerminalEvent) :
    decoded base64 (front ++ back) = decoded base64 front ++ decoded base64 back := by
  induction front with
  | nil => rfl
  | cons event rest ih => cases event <;> simp [decoded, ih]

theorem Numbered.concat (numbered : Numbered emitted) {event : TerminalEvent}
    (next : event.seq = emitted.length + 1) : Numbered (emitted ++ [event]) := by
  intro index other found
  rw [List.getElem?_append] at found
  split at found
  · exact numbered index other found
  · rename_i past
    have last : index - emitted.length = 0 := by
      cases place : index - emitted.length with
      | zero => rfl
      | succ more => simp [place] at found
    rw [last] at found
    cases Option.some.inj found
    omega

/-- Asking for what comes after a number is dropping so many events. -/
theorem filter_numbered (start asked : Nat)
    (numbered : ∀ index event, emitted[index]? = some event → event.seq = start + index + 1) :
    emitted.filter (fun event => asked < event.seq) = emitted.drop (asked - start) := by
  induction emitted generalizing start with
  | nil => simp
  | cons event rest ih =>
      have first : event.seq = start + 0 + 1 := numbered 0 event rfl
      have later := ih (start + 1) fun index other found => by
        have place := numbered (index + 1) other found
        omega
      rw [List.filter_cons]
      by_cases high : asked < event.seq
      · have none : asked - start = 0 := by omega
        have none' : asked - (start + 1) = 0 := by omega
        rw [none'] at later
        simp [high, none, later]
      · have more : asked - start = (asked - (start + 1)) + 1 := by omega
        simp [high, more, later]

/-- The window keeps its newest events, and at least one. -/
theorem evict_spec {bytes : Nat} {events : List TerminalEvent} (whole : bytes = sizes events) :
    ∃ front kept, evict bytes events = some (sizes kept, kept) ∧ events = front ++ kept ∧
      (events ≠ [] → kept ≠ []) ∧
      (sizes kept ≤ maxReplayBytes ∨ kept.length ≤ 1) := by
  induction events generalizing bytes with
  | nil => exact ⟨[], [], by rw [evict, whole], rfl, fun some_event => absurd rfl some_event, .inr (Nat.zero_le _)⟩
  | cons event rest ih =>
      cases rest with
      | nil => exact ⟨[], [event], by rw [evict, whole], rfl, fun _ => List.cons_ne_nil _ _, .inr (Nat.le_refl _)⟩
      | cons next rest =>
          have split : sizes (event :: next :: rest) = event.size + sizes (next :: rest) := rfl
          rw [evict]
          split
          · obtain ⟨front, kept, cut, suffix, some_event, bound⟩ :=
              @ih (bytes - event.size) (by omega)
            rw [if_pos (by omega), cut]
            exact ⟨event :: front, kept, rfl, by rw [suffix, List.cons_append],
              fun _ => some_event (List.cons_ne_nil _ _), bound⟩
          · exact ⟨[], event :: next :: rest, by rw [whole], rfl, fun _ => List.cons_ne_nil _ _,
              .inl (by omega)⟩

end Events

/-- The number after which a subscription starts. -/
def Receiver.base (receiver : Receiver) : Nat :=
  max (min receiver.asked receiver.newest) receiver.dropped

/-- What a receiver has got of the sequence, and that it has all of it while it is attached. -/
structure Receiver.Served (receiver : Receiver) (emitted : List TerminalEvent) : Prop where
  starts : receiver.base ≤ emitted.length
  inOrder : receiver.received <+: emitted.drop receiver.base
  complete : receiver.attached = true → receiver.received = emitted.drop receiver.base

/-- The replay window of a session holds the newest events, within its bound. -/
structure LiveTerminal.Holds (session : LiveTerminal) (emitted : List TerminalEvent) : Prop where
  seq : session.seq = emitted.length
  newest : session.replay <:+ emitted
  some_event : emitted ≠ [] → session.replay ≠ []
  bytes : session.replayBytes = sizes session.replay
  bound : session.replayBytes ≤ maxReplayBytes ∨ session.replay.length ≤ 1

namespace Terminal

/-- No exit before the pump is done, and then the exit is the last event. -/
def Closes (terminal : Terminal) : Prop :=
  if terminal.stage = .done then
    ∃ front exit, terminal.emitted = front ++ [exit] ∧ exit.isExit = true ∧
      ∀ event ∈ front, event.isExit = false
  else ∀ event ∈ terminal.emitted, event.isExit = false

/-- Nothing that was read is lost while the session is there. -/
def Conserves (base64 : Base64) (terminal : Terminal) : Prop :=
  terminal.stage ≠ .gone →
    decoded base64 terminal.emitted ++ terminal.buffer ++ terminal.queue.flatten = terminal.read

structure Sound (base64 : Base64) (terminal : Terminal) : Prop where
  numbered : Numbered terminal.emitted
  session : ∀ session, terminal.session = some session → session.Holds terminal.emitted ∧
    (session.exited = true ↔ terminal.stage = .done) ∧
    (session.exited = false → ∀ index receiver, terminal.receivers[index]? = some receiver →
      receiver.attached = true → index ∈ session.subscribers)
  served : ∀ receiver ∈ terminal.receivers, receiver.Served terminal.emitted
  conserves : Conserves base64 terminal
  closes : Closes terminal
  drained : terminal.rawOpen = false → terminal.ended = true ∧ terminal.queue = []
  emptied : terminal.stage = .exiting ∨ terminal.stage = .done →
    terminal.buffer = [] ∧ terminal.rawOpen = false

end Terminal

/-! ## One event -/

section Emitting

variable {receiver : Receiver} {session : LiveTerminal} {emitted : List TerminalEvent}
  {event : TerminalEvent}

theorem Receiver.Served.later (served : receiver.Served emitted) (gone : receiver.attached = false)
    (event : TerminalEvent) : receiver.Served (emitted ++ [event]) := by
  have longer : (emitted ++ [event]).drop receiver.base = emitted.drop receiver.base ++ [event] :=
    List.drop_append_of_le_length served.starts
  refine ⟨?_, ?_, ?_⟩
  · rw [List.length_append]
    exact Nat.le_add_right_of_le served.starts
  · rw [longer]
    exact served.inOrder.trans (List.prefix_append _ _)
  · intro attached
    rw [gone] at attached
    cases attached

theorem Receiver.Served.receive (served : receiver.Served emitted) (attached : receiver.attached = true)
    (event : TerminalEvent) :
    ({ receiver with received := receiver.received ++ [event] } : Receiver).Served
      (emitted ++ [event]) := by
  have longer : (emitted ++ [event]).drop receiver.base = emitted.drop receiver.base ++ [event] :=
    List.drop_append_of_le_length served.starts
  have whole : receiver.received ++ [event] = (emitted ++ [event]).drop receiver.base := by
    rw [longer, served.complete attached]
  have inOrder : receiver.received ++ [event] <+: (emitted ++ [event]).drop receiver.base :=
    ⟨[], by rw [List.append_nil, whole]⟩
  refine ⟨?_, inOrder, fun _ => whole⟩
  rw [List.length_append]
  exact Nat.le_add_right_of_le served.starts

theorem served_deliver {subscribers : List Nat} {receivers : List Receiver}
    (served : ∀ receiver ∈ receivers, receiver.Served emitted)
    (listed : ∀ index receiver, receivers[index]? = some receiver → receiver.attached = true →
      index ∈ subscribers) :
    ∀ receiver ∈ deliver subscribers event receivers, receiver.Served (emitted ++ [event]) := by
  intro receiver member
  obtain ⟨index, inside, rfl⟩ := List.mem_mapIdx.mp member
  have here := served receivers[index] (List.getElem_mem inside)
  split
  · rename_i subscribed
    exact here.receive subscribed.1 event
  · rename_i unsubscribed
    apply here.later
    cases attached : receivers[index].attached with
    | false => rfl
    | true =>
        exact absurd ⟨attached, listed index _ (List.getElem?_eq_getElem inside) attached⟩ unsubscribed

theorem attached_deliver {subscribers : List Nat} {receivers : List Receiver} {index : Nat}
    (found : (deliver subscribers event receivers)[index]? = some receiver) :
    ∃ before, receivers[index]? = some before ∧ before.attached = receiver.attached := by
  rw [deliver, List.getElem?_mapIdx] at found
  obtain ⟨before, isBefore, rfl⟩ := Option.map_eq_some_iff.mp found
  refine ⟨before, isBefore, ?_⟩
  split <;> rfl

theorem evict_holds (holds : session.Holds emitted) (event : TerminalEvent) :
    ∃ bytes replay, evict (session.replayBytes + event.size) (session.replay ++ [event]) =
        some (bytes, replay) ∧ replay <:+ emitted ++ [event] ∧ replay ≠ [] ∧ bytes = sizes replay ∧
      (bytes ≤ maxReplayBytes ∨ replay.length ≤ 1) := by
  have whole : session.replayBytes + event.size = sizes (session.replay ++ [event]) := by
    rw [holds.bytes]
    simp [sizes]
  obtain ⟨front, kept, cut, suffix, some_event, bound⟩ := evict_spec whole
  refine ⟨_, kept, cut, ?_, some_event (by simp), rfl, bound⟩
  obtain ⟨older, isOlder⟩ := holds.newest
  exact ⟨older ++ front, by rw [List.append_assoc, ← suffix, ← List.append_assoc, isOlder]⟩

namespace Terminal

variable {base64 : Base64} {terminal : Terminal}

/-- What an emitted event changes, and what it leaves. -/
theorem emit_spec (numbered : Numbered terminal.emitted) (holds : session.Holds terminal.emitted)
    (listed : ∀ index receiver, terminal.receivers[index]? = some receiver →
      receiver.attached = true → index ∈ session.subscribers)
    (served : ∀ receiver ∈ terminal.receivers, receiver.Served terminal.emitted)
    (running : session.exited = false) (next : event.seq = terminal.emitted.length + 1) :
    ∃ after held, terminal.emit (nextSeq session) event = some after ∧
      after = { terminal with
        session := some held, receivers := after.receivers, emitted := terminal.emitted ++ [event] } ∧
      held.Holds (terminal.emitted ++ [event]) ∧ held.exited = event.isExit ∧
      (held.exited = false → ∀ index receiver, after.receivers[index]? = some receiver →
        receiver.attached = true → index ∈ held.subscribers) ∧
      (∀ receiver ∈ after.receivers, receiver.Served (terminal.emitted ++ [event])) ∧
      Numbered (terminal.emitted ++ [event]) := by
  obtain ⟨bytes, replay, cut, newest, some_event, counted, bound⟩ := evict_holds holds event
  refine ⟨_, _, by rw [emit, nextSeq, cut, Option.map_some], rfl, ?_, ?_, ?_,
    served_deliver served listed, numbered.concat next⟩
  · refine ⟨?_, newest, fun _ => some_event, counted, bound⟩
    simp [holds.seq]
  · simp [running]
  · intro stays index receiver found attached
    simp only [running, Bool.false_or] at stays
    obtain ⟨before, isBefore, same⟩ := attached_deliver found
    rw [attached] at same
    simp [stays, isBefore, same, listed index before isBefore same]

end Terminal

end Emitting

/-! ## One step -/

namespace Terminal.Sound

variable {base64 : Base64} {terminal : Terminal}

theorem start (base64 : Base64) : Terminal.start.Sound base64 := by
  constructor
  · intro index event found
    cases found
  · intro session isSession
    cases isSession
    refine ⟨⟨rfl, List.suffix_refl [], fun some_event => absurd rfl some_event, rfl, .inr (Nat.zero_le _)⟩,
      by simp [Terminal.start], ?_⟩
    intro _ index receiver found
    cases found
  · intro receiver member
    cases member
  · intro _
    rfl
  · intro event member
    cases member
  · intro closed
    cases closed
  · rintro (stage | stage) <;> cases stage

/-- Without a session the pump returns. -/
theorem abandon (sound : terminal.Sound base64) (none : terminal.session = none)
    (unfinished : terminal.stage ≠ .done) :
    ({ terminal with stage := .gone } : Terminal).Sound base64 := by
  refine ⟨sound.numbered, ?_, sound.served, fun present => absurd rfl present, ?_, sound.drained, ?_⟩
  · intro session isSession
    have isSession : terminal.session = some session := isSession
    rw [none] at isSession
    cases isSession
  · have closes := sound.closes
    rw [Closes, if_neg unfinished] at closes
    exact closes
  · rintro (stage | stage) <;> cases stage

theorem emitBuffer (sound : terminal.Sound base64) (looping : terminal.stage = .looping)
    {after : Stage} (stays : after = .looping ∨ after = .exiting ∧ terminal.rawOpen = false) :
    ∃ later, terminal.emitBuffer base64 after = some later ∧ later.Sound base64 := by
  have unfinished : terminal.stage ≠ .done := by rw [looping]; decide
  have open_after : after ≠ .done := by rcases stays with rfl | ⟨rfl, -⟩ <;> decide
  cases isSession : terminal.session with
  | none => exact ⟨_, by rw [Terminal.emitBuffer, isSession], sound.abandon isSession unfinished⟩
  | some session =>
      obtain ⟨holds, exits, listed⟩ := sound.session session isSession
      have running : session.exited = false := by
        cases exited : session.exited with
        | false => rfl
        | true => exact absurd (exits.mp exited) unfinished
      obtain ⟨later, held, emitted, shape, nowHolds, nowExited, nowListed, served, numbered⟩ :=
        @emit_spec session (.data (nextSeq session).seq (base64.encode terminal.buffer))
          { terminal with buffer := [], stage := after }
          sound.numbered holds (listed running) sound.served running
          (by simp [TerminalEvent.seq, nextSeq, holds.seq])
      refine ⟨later, by rw [Terminal.emitBuffer, isSession]; exact emitted, ?_⟩
      rw [shape]
      refine ⟨numbered, ?_, served, ?_, ?_, sound.drained, ?_⟩
      · intro other isOther
        cases Option.some.inj isOther
        refine ⟨nowHolds, ?_, nowListed⟩
        rw [nowExited]
        exact ⟨fun exit => absurd (exit : false = true) Bool.false_ne_true,
          fun done => absurd done open_after⟩
      · intro _
        have kept := sound.conserves (by rw [looping]; decide)
        simp only [decoded_append, decoded, base64.decode_encode, Option.getD_some, List.append_nil]
        exact kept
      · have closes := sound.closes
        rw [Closes, if_neg unfinished] at closes
        rw [Closes, if_neg open_after]
        intro event member
        rcases List.mem_append.mp member with old | new
        · exact closes event old
        · cases List.mem_singleton.mp new
          rfl
      · intro late
        rcases stays with rfl | ⟨-, closed⟩
        · rcases late with stage | stage <;> cases stage
        · exact ⟨rfl, closed⟩

theorem emitExit (sound : terminal.Sound base64) (exiting : terminal.stage = .exiting) :
    ∃ later, terminal.emitExit = some later ∧ later.Sound base64 := by
  have unfinished : terminal.stage ≠ .done := by rw [exiting]; decide
  have emptied := sound.emptied (.inl exiting)
  cases isSession : terminal.session with
  | none => exact ⟨_, by rw [Terminal.emitExit, isSession], sound.abandon isSession unfinished⟩
  | some session =>
      obtain ⟨holds, exits, listed⟩ := sound.session session isSession
      have running : session.exited = false := by
        cases exited : session.exited with
        | false => rfl
        | true => exact absurd (exits.mp exited) unfinished
      obtain ⟨later, held, emitted, shape, nowHolds, nowExited, nowListed, served, numbered⟩ :=
        @emit_spec session (.exit (nextSeq session).seq (terminal.exitCode.getD (-1)) none)
          { terminal with stage := .done }
          sound.numbered holds (listed running) sound.served running
          (by simp [TerminalEvent.seq, nextSeq, holds.seq])
      refine ⟨later, by rw [Terminal.emitExit, isSession]; exact emitted, ?_⟩
      rw [shape]
      refine ⟨numbered, ?_, served, ?_, ?_, sound.drained, fun _ => emptied⟩
      · intro other isOther
        cases Option.some.inj isOther
        refine ⟨nowHolds, ?_, nowListed⟩
        rw [nowExited]
        exact ⟨fun _ => rfl, fun _ => rfl⟩
      · intro _
        have kept := sound.conserves (by rw [exiting]; decide)
        simp only [decoded_append, decoded, List.append_nil]
        exact kept
      · have closes := sound.closes
        rw [Closes, if_neg unfinished] at closes
        rw [Closes, if_pos rfl]
        exact ⟨terminal.emitted, _, rfl, rfl, closes⟩

theorem subscribe (sound : terminal.Sound base64) (afterSeq : Option Nat) :
    (terminal.subscribe afterSeq).Sound base64 := by
  unfold Terminal.subscribe
  cases isSession : terminal.session with
  | none => exact sound
  | some session =>
      obtain ⟨holds, exits, listed⟩ := sound.session session isSession
      obtain ⟨older, whole⟩ := holds.newest
      have length := congrArg List.length whole
      rw [List.length_append] at length
      have dropped : terminal.emitted.length - session.replay.length = older.length := by omega
      have replayed := @filter_numbered session.replay older.length (afterSeq.getD 0)
        fun index event found => by
          have place : terminal.emitted[older.length + index]? = some event := by
            rw [← whole, List.getElem?_append_right (Nat.le_add_right _ _), Nat.add_sub_cancel_left, found]
          exact sound.numbered _ _ place
      have received : session.replay.filter (fun event => afterSeq.getD 0 < event.seq) =
          terminal.emitted.drop (max (min (afterSeq.getD 0) session.seq)
            (terminal.emitted.length - session.replay.length)) := by
        have start : max (min (afterSeq.getD 0) session.seq)
            (terminal.emitted.length - session.replay.length) =
            older.length + (min (afterSeq.getD 0) session.seq - older.length) := by omega
        rw [replayed, start, ← whole, List.drop_append, List.drop_eq_nil_of_le (Nat.le_add_right _ _),
          List.nil_append, Nat.add_sub_cancel_left, holds.seq]
        by_cases inside : afterSeq.getD 0 ≤ terminal.emitted.length
        · rw [Nat.min_eq_left inside]
        · rw [List.drop_eq_nil_of_le (by omega), List.drop_eq_nil_of_le (by omega)]
      refine ⟨sound.numbered, ?_, ?_, sound.conserves, sound.closes, sound.drained, sound.emptied⟩
      · intro other isOther
        cases Option.some.inj isOther
        refine ⟨⟨holds.seq, holds.newest, holds.some_event, holds.bytes, holds.bound⟩, exits, ?_⟩
        intro running index receiver found attached
        have running : session.exited = false := running
        simp only [running, Bool.false_eq_true, if_false]
        rw [List.getElem?_append] at found
        split at found
        · exact List.mem_append_left _ (listed running index receiver found attached)
        · rename_i past
          have last : index = terminal.receivers.length := by
            cases place : index - terminal.receivers.length with
            | zero => omega
            | succ more => simp [place] at found
          rw [last]
          exact List.mem_append_right _ (List.mem_singleton_self _)
      · intro receiver member
        rcases List.mem_append.mp member with old | new
        · exact sound.served receiver old
        · cases List.mem_singleton.mp new
          refine ⟨?_, ?_, fun _ => received⟩
          · simp only [Receiver.base, holds.seq]
            omega
          · exact received ▸ List.prefix_refl _

theorem detach (sound : terminal.Sound base64) (index : Nat) : (terminal.detach index).Sound base64 := by
  have back : ∀ (place : Nat) (receiver : Receiver), (terminal.detach index).receivers[place]? = some receiver →
      ∃ before, terminal.receivers[place]? = some before ∧
        (receiver = before ∨ receiver = ({ before with attached := false } : Receiver)) := by
    intro place receiver found
    rw [Terminal.detach, List.getElem?_modify] at found
    obtain ⟨before, isBefore, rfl⟩ := Option.map_eq_some_iff.mp found
    refine ⟨before, isBefore, ?_⟩
    split
    · exact .inr rfl
    · exact .inl rfl
  refine ⟨sound.numbered, ?_, ?_, sound.conserves, sound.closes, sound.drained, sound.emptied⟩
  · intro session isSession
    obtain ⟨holds, exits, listed⟩ := sound.session session isSession
    refine ⟨holds, exits, ?_⟩
    intro running place receiver found attached
    obtain ⟨before, isBefore, rfl | rfl⟩ := back place receiver found
    · exact listed running place receiver isBefore attached
    · cases attached
  · intro receiver member
    obtain ⟨place, found⟩ := List.mem_iff_getElem?.mp member
    obtain ⟨before, isBefore, rfl | rfl⟩ := back place receiver found
    · exact sound.served receiver (List.mem_of_getElem? isBefore)
    · have served := sound.served before (List.mem_of_getElem? isBefore)
      exact ⟨served.starts, served.inOrder, fun attached => by cases attached⟩

theorem receive (sound : terminal.Sound base64) (looping : terminal.stage = .looping) :
    terminal.receive.Sound base64 := by
  have late : ∀ {other : Terminal}, other.stage = terminal.stage →
      (other.stage = .exiting ∨ other.stage = .done) → False := by
    intro other same stage
    rw [same, looping] at stage
    rcases stage with stage | stage <;> cases stage
  unfold Terminal.receive
  cases queued : terminal.queue with
  | cons chunk rest =>
      refine ⟨sound.numbered, sound.session, sound.served, ?_, sound.closes, ?_,
        fun stage => (late rfl stage).elim⟩
      · intro present
        have kept := sound.conserves present
        rw [queued, List.flatten_cons] at kept
        simp only
        rw [← kept]
        simp only [List.append_assoc]
      · intro closed
        have drained := (sound.drained closed).2
        rw [queued] at drained
        cases drained
  | nil =>
      dsimp only
      split
      · rename_i ended
        refine ⟨sound.numbered, sound.session, sound.served, ?_, sound.closes, fun _ => ⟨ended, rfl⟩,
          fun stage => (late rfl stage).elim⟩
        intro present
        have kept := sound.conserves present
        rw [queued] at kept
        exact kept
      · exact sound

theorem read (sound : terminal.Sound base64)
    (more : terminal.ended ≠ true) (chunk : List UInt8) :
    ({ terminal with
        read := terminal.read ++ chunk, queue := terminal.queue ++ [chunk] } : Terminal).Sound base64 := by
  have open_channel : terminal.rawOpen ≠ false := fun closed => more (sound.drained closed).1
  refine ⟨sound.numbered, sound.session, sound.served, ?_, sound.closes,
    fun closed => absurd closed open_channel, sound.emptied⟩
  intro present
  have kept := sound.conserves present
  simp only [List.flatten_append, List.flatten_singleton]
  rw [← kept]
  simp only [List.append_assoc]

theorem childExited (sound : terminal.Sound base64) (looping : terminal.stage = .looping)
    (exitCode : Int) : (terminal.childExited exitCode).Sound base64 := by
  have unfinished : terminal.stage ≠ .done := by rw [looping]; decide
  cases isSession : terminal.session with
  | none =>
      have abandoned := sound.abandon isSession unfinished
      unfold Terminal.childExited
      simp only [isSession, Option.isNone_none, if_true]
      rw [← isSession]
      exact ⟨abandoned.numbered, abandoned.session, abandoned.served, abandoned.conserves,
        abandoned.closes, abandoned.drained, abandoned.emptied⟩
  | some session =>
      unfold Terminal.childExited
      simp only [isSession, Option.isNone_some, Bool.false_eq_true, if_false]
      rw [← isSession]
      exact ⟨sound.numbered, sound.session, sound.served, sound.conserves, sound.closes, sound.drained,
        sound.emptied⟩

theorem drain (sound : terminal.Sound base64) (looping : terminal.stage = .looping)
    (closed : terminal.rawOpen = false) :
    ∃ later, terminal.drain base64 = some later ∧ later.Sound base64 := by
  have unfinished : terminal.stage ≠ .done := by rw [looping]; decide
  unfold Terminal.drain
  split
  · rename_i empty
    refine ⟨_, rfl, sound.numbered, ?_, sound.served, ?_, ?_, sound.drained, fun _ => ⟨empty, closed⟩⟩
    · intro session isSession
      obtain ⟨holds, exits, listed⟩ := sound.session session isSession
      refine ⟨holds, ?_, listed⟩
      exact ⟨fun exited => absurd (exits.mp exited) unfinished, fun done => by cases done⟩
    · intro _
      exact sound.conserves (by rw [looping]; decide)
    · have closes := sound.closes
      rw [Closes, if_neg unfinished] at closes
      exact closes
  · exact sound.emitBuffer looping (.inr ⟨rfl, closed⟩)

theorem looping_of_loops (loops : terminal.loops = true) : terminal.stage = .looping :=
  (of_decide_eq_true loops).1

theorem next (sound : terminal.Sound base64) (action : Action) :
    ∃ later, terminal.next base64 action = some later ∧ later.Sound base64 := by
  cases action with
  | read chunk =>
      refine ⟨_, rfl, ?_⟩
      split
      · exact sound
      · split
        · exact ⟨sound.numbered, sound.session, sound.served, sound.conserves, sound.closes,
            fun closed => ⟨rfl, (sound.drained closed).2⟩, sound.emptied⟩
        · exact sound.read ‹_› chunk
  | readEnd =>
      exact ⟨_, rfl, sound.numbered, sound.session, sound.served, sound.conserves, sound.closes,
        fun closed => ⟨rfl, (sound.drained closed).2⟩, sound.emptied⟩
  | receive =>
      refine ⟨_, rfl, ?_⟩
      split
      · rename_i ready
        exact sound.receive (looping_of_loops (Bool.and_eq_true_iff.mp ready).1)
      · exact sound
  | flush =>
      simp only [Terminal.next]
      split
      · rename_i ready
        exact sound.emitBuffer (looping_of_loops (Bool.and_eq_true_iff.mp ready).1) (.inl rfl)
      · exact ⟨terminal, rfl, sound⟩
  | childExited exitCode =>
      refine ⟨_, rfl, ?_⟩
      split
      · rename_i ready
        exact sound.childExited (looping_of_loops (Bool.and_eq_true_iff.mp ready).1) exitCode
      · exact sound
  | drain =>
      simp only [Terminal.next]
      split
      · rename_i ready
        obtain ⟨looping, stopped⟩ := ready
        have closed : terminal.rawOpen = false := by
          cases isOpen : terminal.rawOpen with
          | false => rfl
          | true => simp [Terminal.loops, looping, isOpen] at stopped
        exact sound.drain looping closed
      · exact ⟨terminal, rfl, sound⟩
  | exit =>
      simp only [Terminal.next]
      split
      · exact sound.emitExit ‹_›
      · exact ⟨terminal, rfl, sound⟩
  | subscribe afterSeq => exact ⟨_, rfl, sound.subscribe afterSeq⟩
  | detach index => exact ⟨_, rfl, sound.detach index⟩
  | close =>
      exact ⟨_, rfl, sound.numbered, fun _ none => (by cases none), sound.served, sound.conserves,
        sound.closes, sound.drained, sound.emptied⟩

theorem foldlM (sound : terminal.Sound base64) (actions : List Action) :
    ∃ later, actions.foldlM (Terminal.next base64) terminal = some later ∧ later.Sound base64 := by
  induction actions generalizing terminal with
  | nil => exact ⟨terminal, rfl, sound⟩
  | cons action actions ih =>
      obtain ⟨middle, stepped, kept⟩ := sound.next action
      obtain ⟨later, ran, held⟩ := ih kept
      exact ⟨later, by rw [List.foldlM_cons, stepped]; exact ran, held⟩

end Terminal.Sound

/-- Everything the run shows of a terminal: what each subscriber got, what the data events
decode to once the exit is out, and what the window holds. -/
theorem terminal_delivers (base64 : Base64) (actions : List Action) :
    ∃ terminal, Terminal.run base64 actions = some terminal ∧
      (∀ index event, terminal.emitted[index]? = some event → event.seq = index + 1) ∧
      (∀ receiver ∈ terminal.receivers,
        receiver.received <+: terminal.emitted.drop
          (max (min receiver.asked receiver.newest) receiver.dropped) ∧
        (receiver.attached = true → receiver.received = terminal.emitted.drop
          (max (min receiver.asked receiver.newest) receiver.dropped))) ∧
      (terminal.stage ≠ .gone → decoded base64 terminal.emitted ++ terminal.buffer ++
        terminal.queue.flatten = terminal.read) ∧
      (terminal.stage = .done → decoded base64 terminal.emitted = terminal.read ∧
        ∃ front exit, terminal.emitted = front ++ [exit] ∧ exit.isExit = true ∧
          ∀ event ∈ front, event.isExit = false) ∧
      (terminal.stage ≠ .done → ∀ event ∈ terminal.emitted, event.isExit = false) ∧
      ∀ session, terminal.session = some session →
        session.replay <:+ terminal.emitted ∧ (terminal.emitted ≠ [] → session.replay ≠ []) ∧
        session.replayBytes = sizes session.replay ∧
        (session.replayBytes ≤ maxReplayBytes ∨ session.replay.length ≤ 1) := by
  obtain ⟨terminal, ran, sound⟩ := (Terminal.Sound.start base64).foldlM actions
  refine ⟨terminal, ran, sound.numbered, ?_, sound.conserves, ?_, ?_, ?_⟩
  · intro receiver member
    have served := sound.served receiver member
    exact ⟨served.inOrder, served.complete⟩
  · intro done
    have kept := sound.conserves (by rw [done]; decide)
    obtain ⟨empty, closed⟩ := sound.emptied (.inr done)
    rw [empty, (sound.drained closed).2, List.flatten_nil, List.append_nil, List.append_nil] at kept
    have closes := sound.closes
    rw [Terminal.Closes, if_pos done] at closes
    exact ⟨kept, closes⟩
  · intro unfinished
    have closes := sound.closes
    rw [Terminal.Closes, if_neg unfinished] at closes
    exact closes
  · intro session isSession
    obtain ⟨holds, -, -⟩ := sound.session session isSession
    exact ⟨holds.newest, holds.some_event, holds.bytes, holds.bound⟩

/-- A text that holds its bytes as they are. -/
def plainText : Base64 where
  encode bytes := String.ofList (bytes.map fun byte => Char.ofNat byte.toNat)
  decode text := some (text.toList.map fun char => UInt8.ofNat char.toNat)
  decode_encode bytes := by
    simp only [String.toList_ofList, List.map_map, Option.some.injEq]
    apply List.map_id''
    intro byte
    have small : byte.toNat < 256 := byte.toNat_lt
    have valid : byte.toNat.isValidChar := .inl (by omega)
    have code : (Char.ofNat byte.toNat).toNat = byte.toNat := by
      rw [Char.ofNat, dif_pos valid]
      rfl
    rw [Function.comp_apply, code, UInt8.ofNat_toNat]

/-- One subscriber asks for what comes after 5 before there is any event. -/
def askAhead : List Action := [.subscribe (some 5), .read [65], .receive, .flush]

/-- A subscriber that asks for numbers not given out yet gets the ones before as well. -/
theorem subscriber_ahead_of_newest : ¬∀ (base64 : Base64) (actions : List Action) (terminal : Terminal),
    Terminal.run base64 actions = some terminal → ∀ receiver ∈ terminal.receivers,
      receiver.received <+: terminal.emitted.drop (max receiver.asked receiver.dropped) := by
  intro delivers
  have ran : (Terminal.run plainText askAhead).map (fun terminal =>
      (terminal.receivers, terminal.emitted)) =
      some ([⟨5, 0, 0, [.data 1 "A"], true⟩], [.data 1 "A"]) := by decide
  obtain ⟨terminal, ran, shape⟩ := Option.map_eq_some_iff.mp ran
  obtain ⟨receivers, emitted⟩ := Prod.mk.inj shape
  have got := delivers plainText askAhead terminal ran ⟨5, 0, 0, [.data 1 "A"], true⟩
    (by rw [receivers]; exact List.mem_singleton_self _)
  rw [emitted] at got
  exact absurd got (by decide)

end Zeron.Terminals
