import Zeron.Device.Room

namespace Zeron.Device

/-! # Receipts are retired by their own acknowledgement

Redelivery to a host that acknowledges never touches the tables.  So what erases
a receipt is an acknowledgement of the token it holds, and what changes its
token is a later enqueue.
-/

variable {uuid : Nat → String} {room asked : DeviceRoom} {events later : List Event}
  {key token : String}

section Rows

/-- The loop over a host that acknowledges: the tables are left alone. -/
theorem replayRows_cons_acking (row : PendingNudge) (rows : List PendingNudge) (replay : Replay) :
    replayRows true (row :: rows) replay =
      if replay.inflight.contains row.token then replayRows true rows replay
      else if replay.inflight.length ≥ nudgePage then replay
      else replayRows true rows
        { replay with
          delivered := replay.delivered ++ [row]
          inflight := replay.inflight ++ [row.token]
          sent := replay.sent + 1 } := by
  simp [replayRows, pageFull]

theorem replayRows_nudges (rows : List PendingNudge) (replay : Replay) :
    (replayRows true rows replay).nudges = replay.nudges := by
  induction rows generalizing replay with
  | nil => rfl
  | cons row rows ih =>
      rw [replayRows_cons_acking]
      split
      · exact ih replay
      · split
        · rfl
        · exact ih _

/-- A row is added only below a full page. -/
theorem replayRows_inflight (rows : List PendingNudge) (replay : Replay)
    (within : replay.inflight.length ≤ nudgePage) :
    (replayRows true rows replay).inflight.length ≤ nudgePage := by
  induction rows generalizing replay with
  | nil => exact within
  | cons row rows ih =>
      rw [replayRows_cons_acking]
      split
      · exact ih replay within
      · split
        · exact within
        · apply ih
          simp only [List.length_append, List.length_singleton]
          omega

end Rows

namespace DeviceRoom

/-- The receipt the tables hold under a key. -/
def receipt? (room : DeviceRoom) (key : String) : Option String := room.nudges.receipt? key

/-- Every host acknowledges, and no more than a page is in flight on any. -/
def Acking (room : DeviceRoom) : Prop :=
  ∀ host ∈ room.hosts, host.nudgeAck = true ∧ host.nudgeInflight.length ≤ nudgePage

theorem Acking.setHost (acking : room.Acking) (ws : Nat) {change : HostSocket → HostSocket}
    (keeps : ∀ host, host.nudgeAck = true ∧ host.nudgeInflight.length ≤ nudgePage →
      (change host).nudgeAck = true ∧ (change host).nudgeInflight.length ≤ nudgePage) :
    (room.setHost ws change).Acking := by
  intro host member
  obtain ⟨before, listed, same⟩ := List.mem_map.mp member
  subst same
  split
  · exact keeps before (acking before listed)
  · exact acking before listed

theorem mem_of_host? {ws : Nat} {host : HostSocket} (found : room.host? ws = some host) :
    host ∈ room.hosts ∧ host.ws = ws :=
  ⟨List.mem_of_find?_eq_some found, by simpa using List.find?_some found⟩

theorem Acking.replayNudges (acking : room.Acking) (ws : Nat) :
    (room.replayNudges ws).Acking ∧ (room.replayNudges ws).nudges = room.nudges := by
  unfold DeviceRoom.replayNudges
  cases found : room.host? ws with
  | none => exact ⟨acking, rfl⟩
  | some host =>
      obtain ⟨acks, within⟩ := acking host (mem_of_host? found).1
      have kept : (room.setHost ws fun held =>
          { held with
            nudgeInflight := (replayRows true (pendingNudges room.nudges)
              { inflight := host.nudgeInflight, nudges := room.nudges }).inflight
            frames := if held.isOpen then held.frames ++ (replayRows true
              (pendingNudges room.nudges)
              { inflight := host.nudgeInflight, nudges := room.nudges }).delivered
              else held.frames }).Acking :=
        acking.setHost ws fun held holds => ⟨holds.1, replayRows_inflight _ _ within⟩
      simp only [acks]
      split
      · exact ⟨kept, replayRows_nudges _ _⟩
      · exact ⟨kept, replayRows_nudges _ _⟩

theorem Acking.replayLive (acking : room.Acking) :
    room.replayLive.Acking ∧ room.replayLive.nudges = room.nudges := by
  unfold DeviceRoom.replayLive
  split
  · exact acking.replayNudges _
  · exact ⟨acking, rfl⟩

/-- A nudge is refused and changes nothing, or is enqueued and answered by the queue's room. -/
theorem postNudge_cases (uuid : Nat → String) (room : DeviceRoom) (userId : String)
    (body : Option String) :
    ((room.postNudge uuid userId body).1 = room ∧
      (room.postNudge uuid userId body).2 ≠ .queueFull ∧
      ∀ delivered, (room.postNudge uuid userId body).2 ≠ .queued delivered) ∨
    ∃ chatId, body = some chatId ∧ chatId ≠ "*" ∧
      room.postNudge uuid userId body = ((room.enqueue uuid chatId).1.replayLive,
        if (room.enqueue uuid chatId).2 then
          .queued ((room.enqueue uuid chatId).1.liveHost none).isSome
        else .queueFull) := by
  unfold postNudge
  cases room.owner with
  | none => exact .inl ⟨rfl, by simp, by simp⟩
  | some owner =>
      by_cases mine : owner = userId
      · cases body with
        | none => exact .inl ⟨by simp [mine], by simp [mine], by simp [mine]⟩
        | some chatId =>
            cases valid : validChatId chatId with
            | false => exact .inl ⟨by simp [mine, valid], by simp [mine, valid], by simp [mine, valid]⟩
            | true =>
                refine .inr ⟨chatId, rfl, ne_star_of_validChatId valid, ?_⟩
                simp only [mine, ne_eq, not_true_eq_false, if_false, valid, Bool.true_eq_false]
      · exact .inl ⟨by simp [mine], by simp [mine], by simp [mine]⟩

end DeviceRoom

/-- The hosts that join acknowledge their nudges. -/
def Event.Acking : Event → Prop
  | .join _ nudgeAck => nudgeAck = true
  | _ => True

namespace DeviceRoom

/-- A host that joins finds the tables as they are. -/
theorem Acking.joinHost (acking : room.Acking) (userId : String) :
    (room.joinHost userId true).Acking ∧ (room.joinHost userId true).nudges = room.nudges := by
  unfold DeviceRoom.joinHost
  split
  · have accepted : (room.acceptHost userId true).Acking := by
      intro host member
      rcases List.mem_append.mp member with superseded | joined
      · obtain ⟨before, listed, same⟩ := List.mem_map.mp superseded
        subst same
        exact acking before listed
      · rw [List.mem_singleton.mp joined]
        exact ⟨rfl, Nat.zero_le _⟩
    exact accepted.replayNudges _
  · exact ⟨acking, rfl⟩

theorem Acking.alarmFires (acking : room.Acking) :
    room.alarmFires.Acking ∧ room.alarmFires.nudges = room.nudges := by
  unfold DeviceRoom.alarmFires
  cases room.alarm with
  | none => exact ⟨acking, rfl⟩
  | some due =>
      dsimp only
      split
      · exact ⟨acking, rfl⟩
      · split
        · exact ⟨acking, rfl⟩
        · rename_i ws _
          have fired : ({ room with alarm := none } : DeviceRoom).Acking := acking
          have cleared : ({ room with alarm := none }.setHost ws fun host =>
              { host with nudgeInflight := [] }).Acking :=
            fired.setHost ws fun host holds => ⟨holds.1, Nat.zero_le _⟩
          exact cleared.replayNudges ws

theorem Acking.nudgeAcked (acking : room.Acking) (ws : Nat) (chatId token : String) :
    (room.nudgeAcked ws chatId token).Acking ∧
      ((room.nudgeAcked ws chatId token).nudges = room.nudges ∨
        (room.nudgeAcked ws chatId token).nudges =
          acknowledgeNudge room.nudges chatId token) := by
  unfold DeviceRoom.nudgeAcked
  split
  · exact ⟨acking, .inl rfl⟩
  · split
    · have retired : ({ room with nudges := acknowledgeNudge room.nudges chatId token } :
          DeviceRoom).Acking := acking
      have dropped : ({ room with nudges := acknowledgeNudge room.nudges chatId token }.setHost ws
          fun host =>
            { host with nudgeInflight := host.nudgeInflight.filter (· ≠ token) }).Acking :=
        retired.setHost ws fun host holds => ⟨holds.1, (List.length_filter_le _ _).trans holds.2⟩
      exact ⟨(dropped.replayNudges ws).1, .inr (dropped.replayNudges ws).2⟩
    · exact ⟨acking, .inl rfl⟩

/-- What a step does to the tables: nothing, one enqueue, or one acknowledgement. -/
theorem Acking.step (uuid : Nat → String) (acking : room.Acking) {event : Event} (joins : event.Acking) :
    (room.step uuid event).Acking ∧
      ((room.step uuid event).nudges = room.nudges ∨
        (∃ userId chatId, event = .nudge userId (some chatId) ∧ chatId ≠ "*" ∧
          (room.step uuid event).nudges = (room.enqueue uuid chatId).1.nudges ∧
          (room.postNudge uuid userId (some chatId)).2 =
            if (room.enqueue uuid chatId).2 then
              .queued ((room.enqueue uuid chatId).1.liveHost none).isSome
            else .queueFull) ∨
        ∃ ws chatId token, event = .ack ws chatId token ∧
          (room.step uuid event).nudges = acknowledgeNudge room.nudges chatId token) := by
  cases event with
  | nudge userId body =>
      simp only [DeviceRoom.step]
      rcases postNudge_cases uuid room userId body with refused | ⟨chatId, rfl, named, enqueued⟩
      · rw [refused.1]
        exact ⟨acking, .inl rfl⟩
      · have replayed := (show (room.enqueue uuid chatId).1.Acking from acking).replayLive
        rw [enqueued]
        exact ⟨replayed.1, .inr (.inl ⟨userId, chatId, rfl, named, replayed.2, by rw [enqueued]⟩)⟩
  | join userId nudgeAck =>
      cases joins
      have joined := acking.joinHost userId
      exact ⟨joined.1, .inl joined.2⟩
  | alarm => exact ⟨acking.alarmFires.1, .inl acking.alarmFires.2⟩
  | ack ws chatId token =>
      obtain ⟨kept, untouched | retired⟩ := acking.nudgeAcked ws chatId token
      · exact ⟨kept, .inl untouched⟩
      · exact ⟨kept, .inr (.inr ⟨ws, chatId, token, rfl, retired⟩)⟩
  | ping ws => exact ⟨acking.setHost ws fun host holds => holds, .inl rfl⟩
  | close ws => exact ⟨fun host member => acking host (List.mem_filter.mp member).1, .inl rfl⟩
  | tick ms => exact ⟨acking, .inl rfl⟩

theorem Acking.run (acking : room.Acking) (joins : ∀ event ∈ events, event.Acking) :
    (room.run uuid events).Acking := by
  induction events generalizing room with
  | nil => exact acking
  | cons event rest ih =>
      apply ih (acking.step uuid (joins event (by simp))).1
      intro other member
      exact joins other (List.mem_cons_of_mem _ member)

/-- An enqueue issues a receipt: the chat's own when it was answered queued, the
reconciliation when it was answered 503. -/
def Issues (uuid : Nat → String) (room : DeviceRoom) (event : Event) (key token : String) :
    Prop :=
  ∃ userId chatId, event = .nudge userId (some chatId) ∧ token = uuid room.drawn ∧
    ((∃ delivered, (room.postNudge uuid userId (some chatId)).2 = .queued delivered ∧
        key = chatId) ∨
      ((room.postNudge uuid userId (some chatId)).2 = .queueFull ∧ key = "*"))

/-- The receipt of an enqueue stands right after it. -/
theorem Issues.receipt? (acking : room.Acking) {event : Event}
    (issued : Issues uuid room event key token) :
    (room.step uuid event).receipt? key = some token := by
  obtain ⟨userId, chatId, rfl, rfl, answered⟩ := issued
  rcases postNudge_cases uuid room userId (some chatId) with
    ⟨_, notFull, notQueued⟩ | ⟨other, same, named, enqueued⟩
  · rcases answered with ⟨delivered, queued, _⟩ | ⟨full, _⟩
    · exact absurd queued (notQueued delivered)
    · exact absurd full notFull
  · cases same
    have tables := (show (room.enqueue uuid chatId).1.Acking from acking).replayLive.2
    simp only [DeviceRoom.step, DeviceRoom.receipt?, enqueued, tables]
    rw [enqueue, Nudges.receipt?_enqueueNudge named, if_pos]
    rw [enqueued] at answered
    simp only [enqueue] at answered
    cases queued : (enqueueNudge room.nudges chatId room.now (uuid room.drawn)).2 with
    | true =>
        rcases answered with ⟨delivered, _, rfl⟩ | ⟨full, _⟩
        · rfl
        · simp [queued] at full
    | false =>
        rcases answered with ⟨delivered, answer, _⟩ | ⟨_, rfl⟩
        · simp [queued] at answer
        · rfl

/-- One step leaves a receipt alone, gives it the token of a new enqueue, or is the
acknowledgement of the token it holds. -/
theorem Acking.receipt?_step (uuid : Nat → String) (acking : room.Acking) {event : Event}
    (joins : event.Acking) (held : room.receipt? key = some token) :
    (∃ next, (room.step uuid event).receipt? key = some next ∧
      (next = token ∨ Issues uuid room event key next)) ∨
    ∃ ws, event = .ack ws key token := by
  obtain ⟨_, untouched | ⟨userId, chatId, rfl, named, enqueued, answered⟩ |
    ⟨ws, chatId, acked, rfl, retired⟩⟩ := acking.step uuid joins
  · exact .inl ⟨token, by rw [receipt?, untouched]; exact held, .inl rfl⟩
  · left
    rw [receipt?, enqueued, enqueue, Nudges.receipt?_enqueueNudge named]
    by_cases issued : key =
        Nudges.issuedKey chatId (enqueueNudge room.nudges chatId room.now (uuid room.drawn)).2
    · rw [if_pos issued]
      refine ⟨_, rfl, .inr ⟨userId, chatId, rfl, rfl, ?_⟩⟩
      rw [answered]
      simp only [enqueue]
      by_cases queued : (enqueueNudge room.nudges chatId room.now (uuid room.drawn)).2 = true
      · exact .inl ⟨_, if_pos queued, by simpa [queued, Nudges.issuedKey] using issued⟩
      · exact .inr ⟨if_neg queued, by simpa [queued, Nudges.issuedKey] using issued⟩
    · rw [if_neg issued]
      exact ⟨token, held, .inl rfl⟩
  · by_cases mine : chatId = key ∧ acked = token
    · exact .inr ⟨ws, by rw [mine.1, mine.2]⟩
    · refine .inl ⟨token, ?_, .inl rfl⟩
      rw [receipt?, retired]
      exact Nudges.receipt?_kept held fun same other => mine ⟨same, other⟩

/-- Some enqueue of a run issued this token under this key. -/
def Issued (uuid : Nat → String) (asked : DeviceRoom) (events : List Event)
    (key token : String) : Prop :=
  ∃ early event late, events = early ++ event :: late ∧
    Issues uuid (asked.run uuid early) event key token

theorem Issued.append (issued : Issued uuid asked events key token) (more : List Event) :
    Issued uuid asked (events ++ more) key token := by
  obtain ⟨early, event, late, split, issues⟩ := issued
  exact ⟨early, event, late ++ more, by simp [split], issues⟩

/-- A receipt is still there, under a token the run issued, or an acknowledgement
named it under a token issued before. -/
def Outstanding (uuid : Nat → String) (asked : DeviceRoom) (events : List Event)
    (key : String) : Prop :=
  (∃ token, (asked.run uuid events).receipt? key = some token ∧
    Issued uuid asked events key token) ∨
  ∃ early ws token late, events = early ++ .ack ws key token :: late ∧
    Issued uuid asked early key token

theorem Outstanding.snoc (outstanding : Outstanding uuid asked events key)
    (acking : (asked.run uuid events).Acking) {event : Event} (joins : event.Acking) :
    Outstanding uuid asked (events ++ [event]) key := by
  rcases outstanding with ⟨token, held, issued⟩ | ⟨early, ws, token, late, split, issued⟩
  · rcases acking.receipt?_step uuid joins held with
      ⟨next, holds, same | issues⟩ | ⟨ws, rfl⟩
    · subst same
      exact .inl ⟨next, by simpa using holds, issued.append _⟩
    · exact .inl ⟨next, by simpa using holds, events, event, [], rfl, issues⟩
    · exact .inr ⟨events, ws, token, [], rfl, issued⟩
  · exact .inr ⟨early, ws, token, late ++ [event], by simp [split], issued⟩

theorem outstanding_run (acking : asked.Acking) {first : Event}
    (issues : Issues uuid asked first key token)
    (joins : ∀ event ∈ first :: later, event.Acking) :
    Outstanding uuid asked (first :: later) key := by
  induction later using List.reverseRecOn with
  | nil => exact .inl ⟨token, issues.receipt? acking, [], first, [], rfl, issues⟩
  | append_singleton earlier event ih =>
      have before : ∀ event ∈ first :: earlier, event.Acking := by
        intro other member
        apply joins
        rw [← List.cons_append]
        exact List.mem_append_left _ member
      have last : event.Acking := joins event (by simp)
      exact (ih before).snoc (acking.run before) last

end DeviceRoom

/-- In every run of hosts that acknowledge: a nudge answered `queued` stays pending until
an acknowledgement names its chat under its own token or a later one of that chat; a nudge
answered 503 leaves a `*` receipt with the same guarantee; and no socket ever has more than
a page of tokens in flight. -/
theorem wakes_retired_only_by_ack (uuid : Nat → String) (before later : List Event)
    (userId chatId : String)
    (acking : ∀ event ∈ before ++ later, event.Acking) :
    let asked := DeviceRoom.run uuid {} before
    let nudge := Event.nudge userId (some chatId)
    ((∃ delivered, (asked.postNudge uuid userId (some chatId)).2 = .queued delivered) →
      DeviceRoom.Outstanding uuid asked (nudge :: later) chatId) ∧
    ((asked.postNudge uuid userId (some chatId)).2 = .queueFull →
      DeviceRoom.Outstanding uuid asked (nudge :: later) "*") ∧
    ∀ host ∈ (asked.run uuid later).hosts, host.nudgeInflight.length ≤ nudgePage := by
  intro asked nudge
  have started : asked.Acking := by
    apply DeviceRoom.Acking.run
    · intro host member
      cases member
    · exact fun event member => acking event (List.mem_append_left _ member)
  have joins : ∀ event ∈ later, event.Acking :=
    fun event member => acking event (List.mem_append_right _ member)
  have nudged : ∀ event ∈ nudge :: later, event.Acking := by
    intro event member
    rcases List.mem_cons.mp member with rfl | inLater
    · trivial
    · exact joins event inLater
  refine ⟨?_, ?_, ?_⟩
  · rintro ⟨delivered, answered⟩
    exact DeviceRoom.outstanding_run started
      ⟨userId, chatId, rfl, rfl, .inl ⟨delivered, answered, rfl⟩⟩ nudged
  · intro full
    exact DeviceRoom.outstanding_run started ⟨userId, chatId, rfl, rfl, .inr ⟨full, rfl⟩⟩ nudged
  · exact fun host member => ((started.run joins) host member).2

/-- A chat nudged twice: the acknowledgement of the first token leaves the second pending. -/
theorem wakes_retired_only_by_ack_late :
    DeviceRoom.Outstanding Nat.repr (DeviceRoom.run Nat.repr {} [.join "owner" true])
      [.nudge "owner" (some "chat"), .nudge "owner" (some "chat"), .ack 0 "chat" "0"] "chat" := by
  have outstanding := wakes_retired_only_by_ack Nat.repr [.join "owner" true]
    [.nudge "owner" (some "chat"), .ack 0 "chat" "0"] "owner" "chat"
    (by intro event member; fin_cases member <;> trivial)
  exact outstanding.1 ⟨true, by decide +kernel⟩

end Zeron.Device
