import Mathlib
import Zeron.Mux.Link

namespace Zeron.Mux

open Data

/-! # Readers that wait for each other

A reader only waits to answer an OPEN it rejects.  It then waits for its own writer,
which waits for the channel, which the other reader no longer drains.
-/

def Reader.waits : Reader → Bool
  | .waiting _ => true
  | _ => false

/-- The reader waits for room in the outgoing queue while the writer waits for the channel. -/
structure Side.Stuck (capacity : Nat) (side : Side) : Prop where
  running : side.stopped = none
  reader : side.reader.waits = true
  outgoing : outgoingCapacity ≤ side.outgoing.length
  writer : side.writing.isSome = true
  channel : capacity ≤ side.channel.length

def Link.Deadlocked (capacity : Nat) (link : Link) : Prop :=
  ∀ here, (link.side here).Stuck capacity

instance (capacity : Nat) (side : Side) : Decidable (side.Stuck capacity) :=
  decidable_of_iff (side.stopped = none ∧ side.reader.waits = true ∧
      outgoingCapacity ≤ side.outgoing.length ∧ side.writing.isSome = true ∧
      capacity ≤ side.channel.length)
    ⟨fun ⟨running, reader, outgoing, writer, channel⟩ =>
      ⟨running, reader, outgoing, writer, channel⟩,
    fun stuck => ⟨stuck.running, stuck.reader, stuck.outgoing, stuck.writer, stuck.channel⟩⟩

instance (capacity : Nat) (link : Link) : Decidable (link.Deadlocked capacity) :=
  decidable_of_iff (link.left.Stuck capacity ∧ link.right.Stuck capacity)
    ⟨fun stuck here => match here with
      | .left => stuck.1
      | .right => stuck.2,
    fun stuck => ⟨stuck .left, stuck .right⟩⟩

/-- Where an end whose outgoing queue is full has to answer a rejected OPEN, the other end's
reader does not wait. -/
def Link.Answerable (link : Link) (action : Endpoint × Action) : Prop :=
  action.2 = .answer → (link.side action.1).hasRoom = true ∨
    (link.side action.1.peer).reader.waits = false

instance (link : Link) (action : Endpoint × Action) : Decidable (link.Answerable action) :=
  inferInstanceAs (Decidable (_ → _))

variable {capacity : Nat} {side after : Side} {link finish : Link} {here other : Endpoint}

/-! ## Only an answer makes a reader wait -/

theorem Side.openStream_reader (side : Side) (service : String) (websocket : Bool) :
    (side.openStream service websocket).reader = side.reader := by
  unfold Side.openStream Side.stream
  dsimp only
  split
  · split
    · split <;> rfl
    · rfl
  · rfl

theorem Side.act_reader {index : Nat} {act : Act} (acted : side.act index act = some after) :
    after.reader = side.reader := by
  unfold Side.act at acted
  split at acted
  · split at acted
    · obtain ⟨-, same⟩ := Option.ite_none_right_eq_some.mp acted
      cases same
      rfl
    · cases acted
  · cases acted

/-- Neither an OPEN nor a frame of a stream makes the reader wait while it is dispatched. -/
theorem Side.dispatch_waits (frame : Frame) (idle : side.reader.waits = false) :
    (side.dispatch frame).reader.waits = false := by
  unfold Side.dispatch
  split
  · unfold Side.accept Side.stream
    split
    · split
      · split
        next opened =>
            obtain ⟨-, same⟩ := Option.ite_none_right_eq_some.mp opened
            cases same
            exact idle
        next => rfl
      · rfl
    · rfl
  · split
    · exact idle
    · split
      · exact idle
      · rfl

theorem Side.takeNext_reader (taken : side.takeNext = some after) :
    after.reader = side.reader := by
  unfold Side.takeNext at taken
  split at taken
  · obtain ⟨-, same⟩ := Option.ite_none_right_eq_some.mp taken
    cases same
    rfl
  · cases taken

theorem Side.transmit_reader (sent : side.transmit capacity = some after) :
    after.reader = side.reader := by
  unfold Side.transmit at sent
  split at sent
  · obtain ⟨-, same⟩ := Option.ite_none_right_eq_some.mp sent
    cases same
    rfl
  · cases sent

theorem Side.resume_waits (resumed : side.resume = some after) : after.reader.waits = false := by
  unfold Side.resume at resumed
  split at resumed
  · obtain ⟨-, same⟩ := Option.ite_none_right_eq_some.mp resumed
    cases same
    rfl
  · cases resumed

theorem Side.answer_waits (answered : side.answer = some after) (room : side.hasRoom = true) :
    after.reader.waits = false := by
  unfold Side.answer at answered
  split at answered
  · split at answered
    · cases answered
    · cases answered
      rfl
  · cases answered

/-- A step leaves a reader that does not wait so, but for an answer without room. -/
theorem Link.step_waits {action : Endpoint × Action} {after : Link}
    (stepped : link.step capacity action = some after)
    (idle : (link.side other).reader.waits = false)
    (room : action = (other, .answer) → (link.side other).hasRoom = true) :
    (after.side other).reader.waits = false := by
  obtain ⟨here, action⟩ := action
  rcases here.eq_or other with rfl | rfl
  · cases action with
    | openStream service websocket =>
        cases stepped
        rw [Link.side_put, Side.openStream_reader]
        exact idle
    | act index act =>
        obtain ⟨side, acted, rfl⟩ := Option.map_eq_some_iff.mp stepped
        rw [Link.side_put, Side.act_reader acted]
        exact idle
    | takeNext =>
        obtain ⟨side, taken, rfl⟩ := Option.map_eq_some_iff.mp stepped
        rw [Link.side_put, Side.takeNext_reader taken]
        exact idle
    | transmit =>
        obtain ⟨side, sent, rfl⟩ := Option.map_eq_some_iff.mp stepped
        rw [Link.side_put, Side.transmit_reader sent]
        exact idle
    | receive =>
        obtain ⟨frame, rest, -, -, -, rfl⟩ := Link.receive_eq stepped
        rw [Link.side_put]
        exact Side.dispatch_waits frame idle
    | answer =>
        obtain ⟨side, answered, rfl⟩ := Option.map_eq_some_iff.mp stepped
        rw [Link.side_put]
        exact Side.answer_waits answered (room rfl)
    | resume =>
        obtain ⟨side, resumed, rfl⟩ := Option.map_eq_some_iff.mp stepped
        rw [Link.side_put]
        exact Side.resume_waits resumed
    | close =>
        cases stepped
        rw [Link.side_put]
        rfl
  · obtain ⟨channel, same⟩ := Link.step_peer stepped
    rw [same]
    exact idle

/-- An end reaches its stream limit with a full queue: two OPENs are with the channel and the
writer, two streams are given up for their CANCEL, and two more OPENs wait for room. -/
def fillUp (here : Endpoint) : List (Endpoint × Action) :=
  ((List.range maxStreams).flatMap fun index =>
    [(here, .openStream "a" false), (here, .act index .sendOpen)]) ++
  [(here, .takeNext), (here, .transmit), (here, .takeNext)] ++
  ([0, 1].flatMap fun index =>
    [(here, .act index .dropApp), (here, .act index .abort), (here, .act index .sendCancel)]) ++
  [(here, .openStream "a" false), (here, .openStream "a" false)]

/-- An OPEN that waits takes the room the writer makes. -/
def refill (here : Endpoint) : List (Endpoint × Action) :=
  [(here, .transmit), (here, .takeNext), (here, .act maxStreams .sendOpen)]

end Zeron.Mux
