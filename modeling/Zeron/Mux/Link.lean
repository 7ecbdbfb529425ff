import Mathlib
import Zeron.Data.Runs
import Zeron.Data.ByteOrder
import Zeron.Mux.Streams

namespace Zeron.Mux

/-! # Two ends of a preview connection

Each end has its table of slots, its queue of outgoing frames, a writer with one frame
in hand, a reader, and a channel of a given capacity to the other end.  Every task of
either end takes one step at a time, in any order.
-/

def outgoingCapacity : Nat := 64

/-- The reader takes the next frame, is about to queue the answer to a rejected OPEN, or
waits for room in its own outgoing queue to do so. -/
inductive Reader
  | receiving
  | rejecting (frame : Frame)
  | waiting (frame : Frame)
  deriving DecidableEq, Repr

/-- `slots` gives the position in `streams` of the stream with an id.  `channel` is what
the writer sent and the other end has not received, the oldest first. -/
structure Side where
  parity : Nat
  ids : Nat
  slots : List (Nat × Nat)
  streams : List Stream
  outgoing : List Frame
  writing : Option Frame
  channel : List Frame
  reader : Reader
  stopped : Option Stop
  deriving DecidableEq, Repr

def Side.start (initiator : Bool) : Side where
  parity := if initiator then 1 else 0
  ids := if initiator then 1 else 2
  slots := []
  streams := []
  outgoing := []
  writing := none
  channel := []
  reader := .receiving
  stopped := none

/-- The frames from the outgoing queue to the other end's reader, the oldest first. -/
def Side.path (side : Side) : List Frame := side.channel ++ side.writing.toList ++ side.outgoing

def Side.hasRoom (side : Side) : Bool :=
  side.stopped.isNone && decide (side.outgoing.length < outgoingCapacity)

/-- `close`: the table is drained, and every token is a child of `stop`. -/
def Side.stop (side : Side) (reason : Stop) : Side :=
  { side with stopped := some reason, slots := [], reader := .receiving }

/-- `stream`: a slot of its own for an id, or `none`. -/
def Side.stream (side : Side) (id : Nat) (websocket : Bool) (app : App) : Option Side :=
  if side.slots.length < maxStreams ∧ side.slots.lookup id = none then
    some { side with
      slots := (id, side.streams.length) :: side.slots
      streams := side.streams ++ [.fresh id websocket app] }
  else none

/-- `open` until it waits to queue its OPEN.  `ids` is a `u32` that wraps. -/
def Side.openStream (side : Side) (service : String) (websocket : Bool) : Side :=
  let bytes := Data.utf8 service
  if bytes ≠ [] ∧ bytes.length ≤ 128 then
    let id := side.ids
    let side := { side with ids := (id + 2) % 4294967296 }
    if id < 4294967295 - 2 then
      (side.stream id websocket (.opening bytes)).getD side
    else side
  else side

/-- A step of one of the stream's tasks, with room for the frame it queues. -/
def Side.act (side : Side) (index : Nat) (act : Act) : Option Side :=
  match side.streams[index]? with
  | some stream =>
      match stream.act side.stopped.isSome act with
      | some (after, frames) =>
          if frames = [] ∨ side.hasRoom = true then
            some { side with
              streams := side.streams.set index after
              outgoing := side.outgoing ++ frames
              slots := if act.leaves then side.slots.filter (·.1 ≠ stream.id) else side.slots }
          else none
      | none => none
  | none => none

/-- The reader with an OPEN frame. -/
def Side.accept (side : Side) (frame : Frame) : Side :=
  if frame.id ≠ 0 ∧ frame.id % 2 ≠ side.parity ∧ 1 ≤ frame.data.length ∧ frame.data.length ≤ 128 then
    if (String.fromUTF8? ⟨frame.data.toArray⟩).isSome then
      match side.stream frame.id (frame.kind = .wsOpen) .connecting with
      | some side => side
      | none => { side with reader := .rejecting ⟨.cancel, frame.id, []⟩ }
    else side.stop .invalidOpen
  else side.stop .invalidOpen

/-- The position of the stream the table has for an id. -/
def Side.slot (side : Side) (id : Nat) : Option (Nat × Stream) :=
  (side.slots.lookup id).bind fun index => (side.streams[index]?).map fun stream => (index, stream)

/-- `dispatch`; an error ends the reader, and the connection with it. -/
def Side.dispatch (side : Side) (frame : Frame) : Side :=
  if frame.isOpen then side.accept frame
  else
    match side.slot frame.id with
    | none => side
    | some (index, stream) =>
        match stream.dispatch frame with
        | .ok after => { side with streams := side.streams.set index after }
        | .error reason => side.stop reason

/-- The first poll of the reader's own send. -/
def Side.answer (side : Side) : Option Side :=
  match side.reader with
  | .rejecting frame =>
      if side.stopped.isSome then none
      else if side.hasRoom then
        some { side with reader := .receiving, outgoing := side.outgoing ++ [frame] }
      else some { side with reader := .waiting frame }
  | _ => none

def Side.resume (side : Side) : Option Side :=
  match side.reader with
  | .waiting frame =>
      if side.hasRoom then
        some { side with reader := .receiving, outgoing := side.outgoing ++ [frame] }
      else none
  | _ => none

/-- The writer takes the next frame of its queue. -/
def Side.takeNext (side : Side) : Option Side :=
  match side.outgoing with
  | frame :: rest =>
      if side.stopped.isNone ∧ side.writing = none then
        some { side with outgoing := rest, writing := some frame }
      else none
  | [] => none

def Side.transmit (capacity : Nat) (side : Side) : Option Side :=
  match side.writing with
  | some frame =>
      if side.stopped.isNone ∧ side.channel.length < capacity then
        some { side with writing := none, channel := side.channel ++ [frame] }
      else none
  | none => none

/-! ## Both ends -/

inductive Endpoint
  | left
  | right
  deriving DecidableEq, Repr

def Endpoint.peer : Endpoint → Endpoint
  | .left => .right
  | .right => .left

structure Link where
  left : Side
  right : Side
  deriving DecidableEq, Repr

def Link.start : Link := ⟨.start true, .start false⟩

def Link.side (link : Link) : Endpoint → Side
  | .left => link.left
  | .right => link.right

def Link.put (link : Link) : Endpoint → Side → Link
  | .left, side => { link with left := side }
  | .right, side => { link with right := side }

inductive Action
  | openStream (service : String) (websocket : Bool)
  | act (index : Nat) (act : Act)
  | takeNext
  | transmit
  | receive
  | answer
  | resume
  | close
  deriving DecidableEq, Repr

/-- The reader of an end with the next frame of the other end's channel. -/
def Link.receive (link : Link) (here : Endpoint) : Option Link :=
  let side := link.side here
  let peer := link.side here.peer
  match peer.channel with
  | frame :: rest =>
      if side.stopped.isNone ∧ side.reader = .receiving then
        some ((link.put here.peer { peer with channel := rest }).put here (side.dispatch frame))
      else none
  | [] => none

def Link.step (capacity : Nat) (link : Link) : Endpoint × Action → Option Link
  | (here, .openStream service websocket) =>
      some (link.put here ((link.side here).openStream service websocket))
  | (here, .act index act) => ((link.side here).act index act).map (link.put here)
  | (here, .takeNext) => (link.side here).takeNext.map (link.put here)
  | (here, .transmit) => ((link.side here).transmit capacity).map (link.put here)
  | (here, .receive) => link.receive here
  | (here, .answer) => (link.side here).answer.map (link.put here)
  | (here, .resume) => (link.side here).resume.map (link.put here)
  | (here, .close) => some (link.put here ((link.side here).stop .closed))

@[simp] theorem Endpoint.peer_peer (here : Endpoint) : here.peer.peer = here := by
  cases here <;> rfl

theorem Endpoint.peer_ne (here : Endpoint) : here.peer ≠ here := by
  cases here <;> decide

theorem Endpoint.eq_or (here other : Endpoint) : other = here ∨ other = here.peer := by
  cases here <;> cases other <;> decide

@[simp] theorem Link.side_put (link : Link) (here : Endpoint) (side : Side) :
    (link.put here side).side here = side := by
  cases here <;> rfl

@[simp] theorem Link.side_put_peer (link : Link) (here : Endpoint) (side : Side) :
    (link.put here side).side here.peer = link.side here.peer := by
  cases here <;> rfl

@[simp] theorem Link.side_peer_put (link : Link) (here : Endpoint) (side : Side) :
    (link.put here.peer side).side here = link.side here := by
  cases here <;> rfl

variable {capacity : Nat} {link after : Link} {here : Endpoint} {action : Action}

/-- A frame the reader takes leaves the other end's channel. -/
theorem Link.receive_eq (received : link.receive here = some after) :
    ∃ frame rest, (link.side here.peer).channel = frame :: rest ∧
      (link.side here).stopped = none ∧ (link.side here).reader = .receiving ∧
      after = (link.put here.peer { link.side here.peer with channel := rest }).put here
        ((link.side here).dispatch frame) := by
  unfold Link.receive at received
  dsimp only at received
  split at received
  next frame rest channel =>
      obtain ⟨⟨running, receiving⟩, same⟩ := Option.ite_none_right_eq_some.mp received
      exact ⟨frame, rest, channel, Option.isNone_iff_eq_none.mp running, receiving,
        (Option.some.inj same).symm⟩
  next => cases received

/-- A step of one end changes nothing of the other but what it receives from its channel. -/
theorem Link.step_peer (stepped : link.step capacity (here, action) = some after) :
    ∃ channel, after.side here.peer = { link.side here.peer with channel := channel } := by
  cases action with
  | openStream service websocket =>
      cases stepped
      exact ⟨_, Link.side_put_peer ..⟩
  | close =>
      cases stepped
      exact ⟨_, Link.side_put_peer ..⟩
  | receive =>
      obtain ⟨frame, rest, -, -, -, rfl⟩ := Link.receive_eq stepped
      refine ⟨rest, ?_⟩
      rw [Link.side_put_peer, Link.side_put]
  | act index act =>
      obtain ⟨side, -, rfl⟩ := Option.map_eq_some_iff.mp stepped
      exact ⟨_, Link.side_put_peer ..⟩
  | takeNext =>
      obtain ⟨side, -, rfl⟩ := Option.map_eq_some_iff.mp stepped
      exact ⟨_, Link.side_put_peer ..⟩
  | transmit =>
      obtain ⟨side, -, rfl⟩ := Option.map_eq_some_iff.mp stepped
      exact ⟨_, Link.side_put_peer ..⟩
  | answer =>
      obtain ⟨side, -, rfl⟩ := Option.map_eq_some_iff.mp stepped
      exact ⟨_, Link.side_put_peer ..⟩
  | resume =>
      obtain ⟨side, -, rfl⟩ := Option.map_eq_some_iff.mp stepped
      exact ⟨_, Link.side_put_peer ..⟩

end Zeron.Mux
