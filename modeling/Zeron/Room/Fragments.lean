import Zeron.Data.Runs
import Zeron.Data.Slots

namespace Zeron.Room

open Zeron.Data

/-! # Fragment reassembly on a session socket

An update too large for one frame comes as a header and its fragments.  The room counts
the fragments of a batch and hands the buffer on when there are as many as slots; the
slots are addressed by the index the fragment names.
-/

abbrev Bytes := List UInt8

/-- The crdt magic of a frame. -/
inductive CrdtType where
  | loro
  | loroEphemeralStore
  | other (magic : String)
deriving DecidableEq, Repr

structure DocUpdateFragmentHeader where
  crdt : CrdtType
  roomId : String
  batchId : String
  fragmentCount : Nat
  totalSizeBytes : Nat
deriving DecidableEq, Repr

structure DocUpdateFragment where
  crdt : CrdtType
  roomId : String
  batchId : String
  index : Nat
  fragment : Bytes
deriving DecidableEq, Repr

inductive UpdateStatusCode where
  | ok
  | permissionDenied
  | payloadTooLarge
  | invalidUpdate
  | fragmentTimeout
deriving DecidableEq, Repr

/-- What an array copy throws: a `RangeError` is counted as a poisoned heap. -/
inductive Thrown where
  | rangeError
  | typeError
deriving DecidableEq, Repr

/-- `fragments.get(ws).get(batchId)`; a part nobody wrote is a hole of the array. -/
structure FragmentBatch where
  parts : List (Option Bytes)
  received : Nat
  totalSize : Nat
  header : DocUpdateFragmentHeader

/-- `rooms` of the attachment and the open batches of the socket. -/
structure Socket where
  rooms : List CrdtType := []
  fragments : String → Option FragmentBatch := fun _ => none

inductive Answer where
  | silent
  | ack (code : UpdateStatusCode)
  | applyUpdates (crdt : CrdtType) (roomId batchId : String) (total : Bytes)
  | throws (error : Thrown)
deriving DecidableEq, Repr

def maxReassembledBytes : Nat := 32 * 1024 * 1024
def maxFragmentCount : Nat := 4096
def penaltyProbeMaxBytes : Nat := 4096

/-- The code a header is refused with; `penalized` is what `importPenalized` answers. -/
def refusal (rooms : List CrdtType) (message : DocUpdateFragmentHeader) (penalized : Bool) :
    Option UpdateStatusCode :=
  if message.crdt ∉ rooms then some .permissionDenied
  else if message.totalSizeBytes > maxReassembledBytes ∨
      message.fragmentCount > maxFragmentCount then some .payloadTooLarge
  else if message.crdt = .loro ∧ message.totalSizeBytes > penaltyProbeMaxBytes ∧ penalized then
    some .invalidUpdate
  else none

def openBatch (message : DocUpdateFragmentHeader) : FragmentBatch where
  parts := List.replicate message.fragmentCount (some [])
  received := 0
  totalSize := message.totalSizeBytes
  header := message

def handleFragmentHeader (socket : Socket) (message : DocUpdateFragmentHeader)
    (penalized : Bool) : Socket × Answer :=
  match refusal socket.rooms message penalized with
  | some code => (socket, .ack code)
  | none =>
      ({ socket with
          fragments := Function.update socket.fragments message.batchId (openBatch message) },
        .silent)

/-- Array indices end below this; a larger one names a plain property of the array. -/
def arrayIndexLimit : Nat := 2 ^ 32 - 1

/-- `parts[index] = fragment`: an index past the end grows the array and leaves holes. -/
def setPart (parts : List (Option Bytes)) (index : Nat) (fragment : Bytes) :
    List (Option Bytes) :=
  if index < parts.length then parts.set index (some fragment)
  else if index < arrayIndexLimit then
    parts ++ List.replicate (index - parts.length) none ++ [some fragment]
  else parts

/-- The parts are copied one behind the other; one that does not fit, or a hole, throws. -/
def copyParts (total : Bytes) (off : Nat) : List (Option Bytes) → Except Thrown Bytes
  | [] => .ok total
  | none :: _ => .error .typeError
  | some part :: rest =>
      if off + part.length > total.length then .error .rangeError
      else copyParts (total.take off ++ part ++ total.drop (off + part.length))
        (off + part.length) rest

def handleFragment (socket : Socket) (message : DocUpdateFragment) (penalized : Bool) :
    Socket × Answer :=
  match socket.fragments message.batchId with
  | none =>
      if message.crdt = .loro ∧ penalized then (socket, .silent)
      else (socket, .ack .fragmentTimeout)
  | some batch =>
      let parts := setPart batch.parts message.index message.fragment
      let received := batch.received + 1
      if received < parts.length then
        ({ socket with
            fragments := Function.update socket.fragments message.batchId
              (some { batch with parts, received }) },
          .silent)
      else
        ({ socket with fragments := Function.update socket.fragments message.batchId none },
          match copyParts (List.replicate batch.totalSize 0) 0 parts with
          | .ok total => .applyUpdates message.crdt message.roomId message.batchId total
          | .error error => .throws error)

/-! ## Runs of one socket -/

inductive Frame where
  | header (message : DocUpdateFragmentHeader)
  | fragment (message : DocUpdateFragment)
deriving DecidableEq, Repr

/-- Between the frames the socket joins and leaves rooms, and hibernation loses the batches. -/
inductive SocketEvent where
  | frame (frame : Frame) (penalized : Bool)
  | member (rooms : List CrdtType)
  | hibernate

/-- The socket with every frame that came in and its answer. -/
structure Session where
  socket : Socket := {}
  log : List (Frame × Answer) := []

def handle (socket : Socket) (penalized : Bool) : Frame → Socket × Answer
  | .header message => handleFragmentHeader socket message penalized
  | .fragment message => handleFragment socket message penalized

def Session.step (session : Session) : SocketEvent → Option Session
  | .frame frame penalized =>
      let handled := handle session.socket penalized frame
      some { socket := handled.1, log := session.log ++ [(frame, handled.2)] }
  | .member rooms => some { session with socket := { session.socket with rooms } }
  | .hibernate =>
      some { session with socket := { session.socket with fragments := fun _ => none } }

/-! ## What a batch was sent -/

/-- The latest header of a batch id and the fragments of that id since it. -/
structure Sending where
  header : DocUpdateFragmentHeader
  pieces : List DocUpdateFragment := []

def Sending.next (id : String) (sending : Option Sending) : Frame → Option Sending
  | .header message => if message.batchId = id then some { header := message } else sending
  | .fragment message =>
      if message.batchId = id then
        sending.map fun sent => { sent with pieces := sent.pieces ++ [message] }
      else sending

def latest (frames : List Frame) (id : String) : Option Sending :=
  frames.foldl (Sending.next id) none

/-- Every index below the count has a fragment, and the bytes are these fragments in index
order, as many bytes as the header announced. -/
structure Sending.Reassembles (sent : Sending) (bytes : Bytes) : Prop where
  concatenated : ∃ parts : List Bytes, parts.length = sent.header.fragmentCount ∧
    bytes = parts.flatten ∧
    ∀ index part, parts[index]? = some part →
      ∃ piece ∈ sent.pieces, piece.index = index ∧ piece.fragment = part
  announced : bytes.length = sent.header.totalSizeBytes

def Frame.batchId : Frame → String
  | .header message => message.batchId
  | .fragment message => message.batchId

/-- An answer that hands bytes on hands on the whole batch, an ack refuses, nothing throws. -/
def Exact (earlier : List Frame) (frame : Frame) : Answer → Prop
  | .silent => True
  | .ack code => code ≠ .ok
  | .applyUpdates _ _ batchId total => ∃ sent, latest (earlier ++ [frame]) batchId = some sent ∧
      sent.Reassembles total
  | .throws _ => False

def Session.Sound (session : Session) : Prop :=
  ∀ before frame answer after, session.log = before ++ (frame, answer) :: after →
    Exact (before.map Prod.fst) frame answer

def Session.frames (session : Session) : List Frame := session.log.map Prod.fst

/-- The fragment has a slot of its own, and the one that fills the last slot completes the
announced size. -/
def Sending.Fits (sent : Sending) (message : DocUpdateFragment) : Prop :=
  message.index < sent.header.fragmentCount ∧
  message.index ∉ sent.pieces.map DocUpdateFragment.index ∧
  (sent.pieces.length + 1 = sent.header.fragmentCount →
    (sent.pieces.map fun piece => piece.fragment.length).sum + message.fragment.length =
      sent.header.totalSizeBytes)

/-- The frames of a careful sender: no header is refused while a batch of its id is open, and
the fragments of an open batch fit. -/
def Session.Careful (session : Session) : SocketEvent → Prop
  | .frame (.header message) penalized =>
      refusal session.socket.rooms message penalized = none ∨
        (session.socket.fragments message.batchId).isNone
  | .frame (.fragment message) _ => (session.socket.fragments message.batchId).isSome →
      ∀ sent ∈ latest session.frames message.batchId, sent.Fits message
  | .member _ | .hibernate => True

/-! ## The counter counts the filled slots -/

def Sending.keyed (sent : Sending) : List (Nat × Bytes) :=
  sent.pieces.map fun piece => (piece.index, piece.fragment)

def Sending.add (sent : Sending) (message : DocUpdateFragment) : Sending :=
  { sent with pieces := sent.pieces ++ [message] }

/-- An open batch holds what was sent under its id since the latest header. -/
structure Holds (sent : Sending) (batch : FragmentBatch) : Prop where
  totalSize : batch.totalSize = sent.header.totalSizeBytes
  received : batch.received = sent.pieces.length
  apart : Apart sent.header.fragmentCount sent.keyed
  parts : batch.parts = (slots [] sent.header.fragmentCount sent.keyed).map .some

variable {sent : Sending} {batch : FragmentBatch} {message : DocUpdateFragment}
  {fragments : String → Option FragmentBatch} {frames : List Frame} {frame : Frame}
  {id : String} {session after : Session}

theorem Sending.keyed_add (sent : Sending) (message : DocUpdateFragment) :
    (sent.add message).keyed = sent.keyed ++ [(message.index, message.fragment)] :=
  List.map_append

theorem Sending.keys (sent : Sending) :
    sent.keyed.map Prod.fst = sent.pieces.map DocUpdateFragment.index := by
  rw [Sending.keyed, List.map_map]
  rfl

@[simp] theorem Sending.length_keyed (sent : Sending) : sent.keyed.length = sent.pieces.length :=
  List.length_map ..

theorem Holds.openBatch (message : DocUpdateFragmentHeader) :
    Holds { header := message } (openBatch message) where
  totalSize := rfl
  received := rfl
  apart := .nil _
  parts := List.map_replicate.symm

/-- A fragment that fits goes into a slot nobody wrote. -/
theorem Holds.add (holds : Holds sent batch) (inside : message.index < sent.header.fragmentCount)
    (fresh : message.index ∉ sent.pieces.map DocUpdateFragment.index) :
    Holds (sent.add message) { batch with
      parts := setPart batch.parts message.index message.fragment
      received := batch.received + 1 } where
  totalSize := holds.totalSize
  received := by
    dsimp only
    rw [holds.received, Sending.add, List.length_append, List.length_singleton]
  apart := by
    rw [Sending.keyed_add]
    exact holds.apart.concat _ inside (by rwa [Sending.keys])
  parts := by
    have bound : message.index < batch.parts.length := by
      rw [holds.parts, List.length_map, length_slots]
      exact inside
    dsimp only
    rw [setPart, if_pos bound, holds.parts, Sending.keyed_add]
    change _ = (slots [] sent.header.fragmentCount _).map _
    rw [slots_concat, List.map_set]

theorem copyParts_eq (parts : List Bytes) {total : Bytes} {off : Nat}
    (fits : off + parts.flatten.length = total.length) :
    copyParts total off (parts.map .some) = .ok (total.take off ++ parts.flatten) := by
  induction parts generalizing total off with
  | nil =>
      have whole : total.length ≤ off := by simpa using fits.ge
      rw [List.map_nil, copyParts, List.flatten_nil, List.append_nil,
        List.take_of_length_le whole]
  | cons part rest ih =>
      rw [List.flatten_cons, List.length_append] at fits
      have room : ¬ off + part.length > total.length := by omega
      have copied : (total.take off ++ part).length = off + part.length := by
        rw [List.length_append, List.length_take_of_le (by omega)]
      rw [List.map_cons, copyParts, if_neg room, ih, List.flatten_cons,
        List.take_append_of_le_length copied.ge, List.take_of_length_le copied.le,
        List.append_assoc]
      rw [List.length_append, copied, List.length_drop]
      omega

/-- With a fragment in every slot and the announced size, the copy is exact. -/
theorem Holds.complete (holds : Holds sent batch)
    (full : sent.header.fragmentCount ≤ sent.pieces.length)
    (whole : (sent.pieces.map fun piece => piece.fragment.length).sum =
      sent.header.totalSizeBytes) :
    ∃ total, copyParts (List.replicate batch.totalSize 0) 0 batch.parts = .ok total ∧
      sent.Reassembles total := by
  have announced : (slots [] sent.header.fragmentCount sent.keyed).flatten.length =
      sent.header.totalSizeBytes := by
    rw [holds.apart.length_flatten, ← whole, Sending.keyed, List.map_map]
    rfl
  refine ⟨(slots [] sent.header.fragmentCount sent.keyed).flatten, ?_, ⟨⟨_, length_slots .., rfl,
    ?_⟩, announced⟩⟩
  · rw [holds.parts, copyParts_eq]
    · rfl
    · rw [announced, List.length_replicate, holds.totalSize, Nat.zero_add]
  · intro index part read
    have inside : index < sent.header.fragmentCount := by
      have bound := (List.getElem?_eq_some_iff.mp read).1
      rwa [length_slots] at bound
    obtain ⟨value, member⟩ := holds.apart.covers (by rwa [Sending.length_keyed]) inside
    have same := (holds.apart.getElem?_slots [] member).symm.trans read
    cases same
    obtain ⟨piece, sentPiece, keyed⟩ := List.mem_map.mp member
    cases keyed
    exact ⟨piece, sentPiece, rfl, rfl⟩

/-! ## Every open batch is tracked -/

def Tracks (fragments : String → Option FragmentBatch) (frames : List Frame) : Prop :=
  ∀ id batch, fragments id = some batch → ∃ sent, latest frames id = some sent ∧ Holds sent batch

theorem latest_concat (frames : List Frame) (frame : Frame) (id : String) :
    latest (frames ++ [frame]) id = Sending.next id (latest frames id) frame := by
  rw [latest, List.foldl_append]
  rfl

theorem latest_concat_of_ne (different : frame.batchId ≠ id) :
    latest (frames ++ [frame]) id = latest frames id := by
  rw [latest_concat]
  cases frame <;> exact if_neg different

theorem latest_header (frames : List Frame) (message : DocUpdateFragmentHeader) :
    latest (frames ++ [.header message]) message.batchId = some { header := message } := by
  rw [latest_concat]
  exact if_pos rfl

theorem latest_fragment (sending : latest frames message.batchId = some sent) :
    latest (frames ++ [.fragment message]) message.batchId = some (sent.add message) := by
  rw [latest_concat, sending]
  exact if_pos rfl

/-- A frame only concerns the batch of its id. -/
theorem Tracks.update (tracks : Tracks fragments frames) (frame : Frame)
    {replaced : Option FragmentBatch}
    (holds : ∀ batch, replaced = some batch →
      ∃ sent, latest (frames ++ [frame]) frame.batchId = some sent ∧ Holds sent batch) :
    Tracks (Function.update fragments frame.batchId replaced) (frames ++ [frame]) := by
  intro id batch open_
  by_cases same : frame.batchId = id
  · subst same
    rw [Function.update_self] at open_
    exact holds batch open_
  · rw [Function.update_of_ne (Ne.symm same)] at open_
    rw [latest_concat_of_ne same]
    exact tracks id batch open_

theorem Tracks.closed (tracks : Tracks fragments frames) (frame : Frame)
    (closed : fragments frame.batchId = none) : Tracks fragments (frames ++ [frame]) := by
  have kept : Tracks (Function.update fragments frame.batchId none) (frames ++ [frame]) :=
    tracks.update frame (by simp)
  rwa [← closed, Function.update_eq_self] at kept

structure Session.Tracked (session : Session) : Prop where
  tracks : Tracks session.socket.fragments session.frames
  sound : session.Sound

theorem Session.Sound.concat {log : List (Frame × Answer)} {socket socket' : Socket}
    (sound : Session.Sound { socket, log }) {answer : Answer}
    (exact_ : Exact (log.map Prod.fst) frame answer) :
    Session.Sound { socket := socket', log := log ++ [(frame, answer)] } := by
  intro before other reply rest split
  rcases split_concat split with ⟨rfl, same, -⟩ | ⟨earlier, -, split⟩
  · cases same
    exact exact_
  · exact sound before other reply earlier split

theorem handleFragmentHeader_tracks {socket : Socket} {message : DocUpdateFragmentHeader}
    {penalized : Bool} (tracks : Tracks socket.fragments frames)
    (careful : refusal socket.rooms message penalized = none ∨
      (socket.fragments message.batchId).isNone) :
    Tracks (handleFragmentHeader socket message penalized).1.fragments
        (frames ++ [.header message]) ∧
      Exact frames (.header message) (handleFragmentHeader socket message penalized).2 := by
  unfold handleFragmentHeader
  cases refused : refusal socket.rooms message penalized with
  | none =>
      refine ⟨tracks.update (.header message) ?_, trivial⟩
      intro batch opened
      cases opened
      exact ⟨_, latest_header frames message, .openBatch message⟩
  | some code =>
      have closed : socket.fragments message.batchId = none := by
        simpa [refused] using careful
      refine ⟨tracks.closed (.header message) closed, ?_⟩
      unfold refusal at refused
      split_ifs at refused <;> cases refused <;> simp [Exact]

theorem handleFragment_tracks {socket : Socket} {penalized : Bool}
    (tracks : Tracks socket.fragments frames)
    (careful : (socket.fragments message.batchId).isSome →
      ∀ sent ∈ latest frames message.batchId, sent.Fits message) :
    Tracks (handleFragment socket message penalized).1.fragments
        (frames ++ [.fragment message]) ∧
      Exact frames (.fragment message) (handleFragment socket message penalized).2 := by
  unfold handleFragment
  cases opened : socket.fragments message.batchId with
  | none =>
      have kept : Tracks socket.fragments (frames ++ [.fragment message]) :=
        tracks.closed (.fragment message) opened
      dsimp only
      split
      · exact ⟨kept, trivial⟩
      · exact ⟨kept, by simp [Exact]⟩
  | some batch =>
      obtain ⟨sent, sending, holds⟩ := tracks _ _ opened
      obtain ⟨inside, fresh, completes⟩ := careful (by rw [opened]; rfl) sent sending
      have added := holds.add inside fresh
      have extended := latest_fragment sending
      dsimp only
      split
      · refine ⟨tracks.update (.fragment message) ?_, trivial⟩
        intro stored same
        cases same
        exact ⟨_, extended, added⟩
      · rename_i counted
        have size : (setPart batch.parts message.index message.fragment).length =
            sent.header.fragmentCount := by
          rw [show setPart batch.parts _ _ = _ from added.parts, List.length_map, length_slots]
          rfl
        rw [size, holds.received] at counted
        have full : sent.header.fragmentCount ≤ (sent.add message).pieces.length := by
          rw [Sending.add, List.length_append, List.length_singleton]
          omega
        -- There is one fragment for each slot, so this one filled the last.
        have last : sent.pieces.length + 1 = sent.header.fragmentCount := by
          have bounded := added.apart.length_le
          rw [Sending.length_keyed, Sending.add, List.length_append] at bounded
          exact Nat.le_antisymm bounded (not_lt.mp counted)
        have whole : ((sent.add message).pieces.map fun piece => piece.fragment.length).sum =
            sent.header.totalSizeBytes := by
          rw [Sending.add, List.map_append, List.sum_append]
          exact completes last
        obtain ⟨total, copied, reassembles⟩ := added.complete full whole
        dsimp only at copied
        rw [copied]
        refine ⟨tracks.update (.fragment message) (by simp), ?_⟩
        exact ⟨_, extended, reassembles⟩

theorem Session.Tracked.step (tracked : session.Tracked) {event : SocketEvent}
    (careful : session.Careful event) (stepped : session.step event = some after) :
    after.Tracked := by
  cases event with
  | member rooms =>
      cases stepped
      exact ⟨tracked.tracks, tracked.sound⟩
  | hibernate =>
      cases stepped
      refine ⟨?_, tracked.sound⟩
      intro id batch open_
      cases open_
  | frame frame penalized =>
      cases stepped
      have handled : Tracks (handle session.socket penalized frame).1.fragments
            (session.frames ++ [frame]) ∧
          Exact session.frames frame (handle session.socket penalized frame).2 := by
        cases frame with
        | header message => exact handleFragmentHeader_tracks tracked.tracks careful
        | fragment message => exact handleFragment_tracks tracked.tracks careful
      constructor
      · change Tracks _ (List.map Prod.fst (session.log ++ [_]))
        rw [List.map_append]
        exact handled.1
      · exact tracked.sound.concat handled.2

theorem tracked_new : Session.Tracked {} where
  tracks := by
    intro id batch opened
    cases opened
  sound := by
    intro before frame answer rest split
    cases before <;> cases split

/-- While the fragments of a batch fit and no refused header reuses the id of an open one,
whatever is handed on is what the sender cut up, and nothing throws. -/
theorem reassembly_exact (run : Reaches Session.step Session.Careful {} session) :
    session.Sound := by
  have tracked : session.Tracked := by
    apply run.keeps tracked_new
    intro before event after tracked careful stepped
    exact tracked.step careful stepped
  exact tracked.sound

instance (sent : Sending) (message : DocUpdateFragment) : Decidable (sent.Fits message) :=
  inferInstanceAs (Decidable (_ ∧ _ ∧ (_ → _)))

instance (session : Session) : DecidablePred session.Careful
  | .frame (.header _) _ => inferInstanceAs (Decidable (_ ∨ _))
  | .frame (.fragment message) _ =>
      inferInstanceAs (Decidable (_ → ∀ sent ∈ latest session.frames message.batchId, _))
  | .member _ | .hibernate => .isTrue trivial

def cut (count size : Nat) : SocketEvent :=
  .frame (.header ⟨.loro, "chat", "0x1", count, size⟩) false

def piece (index : Nat) (fragment : Bytes) : SocketEvent :=
  .frame (.fragment ⟨.loro, "chat", "0x1", index, fragment⟩) false

/-- A batch begins again under its id, and its fragments come in the other order. -/
theorem reassembly_exact_resent : ∃ session : Session,
    session.log.map Prod.snd = [.silent, .silent, .silent, .silent,
      .applyUpdates .loro "chat" "0x1" [1, 2, 3]] ∧ session.Sound := by
  have ran : (runAll Session.step (fun session event => decide (session.Careful event)) {}
      [.member [.loro], cut 2 3, piece 0 [7], cut 2 3, piece 1 [3], piece 0 [1, 2]]).map
      (fun session => session.log.map Prod.snd) = some [.silent, .silent, .silent, .silent,
        .applyUpdates .loro "chat" "0x1" [1, 2, 3]] := by
    decide
  obtain ⟨session, reached, answers⟩ := Option.map_eq_some_iff.mp ran
  exact ⟨session, answers, reassembly_exact
    ((reaches_of_runAll reached).mono fun _ _ checked => of_decide_eq_true checked)⟩

/-- A fragment longer than the announced size throws a `RangeError`. -/
theorem not_reassembly_exact : ¬ ∀ session,
    Reaches Session.step (fun _ _ => True) {} session → session.Sound := by
  intro always
  have ran : (runAll Session.step (fun _ _ => true) {}
      [.member [.loro], cut 1 1, piece 0 [1, 2]]).map Session.log =
      some [(.header ⟨.loro, "chat", "0x1", 1, 1⟩, .silent),
        (.fragment ⟨.loro, "chat", "0x1", 0, [1, 2]⟩, .throws .rangeError)] := by
    decide
  obtain ⟨session, reached, log⟩ := Option.map_eq_some_iff.mp ran
  have sound := always session ((reaches_of_runAll reached).mono fun _ _ _ => trivial)
  exact sound [_] _ _ [] log

end Zeron.Room
