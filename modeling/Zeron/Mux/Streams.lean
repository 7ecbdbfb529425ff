import Mathlib

namespace Zeron.Mux

/-! # Streams of a preview connection

One end of a multiplexed stream: the slot the reader finds by the stream's id, the
bridge task with its sending and its receiving half, the two pipes between that task
and the application, and the application's own `Stream`.
-/

def chunk : Nat := 8192
def window : Nat := 65536
def maxStreams : Nat := 64

inductive Kind
  | opens
  | data
  | ends
  | cancel
  | wsOpen
  | wsData
  | wsClose
  | credit
  | ready
  deriving DecidableEq, Repr

structure Frame where
  kind : Kind
  id : Nat
  data : List UInt8
  deriving DecidableEq, Repr

/-- A count as the four bytes of a `u32`, the highest first. -/
def countBytes (count : Nat) : List UInt8 :=
  [UInt8.ofNat (count / 16777216), UInt8.ofNat (count / 65536), UInt8.ofNat (count / 256),
    UInt8.ofNat count]

def countOf (bytes : List UInt8) : Nat :=
  bytes.foldl (fun count byte => count * 256 + byte.toNat) 0

@[simp] theorem length_countBytes (count : Nat) : (countBytes count).length = 4 := rfl

theorem countOf_countBytes {count : Nat} (fits : count < 4294967296) :
    countOf (countBytes count) = count := by
  simp only [countOf, countBytes, List.foldl_cons, List.foldl_nil, UInt8.toNat_ofNat']
  omega

/-- One direction of a duplex pipe of `window` bytes.  Either side closes it. -/
structure Pipe where
  bytes : List UInt8
  closed : Bool
  deriving DecidableEq, Repr

def Pipe.fresh : Pipe := ⟨[], false⟩

def Pipe.close (pipe : Pipe) : Pipe := { pipe with closed := true }

def Pipe.room (pipe : Pipe) : Nat := window - pipe.bytes.length

/-- The one-shot channel `ready`. -/
inductive Ready
  | unsent
  | sent (available : Bool)
  deriving DecidableEq, Repr

/-- Who has the application's end: `open` before its OPEN is queued and until the answer,
the task of an accepted OPEN until it queued READY, then the application. -/
inductive App
  | opening (service : List UInt8)
  | awaiting
  | connecting
  | held
  | dropped
  deriving DecidableEq, Repr

/-- Where the sending half of the bridge waits. -/
inductive Sending
  | reading
  | holding (bytes : List UInt8)
  | queueing (frame : Frame)
  | done
  deriving DecidableEq, Repr

/-- Where the receiving half of the bridge waits. -/
inductive Receiving
  | waiting
  | writing (rest : List UInt8) (length : Nat)
  | crediting (length : Nat)
  | done
  deriving DecidableEq, Repr

/-- The bridge task: in its `select!`, out of the table with a CANCEL to queue, or over. -/
inductive Phase
  | running
  | leaving
  | ended
  deriving DecidableEq, Repr

/-- `written` and `consumed` are all the bytes the application wrote and read. -/
structure Stream where
  id : Nat
  websocket : Bool
  incoming : List Frame
  credit : Nat
  cancelled : Bool
  ready : Ready
  receiveCredit : Nat
  sending : Sending
  receiving : Receiving
  phase : Phase
  upstream : Pipe
  downstream : Pipe
  app : App
  readEof : Bool
  writeClosed : Bool
  written : List UInt8
  consumed : List UInt8
  deriving DecidableEq, Repr

def Stream.fresh (id : Nat) (websocket : Bool) (app : App) : Stream where
  id := id
  websocket := websocket
  incoming := []
  credit := window
  cancelled := false
  ready := .unsent
  receiveCredit := window
  sending := .reading
  receiving := .waiting
  phase := .running
  upstream := .fresh
  downstream := .fresh
  app := app
  readEof := false
  writeClosed := false
  written := []
  consumed := []

/-! ## The application's end -/

/-- The frames an act puts on the outgoing queue, at most one. -/
abbrev Acted := Option (Stream × List Frame)

def Stream.openFrame (stream : Stream) (service : List UInt8) : Frame :=
  ⟨if stream.websocket then .wsOpen else .opens, stream.id, service⟩

def Stream.sendOpen (stream : Stream) : Acted :=
  match stream.app with
  | .opening service => some ({ stream with app := .awaiting }, [stream.openFrame service])
  | _ => none

def Stream.opened (stream : Stream) : Acted :=
  if stream.app = .awaiting ∧ stream.ready = .sent true then
    some ({ stream with app := .held }, [])
  else none

def Stream.sendReady (stream : Stream) : Acted :=
  if stream.app = .connecting then
    some ({ stream with app := .held }, [⟨.ready, stream.id, []⟩])
  else none

def Stream.write (stream : Stream) (bytes : List UInt8) : Acted :=
  let taken := bytes.take stream.upstream.room
  if stream.app = .held ∧ stream.upstream.closed = false ∧ taken ≠ [] then
    some ({ stream with
      upstream := { stream.upstream with bytes := stream.upstream.bytes ++ taken }
      written := stream.written ++ taken }, [])
  else none

def Stream.shutdown (stream : Stream) : Acted :=
  if stream.app = .held then
    some ({ stream with upstream := stream.upstream.close, writeClosed := true }, [])
  else none

def Stream.read (stream : Stream) (count : Nat) : Acted :=
  if stream.app = .held ∧ 0 < count then
    if stream.downstream.bytes ≠ [] then
      some ({ stream with
        downstream := { stream.downstream with bytes := stream.downstream.bytes.drop count }
        consumed := stream.consumed ++ stream.downstream.bytes.take count }, [])
    else if stream.downstream.closed then some ({ stream with readEof := true }, [])
    else none
  else none

def Stream.dropApp (stream : Stream) : Acted :=
  if stream.app ≠ .dropped then
    some ({ stream with
      app := .dropped
      cancelled := stream.cancelled || !(stream.readEof && stream.writeClosed)
      upstream := stream.upstream.close
      downstream := stream.downstream.close }, [])
  else none

/-! ## The bridge task -/

def Stream.readChunk (stream : Stream) : Acted :=
  if stream.phase = .running ∧ stream.sending = .reading ∧ stream.upstream.bytes ≠ [] then
    some ({ stream with
      sending := .holding (stream.upstream.bytes.take chunk)
      upstream := { stream.upstream with bytes := stream.upstream.bytes.drop chunk } }, [])
  else none

def Stream.endFrame (stream : Stream) : Frame :=
  ⟨if stream.websocket then .wsClose else .ends, stream.id, []⟩

def Stream.readEnd (stream : Stream) : Acted :=
  if stream.phase = .running ∧ stream.sending = .reading ∧ stream.upstream.bytes = [] ∧
      stream.upstream.closed = true then
    some ({ stream with sending := .queueing stream.endFrame }, [])
  else none

def Stream.dataFrame (stream : Stream) (bytes : List UInt8) : Frame :=
  ⟨if stream.websocket then .wsData else .data, stream.id, bytes⟩

/-- `acquire_many`, then `forget`. -/
def Stream.acquire (stream : Stream) : Acted :=
  match stream.sending with
  | .holding bytes =>
      if stream.phase = .running ∧ bytes.length ≤ stream.credit then
        some ({ stream with
          sending := .queueing (stream.dataFrame bytes)
          credit := stream.credit - bytes.length }, [])
      else none
  | _ => none

def Frame.isEnd (frame : Frame) : Bool := frame.kind = .ends || frame.kind = .wsClose

def Frame.isData (frame : Frame) : Bool := frame.kind = .data || frame.kind = .wsData

def Frame.isOpen (frame : Frame) : Bool := frame.kind = .opens || frame.kind = .wsOpen

def Stream.sendFrame (stream : Stream) : Acted :=
  match stream.sending with
  | .queueing frame =>
      if stream.phase = .running then
        some ({ stream with sending := if frame.isEnd then .done else .reading }, [frame])
      else none
  | _ => none

/-- `input.recv`. -/
def Stream.takeFrame (stream : Stream) : Acted :=
  match stream.incoming with
  | frame :: rest =>
      if stream.phase = .running ∧ stream.receiving = .waiting then
        if frame.isEnd then
          some ({ stream with
            incoming := rest
            receiving := .done
            downstream := stream.downstream.close }, [])
        else
          some ({ stream with
            incoming := rest
            receiving := .writing frame.data frame.data.length }, [])
      else none
  | [] => none

/-- One step of `write_all`; after its last one the receive credit is given back. -/
def Stream.deliver (stream : Stream) : Acted :=
  match stream.receiving with
  | .writing rest length =>
      let room := stream.downstream.room
      if stream.phase = .running ∧ stream.downstream.closed = false ∧ (0 < room ∨ rest = []) then
        let downstream :=
          { stream.downstream with bytes := stream.downstream.bytes ++ rest.take room }
        if rest.drop room = [] then
          some ({ stream with
            downstream := downstream
            receiving := .crediting length
            receiveCredit := stream.receiveCredit + length }, [])
        else
          some ({ stream with
            downstream := downstream
            receiving := .writing (rest.drop room) length }, [])
      else none
  | _ => none

def Stream.sendCredit (stream : Stream) : Acted :=
  match stream.receiving with
  | .crediting length =>
      if stream.phase = .running then
        some ({ stream with receiving := .waiting }, [⟨.credit, stream.id, countBytes length⟩])
      else none
  | _ => none

/-- The bridge goes: the application reads what is left in its pipe, then end-of-file. -/
def Stream.endTask (stream : Stream) : Stream :=
  { stream with
    phase := .ended
    upstream := stream.upstream.close
    downstream := stream.downstream.close }

/-- Both halves are done. -/
def Stream.finish (stream : Stream) : Acted :=
  if stream.phase = .running ∧ stream.sending = .done ∧ stream.receiving = .done then
    some (stream.endTask, [])
  else none

/-- The write half meets a pipe the application closed. -/
def Stream.broken (stream : Stream) : Bool :=
  stream.downstream.closed && stream.receiving matches .writing _ _

def Stream.abort (stopped : Bool) (stream : Stream) : Acted :=
  if stream.phase = .running ∧ (stopped || stream.cancelled || stream.broken) = true then
    some ({ stream with phase := .leaving }, [])
  else none

def Stream.sendCancel (stopped : Bool) (stream : Stream) : Acted :=
  if stream.phase = .leaving then
    some (stream.endTask, if stopped then [] else [⟨.cancel, stream.id, []⟩])
  else none

inductive Act
  | sendOpen
  | opened
  | sendReady
  | write (bytes : List UInt8)
  | shutdown
  | read (count : Nat)
  | dropApp
  | readChunk
  | readEnd
  | acquire
  | sendFrame
  | takeFrame
  | deliver
  | sendCredit
  | finish
  | abort
  | sendCancel
  deriving DecidableEq, Repr

def Stream.act (stopped : Bool) (stream : Stream) : Act → Acted
  | .sendOpen => stream.sendOpen
  | .opened => stream.opened
  | .sendReady => stream.sendReady
  | .write bytes => stream.write bytes
  | .shutdown => stream.shutdown
  | .read count => stream.read count
  | .dropApp => stream.dropApp
  | .readChunk => stream.readChunk
  | .readEnd => stream.readEnd
  | .acquire => stream.acquire
  | .sendFrame => stream.sendFrame
  | .takeFrame => stream.takeFrame
  | .deliver => stream.deliver
  | .sendCredit => stream.sendCredit
  | .finish => stream.finish
  | .abort => stream.abort stopped
  | .sendCancel => stream.sendCancel stopped

/-- The acts that take the task out of its `select!`, and the stream out of the table. -/
def Act.leaves : Act → Bool
  | .finish => true
  | .abort => true
  | _ => false

/-! ## What the reader does with a frame of a stream -/

inductive Stop
  | closed
  | invalidOpen
  | invalidCredit
  | invalidWindow
  | windowExceeded
  | unknownFrame
  deriving DecidableEq, Repr

/-- `incoming.try_send`. -/
def Stream.push (stream : Stream) (frame : Frame) : Stream :=
  if stream.incoming.length < window + 2 then
    { stream with incoming := stream.incoming ++ [frame] }
  else { stream with cancelled := true }

def Stream.answer (stream : Stream) (available : Bool) : Stream :=
  { stream with
    ready := match stream.ready with
      | .unsent => .sent available
      | .sent earlier => .sent earlier }

def Stream.dispatch (stream : Stream) (frame : Frame) : Except Stop Stream :=
  match frame.kind with
  | .ready => .ok (stream.answer true)
  | .cancel => .ok ({ stream with cancelled := true }.answer false)
  | .credit =>
      if frame.data.length = 4 then
        let count := countOf frame.data
        if 0 < count ∧ count ≤ window ∧ stream.credit + count ≤ window then
          .ok { stream with credit := stream.credit + count }
        else .error .invalidWindow
      else .error .invalidCredit
  | .data | .wsData =>
      if frame.data ≠ [] ∧ frame.data.length ≤ stream.receiveCredit then
        .ok ({ stream with receiveCredit := stream.receiveCredit - frame.data.length }.push frame)
      else .error .windowExceeded
  | .ends | .wsClose => .ok (stream.push frame)
  | .opens | .wsOpen => .error .unknownFrame

end Zeron.Mux
