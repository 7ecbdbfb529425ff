import Mathlib

namespace Zeron.Terminals

/-! # A live terminal

The reader thread hands raw chunks to the pump, which batches them into numbered events;
each event goes into the bounded replay window and to the subscribers attached now.
-/

/-- The base64 engine. -/
structure Base64 where
  encode : List UInt8 → String
  decode : String → Option (List UInt8)
  decode_encode : ∀ bytes, decode (encode bytes) = some bytes

inductive TerminalEvent where
  | data (seq : Nat) (data : String)
  | exit (seq : Nat) (exitCode : Int) (signal : Option String)
deriving DecidableEq, Repr

namespace TerminalEvent

def seq : TerminalEvent → Nat
  | .data seq _ => seq
  | .exit seq _ _ => seq

def size : TerminalEvent → Nat
  | .data _ text => text.utf8ByteSize
  | .exit _ _ _ => 16

def isExit : TerminalEvent → Bool
  | .data _ _ => false
  | .exit _ _ _ => true

end TerminalEvent

def maxReplayBytes : Nat := 1024 * 1024

/-- Handles, the initial script and the time of the last use are left out: no event
depends on them. -/
structure LiveTerminal where
  /-- The receivers the senders belong to. -/
  subscribers : List Nat
  replay : List TerminalEvent
  replayBytes : Nat
  seq : Nat
  exited : Bool
deriving DecidableEq, Repr

/-- The receiving end of a subscription.  What it asked for and what there was when it
subscribed is history: the newest number given out and the newest dropped from the window. -/
structure Receiver where
  asked : Nat
  newest : Nat
  dropped : Nat
  received : List TerminalEvent
  attached : Bool
deriving DecidableEq, Repr

inductive Stage where
  | looping
  /-- The buffer is flushed for good and the exit comes next. -/
  | exiting
  | done
  /-- The session was closed under the pump. -/
  | gone
deriving DecidableEq, Repr

/-- `emitted` and `read` are history: every event of the session and every byte the reader
has read from the PTY. -/
structure Terminal where
  session : Option LiveTerminal
  receivers : List Receiver
  emitted : List TerminalEvent
  read : List UInt8
  /-- The raw channel, and whether its sender is gone. -/
  queue : List (List UInt8)
  ended : Bool
  buffer : List UInt8
  rawOpen : Bool
  exitCode : Option Int
  stage : Stage
deriving DecidableEq, Repr

/-- The window after it is cut to its bound; `none` is an underflow of the counter. -/
def evict (bytes : Nat) : List TerminalEvent → Option (Nat × List TerminalEvent)
  | [] => some (bytes, [])
  | [event] => some (bytes, [event])
  | event :: next :: rest =>
      if maxReplayBytes < bytes then
        if event.size ≤ bytes then evict (bytes - event.size) (next :: rest) else none
      else some (bytes, event :: next :: rest)

def deliver (subscribers : List Nat) (event : TerminalEvent) (receivers : List Receiver) :
    List Receiver :=
  receivers.mapIdx fun index receiver =>
    if receiver.attached ∧ index ∈ subscribers then
      { receiver with received := receiver.received ++ [event] }
    else receiver

namespace Terminal

def start : Terminal :=
  { session := some { subscribers := [], replay := [], replayBytes := 0, seq := 0, exited := false }
    receivers := [], emitted := [], read := [], queue := [], ended := false, buffer := []
    rawOpen := true, exitCode := none, stage := .looping }

variable (terminal : Terminal)

/-- `LiveTerminal::emit`, with the fan-out to the receivers. -/
def emit (session : LiveTerminal) (event : TerminalEvent) : Option Terminal :=
  (evict (session.replayBytes + event.size) (session.replay ++ [event])).map fun (bytes, replay) =>
    { terminal with
      session := some { session with
        subscribers :=
          if event.isExit then []
          else session.subscribers.filter fun index =>
            terminal.receivers[index]?.any Receiver.attached
        replay
        replayBytes := bytes
        exited := session.exited || event.isExit }
      receivers := deliver session.subscribers event terminal.receivers
      emitted := terminal.emitted ++ [event] }

def nextSeq (session : LiveTerminal) : LiveTerminal := { session with seq := session.seq + 1 }

/-- The pump's `emit`: the buffer goes out as one event, if the session is still there. -/
def emitBuffer (base64 : Base64) (after : Stage) : Option Terminal :=
  match terminal.session with
  | none => some { terminal with stage := .gone }
  | some session =>
      let session := nextSeq session
      ({ terminal with buffer := [], stage := after }).emit session
        (.data session.seq (base64.encode terminal.buffer))

def emitExit : Option Terminal :=
  match terminal.session with
  | none => some { terminal with stage := .gone }
  | some session =>
      let session := nextSeq session
      ({ terminal with stage := .done }).emit session
        (.exit session.seq (terminal.exitCode.getD (-1)) none)

/-- `while raw_open || exit_code.is_none()`. -/
def loops : Bool := terminal.stage = .looping ∧ (terminal.rawOpen || terminal.exitCode.isNone)

def receive : Terminal :=
  match terminal.queue with
  | chunk :: rest => { terminal with queue := rest, buffer := terminal.buffer ++ chunk }
  | [] => if terminal.ended then { terminal with rawOpen := false } else terminal

def childExited (exitCode : Int) : Terminal :=
  { terminal with
    exitCode := some exitCode
    stage := if terminal.session.isNone then .gone else terminal.stage }

/-- After the loop: what is left in the buffer goes out before the exit. -/
def drain (base64 : Base64) : Option Terminal :=
  if terminal.buffer = [] then some { terminal with stage := .exiting }
  else terminal.emitBuffer base64 .exiting

def subscribe (afterSeq : Option Nat) : Terminal :=
  match terminal.session with
  | none => terminal
  | some session =>
      let asked := afterSeq.getD 0
      let receiver :=
        { asked, newest := session.seq
          dropped := terminal.emitted.length - session.replay.length
          received := session.replay.filter fun event => asked < event.seq
          attached := true }
      { terminal with
        receivers := terminal.receivers ++ [receiver]
        session := some { session with
          subscribers :=
            if session.exited then session.subscribers
            else session.subscribers ++ [terminal.receivers.length] } }

def detach (index : Nat) : Terminal :=
  { terminal with
    receivers := terminal.receivers.modify index fun receiver => { receiver with attached := false } }

end Terminal

inductive Action where
  /-- The reader thread reads a chunk, or the end of the PTY. -/
  | read (chunk : List UInt8)
  | readEnd
  /-- A branch of the pump's loop. -/
  | receive
  | flush
  | childExited (exitCode : Int)
  /-- The two steps after the loop. -/
  | drain
  | exit
  | subscribe (afterSeq : Option Nat)
  | detach (index : Nat)
  | close
deriving DecidableEq, Repr

/-- A step that is not enabled does nothing; `none` is an underflow of the counter. -/
def Terminal.next (base64 : Base64) (terminal : Terminal) : Action → Option Terminal
  | .read chunk => some (
      if terminal.ended then terminal
      else if terminal.stage = .done ∨ terminal.stage = .gone then { terminal with ended := true }
      else { terminal with read := terminal.read ++ chunk, queue := terminal.queue ++ [chunk] })
  | .readEnd => some { terminal with ended := true }
  | .receive => some (if terminal.loops && terminal.rawOpen then terminal.receive else terminal)
  | .flush =>
      if terminal.loops && !terminal.buffer.isEmpty then terminal.emitBuffer base64 .looping
      else some terminal
  | .childExited exitCode => some (
      if terminal.loops && terminal.exitCode.isNone then terminal.childExited exitCode else terminal)
  | .drain =>
      if terminal.stage = .looping ∧ terminal.loops = false then terminal.drain base64
      else some terminal
  | .exit => if terminal.stage = .exiting then terminal.emitExit else some terminal
  | .subscribe afterSeq => some (terminal.subscribe afterSeq)
  | .detach index => some (terminal.detach index)
  | .close => some { terminal with session := none }

def Terminal.run (base64 : Base64) (actions : List Action) : Option Terminal :=
  actions.foldlM (Terminal.next base64) .start

end Zeron.Terminals
