import Zeron.Data.Runs
import Zeron.Rpc.Frames

namespace Zeron.Rpc

/-! # One connection

The client's and the server's tasks over two ordered lossless channels.  Every
request id has a slot, which holds what either side keeps under that id, and
beside it what its handler did and which frames the client has routed.
-/

variable {V : Type} [DecidableEq V]

/-- How the client opened an id. -/
inductive Kind
  | call
  | stream
  | checked
deriving DecidableEq, Repr

inductive Pending
  | call
  | stream
  | checked (ready : Bool)
deriving DecidableEq, Repr

def Kind.pending : Kind → Pending
  | .call => .call
  | .stream => .stream
  | .checked => .checked true

/-- What a handler returns. -/
inductive Reply (V : Type)
  | value (value : V)
  | failed (error : RpcError)
  | stream
deriving DecidableEq, Repr

/-- The client's part of a slot, as far as frames change it. -/
structure Caller (V : Type) where
  pending : Option Pending := none
  result : Option (Except RpcError V) := none
  ready : Option (Except RpcError Unit) := none
  /-- The items handed to the stream's queue or on their way to it. -/
  items : List V := []

structure Slot (V : Type) where
  kind : Option Kind := none
  caller : Caller V := {}
  /-- The consumer's receiver, alive. -/
  receiving : Bool := false
  /-- How many of the items the consumer has taken. -/
  taken : Nat := 0
  cancelling : Bool := false
  method : Option String := none
  /-- The server's task, neither finished nor aborted. -/
  running : Bool := false
  reply : Option (Reply V) := none
  produced : List V := []
  ended : Bool := false
  routed : List (ServerFrame V) := []

structure ClientFrame where
  id : Nat
  method : Option String := none
  cancel : Bool := false
deriving DecidableEq, Repr

structure Connection (V : Type) where
  nextId : Nat := 1
  slots : Nat → Slot V := fun _ => {}
  toServer : List ClientFrame := []
  toClient : List (ServerFrame V) := []
  /-- The id whose queue the client's reader waits for, an item in hand. -/
  delivering : Option Nat := none

namespace Connection

def write (state : Connection V) (id : Nat) (slot : Slot V) : Connection V :=
  { state with slots := Function.update state.slots id slot }

def emit (state : Connection V) (frame : ServerFrame V) : Connection V :=
  { state with toClient := state.toClient ++ [frame] }

def request (state : Connection V) (frame : ClientFrame) : Connection V :=
  { state with toServer := state.toServer ++ [frame] }

end Connection

def streamQueueCap : Nat := 256

def watchCheckoutChangeRequest : String := "WatchCheckoutChangeRequest"

/-! ## Routing -/

/-- `route_frame` up to the wait for the stream's queue, and whether it comes to that. -/
def Caller.route (caller : Caller V) (frame : ServerFrame V) : Caller V × Bool :=
  match frame.err with
  | some err =>
      match caller.pending with
      | some .call =>
          ({ caller with pending := none, result := some (.error (wireError err)) }, false)
      | some (.checked true) =>
          ({ caller with pending := none, ready := some (.error (wireError err)) }, false)
      | _ => ({ caller with pending := none }, false)
  | none =>
  match frame.ok with
  | some value =>
      match caller.pending with
      | some .call => ({ caller with pending := none, result := some (.ok value) }, false)
      | some (.checked true) =>
          ({ caller with pending := some (.checked false), ready := some (.ok ()) }, false)
      | _ => (caller, false)
  | none =>
  match frame.item with
  | some item =>
      match caller.pending with
      | some .stream => ({ caller with items := caller.items ++ [item] }, true)
      | some (.checked true) =>
          ({ caller with
            pending := some (.checked false)
            ready := some (.ok ())
            items := caller.items ++ [item] }, true)
      | some (.checked false) => ({ caller with items := caller.items ++ [item] }, true)
      | _ => (caller, false)
  | none =>
  if frame.done then
    match caller.pending with
    | some .call => ({ caller with pending := none, result := some (.error .closed) }, false)
    | some (.checked true) => ({ caller with pending := none, ready := some (.ok ()) }, false)
    | _ => ({ caller with pending := none }, false)
  else (caller, false)

/-! ## Serving -/

/-- The frames `handle_request` sends at once for what the handler returns. -/
def Reply.frames (serde : Serde V) (id : Nat) (method : String) : Reply V → List (ServerFrame V)
  | .value answer => [{ id, ok := some answer }]
  | .failed error => [{ id, err := some error.text }]
  | .stream =>
      if method = watchCheckoutChangeRequest then [{ id, ok := some serde.streamTrue }] else []

inductive Action (V : Type)
  | open (kind : Kind)
  | send (id : Nat) (method : String)
  /-- The subscription is dropped. -/
  | cancel (id : Nat)
  | sendCancel (id : Nat)
  /-- The receiver of a plain stream is dropped. -/
  | dropReceiver (id : Nat)
  /-- The consumer takes an item. -/
  | take (id : Nat)
  /-- The server reads a client frame. -/
  | receive
  /-- The handler of an id returns. -/
  | reply (id : Nat) (reply : Reply V)
  | produce (id : Nat) (item : V)
  | finish (id : Nat)
  /-- The client's reader takes a server frame, or hands over the item it has. -/
  | route
  | deliver
deriving DecidableEq, Repr

def Connection.step (serde : Serde V) (state : Connection V) : Action V → Option (Connection V)
  | .open kind =>
      let id := state.nextId
      let slot := { state.slots id with
        kind := some kind
        caller := { pending := some kind.pending }
        receiving := kind ≠ .call
        taken := 0
        method := none }
      some { state.write id slot with nextId := (id + 1) % 2 ^ 64 }
  | .send id method =>
      let slot := state.slots id
      if slot.kind.isSome ∧ slot.method = none ∧ (slot.kind = some .call ∨ slot.receiving) then
        some ((state.write id { slot with method := some method }).request
          { id, method := some method })
      else none
  | .cancel id =>
      let slot := state.slots id
      if slot.receiving then
        some (state.write id { slot with
          receiving := false
          cancelling := slot.caller.pending.isSome
          caller := { slot.caller with pending := none } })
      else none
  | .sendCancel id =>
      let slot := state.slots id
      if slot.cancelling then
        some ((state.write id { slot with cancelling := false }).request { id, cancel := true })
      else none
  | .dropReceiver id =>
      let slot := state.slots id
      if slot.receiving ∧ slot.kind = some .stream then
        some (state.write id { slot with receiving := false })
      else none
  | .take id =>
      let slot := state.slots id
      let queued := slot.caller.items.length - (if state.delivering = some id then 1 else 0)
      if slot.receiving ∧ slot.taken < queued then
        some (state.write id { slot with taken := slot.taken + 1 })
      else none
  | .receive =>
      match state.toServer with
      | [] => none
      | frame :: rest =>
          let state := { state with toServer := rest }
          let slot := state.slots frame.id
          if frame.cancel then some (state.write frame.id { slot with running := false })
          else if frame.method.isSome then some (state.write frame.id { slot with running := true })
          else some state
  | .reply id reply =>
      let slot := state.slots id
      if slot.running ∧ slot.reply = none then
        let slot := { slot with reply := some reply, running := reply = .stream }
        some { state.write id slot with
          toClient := state.toClient ++ reply.frames serde id (slot.method.getD "") }
      else none
  | .produce id item =>
      let slot := state.slots id
      if slot.running ∧ slot.reply = some .stream then
        some ((state.write id { slot with produced := slot.produced ++ [item] }).emit
          { id, item := some item })
      else none
  | .finish id =>
      let slot := state.slots id
      if slot.running ∧ slot.reply = some .stream then
        some ((state.write id { slot with running := false, ended := true }).emit
          { id, done := true })
      else none
  | .route =>
      match state.delivering, state.toClient with
      | none, sent :: rest =>
          let state := { state with toClient := rest }
          match sent.arrives serde with
          | none =>
              some (state.write sent.id
                { state.slots sent.id with routed := (state.slots sent.id).routed ++ [sent] })
          | some frame =>
              let slot := state.slots frame.id
              let (caller, waits) := slot.caller.route frame
              let state := state.write frame.id { slot with caller, routed := slot.routed ++ [sent] }
              some (if waits then { state with delivering := some frame.id } else state)
      | _, _ => none
  | .deliver =>
      match state.delivering with
      | none => none
      | some id =>
          let slot := state.slots id
          let state := { state with delivering := none }
          if slot.receiving = false then
            some ((state.write id { slot with caller := { slot.caller with pending := none } }).request
              { id, cancel := true })
          else if slot.caller.items.length - 1 - slot.taken < streamQueueCap then some state
          else none

end Zeron.Rpc
