import Zeron.Data.Runs
import Zeron.Device.Frames
import Zeron.Device.Nudges

namespace Zeron.Device

open Zeron.Data

/-! # The relay keeps clients apart

The room stamps what a client sends with the id of its connection, and the host acts on
that stamp.  Every frame in the system carries here the client that it is due to.
-/

/-- What a frame is due to: the frame of a client, the virtual connection of a client, or
the host and the room themselves. -/
inductive Cause
  | client (connId : String)
  | conn (connId : String) (payload : List UInt8)
  | other
deriving DecidableEq

namespace Cause

def who : Cause → Option String
  | .client connId => some connId
  | .conn connId _ => some connId
  | .other => none

/-- What a frame causes is due to the same client, and is no reply of its connection. -/
def onward : Cause → Cause
  | .conn connId _ => .client connId
  | cause => cause

@[simp] theorem who_onward (cause : Cause) : cause.onward.who = cause.who := by
  cases cause <;> rfl

theorem onward_ne (cause : Cause) (connId : String) (payload : List UInt8) :
    cause.onward ≠ .conn connId payload := by
  cases cause <;> simp [onward]

end Cause

structure Sent (bytes : Type) where
  cause : Cause
  frame : bytes

structure ClientSocket (bytes : Type) where
  connId : String
  isOpen : Bool := true
  received : List (Sent bytes) := []

variable {bytes : Type}

/-- The frame is a reply of this virtual connection. -/
def Sent.ofConn (connId : String) (sent : Sent bytes) : Bool :=
  match sent.cause with
  | .conn key _ => key = connId
  | _ => false

/-- A send to a closed socket throws, and the throw is caught. -/
def ClientSocket.push (client : ClientSocket bytes) (sent : Sent bytes) : ClientSocket bytes :=
  if client.isOpen then { client with received := client.received ++ [sent] } else client

/-- What a frame can do to somebody. -/
inductive Effect
  /-- The host's virtual connection of this key is made, fed or removed. -/
  | conn (key : String)
  | nudgeHandled
  | receiptRetired
  /-- The socket of this client is written to, or closed. -/
  | written (connId : String)
  | closed (connId : String)
deriving DecidableEq

structure Relay (bytes : Type) where
  clients : List (ClientSocket bytes)
  nudges : Nudges
  /-- The host asked for acknowledged nudges when it joined. -/
  nudgeAck : Bool
  hostOpen : Bool := true
  /-- The frames on their way to the host, and those it sent, oldest first. -/
  toHost : List (Sent bytes) := []
  fromHost : List (Sent bytes) := []
  /-- What the virtual connections there are were fed. -/
  conns : String → Option (List (List UInt8)) := fun _ => none
  /-- The keys of the connections there have been: their replies may still come. -/
  served : List String := []
  /-- The replies of the connections, in order. -/
  produced : List (String × List UInt8) := []
  /-- Who did what. -/
  effects : List (Option String × Effect) := []

inductive RelayAction (bytes : Type)
  /-- A client's frame reaches the room; a host is live or is not. -/
  | client (number : Nat) (frame : bytes) (live : Bool)
  /-- The runtime tells the room that the socket of a client is gone. -/
  | clientClosed (number : Nat) (live : Bool)
  /-- The room takes a frame of the host; a closed socket may still be listed. -/
  | hostFrame (listed : Bool)
  /-- The host takes a frame of the room, and admits the nudge it may hold. -/
  | handle (admitted : Bool)
  | reply (connId : String) (payload : List UInt8)
  | hostSends (frame : bytes)
  | nudge (chatId : String) (payload : List UInt8)

namespace Relay

variable (codec : Codec bytes)

def start (conns : List String) (nudges : Nudges) (nudgeAck : Bool) : Relay bytes where
  clients := conns.map fun connId => { connId }
  nudges
  nudgeAck

def note (relay : Relay bytes) (cause : Cause) (effect : Effect) : Relay bytes :=
  { relay with effects := (cause.who, effect) :: relay.effects }

def send (relay : Relay bytes) (cause : Cause) (header : RoomHeader) (payload : List UInt8) :
    Relay bytes :=
  { relay with toHost := relay.toHost ++ [⟨cause, codec.encode header payload⟩] }

/-- The first socket of the tag is written to. -/
def deliverTo (connId : String) (sent : Sent bytes) :
    List (ClientSocket bytes) → List (ClientSocket bytes)
  | [] => []
  | client :: rest =>
      if client.connId = connId then ClientSocket.push client sent :: rest
      else client :: deliverTo connId sent rest

def deliver (relay : Relay bytes) (connId : String) (cause : Cause) (header : RoomHeader)
    (payload : List UInt8) : Relay bytes :=
  { relay with
    clients := deliverTo connId ⟨cause, codec.encode header payload⟩ relay.clients }.note cause
    (.written connId)

/-- `webSocketMessage` for a client. -/
def clientMessage (relay : Relay bytes) (number : Nat) (client : ClientSocket bytes) (frame : bytes)
    (live : Bool) : Relay bytes :=
  match codec.decode frame with
  | .broken =>
      { relay with
        clients := relay.clients.set number { client with isOpen := false } }.note
        (.client client.connId) (.closed client.connId)
  | .nullHeader => relay
  | .frame header payload =>
      if live then
        relay.send codec (.client client.connId)
          { s := header.s, k := header.k, fromConn := .string client.connId } payload
      else
        relay.deliver codec client.connId (.client client.connId)
          { s := header.s, k := .string relayKind } (codec.relayError "host_offline")

/-- `webSocketMessage` for the host. -/
def hostMessage (relay : Relay bytes) (sent : Sent bytes) (listed : Bool) : Relay bytes :=
  match codec.decode sent.frame with
  | .broken => { relay with hostOpen := false }
  | .nullHeader => relay
  | .frame header payload =>
      if header.k = .string nudgeAckKind ∧ relay.nudgeAck then
        match codec.ack? payload with
        | some (chatId, token) =>
            { relay with nudges := acknowledgeNudge relay.nudges chatId token }.note sent.cause
              .receiptRetired
        | none => relay
      else if !header.toConn.truthy then relay
      else if relay.clients.any fun client =>
          client.connId = header.toConn.text && (client.isOpen || listed) then
        relay.deliver codec header.toConn.text sent.cause { s := header.s, k := header.k } payload
      else
        relay.send codec sent.cause.onward
          { s := header.s, k := .string relayKind, toConn := header.toConn }
          (codec.relayError "client_gone")

def reply (relay : Relay bytes) (cause : Cause) (header : DeviceFrameHeader)
    (payload : List UInt8) : Relay bytes :=
  { relay with fromHost := relay.fromHost ++ [⟨cause, codec.hostEncode header payload⟩] }

def setConn (relay : Relay bytes) (cause : Cause) (connId : String)
    (held : Option (List (List UInt8))) : Relay bytes :=
  { relay with conns := Function.update relay.conns connId held }.note cause (.conn connId)

/-- `handle_host_frame`. -/
def handleHostFrame (relay : Relay bytes) (sent : Sent bytes) (admitted : Bool) : Relay bytes :=
  match codec.hostDecode sent.frame with
  | none => relay
  | some (header, payload) =>
      if header.k = relayKind then
        match header.fromConn.or header.toConn with
        | some connId => relay.setConn sent.cause connId none
        | none => relay
      else if header.k = echoKind then
        match header.fromConn with
        | some connId =>
            relay.reply codec sent.cause { s := echoKind, k := echoKind, toConn := some connId }
              payload
        | none => relay
      else if header.k = nudgeKind ∧ header.fromConn.isNone then
        match codec.nudge? payload with
        | none => relay
        | some (chatId, token) =>
            let handled := relay.note sent.cause .nudgeHandled
            if admitted && token.isSome then
              handled.reply codec sent.cause { s := chatId, k := nudgeAckKind } payload
            else handled
      else if header.k ≠ rpcKind then relay
      else
        match header.fromConn with
        | none => relay
        | some connId =>
            let fed := (relay.conns connId).getD [] ++ [payload]
            { relay with served := connId :: relay.served }.setConn sent.cause connId (some fed)

def step (relay : Relay bytes) : RelayAction bytes → Option (Relay bytes)
  | .client number frame live =>
      match relay.clients[number]? with
      | none => none
      | some client =>
          if client.isOpen then
            some (relay.clientMessage codec number client frame (live && relay.hostOpen))
          else none
  | .clientClosed number live =>
      match relay.clients[number]? with
      | none => none
      | some client =>
          let gone := { relay with
            clients := relay.clients.set number { client with isOpen := false } }
          some (if live && relay.hostOpen then
            gone.send codec (.client client.connId)
              { s := .string "", k := .string relayKind, fromConn := .string client.connId }
              (codec.relayError "client_closed")
          else gone)
  | .hostFrame listed =>
      match relay.fromHost with
      | [] => none
      | sent :: rest => some ({ relay with fromHost := rest }.hostMessage codec sent listed)
  | .handle admitted =>
      match relay.toHost with
      | [] => none
      | sent :: rest => some ({ relay with toHost := rest }.handleHostFrame codec sent admitted)
  | .reply connId payload =>
      if connId ∈ relay.served then
        let header : DeviceFrameHeader := { s := rpcKind, k := rpcKind, toConn := some connId }
        some ({ relay with produced := relay.produced ++ [(connId, payload)] }.reply codec
          (.conn connId payload) header payload)
      else none
  | .hostSends frame => some { relay with fromHost := relay.fromHost ++ [⟨.other, frame⟩] }
  | .nudge chatId payload =>
      some (relay.send codec .other { s := .string chatId, k := .string nudgeKind } payload)

/-! ## What isolation is -/

/-- Frames due to a client act on its own connection and its own socket only. -/
def Isolated (relay : Relay bytes) : Prop :=
  ∀ connId effect, (some connId, effect) ∈ relay.effects →
    effect = .conn connId ∨ effect = .written connId ∨ effect = .closed connId

/-- A reply as its client is to receive it. -/
def arrives (payload : List UInt8) : bytes :=
  codec.encode { s := .string rpcKind, k := .string rpcKind } payload

/-- The replies of a connection, as its client is to receive them. -/
def replies (relay : Relay bytes) (connId : String) : List bytes :=
  (relay.produced.filter fun reply => reply.1 = connId).map fun reply => arrives codec reply.2

/-- The replies of its connection reach a client and nobody else, in order; none is missing
where the socket is open and none is on its way. -/
structure Delivered (relay : Relay bytes) (client : ClientSocket bytes) : Prop where
  own : ∀ sent ∈ client.received, ∀ connId payload, sent.cause = .conn connId payload →
    connId = client.connId
  ordered : (client.received.filter (Sent.ofConn client.connId)).map Sent.frame <+:
    relay.replies codec client.connId
  all : client.isOpen = true → relay.fromHost.all (fun sent => !Sent.ofConn client.connId sent) →
    (client.received.filter (Sent.ofConn client.connId)).map Sent.frame =
      relay.replies codec client.connId

/-- The room keeps clients of these connections apart, whatever anybody sends. -/
def RelaysApart (conns : List String) : Prop :=
  ∀ nudges nudgeAck relay, Reaches (step codec) (fun _ _ => True) (start conns nudges nudgeAck) relay →
    relay.Isolated ∧ ∀ client ∈ relay.clients, Delivered codec relay client

end Relay

/-! ## Sockets -/

theorem mem_deliverTo {connId : String} {sent : Sent bytes} {clients : List (ClientSocket bytes)}
    {client : ClientSocket bytes} (distinct : (clients.map ClientSocket.connId).Nodup)
    (member : client ∈ Relay.deliverTo connId sent clients) :
    client ∈ clients ∧ client.connId ≠ connId ∨
      ∃ before ∈ clients, before.connId = connId ∧ client = before.push sent := by
  induction clients with
  | nil => cases member
  | cons first rest ih =>
      obtain ⟨apart, distinct⟩ := List.nodup_cons.mp distinct
      unfold Relay.deliverTo at member
      split at member
      · rename_i here
        rcases List.mem_cons.mp member with rfl | later
        · exact .inr ⟨first, List.mem_cons_self, here, rfl⟩
        · refine .inl ⟨List.mem_cons_of_mem _ later, fun same => apart ?_⟩
          rw [here, ← same]
          exact List.mem_map_of_mem later
      · rename_i other
        rcases List.mem_cons.mp member with rfl | later
        · exact .inl ⟨List.mem_cons_self, other⟩
        · rcases ih distinct later with ⟨there, other⟩ | ⟨before, there, same, rfl⟩
          · exact .inl ⟨List.mem_cons_of_mem _ there, other⟩
          · exact .inr ⟨before, List.mem_cons_of_mem _ there, same, rfl⟩

theorem connId_push (client : ClientSocket bytes) (sent : Sent bytes) :
    (client.push sent).connId = client.connId := by
  unfold ClientSocket.push
  split <;> rfl

theorem map_connId_deliverTo (connId : String) (sent : Sent bytes)
    (clients : List (ClientSocket bytes)) :
    (Relay.deliverTo connId sent clients).map ClientSocket.connId =
      clients.map ClientSocket.connId := by
  induction clients with
  | nil => rfl
  | cons first rest ih =>
      unfold Relay.deliverTo
      split
      · simp [connId_push]
      · simp [ih]

theorem map_connId_close {clients : List (ClientSocket bytes)} {number : Nat}
    {client : ClientSocket bytes} (there : clients[number]? = some client) :
    (clients.set number { client with isOpen := false }).map ClientSocket.connId =
      clients.map ClientSocket.connId := by
  rw [List.map_set]
  apply List.ext_getElem?
  intro other
  rw [List.getElem?_set]
  split
  · rename_i same
    subst same
    obtain ⟨within, rfl⟩ := List.getElem?_eq_some_iff.mp there
    simp [within]
  · rfl

namespace Relay

variable (codec : Codec bytes)

/-- The replies on their way, as the client is to receive them. -/
def flying (fromHost : List (Sent bytes)) (connId : String) : List bytes :=
  fromHost.filterMap fun sent =>
    match sent.cause with
    | .conn key payload => if key = connId then some (arrives codec payload) else none
    | _ => none

/-- What the host makes of a frame that is due to a client: its stamp, or the client that
is gone. -/
def Stamped (connId : String) (header : DeviceFrameHeader) : Prop :=
  header.fromConn = some connId ∨
    header.fromConn = none ∧ header.k = relayKind ∧ header.toConn = some connId

/-- What a client has received, and is still to receive. -/
structure Fed (relay : Relay bytes) (client : ClientSocket bytes) : Prop where
  own : ∀ sent ∈ client.received, ∀ connId payload, sent.cause = .conn connId payload →
    connId = client.connId
  ordered : (client.received.filter (Sent.ofConn client.connId)).map Sent.frame <+:
    relay.replies codec client.connId
  coming : client.isOpen = true →
    (client.received.filter (Sent.ofConn client.connId)).map Sent.frame ++
      flying codec relay.fromHost client.connId = relay.replies codec client.connId

structure Kept (relay : Relay bytes) : Prop where
  distinct : (relay.clients.map ClientSocket.connId).Nodup
  named : ∀ client ∈ relay.clients, client.connId ≠ ""
  isolated : relay.Isolated
  toHost : ∀ sent ∈ relay.toHost, (∀ connId payload, sent.cause ≠ .conn connId payload) ∧
    ∀ connId, sent.cause.who = some connId → ∀ header payload,
      codec.hostDecode sent.frame = some (header, payload) → Stamped connId header
  fromHost : ∀ sent ∈ relay.fromHost, ∀ connId, sent.cause.who = some connId →
    ∃ kind payload, sent.frame = codec.hostEncode { s := kind, k := kind, toConn := some connId } payload ∧
      kind ≠ nudgeAckKind ∧
      ∀ key reply, sent.cause = .conn key reply → kind = rpcKind ∧ payload = reply
  fed : ∀ client ∈ relay.clients, Fed codec relay client

variable {codec} {relay after : Relay bytes} {client : ClientSocket bytes}

theorem flying_of_none {fromHost : List (Sent bytes)} {connId : String}
    (none : fromHost.all (fun sent => !Sent.ofConn connId sent) = true) :
    flying codec fromHost connId = [] := by
  unfold flying
  rw [List.filterMap_eq_nil_iff]
  intro sent there
  have other := List.all_eq_true.mp none sent there
  unfold Sent.ofConn at other
  split
  · rename_i key payload cause
    simpa [cause] using other
  · rfl

theorem Fed.delivered (fed : Fed codec relay client) : Delivered codec relay client := by
  refine ⟨fed.own, fed.ordered, fun opened none => ?_⟩
  have coming := fed.coming opened
  rw [flying_of_none none, List.append_nil] at coming
  exact coming

theorem Kept.apart (kept : Kept codec relay) :
    relay.Isolated ∧ ∀ client ∈ relay.clients, Delivered codec relay client :=
  ⟨kept.isolated, fun client there => (kept.fed client there).delivered⟩

/-! ## What each step keeps -/

/-- A frame that is no reply changes nothing of what a client has received of its own. -/
theorem Fed.push (fed : Fed codec relay client) {sent : Sent bytes}
    (other : Sent.ofConn client.connId sent = false)
    (own : ∀ connId payload, sent.cause ≠ .conn connId payload) :
    Fed codec relay (client.push sent) := by
  unfold ClientSocket.push
  split
  · constructor
    · intro held there connId payload cause
      rcases List.mem_append.mp there with before | new
      · exact fed.own held before connId payload cause
      · obtain rfl := List.mem_singleton.mp new
        exact absurd cause (own connId payload)
    · simpa [List.filter_append, other] using fed.ordered
    · simpa [List.filter_append, other] using fed.coming
  · exact fed

/-- What `Fed` reads of the room. -/
theorem Fed.congr (fed : Fed codec relay client) (fromHost : after.fromHost = relay.fromHost)
    (produced : after.produced = relay.produced) : Fed codec after client := by
  have replies : after.replies codec client.connId = relay.replies codec client.connId := by
    simp only [Relay.replies, produced]
  refine ⟨fed.own, ?_, ?_⟩
  · rw [replies]
    exact fed.ordered
  · rw [replies, fromHost]
    exact fed.coming

theorem Kept.note (kept : Kept codec relay) {cause : Cause} {effect : Effect}
    (mine : ∀ connId, cause.who = some connId →
      effect = .conn connId ∨ effect = .written connId ∨ effect = .closed connId) :
    Kept codec (relay.note cause effect) := by
  refine ⟨kept.distinct, kept.named, ?_, kept.toHost, kept.fromHost, fun client there =>
    (kept.fed client there).congr rfl rfl⟩
  intro connId done there
  rcases List.mem_cons.mp there with new | before
  · injection new with who same
    subst same
    exact mine connId who.symm
  · exact kept.isolated connId done before

theorem Kept.send (kept : Kept codec relay) {cause : Cause} {header : RoomHeader}
    {payload : List UInt8} (reply : ∀ connId payload, cause ≠ .conn connId payload)
    (stamped : ∀ connId, cause.who = some connId → ∀ onHost, header.onHost = some onHost →
      Stamped connId onHost) : Kept codec (relay.send codec cause header payload) := by
  refine ⟨kept.distinct, kept.named, kept.isolated, ?_, kept.fromHost, fun client there =>
    (kept.fed client there).congr rfl rfl⟩
  intro sent there
  rcases List.mem_append.mp there with before | new
  · exact kept.toHost sent before
  · obtain rfl := List.mem_singleton.mp new
    refine ⟨reply, fun connId who onHost read decoded => ?_⟩
    rw [codec.hostDecode_encode] at decoded
    obtain ⟨found, reads, same⟩ := Option.map_eq_some_iff.mp decoded
    cases same
    exact stamped connId who onHost reads

/-- A frame that is no reply is written to a socket. -/
theorem Kept.deliver (kept : Kept codec relay) {connId : String} {cause : Cause}
    {header : RoomHeader} {payload : List UInt8}
    (reply : ∀ connId payload, cause ≠ .conn connId payload)
    (mine : ∀ who, cause.who = some who → who = connId) :
    Kept codec (relay.deliver codec connId cause header payload) := by
  apply Kept.note
  · refine ⟨?_, ?_, kept.isolated, kept.toHost, kept.fromHost, ?_⟩
    · rw [map_connId_deliverTo]
      exact kept.distinct
    · intro client there
      rcases mem_deliverTo kept.distinct there with ⟨before, _⟩ | ⟨before, held, _, rfl⟩
      · exact kept.named client before
      · rw [connId_push]
        exact kept.named before held
    · intro client there
      rcases mem_deliverTo kept.distinct there with ⟨before, _⟩ | ⟨before, held, _, rfl⟩
      · exact (kept.fed client before).congr rfl rfl
      · have other : Sent.ofConn before.connId
            ⟨cause, codec.encode header payload⟩ = false := by
          cases cause with
          | conn key value => exact absurd rfl (reply key value)
          | client _ | other => rfl
        exact ((kept.fed before held).push other reply).congr rfl rfl
  · intro who same
    rw [mine who same]
    exact .inr (.inl rfl)

theorem Kept.close (kept : Kept codec relay) {number : Nat}
    (there : relay.clients[number]? = some client) :
    Kept codec { relay with
      clients := relay.clients.set number { client with isOpen := false } } := by
  have held := List.mem_of_getElem? there
  refine ⟨?_, ?_, kept.isolated, kept.toHost, kept.fromHost, ?_⟩
  · rw [map_connId_close there]
    exact kept.distinct
  · intro other member
    rcases List.mem_or_eq_of_mem_set member with before | rfl
    · exact kept.named other before
    · exact kept.named client held
  · intro other member
    rcases List.mem_or_eq_of_mem_set member with before | rfl
    · exact (kept.fed other before).congr rfl rfl
    · have fed := kept.fed client held
      exact ⟨fed.own, fed.ordered, nofun⟩

theorem Kept.clientMessage (kept : Kept codec relay) {number : Nat}
    (there : relay.clients[number]? = some client) (frame : bytes) (live : Bool) :
    Kept codec (relay.clientMessage codec number client frame live) := by
  unfold Relay.clientMessage
  split
  · apply (kept.close there).note
    rintro connId ⟨⟩
    exact .inr (.inr rfl)
  · exact kept
  · split
    · apply kept.send (by simp)
      rintro connId ⟨⟩ onHost read
      simp only [RoomHeader.onHost, Option.bind_eq_bind, Option.bind_eq_some_iff] at read
      obtain ⟨s, _, k, _, toConn, _, fromConn, stamp, same⟩ := read
      cases same
      cases stamp
      exact .inl rfl
    · apply kept.deliver (by simp)
      rintro who ⟨⟩
      rfl

theorem Kept.clientClosed (kept : Kept codec relay) {number : Nat}
    (there : relay.clients[number]? = some client) :
    Kept codec ({ relay with
        clients := relay.clients.set number { client with isOpen := false } }.send codec
      (.client client.connId)
      { s := .string "", k := .string relayKind, fromConn := .string client.connId }
      (codec.relayError "client_closed")) := by
  apply (kept.close there).send (by simp)
  rintro connId ⟨⟩ onHost read
  cases read
  exact .inl rfl

/-- The host makes, feeds or removes the connection of a frame. -/
theorem Kept.setConn (kept : Kept codec relay) {cause : Cause} {connId : String}
    (mine : ∀ who, cause.who = some who → who = connId) (served : List String)
    (held : Option (List (List UInt8))) :
    Kept codec ({ relay with served }.setConn cause connId held) := by
  have updated : Kept codec
      { relay with served, conns := Function.update relay.conns connId held } :=
    ⟨kept.distinct, kept.named, kept.isolated, kept.toHost, kept.fromHost, fun client there =>
      (kept.fed client there).congr rfl rfl⟩
  apply updated.note
  intro who same
  rw [mine who same]
  exact .inl rfl

theorem flying_append (fromHost : List (Sent bytes)) (sent : Sent bytes) (connId : String)
    (other : ∀ payload, sent.cause ≠ .conn connId payload) :
    flying codec (fromHost ++ [sent]) connId = flying codec fromHost connId := by
  unfold flying
  rw [List.filterMap_append]
  have none : [sent].filterMap (fun sent =>
      match sent.cause with
      | .conn key payload => if key = connId then some (arrives codec payload) else none
      | _ => none) = [] := by
    rw [List.filterMap_eq_nil_iff]
    intro only here
    obtain rfl := List.mem_singleton.mp here
    split
    · rename_i key payload cause
      rw [if_neg]
      rintro rfl
      exact other payload cause
    · rfl
  rw [none, List.append_nil]

/-- The host sends a frame that is no reply. -/
theorem Kept.reply (kept : Kept codec relay) {cause : Cause} {frame : bytes}
    (reply : ∀ connId payload, cause ≠ .conn connId payload)
    (routed : ∀ connId, cause.who = some connId → ∃ kind payload,
      frame = codec.hostEncode { s := kind, k := kind, toConn := some connId } payload ∧
        kind ≠ nudgeAckKind) :
    Kept codec { relay with fromHost := relay.fromHost ++ [⟨cause, frame⟩] } := by
  refine ⟨kept.distinct, kept.named, kept.isolated, kept.toHost, ?_, ?_⟩
  · intro other there connId who
    rcases List.mem_append.mp there with before | new
    · exact kept.fromHost other before connId who
    · obtain rfl := List.mem_singleton.mp new
      obtain ⟨kind, payload, frame, apart⟩ := routed connId who
      exact ⟨kind, payload, frame, apart, fun key value cause => absurd cause (reply key value)⟩
  · intro client there
    have fed := kept.fed client there
    refine ⟨fed.own, fed.ordered, fun opened => ?_⟩
    have same : flying codec (relay.fromHost ++ [⟨cause, frame⟩]) client.connId =
        flying codec relay.fromHost client.connId :=
      flying_append _ _ _ (reply client.connId)
    simp only [same]
    exact fed.coming opened

theorem Kept.handleHostFrame (kept : Kept codec relay) {sent : Sent bytes} (admitted : Bool)
    (reply : ∀ connId payload, sent.cause ≠ .conn connId payload)
    (stamped : ∀ connId, sent.cause.who = some connId → ∀ header payload,
      codec.hostDecode sent.frame = some (header, payload) → Stamped connId header) :
    Kept codec (relay.handleHostFrame codec sent admitted) := by
  unfold Relay.handleHostFrame
  cases decoded : codec.hostDecode sent.frame with
  | none => exact kept
  | some read =>
      obtain ⟨header, payload⟩ := read
      have stamped : ∀ connId, sent.cause.who = some connId → Stamped connId header :=
        fun connId who => stamped connId who header payload decoded
      simp only
      split
      · -- a client that is gone
        split
        · rename_i connId routed
          apply kept.setConn _ relay.served none
          intro who due
          rcases stamped who due with stamp | ⟨unstamped, _, gone⟩
          · simpa [stamp] using routed
          · simpa [unstamped, gone] using routed
        · exact kept
      · rename_i ordinary
        have stamp : ∀ connId, sent.cause.who = some connId → header.fromConn = some connId := by
          intro connId due
          rcases stamped connId due with stamp | ⟨_, relays, _⟩
          · exact stamp
          · exact absurd relays ordinary
        split
        · split
          · rename_i connId origin
            apply kept.reply reply
            intro who due
            cases (stamp who due).symm.trans origin
            exact ⟨echoKind, payload, rfl, by decide⟩
          · exact kept
        · split
          · -- a nudge bears no stamp, so it is due to nobody
            rename_i unstamped
            have nobody : sent.cause.who = none := by
              cases due : sent.cause.who with
              | none => rfl
              | some connId => simp [stamp connId due] at unstamped
            split
            · exact kept
            · rename_i chatId token _
              have handled : Kept codec (relay.note sent.cause .nudgeHandled) :=
                kept.note (by simp [nobody])
              split
              · exact handled.reply reply (by simp [nobody])
              · exact handled
          · split
            · exact kept
            · split
              · exact kept
              · rename_i connId origin
                apply kept.setConn
                intro who due
                cases (stamp who due).symm.trans origin
                rfl

/-- A connection sends a reply. -/
theorem Kept.produce (kept : Kept codec relay) (connId : String) (payload : List UInt8) :
    Kept codec ({ relay with produced := relay.produced ++ [(connId, payload)] }.reply codec
      (.conn connId payload) { s := rpcKind, k := rpcKind, toConn := some connId } payload) := by
  refine ⟨kept.distinct, kept.named, kept.isolated, kept.toHost, ?_, ?_⟩
  · intro sent there who due
    rcases List.mem_append.mp there with before | new
    · exact kept.fromHost sent before who due
    · obtain rfl := List.mem_singleton.mp new
      cases due
      refine ⟨rpcKind, payload, rfl, by decide, ?_⟩
      rintro key reply ⟨⟩
      exact ⟨rfl, rfl⟩
  · intro client there
    have fed := kept.fed client there
    by_cases mine : connId = client.connId
    · subst mine
      have replies : ({ relay with
            produced := relay.produced ++ [(client.connId, payload)] } : Relay bytes).replies codec
          client.connId = relay.replies codec client.connId ++ [arrives codec payload] := by
        simp [Relay.replies, List.filter_append]
      refine ⟨fed.own, ?_, fun opened => ?_⟩
      · show _ <+: Relay.replies codec { relay with
          produced := relay.produced ++ [(client.connId, payload)] } client.connId
        rw [replies]
        exact fed.ordered.trans (List.prefix_append _ _)
      · show _ ++ flying codec (relay.fromHost ++ [_]) client.connId =
          Relay.replies codec { relay with
            produced := relay.produced ++ [(client.connId, payload)] } client.connId
        rw [replies, ← fed.coming opened, List.append_assoc]
        simp [flying, List.filterMap_append]
    · have replies : ({ relay with
            produced := relay.produced ++ [(connId, payload)] } : Relay bytes).replies codec
          client.connId = relay.replies codec client.connId := by
        simp [Relay.replies, List.filter_append, mine]
      refine ⟨fed.own, ?_, fun opened => ?_⟩
      · show _ <+: Relay.replies codec { relay with
          produced := relay.produced ++ [(connId, payload)] } client.connId
        rw [replies]
        exact fed.ordered
      · show _ ++ flying codec (relay.fromHost ++ [_]) client.connId =
          Relay.replies codec { relay with
            produced := relay.produced ++ [(connId, payload)] } client.connId
        rw [replies, flying_append _ _ _ (by simp [mine])]
        exact fed.coming opened

/-- The room takes a frame of the host that no open client waits for. -/
theorem Kept.drop (kept : Kept codec relay) {sent : Sent bytes} {rest : List (Sent bytes)}
    (there : relay.fromHost = sent :: rest)
    (unawaited : ∀ client ∈ relay.clients, client.isOpen = true →
      ∀ payload, sent.cause ≠ .conn client.connId payload) :
    Kept codec { relay with fromHost := rest } := by
  refine ⟨kept.distinct, kept.named, kept.isolated, kept.toHost, ?_, ?_⟩
  · intro other later
    apply kept.fromHost other
    rw [there]
    exact List.mem_cons_of_mem _ later
  · intro client held
    have fed := kept.fed client held
    refine ⟨fed.own, fed.ordered, fun opened => ?_⟩
    have coming := fed.coming opened
    rw [there] at coming
    have same : flying codec (sent :: rest) client.connId = flying codec rest client.connId := by
      unfold flying
      rw [List.filterMap_cons_none]
      split
      · rename_i key payload cause
        rw [if_neg]
        rintro rfl
        exact unawaited client held opened payload cause
      · rfl
    rw [same] at coming
    exact coming

/-- The room takes a reply that is another client's. -/
theorem Fed.pass (fed : Fed codec relay client) {connId : String} {payload : List UInt8}
    {frame : bytes} {rest : List (Sent bytes)} (other : connId ≠ client.connId)
    (there : relay.fromHost = ⟨.conn connId payload, frame⟩ :: rest) :
    Fed codec { relay with fromHost := rest } client := by
  refine ⟨fed.own, fed.ordered, fun opened => ?_⟩
  have coming := fed.coming opened
  have same : flying codec (⟨.conn connId payload, frame⟩ :: rest) client.connId =
      flying codec rest client.connId := by
    simp [flying, other]
  rw [there, same] at coming
  exact coming

/-- A client receives the reply that is next. -/
theorem Fed.receive (fed : Fed codec relay client) {payload : List UInt8}
    {frame : bytes} {rest : List (Sent bytes)}
    (there : relay.fromHost = ⟨.conn client.connId payload, frame⟩ :: rest) :
    Fed codec { relay with fromHost := rest }
      (client.push ⟨.conn client.connId payload, arrives codec payload⟩) := by
  unfold ClientSocket.push
  split
  · rename_i opened
    have coming := fed.coming opened
    have first : flying codec (⟨.conn client.connId payload, frame⟩ :: rest) client.connId =
        arrives codec payload :: flying codec rest client.connId := by
      simp [flying]
    have arrived : ((client.received ++
          [(⟨.conn client.connId payload, arrives codec payload⟩ : Sent bytes)]).filter
          (Sent.ofConn client.connId)).map Sent.frame ++ flying codec rest client.connId =
        relay.replies codec client.connId := by
      rw [← coming, there, first]
      simp [List.filter_append, Sent.ofConn]
    refine ⟨?_, ⟨_, arrived⟩, fun _ => arrived⟩
    intro sent here key value cause
    rcases List.mem_append.mp here with earlier | new
    · exact fed.own sent earlier key value cause
    · obtain rfl := List.mem_singleton.mp new
      cases cause
      rfl
  · rename_i closed
    exact ⟨fed.own, fed.ordered, fun opened => absurd opened closed⟩

/-- The reply of a connection reaches its client. -/
theorem Kept.deliverReply (kept : Kept codec relay) {connId : String} {payload : List UInt8}
    {frame : bytes} {rest : List (Sent bytes)}
    (there : relay.fromHost = ⟨.conn connId payload, frame⟩ :: rest) :
    Kept codec ({ relay with fromHost := rest }.deliver codec connId (.conn connId payload)
      { s := .string rpcKind, k := .string rpcKind } payload) := by
  apply Kept.note
  · refine ⟨?_, ?_, kept.isolated, kept.toHost, ?_, ?_⟩
    · rw [map_connId_deliverTo]
      exact kept.distinct
    · intro client held
      rcases mem_deliverTo kept.distinct held with ⟨before, _⟩ | ⟨before, member, _, rfl⟩
      · exact kept.named client before
      · rw [connId_push]
        exact kept.named before member
    · intro other later
      apply kept.fromHost other
      rw [there]
      exact List.mem_cons_of_mem _ later
    · intro client held
      rcases mem_deliverTo kept.distinct held with ⟨before, other⟩ | ⟨before, member, same, rfl⟩
      · exact ((kept.fed client before).pass (Ne.symm other) there).congr rfl rfl
      · subst same
        exact ((kept.fed before member).receive there).congr rfl rfl
  · rintro who ⟨⟩
    exact .inr (.inl rfl)

theorem Kept.hostMessage (kept : Kept codec relay) {sent : Sent bytes} {rest : List (Sent bytes)}
    (there : relay.fromHost = sent :: rest) (listed : Bool) :
    Kept codec ({ relay with fromHost := rest }.hostMessage codec sent listed) := by
  have routed := kept.fromHost sent (by simp [there])
  cases cause : sent.cause with
  | conn connId payload =>
      obtain ⟨kind, value, frame, _, reply⟩ := routed connId (by simp [cause, Cause.who])
      obtain ⟨rfl, rfl⟩ := reply connId payload cause
      unfold Relay.hostMessage
      rw [frame, codec.decode_hostEncode]
      simp only [DeviceFrameHeader.inRoom, Field.ofOption, cause]
      rw [if_neg (by simp [rpcKind, nudgeAckKind])]
      split
      · rename_i unnamed
        apply kept.drop there
        rintro client held _ other same
        rw [cause] at same
        cases same
        exact kept.named client held (by simpa [Field.truthy] using unnamed)
      · split
        · obtain ⟨cause', frame'⟩ := sent
          cases cause
          exact kept.deliverReply there
        · rename_i gone
          have dropped : Kept codec { relay with fromHost := rest } := by
            apply kept.drop there
            rintro client held opened other same
            rw [cause] at same
            cases same
            apply gone
            rw [List.any_eq_true]
            exact ⟨client, held, by simp [Field.text, opened]⟩
          apply dropped.send (Cause.onward_ne _)
          rintro who ⟨⟩ onHost read
          cases read
          exact .inr ⟨rfl, rfl, rfl⟩
  | client connId =>
      have kept := kept.drop there (by simp [cause])
      obtain ⟨kind, payload, frame, other, _⟩ := routed connId (by simp [cause, Cause.who])
      unfold Relay.hostMessage
      rw [frame, codec.decode_hostEncode]
      simp only [DeviceFrameHeader.inRoom, Field.ofOption, cause]
      rw [if_neg (by simpa using fun same => absurd same other)]
      split
      · exact kept
      · split
        · apply kept.deliver (by simp)
          rintro who ⟨⟩
          rfl
        · apply kept.send (Cause.onward_ne _)
          rintro who ⟨⟩ onHost read
          simp only [RoomHeader.onHost, Field.string?, Field.routing?] at read
          cases read
          exact .inr ⟨rfl, rfl, rfl⟩
  | other =>
      have kept := kept.drop there (by simp [cause])
      unfold Relay.hostMessage
      split
      · exact ⟨kept.distinct, kept.named, kept.isolated, kept.toHost, kept.fromHost,
          fun client held => (kept.fed client held).congr rfl rfl⟩
      · exact kept
      · simp only [cause]
        split
        · split
          · rename_i chatId token _
            have acknowledged : Kept codec { relay with
                fromHost := rest, nudges := acknowledgeNudge relay.nudges chatId token } :=
              ⟨kept.distinct, kept.named, kept.isolated, kept.toHost, kept.fromHost,
                fun client held => (kept.fed client held).congr rfl rfl⟩
            exact acknowledged.note (by simp [Cause.who])
          · exact kept
        · split
          · exact kept
          · split
            · exact kept.deliver (by simp) (by simp [Cause.who])
            · exact kept.send (Cause.onward_ne _) (by simp [Cause.onward, Cause.who])

theorem Kept.step {action : RelayAction bytes} (kept : Kept codec relay)
    (stepped : relay.step codec action = some after) : Kept codec after := by
  unfold Relay.step at stepped
  cases action with
  | client number frame live =>
      simp only at stepped
      split at stepped
      · cases stepped
      · rename_i client there
        split at stepped
        · cases stepped
          exact kept.clientMessage there frame _
        · cases stepped
  | clientClosed number live =>
      simp only at stepped
      split at stepped
      · cases stepped
      · rename_i client there
        cases stepped
        split
        · exact kept.clientClosed there
        · exact kept.close there
  | hostFrame listed =>
      simp only at stepped
      split at stepped
      · cases stepped
      · rename_i sent rest there
        cases stepped
        exact kept.hostMessage there listed
  | handle admitted =>
      simp only at stepped
      split at stepped
      · cases stepped
      · rename_i sent rest there
        cases stepped
        obtain ⟨reply, stamped⟩ := kept.toHost sent (by simp [there])
        have taken : Kept codec { relay with toHost := rest } := by
          refine ⟨kept.distinct, kept.named, kept.isolated, ?_, kept.fromHost, fun client held =>
            (kept.fed client held).congr rfl rfl⟩
          intro other later
          apply kept.toHost other
          rw [there]
          exact List.mem_cons_of_mem _ later
        exact taken.handleHostFrame admitted reply stamped
  | reply connId payload =>
      simp only at stepped
      split at stepped
      · cases stepped
        exact kept.produce connId payload
      · cases stepped
  | hostSends frame =>
      cases stepped
      exact kept.reply (by simp) (by simp [Cause.who])
  | nudge chatId payload =>
      cases stepped
      exact kept.send (by simp) (by simp [Cause.who])

theorem kept_start {conns : List String} (distinct : conns.Nodup) (named : "" ∉ conns)
    (nudges : Nudges) (nudgeAck : Bool) : Kept codec (start conns nudges nudgeAck) := by
  refine ⟨?_, ?_, nofun, nofun, nofun, ?_⟩
  · simpa [start, Function.comp_def] using distinct
  · intro client there
    obtain ⟨connId, held, rfl⟩ := List.mem_map.mp there
    rintro rfl
    exact named held
  · intro client there
    obtain ⟨connId, _, rfl⟩ := List.mem_map.mp there
    exact ⟨nofun, List.nil_prefix, fun _ => rfl⟩

/-! ## The client without a name

The room takes an empty connection id as it comes, and reads an empty destination as none.
-/

/-- A call that a client makes, and the reply that its connection sends. -/
theorem unnamed_unanswered (codec : Codec bytes) {conns : List String} (there : "" ∈ conns) :
    ∃ relay, Reaches (step codec) (fun _ _ => True) (start conns {} false) relay ∧
      relay.clients = (start conns {} false : Relay bytes).clients ∧
      relay.produced = [("", [])] ∧ relay.fromHost = [] := by
  obtain ⟨number, within, named⟩ := List.mem_iff_getElem.mp there
  have client : (start conns {} false : Relay bytes).clients[number]? = some { connId := "" } := by
    simp [start, within, named]
  let calling : Relay bytes := (start conns {} false).send codec (.client "")
    { s := .string rpcKind, k := .string rpcKind, fromConn := .string "" } []
  let serving : Relay bytes :=
    { calling with toHost := [], served := [""] }.setConn (.client "") "" (some [[]])
  let replying : Relay bytes := { serving with produced := [("", [])] }.reply codec (.conn "" [])
    { s := rpcKind, k := rpcKind, toConn := some "" } []
  have called : (start conns {} false : Relay bytes).step codec
      (.client number (codec.hostEncode { s := rpcKind, k := rpcKind } []) true) =
        some calling := by
    simp only [step, client, clientMessage, codec.decode_hostEncode]
    rfl
  have served : calling.step codec (.handle false) = some serving := by
    have frame : calling.toHost = [⟨.client "", codec.encode
        { s := .string rpcKind, k := .string rpcKind, fromConn := .string "" } []⟩] := rfl
    simp only [step, frame, handleHostFrame, codec.hostDecode_encode]
    rfl
  have replied : serving.step codec (.reply "" []) = some replying := by
    have known : "" ∈ serving.served := List.mem_singleton.mpr rfl
    simp only [step, known]
    rfl
  have dropped : replying.step codec (.hostFrame false) =
      some { replying with fromHost := [] } := by
    have frame : replying.fromHost = [⟨.conn "" [], codec.hostEncode
        { s := rpcKind, k := rpcKind, toConn := some "" } []⟩] := rfl
    simp only [step, frame, hostMessage, codec.decode_hostEncode]
    rfl
  refine ⟨{ replying with fromHost := [] }, ?_, rfl, rfl, rfl⟩
  exact Relation.ReflTransGen.refl.tail ⟨_, trivial, called⟩ |>.tail ⟨_, trivial, served⟩
    |>.tail ⟨_, trivial, replied⟩ |>.tail ⟨_, trivial, dropped⟩

theorem not_relaysApart (codec : Codec bytes) {conns : List String} (there : "" ∈ conns) :
    ¬ RelaysApart codec conns := by
  intro apart
  obtain ⟨relay, runs, clients, produced, landed⟩ := unnamed_unanswered codec there
  obtain ⟨_, delivered⟩ := apart {} false relay runs
  have held : ({ connId := "" } : ClientSocket bytes) ∈ relay.clients := by
    rw [clients]
    exact List.mem_map.mpr ⟨"", there, rfl⟩
  have all := (delivered _ held).all rfl (by simp [landed])
  simp [replies, produced] at all

/-- The room keeps clients apart exactly where each has a name. -/
theorem relaysApart_iff (codec : Codec bytes) (conns : List String) (distinct : conns.Nodup) :
    RelaysApart codec conns ↔ "" ∉ conns := by
  constructor
  · intro apart there
    exact not_relaysApart codec there apart
  · intro named nudges nudgeAck relay runs
    have kept : Kept codec relay := runs.keeps (kept_start distinct named nudges nudgeAck)
      fun _ _ _ kept _ stepped => kept.step stepped
    exact kept.apart

theorem named_clients_apart : RelaysApart plain ["a", "b"] ↔ "" ∉ ["a", "b"] :=
  relaysApart_iff plain ["a", "b"] (by decide)

theorem unnamed_client_unanswered : ¬ RelaysApart plain [""] :=
  not_relaysApart plain (by decide)

end Relay

end Zeron.Device
