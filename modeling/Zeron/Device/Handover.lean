import Zeron.Data.Runs
import Zeron.Device.Triggers

namespace Zeron.Device

open Zeron.Data

/-! # Calls and the host that serves them

A client's calls run in the session of the host that took them, and end with it.  The room
tells the clients of a host that is gone, unless it counts another one as live.  One
process hosts the device, so a session begins after the one before has ended; handlers
answer a request in the kind it was made.
-/

inductive CallFrame
  | request (id : Nat)
  | cancel (id : Nat)
deriving DecidableEq

/-- What the room sends the host: a client's frame, or the news that a client is gone. -/
inductive HostFrame
  | call (number : Nat) (frame : CallFrame)
  | clientGone (number : Nat)
deriving DecidableEq

/-- What the room sends a client: a reply of the host, or an error of the relay. -/
inductive LinkFrame
  | reply (id : Nat) (last : Bool)
  | relayError
deriving DecidableEq

structure HostReply where
  number : Nat
  id : Nat
  /-- The reply that ends the request: a value, an error or the end of a stream. -/
  last : Bool
deriving DecidableEq

structure CallLink where
  nextId : Nat := 1
  pending : List Nat := []
  /-- The link's pump runs. -/
  isOpen : Bool := true
  /-- Frames pass on its socket; either end may not know yet that they do not. -/
  socketUp : Bool := true
  /-- The room lists its socket. -/
  listed : Bool := true
  sent : List CallFrame := []
  received : List LinkFrame := []

structure HostSession where
  ws : Nat
  socketUp : Bool := true
  /-- The requests that run in each virtual connection. -/
  conns : Nat → Option (List Nat) := fun _ => none
  toHost : List HostFrame := []
  fromHost : List HostReply := []

structure Handover where
  clients : List CallLink := []
  /-- The host sockets that the room lists, and when each was last seen. -/
  hosts : List (Nat × Nat) := []
  accepted : Nat := 0
  session : Option HostSession := none
  now : Nat := 0

inductive HandoverAction
  | clientJoins
  | request (number : Nat)
  | cancel (number id : Nat)
  | clientTakes (number : Nat)
  /-- The socket of a client fails, and neither end knows. -/
  | clientLost (number : Nat)
  /-- The link goes down: it is dropped, its socket is found dead or the echoes are missing. -/
  | clientCloses (number : Nat)
  | clientClosed (number : Nat)
  /-- The room takes the next frame of a client. -/
  | relayCall (number : Nat)
  /-- The room takes the next frame of the host. -/
  | relayReply
  | hostJoins
  | hostLost
  | hostLeaves
  | hostClosed (ws : Nat)
  | hostTakes
  | hostReplies (number id : Nat) (last : Bool)
  /-- The runtime answers a ping of the host. -/
  | ping
  | tick (ms : Nat)

/-- The socket leads to the session. -/
def serves (session : Option HostSession) (ws : Nat) : Bool :=
  match session with
  | some held => held.ws = ws && held.socketUp
  | none => false

def CallLink.deliver (link : CallLink) (frame : LinkFrame) : CallLink :=
  if link.socketUp then { link with received := link.received ++ [frame] } else link

def CallLink.send (link : CallLink) (frame : CallFrame) : CallLink :=
  if link.socketUp then { link with sent := link.sent ++ [frame] } else link

/-- The link is down: the calls that are pending fail. -/
def CallLink.close (link : CallLink) : CallLink :=
  { link with pending := [], isOpen := false, socketUp := false, sent := [], received := [] }

def CallLink.take (link : CallLink) : LinkFrame → CallLink
  | .reply id true => { link with pending := link.pending.filter (· ≠ id) }
  | .reply _ false => link
  | .relayError => link.close

def HostSession.reply (held : HostSession) (reply : HostReply) : HostSession :=
  if held.socketUp then { held with fromHost := held.fromHost ++ [reply] } else held

def CallFrame.serve : CallFrame → List Nat → List Nat
  | .request id, running => running ++ [id]
  | .cancel id, running => running.filter (· ≠ id)

/-- `handle_host_frame`, as far as calls go. -/
def HostSession.take (held : HostSession) : HostFrame → HostSession
  | .call number frame =>
      let running := frame.serve ((held.conns number).getD [])
      { held with conns := Function.update held.conns number (some running) }
  | .clientGone number => { held with conns := Function.update held.conns number none }

namespace Handover

def liveHost (room : Handover) (exclude : Option Nat) : Option Nat :=
  pickLiveHost room.hosts room.now exclude

/-- A frame sent to a host socket is lost where that leads to no session. -/
def deliver (room : Handover) (ws : Nat) (frame : HostFrame) : Handover :=
  match room.session with
  | some held =>
      if held.ws = ws && held.socketUp then
        { room with session := some { held with toHost := held.toHost ++ [frame] } }
      else room
  | none => room

def setLink (room : Handover) (number : Nat) (link : CallLink) : Handover :=
  { room with clients := room.clients.set number link }

/-- `webSocketMessage` for a client. -/
def clientMessage (room : Handover) (number : Nat) (link : CallLink) (frame : CallFrame) :
    Handover :=
  match room.liveHost none with
  | none => room.setLink number (link.deliver .relayError)
  | some ws => room.deliver ws (.call number frame)

/-- `webSocketMessage` for the host. -/
def hostMessage (room : Handover) (held : HostSession) (reply : HostReply) : Handover :=
  match room.clients[reply.number]? with
  | some link =>
      if link.listed then room.setLink reply.number (link.deliver (.reply reply.id reply.last))
      else room.deliver held.ws (.clientGone reply.number)
  | none => room.deliver held.ws (.clientGone reply.number)

/-- `webSocketClose` for a host. -/
def hostClose (room : Handover) (ws : Nat) : Handover :=
  let left := room.hosts.filter fun host => host.1 ≠ ws
  match room.liveHost (some ws) with
  | some _ => { room with hosts := left }
  | none =>
      { room with
        hosts := left
        clients := room.clients.map fun link =>
          if link.listed then link.deliver .relayError else link }

def step (room : Handover) : HandoverAction → Option Handover
  | .clientJoins => some { room with clients := room.clients ++ [{}] }
  | .request number =>
      match room.clients[number]? with
      | none => none
      | some link =>
          if link.isOpen then
            let asked := { link with
              nextId := link.nextId + 1, pending := link.pending ++ [link.nextId] }
            some (room.setLink number (asked.send (.request link.nextId)))
          else none
  | .cancel number id =>
      match room.clients[number]? with
      | none => none
      | some link =>
          if id ∈ link.pending then
            let dropped := { link with pending := link.pending.filter (· ≠ id) }
            some (room.setLink number (dropped.send (.cancel id)))
          else none
  | .clientTakes number =>
      match room.clients[number]? with
      | none => none
      | some link =>
          match link.received with
          | [] => none
          | frame :: rest => some (room.setLink number ({ link with received := rest }.take frame))
  | .clientLost number =>
      match room.clients[number]? with
      | none => none
      | some link =>
          some (room.setLink number { link with socketUp := false, sent := [], received := [] })
  | .clientCloses number =>
      match room.clients[number]? with
      | none => none
      | some link => some (room.setLink number link.close)
  | .clientClosed number =>
      match room.clients[number]? with
      | none => none
      | some link =>
          if link.listed && !link.socketUp then
            let gone := room.setLink number { link with listed := false }
            match room.liveHost none with
            | some ws => some (gone.deliver ws (.clientGone number))
            | none => some gone
          else none
  | .relayCall number =>
      match room.clients[number]? with
      | none => none
      | some link =>
          match link.sent with
          | [] => none
          | frame :: rest =>
              let taken := { link with sent := rest }
              some ((room.setLink number taken).clientMessage number taken frame)
  | .relayReply =>
      match room.session with
      | none => none
      | some held =>
          match held.fromHost with
          | [] => none
          | reply :: rest =>
              let taken := { held with fromHost := rest }
              some ({ room with session := some taken }.hostMessage taken reply)
  | .hostJoins =>
      -- the sockets that are superseded here lead nowhere since their session ended
      match room.session with
      | some _ => none
      | none =>
          some { room with
            hosts := room.hosts ++ [(room.accepted, room.now)]
            accepted := room.accepted + 1
            session := some { ws := room.accepted } }
  | .hostLost =>
      match room.session with
      | none => none
      | some held =>
          some { room with
            session := some { held with socketUp := false, toHost := [], fromHost := [] } }
  | .hostLeaves =>
      match room.session with
      | none => none
      | some _ => some { room with session := none }
  | .hostClosed ws =>
      if ws ∈ room.hosts.map Prod.fst ∧ serves room.session ws = false then
        some (room.hostClose ws)
      else none
  | .hostTakes =>
      match room.session with
      | none => none
      | some held =>
          match held.toHost with
          | [] => none
          | frame :: rest =>
              some { room with session := some ({ held with toHost := rest }.take frame) }
  | .hostReplies number id last =>
      match room.session with
      | none => none
      | some held =>
          match held.conns number with
          | none => none
          | some running =>
              if id ∈ running then
                let left := if last then running.filter (· ≠ id) else running
                let answered := { held with
                  conns := Function.update held.conns number (some left) }
                some { room with session := some (answered.reply ⟨number, id, last⟩) }
              else none
  | .ping =>
      some { room with
        hosts := room.hosts.map fun host =>
          if serves room.session host.1 then (host.1, room.now) else host }
  | .tick ms => some { room with now := room.now + ms }

/-! ## What a handover must not do -/

/-- No frame is on its way, and every socket that failed is known to have. -/
structure Quiet (room : Handover) : Prop where
  clients : ∀ link ∈ room.clients, link.sent = [] ∧ link.received = [] ∧
    (link.socketUp = true ∨ link.isOpen = false ∧ link.listed = false)
  hosts : ∀ host ∈ room.hosts, serves room.session host.1 = true
  session : ∀ held, room.session = some held →
    held.socketUp = true ∧ held.toHost = [] ∧ held.fromHost = []

theorem quiet_iff (room : Handover) : room.Quiet ↔
    (∀ link ∈ room.clients, link.sent = [] ∧ link.received = [] ∧
      (link.socketUp = true ∨ link.isOpen = false ∧ link.listed = false)) ∧
    (∀ host ∈ room.hosts, serves room.session host.1 = true) ∧
    ∀ held ∈ room.session, held.socketUp = true ∧ held.toHost = [] ∧ held.fromHost = [] :=
  ⟨fun quiet => ⟨quiet.clients, quiet.hosts, quiet.session⟩,
    fun quiet => ⟨quiet.1, quiet.2.1, quiet.2.2⟩⟩

instance (room : Handover) : Decidable room.Quiet := decidable_of_iff _ (quiet_iff room).symm

/-- What is pending on a link that is not closed runs in the live session. -/
def Answered (room : Handover) : Prop :=
  ∀ number link, room.clients[number]? = some link → link.isOpen = true → ∀ id ∈ link.pending,
    ∃ held running, room.session = some held ∧ held.conns number = some running ∧ id ∈ running

/-- No run strands a call. -/
def NeverStrands : Prop :=
  ∀ room, Reaches step (fun _ _ => True) {} room → room.Quiet → room.Answered

/-! ## Where a call is -/

/-- The request runs in the session, or it or its last reply is on its way there. -/
def Working (session : Option HostSession) (number id : Nat) : Prop :=
  ∃ held, session = some held ∧ held.socketUp = true ∧
    (HostFrame.call number (.request id) ∈ held.toHost ∨
      (∃ running, held.conns number = some running ∧ id ∈ running) ∨
      ⟨number, id, true⟩ ∈ held.fromHost)

/-- The request is somewhere between its client and the session that serves it. -/
def Carried (session : Option HostSession) (number : Nat) (link : CallLink) (id : Nat) : Prop :=
  CallFrame.request id ∈ link.sent ∨ LinkFrame.reply id true ∈ link.received ∨
    Working session number id

/-- The link is about to go down. -/
def Doomed (link : CallLink) : Prop :=
  link.socketUp = false ∨ LinkFrame.relayError ∈ link.received

/-- The room still lists a host socket that leads nowhere. -/
def Corpse (session : Option HostSession) (hosts : List (Nat × Nat)) : Prop :=
  ∃ host ∈ hosts, serves session host.1 = false

/-- Where the close of the last dead host socket finds another host live, no request is lost. -/
def Told (room : Handover) (action : HandoverAction) : Prop :=
  ∀ ws, action = .hostClosed ws → room.liveHost (some ws) ≠ none →
    (∀ host ∈ room.hosts, host.1 ≠ ws → serves room.session host.1 = true) →
    ∀ number link, room.clients[number]? = some link → link.isOpen = true →
      ∀ id ∈ link.pending, Carried room.session number link id ∨ Doomed link

def OnWay (session : Option HostSession) (frame : HostFrame) : Prop :=
  ∃ held, session = some held ∧ frame ∈ held.toHost

structure LinkKept (session : Option HostSession) (hosts : List (Nat × Nat)) (number : Nat)
    (link : CallLink) : Prop where
  listed : link.listed = false → link.socketUp = false
  fresh : ∀ id ∈ link.pending, id < link.nextId
  dropped : ∀ id, CallFrame.cancel id ∈ link.sent → id < link.nextId ∧ id ∉ link.pending
  cancelled : ∀ id, OnWay session (.call number (.cancel id)) → id < link.nextId ∧ id ∉ link.pending
  gone : OnWay session (.clientGone number) → link.listed = false
  told : link.isOpen = true → ∀ id ∈ link.pending,
    Carried session number link id ∨ Doomed link ∨ Corpse session hosts

/-- The clients that the frames and the connections of a session are of. -/
structure Named (count : Nat) (held : HostSession) : Prop where
  calls : ∀ number frame, HostFrame.call number frame ∈ held.toHost → number < count
  gone : ∀ number, HostFrame.clientGone number ∈ held.toHost → number < count
  conns : ∀ number running, held.conns number = some running → number < count
  replies : ∀ reply ∈ held.fromHost, reply.number < count

structure Kept (room : Handover) : Prop where
  links : ∀ number link, room.clients[number]? = some link →
    LinkKept room.session room.hosts number link
  hosts : ∀ host ∈ room.hosts, host.1 < room.accepted
  joined : ∀ held, room.session = some held → held.socketUp = true →
    ∃ host ∈ room.hosts, host.1 = held.ws
  named : ∀ held, room.session = some held → Named room.clients.length held

variable {room after : Handover} {session other : Option HostSession}
  {hosts left : List (Nat × Nat)} {number : Nat} {link : CallLink} {held : HostSession}

/-! ## Links -/

/-- A link that is as it was, beside a host and a room that may have changed. -/
theorem LinkKept.beside (kept : LinkKept session hosts number link)
    (cancelled : ∀ id, OnWay other (.call number (.cancel id)) →
      OnWay session (.call number (.cancel id)))
    (gone : OnWay other (.clientGone number) →
      OnWay session (.clientGone number) ∨ link.listed = false)
    (working : ∀ id ∈ link.pending, Working session number id →
      Carried other number link id ∨ Doomed link ∨ Corpse other left)
    (corpse : Corpse session hosts → Corpse other left) : LinkKept other left number link := by
  refine ⟨kept.listed, kept.fresh, kept.dropped, fun id there => kept.cancelled id (cancelled id there),
    ?_, ?_⟩
  · intro there
    rcases gone there with before | unlisted
    · exact kept.gone before
    · exact unlisted
  · intro opened id asked
    rcases kept.told opened id asked with carried | doomed | dead
    · rcases carried with sent | received | works
      · exact .inl (.inl sent)
      · exact .inl (.inr (.inl received))
      · exact working id asked works
    · exact .inr (.inl doomed)
    · exact .inr (.inr (corpse dead))

theorem linkKept_join (named : ∀ held, session = some held → Named number held) :
    LinkKept session hosts number {} := by
  refine ⟨nofun, nofun, nofun, ?_, ?_, nofun⟩
  · rintro id ⟨held, same, there⟩
    exact absurd ((named held same).calls number _ there) (Nat.lt_irrefl _)
  · rintro ⟨held, same, there⟩
    exact absurd ((named held same).gone number there) (Nat.lt_irrefl _)

theorem LinkKept.close (kept : LinkKept session hosts number link) :
    LinkKept session hosts number link.close := by
  refine ⟨fun _ => rfl, nofun, nofun, ?_, kept.gone, nofun⟩
  intro id there
  exact ⟨(kept.cancelled id there).1, nofun⟩

theorem LinkKept.lost (kept : LinkKept session hosts number link) :
    LinkKept session hosts number { link with socketUp := false, sent := [], received := [] } :=
  ⟨fun _ => rfl, kept.fresh, nofun, kept.cancelled, kept.gone, fun _ _ _ => .inr (.inl (.inl rfl))⟩

theorem LinkKept.unlist (kept : LinkKept session hosts number link)
    (down : link.socketUp = false) : LinkKept session hosts number { link with listed := false } :=
  ⟨fun _ => down, kept.fresh, kept.dropped, kept.cancelled, fun _ => rfl,
    fun _ _ _ => .inr (.inl (.inl down))⟩

/-- A frame that reaches a link changes nothing that was there. -/
theorem LinkKept.deliver (kept : LinkKept session hosts number link) (frame : LinkFrame) :
    LinkKept session hosts number (link.deliver frame) := by
  unfold CallLink.deliver
  split
  · refine ⟨kept.listed, kept.fresh, kept.dropped, kept.cancelled, kept.gone, ?_⟩
    intro opened id asked
    rcases kept.told opened id asked with (sent | received | works) | (down | error) | dead
    · exact .inl (.inl sent)
    · exact .inl (.inr (.inl (List.mem_append_left _ received)))
    · exact .inl (.inr (.inr works))
    · exact .inr (.inl (.inl down))
    · exact .inr (.inl (.inr (List.mem_append_left _ error)))
    · exact .inr (.inr dead)
  · exact kept

theorem doomed_deliver (link : CallLink) : Doomed (link.deliver .relayError) := by
  unfold CallLink.deliver
  split
  · exact .inr (List.mem_append_right _ List.mem_cons_self)
  · rename_i down
    exact .inl (by simpa using down)

theorem LinkKept.request (kept : LinkKept session hosts number link) :
    LinkKept session hosts number
      (({ link with nextId := link.nextId + 1, pending := link.pending ++ [link.nextId] } :
        CallLink).send (.request link.nextId)) := by
  have grown : ∀ id ∈ link.pending ++ [link.nextId], id < link.nextId + 1 := by
    intro id asked
    rcases List.mem_append.mp asked with before | new
    · have := kept.fresh id before
      omega
    · obtain rfl := List.mem_singleton.mp new
      omega
  have apart : ∀ id, id < link.nextId ∧ id ∉ link.pending →
      id < link.nextId + 1 ∧ id ∉ link.pending ++ [link.nextId] := by
    rintro id ⟨below, out⟩
    refine ⟨by omega, ?_⟩
    simp only [List.mem_append, List.mem_singleton, not_or]
    exact ⟨out, by omega⟩
  unfold CallLink.send
  split
  · refine ⟨kept.listed, grown, ?_, fun id there => apart id (kept.cancelled id there), kept.gone, ?_⟩
    · intro id there
      rcases List.mem_append.mp there with before | new
      · exact apart id (kept.dropped id before)
      · cases List.mem_singleton.mp new
    · intro opened id asked
      rcases List.mem_append.mp asked with before | new
      · rcases kept.told opened id before with (sent | received | works) | doomed | dead
        · exact .inl (.inl (List.mem_append_left _ sent))
        · exact .inl (.inr (.inl received))
        · exact .inl (.inr (.inr works))
        · exact .inr (.inl doomed)
        · exact .inr (.inr dead)
      · obtain rfl := List.mem_singleton.mp new
        exact .inl (.inl (List.mem_append_right _ List.mem_cons_self))
  · rename_i down
    refine ⟨kept.listed, grown, fun id there => apart id (kept.dropped id there),
      fun id there => apart id (kept.cancelled id there), kept.gone, ?_⟩
    intro _ _ _
    exact .inr (.inl (.inl (by simpa using down)))

/-- A request that is no longer pending needs nothing. -/
theorem LinkKept.forget (kept : LinkKept session hosts number link) (id : Nat) :
    LinkKept session hosts number { link with pending := link.pending.filter (· ≠ id) } := by
  refine ⟨kept.listed, fun other asked => kept.fresh other (List.mem_of_mem_filter asked), ?_, ?_,
    kept.gone, fun opened other asked => kept.told opened other (List.mem_of_mem_filter asked)⟩
  · intro other there
    obtain ⟨below, out⟩ := kept.dropped other there
    exact ⟨below, fun asked => out (List.mem_of_mem_filter asked)⟩
  · intro other there
    obtain ⟨below, out⟩ := kept.cancelled other there
    exact ⟨below, fun asked => out (List.mem_of_mem_filter asked)⟩

theorem LinkKept.cancel (kept : LinkKept session hosts number link) {id : Nat}
    (asked : id ∈ link.pending) :
    LinkKept session hosts number
      (({ link with pending := link.pending.filter (· ≠ id) } : CallLink).send (.cancel id)) := by
  have forgot := kept.forget id
  have below := kept.fresh id asked
  unfold CallLink.send
  split
  · refine ⟨forgot.listed, forgot.fresh, ?_, forgot.cancelled, forgot.gone, ?_⟩
    · intro other there
      rcases List.mem_append.mp there with before | new
      · exact forgot.dropped other before
      · cases List.mem_singleton.mp new
        exact ⟨below, by simp⟩
    · intro opened other still
      rcases forgot.told opened other still with (sent | received | works) | rest
      · exact .inl (.inl (List.mem_append_left _ sent))
      · exact .inl (.inr (.inl received))
      · exact .inl (.inr (.inr works))
      · exact .inr rest
  · exact forgot

/-- A client takes the next frame of its link. -/
theorem LinkKept.take (kept : LinkKept session hosts number link) {frame : LinkFrame}
    {rest : List LinkFrame} (next : link.received = frame :: rest) :
    LinkKept session hosts number (({ link with received := rest } : CallLink).take frame) := by
  have later : ∀ other ∈ link.received, other ≠ frame → other ∈ rest := by
    intro other there apart
    rw [next] at there
    exact (List.mem_cons.mp there).resolve_left apart
  cases frame with
  | relayError =>
      refine ⟨fun _ => rfl, nofun, nofun, ?_, kept.gone, nofun⟩
      intro id there
      exact ⟨(kept.cancelled id there).1, nofun⟩
  | reply id last =>
      have told : link.isOpen = true → ∀ asked ∈ link.pending, (last = true → asked ≠ id) →
          Carried session number { link with received := rest } asked ∨
            Doomed { link with received := rest } ∨ Corpse session hosts := by
        intro opened asked pending apart
        rcases kept.told opened asked pending with (sent | received | works) | (down | error) | dead
        · exact .inl (.inl sent)
        · refine .inl (.inr (.inl (later _ received ?_)))
          rintro ⟨⟩
          exact apart rfl rfl
        · exact .inl (.inr (.inr works))
        · exact .inr (.inl (.inl down))
        · exact .inr (.inl (.inr (later _ error nofun)))
        · exact .inr (.inr dead)
      cases last with
      | false =>
          exact ⟨kept.listed, kept.fresh, kept.dropped, kept.cancelled, kept.gone,
            fun opened asked pending => told opened asked pending nofun⟩
      | true =>
          have forgot := kept.forget id
          refine ⟨forgot.listed, forgot.fresh, forgot.dropped, forgot.cancelled, forgot.gone, ?_⟩
          intro opened asked pending
          obtain ⟨pending, apart⟩ := List.mem_filter.mp pending
          exact told opened asked pending fun _ => by simpa using apart

theorem LinkKept.bounce (kept : LinkKept session hosts number link) {frame : CallFrame}
    {rest : List CallFrame} (next : link.sent = frame :: rest) :
    LinkKept session hosts number (({ link with sent := rest } : CallLink).deliver .relayError) := by
  have dropped : ∀ id, CallFrame.cancel id ∈ rest → id < link.nextId ∧ id ∉ link.pending := by
    intro id there
    apply kept.dropped id
    rw [next]
    exact List.mem_cons_of_mem _ there
  have doomed := doomed_deliver { link with sent := rest }
  unfold CallLink.deliver at doomed ⊢
  split
  · rename_i up
    rw [if_pos up] at doomed
    exact ⟨kept.listed, kept.fresh, dropped, kept.cancelled, kept.gone,
      fun _ _ _ => .inr (.inl doomed)⟩
  · rename_i down
    rw [if_neg down] at doomed
    exact ⟨kept.listed, kept.fresh, dropped, kept.cancelled, kept.gone,
      fun _ _ _ => .inr (.inl doomed)⟩

/-! ## The room and the host -/

theorem deliver_eq (room : Handover) (ws : Nat) (frame : HostFrame) :
    room.deliver ws frame = { room with session := (room.deliver ws frame).session } := by
  unfold deliver
  split
  · split <;> rfl
  · rfl

theorem deliver_setLink (room : Handover) (number : Nat) (link : CallLink) (ws : Nat)
    (frame : HostFrame) :
    (room.setLink number link).deliver ws frame = (room.deliver ws frame).setLink number link := by
  obtain ⟨clients, hosts, accepted, session, now⟩ := room
  cases session with
  | none => rfl
  | some held =>
      simp only [deliver, setLink]
      split <;> rfl

/-- A frame reaches the session exactly where its socket leads there. -/
theorem session_deliver (room : Handover) (ws : Nat) (frame : HostFrame) :
    (∃ held, room.session = some held ∧ held.ws = ws ∧ held.socketUp = true ∧
      (room.deliver ws frame).session = some { held with toHost := held.toHost ++ [frame] }) ∨
    serves room.session ws = false ∧ (room.deliver ws frame).session = room.session := by
  unfold deliver serves
  cases there : room.session with
  | none => exact .inr ⟨rfl, there⟩
  | some held =>
      simp only
      split
      · rename_i here
        simp only [Bool.and_eq_true, decide_eq_true_eq] at here
        exact .inl ⟨held, rfl, here.1, here.2, rfl⟩
      · rename_i away
        exact .inr ⟨by simpa using away, there⟩

theorem onWay_deliver {ws : Nat} {frame sent : HostFrame}
    (there : OnWay (room.deliver ws frame).session sent) : OnWay room.session sent ∨ sent = frame := by
  obtain ⟨held, same, member⟩ := there
  rcases session_deliver room ws frame with ⟨before, was, _, _, grown⟩ | ⟨_, kept⟩
  · rw [grown] at same
    cases same
    rcases List.mem_append.mp member with earlier | new
    · exact .inl ⟨before, was, earlier⟩
    · exact .inr (List.mem_singleton.mp new)
  · exact .inl ⟨held, kept.symm.trans same, member⟩

theorem working_deliver {ws : Nat} {frame : HostFrame} {id : Nat}
    (works : Working room.session number id) :
    Working (room.deliver ws frame).session number id := by
  obtain ⟨held, same, up, works⟩ := works
  rcases session_deliver room ws frame with ⟨before, was, _, _, grown⟩ | ⟨_, kept⟩
  · cases was.symm.trans same
    refine ⟨_, grown, up, ?_⟩
    rcases works with asked | runs
    · exact .inl (List.mem_append_left _ asked)
    · exact .inr runs
  · exact ⟨held, kept.trans same, up, works⟩

theorem serves_deliver (room : Handover) (ws : Nat) (frame : HostFrame) (socket : Nat) :
    serves (room.deliver ws frame).session socket = serves room.session socket := by
  rcases session_deliver room ws frame with ⟨before, was, _, _, grown⟩ | ⟨_, kept⟩
  · rw [grown, was]
    rfl
  · rw [kept]

theorem Kept.setLink (kept : Kept room) (next : LinkKept room.session room.hosts number link) :
    Kept (room.setLink number link) := by
  refine ⟨?_, kept.hosts, kept.joined, ?_⟩
  · intro place found there
    simp only [Handover.setLink, List.getElem?_set] at there
    split at there
    · rename_i same
      subst same
      split at there
      · cases there
        exact next
      · cases there
    · exact kept.links place found there
  · intro held there
    simp only [Handover.setLink, List.length_set]
    exact kept.named held there

theorem mem_hosts_of_liveHost {ws : Nat} (live : room.liveHost none = some ws) :
    ∃ host ∈ room.hosts, host.1 = ws := by
  unfold liveHost pickLiveHost at live
  split at live
  · rename_i best fresh
    simp only [Option.ite_none_right_eq_some, Option.some.injEq] at live
    rcases freshest_mem fresh with member | none
    · exact ⟨best, member, live.2⟩
    · cases none
  · cases live

/-- The room sends the host a frame. -/
theorem Kept.deliver (kept : Kept room) (ws : Nat) {frame : HostFrame}
    (called : ∀ number call, frame = .call number call → number < room.clients.length)
    (left : ∀ number, frame = .clientGone number → number < room.clients.length)
    (cancelled : ∀ number link, room.clients[number]? = some link → ∀ id,
      frame = .call number (.cancel id) → id < link.nextId ∧ id ∉ link.pending)
    (gone : ∀ number link, room.clients[number]? = some link → frame = .clientGone number →
      link.listed = false) : Kept (room.deliver ws frame) := by
  rw [deliver_eq]
  refine ⟨?_, kept.hosts, ?_, ?_⟩
  · intro number link there
    have before := kept.links number link there
    refine ⟨before.listed, before.fresh, before.dropped, ?_, ?_, ?_⟩
    · intro id way
      rcases onWay_deliver way with earlier | new
      · exact before.cancelled id earlier
      · exact cancelled number link there id new.symm
    · intro way
      rcases onWay_deliver way with earlier | new
      · exact before.gone earlier
      · exact gone number link there new.symm
    · intro opened id asked
      rcases before.told opened id asked with (sent | received | works) | doomed | ⟨host, listed, dead⟩
      · exact .inl (.inl sent)
      · exact .inl (.inr (.inl received))
      · exact .inl (.inr (.inr (working_deliver works)))
      · exact .inr (.inl doomed)
      · exact .inr (.inr ⟨host, listed, (serves_deliver room ws frame host.1).trans dead⟩)
  · intro held same up
    rcases session_deliver room ws frame with ⟨before, was, _, _, grown⟩ | ⟨_, still⟩
    · cases same.symm.trans grown
      exact kept.joined before was up
    · exact kept.joined held (still.symm.trans same) up
  · intro held same
    rcases session_deliver room ws frame with ⟨before, was, _, _, grown⟩ | ⟨_, still⟩
    · cases same.symm.trans grown
      have named := kept.named before was
      refine ⟨?_, ?_, named.conns, named.replies⟩
      · intro number call there
        rcases List.mem_append.mp there with earlier | new
        · exact named.calls number call earlier
        · exact called number call (List.mem_singleton.mp new).symm
      · intro number there
        rcases List.mem_append.mp there with earlier | new
        · exact named.gone number earlier
        · exact left number (List.mem_singleton.mp new).symm
    · exact kept.named held (still.symm.trans same)

theorem Kept.relayCall (kept : Kept room) (there : room.clients[number]? = some link)
    {frame : CallFrame} {rest : List CallFrame} (next : link.sent = frame :: rest) :
    Kept ((room.setLink number { link with sent := rest }).clientMessage number
      { link with sent := rest } frame) := by
  have before := kept.links number link there
  have within := (List.getElem?_eq_some_iff.mp there).1
  unfold clientMessage
  split
  · have bounced := kept.setLink (before.bounce next)
    simpa [Handover.setLink, List.set_set] using bounced
  · rename_i ws live
    rw [deliver_setLink]
    have sent : Kept (room.deliver ws (.call number frame)) := by
      apply kept.deliver
      · rintro _ _ ⟨⟩
        exact within
      · exact nofun
      · rintro _ found held id ⟨⟩
        cases there.symm.trans held
        exact before.dropped id (by simp [next])
      · exact nofun
    have link' := sent.links number link (by rw [deliver_eq]; exact there)
    apply sent.setLink
    refine ⟨link'.listed, link'.fresh, ?_, link'.cancelled, link'.gone, ?_⟩
    · intro id later
      apply link'.dropped id
      rw [next]
      exact List.mem_cons_of_mem _ later
    · intro opened id asked
      rcases link'.told opened id asked with (here | received | works) | rest
      · rw [next] at here
        rcases List.mem_cons.mp here with rfl | later
        · -- the request that the room took reaches the session, or was sent to a dead socket
          rcases session_deliver room ws (.call number (.request id)) with
            ⟨held, was, _, up, grown⟩ | ⟨dead, still⟩
          · exact .inl (.inr (.inr ⟨_, grown, up,
              .inl (List.mem_append_right _ List.mem_cons_self)⟩))
          · obtain ⟨host, listed, rfl⟩ := mem_hosts_of_liveHost live
            refine .inr (.inr ⟨host, ?_, ?_⟩)
            · rw [deliver_eq]
              exact listed
            · rw [still]
              exact dead
        · exact .inl (.inl later)
      · exact .inl (.inr (.inl received))
      · exact .inl (.inr (.inr works))
      · exact .inr rest

/-- The room tells the host that a client is gone. -/
theorem Kept.sendGone (kept : Kept room) (ws : Nat) (within : number < room.clients.length)
    (unlisted : ∀ link, room.clients[number]? = some link → link.listed = false) :
    Kept (room.deliver ws (.clientGone number)) := by
  apply kept.deliver
  · exact nofun
  · rintro _ ⟨⟩
    exact within
  · exact nofun
  · rintro _ link there ⟨⟩
    exact unlisted link there

/-- The room takes a reply that its client has, or that nobody waits for. -/
theorem Kept.pop (kept : Kept room) (there : room.session = some held) {reply : HostReply}
    {rest : List HostReply} (next : held.fromHost = reply :: rest)
    (safe : ∀ link, room.clients[reply.number]? = some link → reply.last = true →
      LinkFrame.reply reply.id true ∈ link.received ∨ Doomed link) :
    Kept { room with session := some { held with fromHost := rest } } := by
  have serving : ∀ ws, serves (some { held with fromHost := rest }) ws = serves room.session ws := by
    intro ws
    rw [there]
    rfl
  refine ⟨?_, kept.hosts, ?_, ?_⟩
  · intro number link here
    apply (kept.links number link here).beside
    · rintro id ⟨_, ⟨⟩, way⟩
      exact ⟨held, there, way⟩
    · rintro ⟨_, ⟨⟩, way⟩
      exact .inl ⟨held, there, way⟩
    · rintro id _ ⟨before, was, up, works⟩
      cases there.symm.trans was
      rcases works with asked | runs | answered
      · exact .inl (.inr (.inr ⟨_, rfl, up, .inl asked⟩))
      · exact .inl (.inr (.inr ⟨_, rfl, up, .inr (.inl runs)⟩))
      · rw [next] at answered
        rcases List.mem_cons.mp answered with rfl | later
        · rcases safe link here rfl with received | doomed
          · exact .inl (.inr (.inl received))
          · exact .inr (.inl doomed)
        · exact .inl (.inr (.inr ⟨_, rfl, up, .inr (.inr later)⟩))
    · rintro ⟨host, listed, dead⟩
      exact ⟨host, listed, (serving host.1).trans dead⟩
  · rintro _ ⟨⟩ up
    exact kept.joined held there up
  · rintro _ ⟨⟩
    have named := kept.named held there
    refine ⟨named.calls, named.gone, named.conns, fun reply later => named.replies reply ?_⟩
    rw [next]
    exact List.mem_cons_of_mem _ later

theorem mem_deliver_or_doomed (link : CallLink) (frame : LinkFrame) :
    frame ∈ (link.deliver frame).received ∨ Doomed (link.deliver frame) := by
  unfold CallLink.deliver
  split
  · exact .inl (List.mem_append_right _ List.mem_cons_self)
  · rename_i down
    exact .inr (.inl (by simpa using down))

theorem Kept.relayReply (kept : Kept room) (there : room.session = some held) {reply : HostReply}
    {rest : List HostReply} (next : held.fromHost = reply :: rest) :
    Kept ({ room with session := some { held with fromHost := rest } }.hostMessage
      { held with fromHost := rest } reply) := by
  have within := (kept.named held there).replies reply (by simp [next])
  unfold hostMessage
  cases client : room.clients[reply.number]? with
  | none => exact absurd within (Nat.not_lt.mpr (List.getElem?_eq_none_iff.mp client))
  | some link =>
      have before := kept.links reply.number link client
      simp only
      split
      · rename_i listed
        have told := kept.setLink (before.deliver (.reply reply.id reply.last))
        refine told.pop there next ?_
        intro found here last
        simp only [Handover.setLink, List.getElem?_set_self within, Option.some.injEq] at here
        subst here
        rw [last]
        exact mem_deliver_or_doomed link _
      · rename_i unlisted
        have unlisted : link.listed = false := by simpa using unlisted
        have popped := kept.pop there next fun found here _ => by
          cases client.symm.trans here
          exact .inr (.inl (before.listed unlisted))
        apply popped.sendGone _ within
        intro found here
        cases client.symm.trans here
        exact unlisted

theorem Kept.unlist (kept : Kept room) (there : room.clients[number]? = some link)
    (down : link.socketUp = false) : Kept (room.setLink number { link with listed := false }) :=
  kept.setLink ((kept.links number link there).unlist down)

theorem Kept.clientClosed (kept : Kept room) (there : room.clients[number]? = some link)
    (down : link.socketUp = false) (ws : Nat) :
    Kept ((room.setLink number { link with listed := false }).deliver ws (.clientGone number)) := by
  have within := (List.getElem?_eq_some_iff.mp there).1
  apply (kept.unlist there down).sendGone
  · simpa [Handover.setLink] using within
  · intro found here
    simp only [Handover.setLink, List.getElem?_set_self within, Option.some.injEq] at here
    subst here
    rfl

/-- The session changes, and no client: what is on its way and what runs may only be lost to
a client that will know, or where a dead socket is still listed. -/
theorem Kept.host (kept : Kept room) (there : room.session = some held) {next : HostSession}
    (same : next.ws = held.ws) (up : next.socketUp = true → held.socketUp = true)
    (frames : ∀ frame ∈ next.toHost, frame ∈ held.toHost)
    (named : Named room.clients.length next)
    (working : ∀ number link, room.clients[number]? = some link → ∀ id ∈ link.pending,
      Working (some held) number id → Working (some next) number id ∨ Doomed link ∨
        Corpse (some next) room.hosts) : Kept { room with session := some next } := by
  refine ⟨?_, kept.hosts, ?_, ?_⟩
  · intro number link here
    apply (kept.links number link here).beside
    · rintro id ⟨_, ⟨⟩, way⟩
      exact ⟨held, there, frames _ way⟩
    · rintro ⟨_, ⟨⟩, way⟩
      exact .inl ⟨held, there, frames _ way⟩
    · intro id asked works
      rw [there] at works
      rcases working number link here id asked works with still | rest
      · exact .inl (.inr (.inr still))
      · exact .inr rest
    · rintro ⟨host, listed, dead⟩
      refine ⟨host, listed, ?_⟩
      rw [there] at dead
      unfold serves at dead ⊢
      simp only at dead ⊢
      rw [same]
      cases passes : next.socketUp with
      | false => exact Bool.and_false _
      | true => rwa [up passes] at dead
  · rintro _ ⟨⟩ passes
    rw [same]
    exact kept.joined held there (up passes)
  · rintro _ ⟨⟩
    exact named

theorem Kept.hostTakes (kept : Kept room) (there : room.session = some held) {frame : HostFrame}
    {rest : List HostFrame} (next : held.toHost = frame :: rest) :
    Kept { room with session := some (({ held with toHost := rest } : HostSession).take frame) } := by
  have named := kept.named held there
  have later : ∀ sent ∈ rest, sent ∈ held.toHost := by
    intro sent member
    rw [next]
    exact List.mem_cons_of_mem _ member
  cases frame with
  | clientGone gone =>
      refine kept.host there rfl id later ?_ ?_
      · refine ⟨fun number call member => named.calls number call (later _ member),
          fun number member => named.gone number (later _ member), ?_, named.replies⟩
        intro number running runs
        simp only [HostSession.take, Function.update_apply] at runs
        split at runs
        · cases runs
        · exact named.conns number running runs
      · rintro number link here id asked ⟨_, ⟨⟩, up, works⟩
        by_cases mine : number = gone
        · subst mine
          have before := kept.links number link here
          have unlisted := before.gone ⟨held, there, by simp [next]⟩
          exact .inr (.inl (.inl (before.listed unlisted)))
        · refine .inl ⟨_, rfl, up, ?_⟩
          rcases works with way | ⟨running, runs, member⟩ | answered
          · rw [next] at way
            exact .inl ((List.mem_cons.mp way).resolve_left nofun)
          · refine .inr (.inl ⟨running, ?_, member⟩)
            simp only [HostSession.take, Function.update_of_ne mine]
            exact runs
          · exact .inr (.inr answered)
  | call caller call =>
      have within := named.calls caller call (by simp [next])
      refine kept.host there rfl id later ?_ ?_
      · refine ⟨fun number call member => named.calls number call (later _ member),
          fun number member => named.gone number (later _ member), ?_, named.replies⟩
        intro number running runs
        simp only [HostSession.take, Function.update_apply] at runs
        split at runs
        · rename_i same
          subst same
          exact within
        · exact named.conns number running runs
      · rintro number link here id asked ⟨_, ⟨⟩, up, works⟩
        refine .inl ⟨_, rfl, up, ?_⟩
        have before := kept.links number link here
        rcases works with way | ⟨running, runs, member⟩ | answered
        · rw [next] at way
          rcases List.mem_cons.mp way with same | way
          · cases same
            refine .inr (.inl ⟨(held.conns caller).getD [] ++ [id], ?_, ?_⟩)
            · simp [HostSession.take, CallFrame.serve]
            · simp
          · exact .inl way
        · by_cases mine : number = caller
          · subst mine
            refine .inr (.inl ⟨call.serve running, ?_, ?_⟩)
            · simp [HostSession.take, runs]
            · cases call with
              | request new => exact List.mem_append_left _ member
              | cancel dropped =>
                  have out := (before.cancelled dropped ⟨held, there, by simp [next]⟩).2
                  apply List.mem_filter.mpr
                  refine ⟨member, ?_⟩
                  simp only [decide_not, Bool.not_eq_true', decide_eq_false_iff_not]
                  rintro rfl
                  exact out asked
          · refine .inr (.inl ⟨running, ?_, member⟩)
            simp only [HostSession.take, Function.update_of_ne mine]
            exact runs
        · exact .inr (.inr answered)

theorem Kept.hostReplies (kept : Kept room) (there : room.session = some held) {id : Nat}
    {running rest : List Nat} {last : Bool} (runs : held.conns number = some running)
    (keeps : ∀ asked ∈ running, asked ∈ rest ∨ last = true ∧ asked = id) :
    Kept { room with session := some (({ held with
        conns := Function.update held.conns number (some rest) } : HostSession).reply
      ⟨number, id, last⟩) } := by
  have named := kept.named held there
  have within := named.conns number running runs
  have conns : ∀ place found, Function.update held.conns number (some rest) place = some found →
      place < room.clients.length := by
    intro place found here
    rw [Function.update_apply] at here
    split at here
    · rename_i same
      subst same
      exact within
    · exact named.conns place found here
  unfold HostSession.reply
  split
  · refine kept.host there rfl (fun up => up) (fun _ member => member) ?_ ?_
    · refine ⟨named.calls, named.gone, conns, ?_⟩
      intro reply member
      rcases List.mem_append.mp member with before | new
      · exact named.replies reply before
      · obtain rfl := List.mem_singleton.mp new
        exact within
    · rintro place link _ asked _ ⟨_, ⟨⟩, up, works⟩
      refine .inl ⟨_, rfl, up, ?_⟩
      rcases works with way | ⟨found, here, member⟩ | answered
      · exact .inl way
      · by_cases mine : place = number
        · subst mine
          cases runs.symm.trans here
          rcases keeps asked member with still | ⟨rfl, rfl⟩
          · exact .inr (.inl ⟨rest, Function.update_self .., still⟩)
          · exact .inr (.inr (List.mem_append_right _ List.mem_cons_self))
        · refine .inr (.inl ⟨found, ?_, member⟩)
          rw [← here]
          exact Function.update_of_ne mine ..
      · exact .inr (.inr (List.mem_append_left _ answered))
  · rename_i down
    refine kept.host there rfl (fun up => up) (fun _ member => member)
      ⟨named.calls, named.gone, conns, named.replies⟩ ?_
    rintro _ _ _ _ _ ⟨_, ⟨⟩, up, _⟩
    exact absurd up down

/-- The socket of a session that ends or loses it is still listed. -/
theorem Kept.corpse (kept : Kept room) (there : room.session = some held) (up : held.socketUp = true)
    (dead : serves session held.ws = false) : Corpse session room.hosts := by
  obtain ⟨host, listed, same⟩ := kept.joined held there up
  exact ⟨host, listed, same ▸ dead⟩

theorem Kept.hostLost (kept : Kept room) (there : room.session = some held) :
    Kept { room with
      session := some { held with socketUp := false, toHost := [], fromHost := [] } } := by
  have named := kept.named held there
  refine kept.host there rfl nofun nofun ⟨nofun, nofun, named.conns, nofun⟩ ?_
  rintro _ _ _ _ _ ⟨_, ⟨⟩, up, _⟩
  exact .inr (.inr (kept.corpse there up (by simp [serves])))

theorem Kept.hostLeaves (kept : Kept room) :
    Kept { room with session := none } := by
  refine ⟨?_, kept.hosts, nofun, nofun⟩
  intro number link here
  apply (kept.links number link here).beside
  · rintro id ⟨_, ⟨⟩, _⟩
  · rintro ⟨_, ⟨⟩, _⟩
  · rintro id _ ⟨before, was, up, _⟩
    exact .inr (.inr (kept.corpse was up rfl))
  · rintro ⟨host, listed, _⟩
    exact ⟨host, listed, rfl⟩

theorem Kept.hostJoins (kept : Kept room) (none : room.session = none) :
    Kept { room with
      hosts := room.hosts ++ [(room.accepted, room.now)]
      accepted := room.accepted + 1
      session := some { ws := room.accepted } } := by
  refine ⟨?_, ?_, ?_, ?_⟩
  · intro number link here
    apply (kept.links number link here).beside
    · rintro id ⟨_, ⟨⟩, way⟩
      cases way
    · rintro ⟨_, ⟨⟩, way⟩
      cases way
    · rintro id _ ⟨before, was, _⟩
      cases none.symm.trans was
    · rintro ⟨host, listed, _⟩
      have old := kept.hosts host listed
      refine ⟨host, List.mem_append_left _ listed, ?_⟩
      have apart : room.accepted ≠ host.1 := by omega
      simp [serves, apart]
  · intro host listed
    rcases List.mem_append.mp listed with before | new
    · exact Nat.lt_succ_of_lt (kept.hosts host before)
    · obtain rfl := List.mem_singleton.mp new
      exact Nat.lt_succ_self _
  · rintro _ ⟨⟩ _
    exact ⟨_, List.mem_append_right _ List.mem_cons_self, rfl⟩
  · rintro _ ⟨⟩
    exact ⟨nofun, nofun, nofun, nofun⟩

/-- The room is told that a host socket is gone. -/
theorem Kept.hostClose (kept : Kept room) {ws : Nat} (dead : serves room.session ws = false)
    (told : Told room (.hostClosed ws)) : Kept (room.hostClose ws) := by
  have fewer : ∀ host ∈ room.hosts.filter (fun host => host.1 ≠ ws), host ∈ room.hosts :=
    fun host listed => List.mem_of_mem_filter listed
  have joined : ∀ held, room.session = some held → held.socketUp = true →
      ∃ host ∈ room.hosts.filter (fun host => host.1 ≠ ws), host.1 = held.ws := by
    intro held there up
    obtain ⟨host, listed, same⟩ := kept.joined held there up
    refine ⟨host, List.mem_filter.mpr ⟨listed, ?_⟩, same⟩
    have apart : host.1 ≠ ws := by
      rintro rfl
      rw [there] at dead
      simp [serves, same, up] at dead
    simpa using apart
  unfold Handover.hostClose
  cases live : room.liveHost (some ws) with
  | some other =>
      refine ⟨?_, fun host listed => kept.hosts host (fewer host listed), joined, kept.named⟩
      intro number link here
      have before := kept.links number link here
      refine ⟨before.listed, before.fresh, before.dropped, before.cancelled, before.gone, ?_⟩
      intro opened id asked
      by_cases rest : ∀ host ∈ room.hosts, host.1 ≠ ws → serves room.session host.1 = true
      · rcases told ws rfl (by simp [live]) rest number link here opened id asked with carried | doomed
        · exact .inl carried
        · exact .inr (.inl doomed)
      · obtain ⟨host, rest⟩ := Classical.not_forall.mp rest
        obtain ⟨listed, rest⟩ := Classical.not_imp.mp rest
        obtain ⟨apart, corpse⟩ := Classical.not_imp.mp rest
        refine .inr (.inr ⟨host, List.mem_filter.mpr ⟨listed, by simpa using apart⟩, ?_⟩)
        simpa using corpse
  | none =>
      refine ⟨?_, fun host listed => kept.hosts host (fewer host listed), joined, ?_⟩
      · intro number link here
        simp only [List.getElem?_map, Option.map_eq_some_iff] at here
        obtain ⟨old, was, rfl⟩ := here
        have before := kept.links number old was
        by_cases listed : old.listed = true
        · rw [if_pos listed]
          have told := before.deliver .relayError
          exact ⟨told.listed, told.fresh, told.dropped, told.cancelled, told.gone,
            fun _ _ _ => .inr (.inl (doomed_deliver old))⟩
        · rw [if_neg listed]
          have down := before.listed (by simpa using listed)
          exact ⟨before.listed, before.fresh, before.dropped, before.cancelled, before.gone,
            fun _ _ _ => .inr (.inl (.inl down))⟩
      · intro held there
        have named := kept.named held there
        simpa using named

/-- Time passes, and the room sees who is there. -/
theorem Kept.seen (kept : Kept room) {seen : List (Nat × Nat)} {now : Nat}
    (same : seen.map Prod.fst = room.hosts.map Prod.fst) :
    Kept { room with hosts := seen, now } := by
  have sockets : ∀ ws, (∃ host ∈ seen, host.1 = ws) ↔ ∃ host ∈ room.hosts, host.1 = ws := by
    intro ws
    rw [← List.mem_map, ← List.mem_map, same]
  refine ⟨?_, ?_, ?_, kept.named⟩
  · intro number link here
    apply (kept.links number link here).beside
    · exact fun _ way => way
    · exact .inl
    · exact fun _ _ works => .inl (.inr (.inr works))
    · rintro ⟨host, listed, dead⟩
      obtain ⟨found, listed, socket⟩ := (sockets host.1).mpr ⟨host, listed, rfl⟩
      exact ⟨found, listed, socket ▸ dead⟩
  · intro host listed
    obtain ⟨found, listed, socket⟩ := (sockets host.1).mp ⟨host, listed, rfl⟩
    exact socket ▸ kept.hosts found listed
  · intro held there up
    exact (sockets held.ws).mpr (kept.joined held there up)

theorem Kept.clientJoins (kept : Kept room) : Kept { room with clients := room.clients ++ [{}] } := by
  refine ⟨?_, kept.hosts, kept.joined, ?_⟩
  · intro number link here
    by_cases within : number < room.clients.length
    · rw [List.getElem?_append_left within] at here
      exact kept.links number link here
    · rw [List.getElem?_append_right (Nat.not_lt.mp within), List.getElem?_singleton] at here
      split at here
      · rename_i last
        cases here
        have same : number = room.clients.length := by omega
        exact same ▸ linkKept_join kept.named
      · cases here
  · intro held there
    have named := kept.named held there
    have grown : room.clients.length ≤ (room.clients ++ [({} : CallLink)]).length := by simp
    exact ⟨fun number call sent => Nat.lt_of_lt_of_le (named.calls number call sent) grown,
      fun number sent => Nat.lt_of_lt_of_le (named.gone number sent) grown,
      fun number running runs => Nat.lt_of_lt_of_le (named.conns number running runs) grown,
      fun reply sent => Nat.lt_of_lt_of_le (named.replies reply sent) grown⟩

theorem Kept.step {action : HandoverAction} (kept : Kept room) (told : Told room action)
    (stepped : room.step action = some after) : Kept after := by
  unfold Handover.step at stepped
  cases action with
  | clientJoins =>
      cases stepped
      exact kept.clientJoins
  | request number =>
      simp only at stepped
      split at stepped
      · cases stepped
      · rename_i link there
        split at stepped
        · cases stepped
          exact kept.setLink (kept.links number link there).request
        · cases stepped
  | cancel number id =>
      simp only at stepped
      split at stepped
      · cases stepped
      · rename_i link there
        split at stepped
        · rename_i asked
          cases stepped
          exact kept.setLink ((kept.links number link there).cancel asked)
        · cases stepped
  | clientTakes number =>
      simp only at stepped
      split at stepped
      · cases stepped
      · rename_i link there
        split at stepped
        · cases stepped
        · rename_i frame rest next
          cases stepped
          exact kept.setLink ((kept.links number link there).take next)
  | clientLost number =>
      simp only at stepped
      split at stepped
      · cases stepped
      · rename_i link there
        cases stepped
        exact kept.setLink (kept.links number link there).lost
  | clientCloses number =>
      simp only at stepped
      split at stepped
      · cases stepped
      · rename_i link there
        cases stepped
        exact kept.setLink (kept.links number link there).close
  | clientClosed number =>
      simp only at stepped
      split at stepped
      · cases stepped
      · rename_i link there
        split at stepped
        · rename_i closed
          have down : link.socketUp = false := by simpa using (Bool.and_eq_true_iff.mp closed).2
          split at stepped
          · cases stepped
            exact kept.clientClosed there down _
          · cases stepped
            exact kept.unlist there down
        · cases stepped
  | relayCall number =>
      simp only at stepped
      split at stepped
      · cases stepped
      · rename_i link there
        split at stepped
        · cases stepped
        · rename_i frame rest next
          cases stepped
          exact kept.relayCall there next
  | relayReply =>
      simp only at stepped
      split at stepped
      · cases stepped
      · rename_i held there
        split at stepped
        · cases stepped
        · rename_i reply rest next
          cases stepped
          exact kept.relayReply there next
  | hostJoins =>
      simp only at stepped
      split at stepped
      · cases stepped
      · rename_i none
        cases stepped
        exact kept.hostJoins none
  | hostLost =>
      simp only at stepped
      split at stepped
      · cases stepped
      · rename_i held there
        cases stepped
        exact kept.hostLost there
  | hostLeaves =>
      simp only at stepped
      split at stepped
      · cases stepped
      · rename_i held there
        cases stepped
        exact kept.hostLeaves
  | hostClosed ws =>
      simp only at stepped
      split at stepped
      · rename_i listed
        cases stepped
        exact kept.hostClose listed.2 told
      · cases stepped
  | hostTakes =>
      simp only at stepped
      split at stepped
      · cases stepped
      · rename_i held there
        split at stepped
        · cases stepped
        · rename_i frame rest next
          cases stepped
          exact kept.hostTakes there next
  | hostReplies number id last =>
      simp only at stepped
      split at stepped
      · cases stepped
      · rename_i held there
        split at stepped
        · cases stepped
        · rename_i running runs
          split at stepped
          · cases stepped
            apply kept.hostReplies there runs
            intro asked member
            by_cases done : last = true ∧ asked = id
            · exact .inr done
            · left
              split
              · rename_i ended
                exact List.mem_filter.mpr ⟨member, by simpa [ended] using done⟩
              · exact member
          · cases stepped
  | ping =>
      cases stepped
      apply kept.seen
      rw [List.map_map]
      apply List.map_congr_left
      intro host _
      simp only [Function.comp]
      split <;> rfl
  | tick ms =>
      cases stepped
      exact kept.seen rfl

theorem kept_start : Kept {} :=
  ⟨nofun, nofun, nofun, nofun⟩

theorem Kept.answered (kept : Kept room) (quiet : room.Quiet) : room.Answered := by
  intro number link there opened id asked
  obtain ⟨unsent, unread, sockets⟩ := quiet.clients link (List.mem_of_getElem? there)
  rcases (kept.links number link there).told opened id asked with
    (sent | received | ⟨held, was, up, works⟩) | (down | error) | ⟨host, listed, dead⟩
  · rw [unsent] at sent
    cases sent
  · rw [unread] at received
    cases received
  · obtain ⟨_, nothing, landed⟩ := quiet.session held was
    rcases works with way | ⟨running, runs, member⟩ | answered
    · rw [nothing] at way
      cases way
    · exact ⟨held, running, was, runs, member⟩
    · rw [landed] at answered
      cases answered
  · rcases sockets with up | ⟨shut, _⟩
    · cases up.symm.trans down
    · cases opened.symm.trans shut
  · rw [unread] at error
    cases error
  · cases (quiet.hosts host listed).symm.trans dead

/-- A handover strands no call in runs where the closes that nobody is told of lose none. -/
theorem handover_strands_nothing (runs : Reaches step Told {} room) (quiet : room.Quiet) :
    room.Answered := by
  have kept : Kept room := runs.keeps kept_start fun _ _ _ kept told stepped => kept.step told stepped
  exact kept.answered quiet

/-- The close of a host socket is told to the clients. -/
def announced (room : Handover) : HandoverAction → Bool
  | .hostClosed ws => (room.liveHost (some ws)).isNone
  | _ => true

theorem told_of_announced {action : HandoverAction} (announced : room.announced action = true) :
    Told room action := by
  rintro ws rfl live
  simp only [Handover.announced, Option.isNone_iff_eq_none] at announced
  exact absurd announced live

/-- A host goes and comes back; its client is told, and another one has its call served. -/
theorem announced_handover_answers : ∃ room : Handover,
    (Reaches step Told {} room ∧ room.Quiet ∧ room.clients.map CallLink.pending = [[], [1]]) ∧
      room.Answered := by
  have ran : (runAll step announced {}
      [.hostJoins, .clientJoins, .request 0, .relayCall 0, .hostTakes, .hostLost, .hostLeaves,
        .hostClosed 0, .clientTakes 0, .hostJoins, .clientClosed 0, .hostTakes, .clientJoins,
        .request 1, .relayCall 1, .hostTakes]).map
      (fun room => (decide room.Quiet, room.clients.map CallLink.pending)) =
      some (true, [[], [1]]) := by
    decide
  obtain ⟨room, ran, ends⟩ := Option.map_eq_some_iff.mp ran
  injection ends with quiet pending
  have quiet : room.Quiet := of_decide_eq_true quiet
  have runs : Reaches step Told {} room :=
    (reaches_of_runAll ran).mono fun _ _ announced => told_of_announced announced
  exact ⟨room, ⟨runs, quiet, pending⟩, handover_strands_nothing runs quiet⟩

/-- A host comes back before the room sees that its socket was gone. -/
theorem unannounced_handover_strands : ¬ NeverStrands := by
  have ran : (runAll step (fun _ _ => true) {}
      [.hostJoins, .clientJoins, .request 0, .relayCall 0, .hostTakes, .hostLost, .hostLeaves,
        .hostJoins, .hostClosed 0]).map
      (fun room => (decide room.Quiet,
        room.clients.map fun link => (link.isOpen, link.pending),
        room.session.map fun held => held.conns 0)) =
      some (true, [(true, [1])], some none) := by
    decide
  obtain ⟨room, ran, ends⟩ := Option.map_eq_some_iff.mp ran
  injection ends with quiet ends
  injection ends with links session
  intro never
  have runs : Reaches step (fun _ _ => True) {} room :=
    (reaches_of_runAll ran).mono fun _ _ _ => trivial
  obtain ⟨link, rest, clients, shape, _⟩ := List.map_eq_cons_iff.mp links
  injection shape with opened pending
  obtain ⟨held, running, there, runs, _⟩ := never room runs (of_decide_eq_true quiet) 0 link
    (by simp [clients]) opened 1 (by simp [pending])
  rw [there] at session
  injection session with nothing
  cases nothing.symm.trans runs

end Handover

end Zeron.Device
