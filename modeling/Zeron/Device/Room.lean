import Zeron.Device.Nudges

namespace Zeron.Device

/-! # The device room: host sockets, liveness, redelivery

Host sockets stay listed until the runtime closes them, so several may be there
at once; the freshest one that proved itself alive within the window is routed
to.  A ping is answered by the runtime without running the room's code.
-/

def hostLivenessMs : Nat := 75000

def redeliverMs : Nat := 5000

structure HostSocket where
  ws : Nat
  nudgeAck : Bool
  joinedAt : Nat
  /-- When the runtime last answered a ping for this socket. -/
  autoResponse : Option Nat := none
  nudgeInflight : List String := []
  /-- Neither side has closed it: a send does not throw. -/
  isOpen : Bool := true
  /-- The nudge frames sent on this socket. -/
  frames : List PendingNudge := []
deriving DecidableEq, Repr

def HostSocket.lastSeenAt (host : HostSocket) : Nat := max (host.autoResponse.getD 0) host.joinedAt

/-- The freshest host of a list; the first one listed wins a tie. -/
def freshest : Option (Nat × Nat) → List (Nat × Nat) → Option Nat → Option (Nat × Nat)
  | best, [], _ => best
  | best, host :: hosts, exclude =>
      if some host.1 = exclude then freshest best hosts exclude
      else
        match best with
        | none => freshest (some host) hosts exclude
        | some held =>
            if host.2 > held.2 then freshest (some host) hosts exclude
            else freshest (some held) hosts exclude

def pickLiveHost (hosts : List (Nat × Nat)) (now : Nat) (exclude : Option Nat) : Option Nat :=
  match freshest none hosts exclude with
  | some best => if now - best.2 ≤ hostLivenessMs then some best.1 else none
  | none => none

structure DeviceRoom where
  owner : Option String := none
  nudges : Nudges := {}
  hosts : List HostSocket := []
  alarm : Option Nat := none
  now : Nat := 0
  /-- How many random ids were drawn. -/
  drawn : Nat := 0
  /-- How many host sockets were accepted. -/
  accepted : Nat := 0

inductive Answer
  | forbidden
  | notFound
  | badChatId
  | queueFull
  | queued (delivered : Bool)
deriving DecidableEq, Repr

def chatIdChar (char : Char) : Bool := char.isAlphanum || char = '_' || char = '-'

/-- `CHAT_ID_RE`. -/
def validChatId (chatId : String) : Bool :=
  decide (1 ≤ chatId.length ∧ chatId.length ≤ 64) && chatId.toList.all chatIdChar

theorem ne_star_of_validChatId {chatId : String} (valid : validChatId chatId = true) :
    chatId ≠ "*" := by
  rintro rfl
  revert valid
  decide

namespace DeviceRoom

def host? (room : DeviceRoom) (ws : Nat) : Option HostSocket :=
  room.hosts.find? fun host => host.ws = ws

def setHost (room : DeviceRoom) (ws : Nat) (change : HostSocket → HostSocket) : DeviceRoom :=
  { room with hosts := room.hosts.map fun host => if host.ws = ws then change host else host }

def liveHost (room : DeviceRoom) (exclude : Option Nat) : Option Nat :=
  pickLiveHost (room.hosts.map fun host => (host.ws, host.lastSeenAt)) room.now exclude


end DeviceRoom

/-- What the loop of `replayNudges` carries from row to row. -/
structure Replay where
  inflight : List String
  sent : Nat := 0
  nudges : Nudges
  delivered : List PendingNudge := []

def pageFull (nudgeAck : Bool) (replay : Replay) : Bool :=
  decide ((if nudgeAck then replay.inflight.length else replay.sent) ≥ nudgePage)

def replayRows (nudgeAck : Bool) : List PendingNudge → Replay → Replay
  | [], replay => replay
  | row :: rows, replay =>
      if nudgeAck && replay.inflight.contains row.token then replayRows nudgeAck rows replay
      else if pageFull nudgeAck replay then replay
      else if row.chatId = "*" ∧ nudgeAck = false then replayRows nudgeAck rows replay
      else if nudgeAck then
        replayRows nudgeAck rows
          { replay with
            delivered := replay.delivered ++ [row]
            inflight := replay.inflight ++ [row.token]
            sent := replay.sent + 1 }
      else
        replayRows nudgeAck rows
          { replay with
            delivered := replay.delivered ++ [row]
            nudges := acknowledgeNudge replay.nudges row.chatId row.token
            sent := replay.sent + 1 }

namespace DeviceRoom

def replayNudges (room : DeviceRoom) (ws : Nat) : DeviceRoom :=
  match room.host? ws with
  | none => room
  | some host =>
      let replay := replayRows host.nudgeAck (pendingNudges room.nudges)
        { inflight := host.nudgeInflight, nudges := room.nudges }
      let kept := { room with nudges := replay.nudges }
      let kept := kept.setHost ws fun host =>
        { host with
          nudgeInflight := replay.inflight
          frames := if host.isOpen then host.frames ++ replay.delivered else host.frames }
      if replay.sent ≠ 0 ∨ replay.inflight ≠ [] then
        { kept with alarm := some (room.now + redeliverMs) }
      else kept

/-- The newest host's predecessors are closed but stay listed. -/
def acceptHost (room : DeviceRoom) (userId : String) (nudgeAck : Bool) : DeviceRoom :=
  let superseded := room.hosts.map fun stale => { stale with isOpen := false }
  { room with
    owner := some userId
    hosts := superseded ++ [{ ws := room.accepted, nudgeAck := nudgeAck, joinedAt := room.now }]
    accepted := room.accepted + 1 }

/-- `/ws?role=host`: the first host claims the room for its user. -/
def joinHost (room : DeviceRoom) (userId : String) (nudgeAck : Bool) : DeviceRoom :=
  if room.owner.getD userId = userId then
    (room.acceptHost userId nudgeAck).replayNudges room.accepted
  else room

/-- Redelivery to the live host, where there is one. -/
def replayLive (room : DeviceRoom) : DeviceRoom :=
  match room.liveHost none with
  | some ws => room.replayNudges ws
  | none => room

/-- `enqueueNudge` on the room's tables, with the id it draws. -/
def enqueue (uuid : Nat → String) (room : DeviceRoom) (chatId : String) : DeviceRoom × Bool :=
  let (nudges, queued) := enqueueNudge room.nudges chatId room.now (uuid room.drawn)
  ({ room with nudges := nudges, drawn := room.drawn + 1 }, queued)

/-- `POST /nudge`. -/
def postNudge (uuid : Nat → String) (room : DeviceRoom) (userId : String)
    (body : Option String) : DeviceRoom × Answer :=
  match room.owner with
  | none => (room, .notFound)
  | some owner =>
      if owner ≠ userId then (room, .forbidden)
      else
        match body with
        | none => (room, .badChatId)
        | some chatId =>
            if validChatId chatId = false then (room, .badChatId)
            else
              let (enqueued, queued) := room.enqueue uuid chatId
              (enqueued.replayLive,
                if queued then .queued (enqueued.liveHost none).isSome else .queueFull)

/-- The alarm runs once its time has come, and is then no longer set. -/
def alarmFires (room : DeviceRoom) : DeviceRoom :=
  match room.alarm with
  | none => room
  | some due =>
      if room.now < due then room
      else
        let fired := { room with alarm := none }
        match fired.liveHost none with
        | none => fired
        | some ws =>
            (fired.setHost ws fun host => { host with nudgeInflight := [] }).replayNudges ws

/-- A `nudgeAck` frame on a host socket. -/
def nudgeAcked (room : DeviceRoom) (ws : Nat) (chatId token : String) : DeviceRoom :=
  match room.host? ws with
  | none => room
  | some host =>
      if host.nudgeAck then
        let retired := { room with nudges := acknowledgeNudge room.nudges chatId token }
        (retired.setHost ws fun host =>
          { host with nudgeInflight := host.nudgeInflight.filter (· ≠ token) }).replayNudges ws
      else room

def pinged (room : DeviceRoom) (ws : Nat) : DeviceRoom :=
  room.setHost ws fun host => { host with autoResponse := some room.now }

def socketClosed (room : DeviceRoom) (ws : Nat) : DeviceRoom :=
  { room with hosts := room.hosts.filter fun host => host.ws ≠ ws }

end DeviceRoom

/-- What can happen to the room, in any order. -/
inductive Event
  | nudge (userId : String) (body : Option String)
  | join (userId : String) (nudgeAck : Bool)
  | alarm
  | ack (ws : Nat) (chatId token : String)
  | ping (ws : Nat)
  | close (ws : Nat)
  | tick (ms : Nat)
deriving DecidableEq, Repr

namespace DeviceRoom

variable (uuid : Nat → String)

def step (room : DeviceRoom) : Event → DeviceRoom
  | .nudge userId body => (room.postNudge uuid userId body).1
  | .join userId nudgeAck => room.joinHost userId nudgeAck
  | .alarm => room.alarmFires
  | .ack ws chatId token => room.nudgeAcked ws chatId token
  | .ping ws => room.pinged ws
  | .close ws => room.socketClosed ws
  | .tick ms => { room with now := room.now + ms }

def run (room : DeviceRoom) (events : List Event) : DeviceRoom := events.foldl (step uuid) room

@[simp] theorem run_nil (room : DeviceRoom) : room.run uuid [] = room := rfl

@[simp] theorem run_append (room : DeviceRoom) (early late : List Event) :
    room.run uuid (early ++ late) = (room.run uuid early).run uuid late :=
  List.foldl_append

@[simp] theorem run_cons (room : DeviceRoom) (event : Event) (rest : List Event) :
    room.run uuid (event :: rest) = (room.step uuid event).run uuid rest := rfl

end DeviceRoom

end Zeron.Device
