import Zeron.Registry.Entities

namespace Zeron.Registry

open Zeron.Data

/-! # The typed API

Local writes under the names the host calls them by.  An update of a row this
device does not show writes nothing.  Calls that make several writes take one run
of wall-clock readings for each.
-/

namespace RegistryDoc

/-- An `update` of an existing row; false when there is no such row. -/
def updateRow (doc : RegistryDoc) (now : Nat → Int) (kind id : String) (set : BTreeMap Json) :
    Bool × RegistryDoc :=
  if doc.rowExists kind id then (true, doc.write now kind id .update set) else (false, doc)

/-! ## Devices -/

def upsertDevice (doc : RegistryDoc) (now : Nat → Int) (device : Device) : RegistryDoc :=
  doc.write now kindDevices device.id .upsert device.fieldSet

def renameDevice (doc : RegistryDoc) (now : Nat → Int) (deviceId name : String) :
    Bool × RegistryDoc :=
  doc.updateRow now kindDevices deviceId (fields [("name", .string name)])

def setDeviceLastSeen (doc : RegistryDoc) (now : Nat → Int) (deviceId : String) (at_ : Int) :
    Bool × RegistryDoc :=
  doc.updateRow now kindDevices deviceId (fields [("lastSeenAt", .number at_)])

/-! ## Spaces -/

def upsertSpace (doc : RegistryDoc) (now : Nat → Int) (space : Space) : RegistryDoc :=
  doc.write now kindSpaces space.id .upsert space.fieldSet

def renameSpace (doc : RegistryDoc) (now : Nat → Int) (spaceId : String) (name : Option String) :
    Bool × RegistryDoc :=
  doc.updateRow now kindSpaces spaceId (fields [("name", optStr name)])

def setSpaceGit (doc : RegistryDoc) (now : Nat → Int) (spaceId : String) (detected : Bool)
    (checkoutId repositoryId : Option String) (checkedAt : Int) : Bool × RegistryDoc :=
  doc.updateRow now kindSpaces spaceId (fields [
    ("gitDetected", .bool detected),
    ("checkoutId", optStr checkoutId),
    ("repositoryId", optStr repositoryId),
    ("gitCheckedAt", .number checkedAt)])

/-- Delete a space and cascade to its chats: the removed chat ids, and whether
the space existed. -/
def deleteSpace (doc : RegistryDoc) (now : Nat → Int) (codec : EntityCodec) (order : IterOrder)
    (spaceId : String) : (Bool × List String) × RegistryDoc :=
  let existed := doc.rowExists kindSpaces spaceId
  let chatIds := ((doc.readChats codec order).filter fun chat => chat.spaceId == some spaceId).map
    Chat.id
  let keys : List RowKey :=
    (chatIds.flatMap fun chatId => [⟨kindChats, chatId⟩, ⟨kindSessions, chatId⟩]) ++
      [⟨kindSpaces, spaceId⟩]
  ((existed, chatIds), doc.deleteRowOps now keys)

/-! ## Chats -/

def upsertChat (doc : RegistryDoc) (now : Nat → Int) (chat : Chat) : RegistryDoc :=
  doc.write now kindChats chat.id .upsert chat.fieldSet

/-- Claim a chat with only the fields the claim knows. -/
def claimChat (doc : RegistryDoc) (now : Nat → Int) (chatId : String) (cwd spaceId : Option String)
    (createdAt : Int) : RegistryDoc :=
  doc.write now kindChats chatId .upsert <| fields <|
    [("id", .string chatId), ("deviceId", .string doc.deviceId), ("createdAt", .number createdAt)] ++
      (cwd.map fun cwd => ("cwd", Json.string cwd)).toList ++
      (spaceId.map fun spaceId => ("spaceId", Json.string spaceId)).toList

/-- The seen marker never moves back. -/
def setChatSeen (doc : RegistryDoc) (now : Nat → Int) (chatId : String) (at_ : Int) :
    Bool × RegistryDoc :=
  match doc.overlayRow kindChats chatId with
  | none => (false, doc)
  | some row =>
    if (row.fields["lastSeenAt"]?.bind decodeMs).any (· ≥ at_) then (true, doc)
    else (true, doc.write now kindChats chatId .update (fields [("lastSeenAt", .number at_)]))

def renameChat (doc : RegistryDoc) (now : Nat → Int) (chatId title : String) : Bool × RegistryDoc :=
  doc.updateRow now kindChats chatId (fields [("title", .string title)])

def setChatArchived (doc : RegistryDoc) (now : Nat → Int) (chatId : String) (archived : Bool) :
    Bool × RegistryDoc :=
  doc.updateRow now kindChats chatId (fields [("archived", .bool archived)])

def setChatRoomGen (doc : RegistryDoc) (now : Nat → Int) (chatId : String) (roomGen : Nat) :
    Bool × RegistryDoc :=
  doc.updateRow now kindChats chatId (fields [("roomGen", .number roomGen)])

def setChatBranch (doc : RegistryDoc) (now : Nat → Int) (chatId branch : String) :
    Bool × RegistryDoc :=
  doc.updateRow now kindChats chatId (fields [("branch", .string branch)])

def setChatSourceContext (doc : RegistryDoc) (now : Nat → Int) (chatId : String) (context : Json)
    (branch checkoutId : String) : Bool × RegistryDoc :=
  doc.updateRow now kindChats chatId (fields [
    ("sourceContext", context),
    ("branch", .string branch),
    ("checkoutId", .string checkoutId)])

def setChatCwd (doc : RegistryDoc) (now : Nat → Int) (chatId cwd : String) : Bool × RegistryDoc :=
  doc.updateRow now kindChats chatId (fields [("cwd", .string cwd)])

def setChatCheckout (doc : RegistryDoc) (now : Nat → Int) (chatId checkoutId : String) :
    Bool × RegistryDoc :=
  doc.updateRow now kindChats chatId (fields [("checkoutId", .string checkoutId)])

def setChatConfig (doc : RegistryDoc) (now : Nat → Int) (chatId : String) (config : Json) :
    Bool × RegistryDoc :=
  doc.updateRow now kindChats chatId (fields [("config", config)])

def setChatHarnessSession (doc : RegistryDoc) (now : Nat → Int) (chatId sessionId cwd : String) :
    Bool × RegistryDoc :=
  doc.updateRow now kindChats chatId (fields [
    ("harnessSessionId", .string sessionId),
    ("harnessSessionCwd", .string cwd)])

def setChatLastMessage (doc : RegistryDoc) (now : Nat → Int) (chatId preview : String) (at_ : Int) :
    Bool × RegistryDoc :=
  doc.updateRow now kindChats chatId (fields [
    ("lastMessagePreview", .string preview),
    ("lastMessageAt", .number at_)])

/-- Delete the chat row and its session-status row. -/
def deleteChat (doc : RegistryDoc) (now : Nat → Int) (chatId : String) : Bool × RegistryDoc :=
  (doc.rowExists kindChats chatId,
    doc.deleteRowOps now [⟨kindChats, chatId⟩, ⟨kindSessions, chatId⟩])

/-! ## Sessions -/

def upsertSession (doc : RegistryDoc) (now : Nat → Int) (session : Session) : RegistryDoc :=
  doc.write now kindSessions session.chatId .upsert session.fieldSet

end RegistryDoc

/-! ## Migration -/

structure WorkspaceState where
  devices : List Device
  spaces : List Space
  chats : List Chat
  sessions : List Session

/-- The newest of some instants, or 1 without any. -/
def newest (candidates : List (Option Int)) : Int :=
  ((candidates.filterMap id).max?).getD 1

def migrationSeed (kind id : String) (ms : Int) (set : BTreeMap Json) : RowOp :=
  { kind, id, op := .upsert, set := some set, hlc := encodeHlc (max ms 1) 0 "migration", clocks := none }

/-- Every row of the legacy workspace as an upsert at the row's own newest
instant. -/
def WorkspaceState.seeds (state : WorkspaceState) : List RowOp :=
  (state.devices.map fun device =>
    migrationSeed kindDevices device.id (newest [device.lastSeenAt, device.createdAt])
      device.fieldSet) ++
  (state.spaces.map fun space =>
    migrationSeed kindSpaces space.id (newest [space.gitCheckedAt, some space.createdAt])
      space.fieldSet) ++
  (state.chats.map fun chat =>
    migrationSeed kindChats chat.id
      (newest [chat.lastMessageAt, chat.lastSeenAt, some chat.createdAt]) chat.migrationFieldSet) ++
  (state.sessions.map fun session =>
    migrationSeed kindSessions session.chatId (newest [some session.updatedAt, session.startedAt])
      session.fieldSet)

namespace RegistryDoc

/-- Seed from the legacy workspace, in chunks of 400 ops. -/
def seedFromWorkspace (doc : RegistryDoc) (now : Nat → Nat → Int) (state : WorkspaceState) :
    Nat × RegistryDoc :=
  let ops := state.seeds
  let chunks := chunkOps ops.length ops
  (ops.length, ((List.range chunks.length).zip chunks).foldl
    (fun doc chunk => doc.enqueueOps (now chunk.1) chunk.2) doc)

/-! ## Persistence -/

/-- `to_bytes`, then `from_bytes` under the device's name: nothing is in flight
after a load, and the whole queue coalesces. -/
def reload (doc : RegistryDoc) (now : Nat → Int) (deviceId : String) : RegistryDoc :=
  let loaded : RegistryDoc :=
    { RegistryDoc.new deviceId with
      authoritative := doc.authoritative
      serverSeq := doc.serverSeq
      gcFloor := doc.gcFloor
      clock := doc.clock
      pending := doc.pending.map fun batch => { batch with inFlight := false }
      localWrites := doc.localWrites }
  (loaded.coalesceUnsent now).2

end RegistryDoc

end Zeron.Registry
