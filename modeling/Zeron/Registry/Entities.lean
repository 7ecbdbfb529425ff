import Zeron.Registry.QueueMeaning

namespace Zeron.Registry

open Zeron.Data

/-! # Synced entities

The typed rows of the registry: devices, spaces, chats and sessions.  A row is
decoded by member, and a row that does not decode is skipped by every read.
Instants are epoch milliseconds.
-/

def kindDevices : String := "devices"
def kindSpaces : String := "spaces"
def kindPreferences : String := "preferences"

/-- Readiness only; membership and order live on individual pins. -/
def sidebarPinsStateId : String := "sidebarPins"
def kindSidebarPins : String := "sidebarPins"

structure Device where
  id : String
  name : String
  platform : String
  lastSeenAt : Option Int
  createdAt : Option Int
  version : Option String
  cursorSdkVersion : Option String
  capabilities : List String
deriving DecidableEq

structure Space where
  id : String
  deviceId : String
  path : String
  name : Option String
  gitDetected : Bool
  gitCheckedAt : Option Int
  checkoutId : Option String
  repositoryId : Option String
  createdAt : Int
deriving DecidableEq

/-- A chat's `config` and `sourceContext` are kept as their JSON values. -/
structure Chat where
  id : String
  deviceId : String
  title : Option String
  archived : Bool
  cwd : Option String
  branch : Option String
  checkoutId : Option String
  sourceContext : Option Json
  config : Option Json
  lastMessagePreview : Option String
  lastMessageAt : Option Int
  createdAt : Int
  harnessSessionId : Option String
  harnessSessionCwd : Option String
  spaceId : Option String
  lastSeenAt : Option Int
  roomGen : Option Nat
  parentChatId : Option String
deriving DecidableEq

inductive SessionStatus where
  | idle
  | working
  | awaitingInput
  | errored
deriving DecidableEq

structure Session where
  lastCompletedTurn : Option String
  chatId : String
  deviceId : String
  status : SessionStatus
  startedAt : Option Int
  updatedAt : Int
deriving DecidableEq

def SessionStatus.wireName : SessionStatus → String
  | .idle => "idle"
  | .working => "working"
  | .awaitingInput => "awaitingInput"
  | .errored => "errored"

/-! ## Writing fields -/

def optStr (value : Option String) : Json := (value.map Json.string).getD .null

def optMs (value : Option Int) : Json := (value.map Json.number).getD .null

/-- The fields of a full device row. -/
def Device.fieldSet (device : Device) : BTreeMap Json :=
  fields [
    ("id", .string device.id),
    ("name", .string device.name),
    ("platform", .string device.platform),
    ("lastSeenAt", optMs device.lastSeenAt),
    ("createdAt", optMs device.createdAt),
    ("version", optStr device.version),
    ("cursorSdkVersion", optStr device.cursorSdkVersion),
    ("cursorSdkEngineVersion", optStr device.version),
    ("capabilities", .array (device.capabilities.map Json.string))]

def Space.fieldSet (space : Space) : BTreeMap Json :=
  fields [
    ("id", .string space.id),
    ("deviceId", .string space.deviceId),
    ("path", .string space.path),
    ("name", optStr space.name),
    ("gitDetected", .bool space.gitDetected),
    ("gitCheckedAt", optMs space.gitCheckedAt),
    ("checkoutId", optStr space.checkoutId),
    ("repositoryId", optStr space.repositoryId),
    ("createdAt", .number space.createdAt)]

def Chat.fieldSet (chat : Chat) : BTreeMap Json :=
  fields [
    ("id", .string chat.id),
    ("deviceId", .string chat.deviceId),
    ("title", optStr chat.title),
    ("archived", .bool chat.archived),
    ("cwd", optStr chat.cwd),
    ("branch", optStr chat.branch),
    ("checkoutId", optStr chat.checkoutId),
    ("sourceContext", chat.sourceContext.getD .null),
    ("config", chat.config.getD .null),
    ("lastMessagePreview", optStr chat.lastMessagePreview),
    ("lastMessageAt", optMs chat.lastMessageAt),
    ("createdAt", .number chat.createdAt),
    ("harnessSessionId", optStr chat.harnessSessionId),
    ("harnessSessionCwd", optStr chat.harnessSessionCwd),
    ("spaceId", optStr chat.spaceId),
    ("parentChatId", optStr chat.parentChatId),
    ("lastSeenAt", optMs chat.lastSeenAt),
    ("roomGen", optMs (chat.roomGen.map Int.ofNat)),
    ("parentChatId", optStr chat.parentChatId)]

/-- The migration's chat row, which has no `sourceContext` and no `roomGen`. -/
def Chat.migrationFieldSet (chat : Chat) : BTreeMap Json :=
  fields [
    ("id", .string chat.id),
    ("deviceId", .string chat.deviceId),
    ("title", optStr chat.title),
    ("archived", .bool chat.archived),
    ("cwd", optStr chat.cwd),
    ("branch", optStr chat.branch),
    ("checkoutId", optStr chat.checkoutId),
    ("config", chat.config.getD .null),
    ("lastMessagePreview", optStr chat.lastMessagePreview),
    ("lastMessageAt", optMs chat.lastMessageAt),
    ("createdAt", .number chat.createdAt),
    ("harnessSessionId", optStr chat.harnessSessionId),
    ("harnessSessionCwd", optStr chat.harnessSessionCwd),
    ("spaceId", optStr chat.spaceId),
    ("parentChatId", optStr chat.parentChatId),
    ("lastSeenAt", optMs chat.lastSeenAt),
    ("parentChatId", optStr chat.parentChatId)]

def Session.fieldSet (session : Session) : BTreeMap Json :=
  fields [
    ("chatId", .string session.chatId),
    ("deviceId", .string session.deviceId),
    ("status", .string session.status.wireName),
    ("lastCompletedTurn", optStr session.lastCompletedTurn),
    ("startedAt", optMs session.startedAt),
    ("updatedAt", .number session.updatedAt)]

/-! ## Reading rows -/

/-- What this build decodes of a chat's `config` and `sourceContext` values. -/
structure EntityCodec where
  chatConfig : Json → Option Json
  sourceContext : Json → Option Json

def decodeString : Json → Option String
  | .string value => some value
  | _ => none

def decodeBool : Json → Option Bool
  | .bool value => some value
  | _ => none

/-- An `i64`. -/
def decodeMs : Json → Option Int
  | .number value => if -2 ^ 63 ≤ value ∧ value < 2 ^ 63 then some value else none
  | _ => none

/-- A `u32`. -/
def decodeGen : Json → Option Nat
  | .number value => if 0 ≤ value ∧ value < 2 ^ 32 then some value.toNat else none
  | _ => none

/-- `Option<T>`: `null` is an absent value. -/
def decodeOption {α : Type} (decode : Json → Option α) (value : Json) : Option (Option α) :=
  if value.isNull then some none else (decode value).map some

namespace RegistryRow

variable {α : Type}

/-- A member that must be there. -/
def member (row : RegistryRow) (decode : Json → Option α) (name : String) : Option α :=
  row.fields[name]?.bind decode

/-- A member with a `#[serde(default)]`. -/
def memberOr (row : RegistryRow) (decode : Json → Option α) (name : String) (default : α) :
    Option α :=
  match row.fields[name]? with
  | none => some default
  | some value => decode value

def optional (row : RegistryRow) (decode : Json → Option α) (name : String) :
    Option (Option α) :=
  row.memberOr (decodeOption decode) name none

end RegistryRow

/-- `DateTime::from_timestamp_millis(ms).unwrap_or(UNIX_EPOCH)`. -/
def dt (ms : Int) : Int :=
  if -8334601228800000 ≤ ms ∧ ms ≤ 8210266876799999 then ms else 0

def RegistryRow.toSpace (row : RegistryRow) : Option Space := do
  return {
    id := ← row.member decodeString "id"
    deviceId := ← row.member decodeString "deviceId"
    path := ← row.member decodeString "path"
    name := ← row.optional decodeString "name"
    gitDetected := ← row.memberOr decodeBool "gitDetected" false
    gitCheckedAt := (← row.optional decodeMs "gitCheckedAt").map dt
    checkoutId := ← row.optional decodeString "checkoutId"
    repositoryId := ← row.optional decodeString "repositoryId"
    createdAt := dt (← row.memberOr decodeMs "createdAt" 0) }

/-- A config this build cannot decode costs the config, not the row. -/
def RegistryRow.toChat (codec : EntityCodec) (row : RegistryRow) : Option Chat := do
  return {
    id := ← row.member decodeString "id"
    deviceId := ← row.member decodeString "deviceId"
    title := ← row.optional decodeString "title"
    archived := ← row.memberOr decodeBool "archived" false
    cwd := ← row.optional decodeString "cwd"
    branch := ← row.optional decodeString "branch"
    checkoutId := ← row.optional decodeString "checkoutId"
    sourceContext := ← row.optional codec.sourceContext "sourceContext"
    config := row.fields["config"]?.bind fun value =>
      if value.isNull then none else codec.chatConfig value
    lastMessagePreview := ← row.optional decodeString "lastMessagePreview"
    lastMessageAt := (← row.optional decodeMs "lastMessageAt").map dt
    createdAt := dt (← row.memberOr decodeMs "createdAt" 0)
    harnessSessionId := ← row.optional decodeString "harnessSessionId"
    harnessSessionCwd := ← row.optional decodeString "harnessSessionCwd"
    spaceId := ← row.optional decodeString "spaceId"
    lastSeenAt := (← row.optional decodeMs "lastSeenAt").map dt
    roomGen := ← row.optional decodeGen "roomGen"
    parentChatId := ← row.optional decodeString "parentChatId" }

def decodeStatus : Json → Option SessionStatus
  | .string "idle" => some .idle
  | .string "working" => some .working
  | .string "awaitingInput" => some .awaitingInput
  | .string "errored" => some .errored
  | _ => none

def RegistryRow.toSession (row : RegistryRow) : Option Session := do
  return {
    lastCompletedTurn := ← row.optional decodeString "lastCompletedTurn"
    chatId := ← row.member decodeString "chatId"
    deviceId := ← row.member decodeString "deviceId"
    status := ← row.member decodeStatus "status"
    startedAt := (← row.optional decodeMs "startedAt").map dt
    updatedAt := dt (← row.memberOr decodeMs "updatedAt" 0) }

/-! ## Overlay reads of a kind -/

namespace RegistryDoc

/-- The ids a read of a kind visits: those of the server's rows in the map's
order, then those only queued ops name. -/
def overlayIds (doc : RegistryDoc) (order : IterOrder) (kind : String) : List String :=
  (doc.pendingOps.filter fun op => op.kind == kind).foldl
    (fun ids op => if ids.contains op.id then ids else ids ++ [op.id])
    ((order.arrange (doc.authoritative.values.filter fun row => row.kind == kind)).map (·.id))

/-- All live rows of a kind, overlay applied. -/
def overlayRows (doc : RegistryDoc) (order : IterOrder) (kind : String) : List RegistryRow :=
  (doc.overlayIds order kind).filterMap (doc.overlayRow kind)

def rowExists (doc : RegistryDoc) (kind id : String) : Bool := (doc.overlayRow kind id).isSome

def space (doc : RegistryDoc) (spaceId : String) : Option Space :=
  (doc.overlayRow kindSpaces spaceId).bind RegistryRow.toSpace

def chat (doc : RegistryDoc) (codec : EntityCodec) (chatId : String) : Option Chat :=
  (doc.overlayRow kindChats chatId).bind (RegistryRow.toChat codec)

def readSpaces (doc : RegistryDoc) (order : IterOrder) : List Space :=
  ((doc.overlayRows order kindSpaces).filterMap RegistryRow.toSpace).insertionSort
    fun a b => a.id ≤ b.id

def readChats (doc : RegistryDoc) (codec : EntityCodec) (order : IterOrder) : List Chat :=
  ((doc.overlayRows order kindChats).filterMap (RegistryRow.toChat codec)).insertionSort
    fun a b => a.id ≤ b.id

def readSessions (doc : RegistryDoc) (order : IterOrder) : List Session :=
  ((doc.overlayRows order kindSessions).filterMap RegistryRow.toSession).insertionSort
    fun a b => a.chatId ≤ b.chatId

end RegistryDoc

end Zeron.Registry
