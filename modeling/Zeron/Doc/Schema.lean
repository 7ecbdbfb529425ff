import Zeron.Transcript.Message

namespace Zeron.Doc

open Zeron.Transcript

/-! # Session documents

An entry is a map with a list of part maps.  Readers see them as JSON: a strict decoder
reads an entry as a whole, and a second one saves what it can of an entry the first
rejects.
-/

/-- The keys of a part map. -/
inductive PartKey where
  | id | kind | text | reasoning | path | name | mimeType | call | isError | questions | resolved
  | message | sourceChatId | sourceTitle | output | diff | outputRef | outputBytes | diffRef
  | diffStats | subagentRef | subagentStatus | subagentTail
deriving DecidableEq

/-- The keys of an entry map other than its parts. -/
inductive EntryKey where
  | id | role | createdAt | deviceId | status | continuationOf | durationMs
deriving DecidableEq

abbrev PartMap (raw : Type) := PartKey → Option raw

inductive PartsValue (raw : Type) where
  | missing
  /-- Not a list. -/
  | other
  /-- The parts; one that is not a map has no fields to read. -/
  | list (parts : List (Option (PartMap raw)))

structure EntryMap (raw : Type) where
  /-- Everything but the parts. -/
  fields : EntryKey → Option raw
  parts : PartsValue raw

/-- What serde stores for a tool call: a JSON null and no input are the same. -/
def storedCall {value : Type} (isNull : value → Bool) : ToolCall value → ToolCall value
  | .mcp server tool input => .mcp server tool (input.filter fun value => !isNull value)
  | .unknown name input => .unknown name (input.filter fun value => !isNull value)
  | call => call

/-- The values of the maps, and what `serde_json` reads in them and makes of them. -/
structure Codec (raw value : Type) where
  isNull : raw → Bool
  asStr : raw → Option String
  asInt : raw → Option Int
  asBool : raw → Option Bool
  asCall : raw → Option (ToolCall value)
  asQuestions : raw → Option (List UserInputQuestion)
  asDiff : raw → Option ToolDiff
  asDiffStats : raw → Option (List ToolDiffStat)
  ofStr : String → raw
  ofInt : Int → raw
  ofBool : Bool → raw
  ofCall : ToolCall value → raw
  ofQuestions : List UserInputQuestion → raw
  ofDiff : ToolDiff → raw
  ofDiffStats : List ToolDiffStat → raw
  /-- Whether the input of a tool call is a JSON null. -/
  nullInput : value → Bool
  /-- The hash of an entry's text, in sixteen hexadecimal digits. -/
  stableHash : EntryMap raw → String
  null : ∀ held, isNull held = true → asStr held = none ∧ asInt held = none ∧ asBool held = none
  str : ∀ text, asStr (ofStr text) = some text ∧ isNull (ofStr text) = false
  int : ∀ number, asInt (ofInt number) = some number ∧ isNull (ofInt number) = false
  bool : ∀ flag, asBool (ofBool flag) = some flag ∧ isNull (ofBool flag) = false
  call : ∀ call, asCall (ofCall call) = some (storedCall nullInput call) ∧ isNull (ofCall call) = false
  questions : ∀ list, asQuestions (ofQuestions list) = some list ∧ isNull (ofQuestions list) = false
  diff : ∀ diff, asDiff (ofDiff diff) = some diff ∧ isNull (ofDiff diff) = false
  diffStats : ∀ stats, asDiffStats (ofDiffStats stats) = some stats ∧ isNull (ofDiffStats stats) = false

/-- The flat part map. -/
structure DocPart (raw : Type) where
  id : String
  kind : String
  path : Option String := none
  name : Option String := none
  mimeType : Option String := none
  text : Option String := none
  reasoning : Option String := none
  call : Option raw := none
  isError : Option Bool := none
  questions : Option raw := none
  resolved : Option Bool := none
  message : Option String := none
  sourceChatId : Option String := none
  sourceTitle : Option String := none
  output : Option String := none
  diff : Option raw := none
  outputRef : Option String := none
  outputBytes : Option Nat := none
  diffRef : Option String := none
  diffStats : Option raw := none
  subagentRef : Option String := none
  subagentStatus : Option String := none
  subagentTail : Option String := none

def subagentStatusStr : SubagentStatus → String
  | .running => "running"
  | .done => "done"
  | .failed => "failed"

def subagentStatusOf (text : String) : Option SubagentStatus :=
  if text = "running" then some .running
  else if text = "done" then some .done
  else if text = "failed" then some .failed
  else none

def roleStr : MessageRole → String
  | .user => "user"
  | .assistant => "assistant"
  | .system => "system"

def roleOf (text : String) : Option MessageRole :=
  if text = "user" then some .user
  else if text = "assistant" then some .assistant
  else if text = "system" then some .system
  else none

def statusStr : MessageStatus → String
  | .streaming => "streaming"
  | .complete => "complete"
  | .aborted => "aborted"

def statusOf (text : String) : Option MessageStatus :=
  if text = "streaming" then some .streaming
  else if text = "complete" then some .complete
  else if text = "aborted" then some .aborted
  else none

/-- `n as i64` of a `u64`. -/
def asI64 (number : Nat) : Int := Int.bmod number (2 ^ 64)

namespace Codec

variable {raw value : Type} (codec : Codec raw value)

/-! ## Writing -/

/-- App parts to doc parts. -/
def toDocPart : MessagePart value → DocPart raw
  | .image id path name mimeType =>
      { id, kind := "image", path := some path, name := some name, mimeType := some mimeType }
  | .text id text => { id, kind := "text", text := some text }
  | .reasoning id text => { id, kind := "reasoning", reasoning := some text }
  | .tool id tool =>
      { id
        kind := "tool"
        call := some (codec.ofCall tool.call)
        isError := if tool.resolved then some tool.isError else none
        output := tool.output
        diff := tool.diff.map codec.ofDiff
        outputRef := tool.outputRef
        outputBytes := tool.outputBytes
        diffRef := tool.diffRef
        diffStats := tool.diffStats.map codec.ofDiffStats
        subagentRef := tool.subagentRef
        subagentStatus := tool.subagentStatus.map subagentStatusStr
        subagentTail := tool.subagentTail }
  | .input _ requestId questions resolved =>
      { id := requestId
        kind := "input"
        questions := some (codec.ofQuestions questions)
        resolved := some resolved }
  | .error id message => { id, kind := "error", message := some message }
  | .fork id sourceChatId sourceTitle =>
      { id, kind := "fork", sourceChatId := some sourceChatId, sourceTitle := some sourceTitle }

/-- The map that `push_part` fills. -/
def partFields (part : DocPart raw) : PartMap raw
  | .id => some (codec.ofStr part.id)
  | .kind => some (codec.ofStr part.kind)
  | .text => part.text.map codec.ofStr
  | .reasoning => part.reasoning.map codec.ofStr
  | .path => part.path.map codec.ofStr
  | .name => part.name.map codec.ofStr
  | .mimeType => part.mimeType.map codec.ofStr
  | .call => part.call
  | .isError => part.isError.map codec.ofBool
  | .questions => part.questions
  | .resolved => part.resolved.map codec.ofBool
  | .message => part.message.map codec.ofStr
  | .sourceChatId => part.sourceChatId.map codec.ofStr
  | .sourceTitle => part.sourceTitle.map codec.ofStr
  | .output => part.output.map codec.ofStr
  | .diff => part.diff
  | .outputRef => part.outputRef.map codec.ofStr
  | .outputBytes => part.outputBytes.map fun bytes => codec.ofInt (asI64 bytes)
  | .diffRef => part.diffRef.map codec.ofStr
  | .diffStats => part.diffStats
  | .subagentRef => part.subagentRef.map codec.ofStr
  | .subagentStatus => part.subagentStatus.map codec.ofStr
  | .subagentTail => part.subagentTail.map codec.ofStr

def pushPart (part : MessagePart value) : PartMap raw := codec.partFields (codec.toDocPart part)

/-- `write_entry_scalar_fields`. -/
def entryFields (entry : SessionMessageEntry value) : EntryKey → Option raw
  | .id => some (codec.ofStr entry.id)
  | .role => some (codec.ofStr (roleStr entry.role))
  | .createdAt => some (codec.ofInt entry.createdAt)
  | .deviceId => some (codec.ofStr entry.deviceId)
  | .status => entry.status.map fun status => codec.ofStr (statusStr status)
  | .continuationOf => entry.continuationOf.map codec.ofStr
  | .durationMs => entry.durationMs.map codec.ofInt

def pushMessage (entry : SessionMessageEntry value) : EntryMap raw where
  fields := codec.entryFields entry
  parts := .list (entry.parts.map fun part => some (codec.pushPart part))

/-! ## Reading -/

/-- An optional field of a strict shape: absent and null are none, another type is an error. -/
def optional {α : Type} (read : raw → Option α) : Option raw → Option (Option α)
  | none => some none
  | some held => if codec.isNull held then some none else (read held).map some

def asU64 (held : raw) : Option Nat :=
  (codec.asInt held).bind fun number => if 0 ≤ number then some number.toNat else none

/-- The strict shape of a part. -/
def readPart (fields : PartMap raw) : Option (DocPart raw) := do
  let id ← (fields .id).bind codec.asStr
  let kind ← (fields .kind).bind codec.asStr
  let path ← codec.optional codec.asStr (fields .path)
  let name ← codec.optional codec.asStr (fields .name)
  let mimeType ← codec.optional codec.asStr (fields .mimeType)
  let text ← codec.optional codec.asStr (fields .text)
  let reasoning ← codec.optional codec.asStr (fields .reasoning)
  let call ← codec.optional some (fields .call)
  let isError ← codec.optional codec.asBool (fields .isError)
  let questions ← codec.optional some (fields .questions)
  let resolved ← codec.optional codec.asBool (fields .resolved)
  let message ← codec.optional codec.asStr (fields .message)
  let sourceChatId ← codec.optional codec.asStr (fields .sourceChatId)
  let sourceTitle ← codec.optional codec.asStr (fields .sourceTitle)
  let output ← codec.optional codec.asStr (fields .output)
  let diff ← codec.optional some (fields .diff)
  let outputRef ← codec.optional codec.asStr (fields .outputRef)
  let outputBytes ← codec.optional codec.asU64 (fields .outputBytes)
  let diffRef ← codec.optional codec.asStr (fields .diffRef)
  let diffStats ← codec.optional some (fields .diffStats)
  let subagentRef ← codec.optional codec.asStr (fields .subagentRef)
  let subagentStatus ← codec.optional codec.asStr (fields .subagentStatus)
  let subagentTail ← codec.optional codec.asStr (fields .subagentTail)
  return {
    id := id, kind, path, name, mimeType, text, reasoning, call, isError, questions, resolved
    message, sourceChatId, sourceTitle, output, diff, outputRef, outputBytes, diffRef, diffStats
    subagentRef, subagentStatus, subagentTail }

def imageTypes : List String := ["image/png", "image/jpeg", "image/webp", "image/gif"]

def imagePart (id : String) (path name mimeType : Option String) : MessagePart value :=
  match path, name, mimeType with
  | some path, some name, some mimeType =>
      if path ≠ "" ∧ name ≠ "" ∧ mimeType ∈ imageTypes then .image id path name mimeType
      else .error id "Generated image unavailable"
  | _, _, _ => .error id "Generated image unavailable"

/-- Doc part to app part; a malformed one degrades to an empty text. -/
def fromDocPart (part : DocPart raw) : MessagePart value :=
  if part.kind = "image" then imagePart part.id part.path part.name part.mimeType
  else if part.kind = "tool" then
    match part.call.bind codec.asCall with
    | some call =>
        .tool part.id
          { call
            isError := part.isError.getD false
            resolved := part.isError.isSome
            output := part.output
            diff := part.diff.bind codec.asDiff
            outputRef := part.outputRef
            outputBytes := part.outputBytes
            diffRef := part.diffRef
            diffStats := part.diffStats.bind codec.asDiffStats
            subagentRef := part.subagentRef
            subagentStatus := part.subagentStatus.bind subagentStatusOf
            subagentTail := part.subagentTail }
    | none => .text part.id ""
  else if part.kind = "input" then
    .input part.id part.id ((part.questions.bind codec.asQuestions).getD [])
      (part.resolved.getD false)
  else if part.kind = "error" then .error part.id (part.message.getD "")
  else if part.kind = "reasoning" then .reasoning part.id (part.reasoning.getD "")
  else if part.kind = "fork" then
    .fork part.id (part.sourceChatId.getD "") (part.sourceTitle.getD "")
  else .text part.id (part.text.getD "")

/-- A part that the strict shape rejects: its kind is inferred from its content. -/
def salvagePart (fields : PartMap raw) (entryId : String) (index : Nat) :
    Option (MessagePart value) :=
  let text (key : PartKey) := (fields key).bind codec.asStr
  let id := (text .id).getD s!"{entryId}#recovered-{index}"
  if text .kind = some "image" then
    some (imagePart id (text .path) (text .name) (text .mimeType))
  else
    match text .reasoning with
    | some reasoning => some (.reasoning id reasoning)
    | none =>
        match text .text with
        | some text => some (.text id text)
        | none =>
            match (fields .call).bind codec.asCall with
            | some call =>
                some (.tool id
                  { call
                    isError := ((fields .isError).bind codec.asBool).getD false
                    resolved := ((fields .resolved).bind codec.asBool).getD true
                    output := text .output
                    diff := none
                    outputRef := none
                    outputBytes := none
                    diffRef := none
                    diffStats := none
                    subagentRef := none
                    subagentStatus := none
                    subagentTail := none })
            | none => (text .message).map fun message => .error id message

/-- One part of an entry that is saved. -/
def savedPart (entryId : String) (index : Nat) (part : Option (PartMap raw)) :
    Option (MessagePart value) :=
  match part.bind codec.readPart with
  | some read => some (codec.fromDocPart read)
  | none => part.bind fun fields => codec.salvagePart fields entryId index

def strictParts : PartsValue raw → Option (List (DocPart raw))
  | .missing => some []
  | .other => none
  | .list parts => parts.mapM fun part => part.bind codec.readPart

/-- The strict shape of an entry. -/
def strictEntry (entry : EntryMap raw) : Option (SessionMessageEntry value) := do
  let id ← (entry.fields .id).bind codec.asStr
  let role ← ((entry.fields .role).bind codec.asStr).bind roleOf
  let parts ← codec.strictParts entry.parts
  let createdAt ← (entry.fields .createdAt).bind codec.asInt
  let deviceId ← (entry.fields .deviceId).bind codec.asStr
  let status ← codec.optional (fun held => (codec.asStr held).bind statusOf) (entry.fields .status)
  let continuationOf ← codec.optional codec.asStr (entry.fields .continuationOf)
  let durationMs ← codec.optional codec.asInt (entry.fields .durationMs)
  return {
    id, role, createdAt, deviceId, status, continuationOf, durationMs
    parts := parts.map codec.fromDocPart }

def recoveredId (entry : EntryMap raw) : String := "recovered-" ++ codec.stableHash entry

/-- The parts of an entry that is saved; a part with nothing to show is dropped. -/
def savedParts (entryId : String) : PartsValue raw → List (MessagePart value)
  | .list parts => (parts.mapIdx (codec.savedPart entryId)).reduceOption
  | _ => []

def salvageEntry (entry : EntryMap raw) : SessionMessageEntry value :=
  let text (key : EntryKey) := (entry.fields key).bind codec.asStr
  let id := (text .id).getD (codec.recoveredId entry)
  { id
    role := ((text .role).bind roleOf).getD .assistant
    parts := codec.savedParts id entry.parts
    createdAt := ((entry.fields .createdAt).bind codec.asInt).getD 0
    deviceId := (text .deviceId).getD ""
    status := (text .status).bind statusOf
    continuationOf := text .continuationOf
    durationMs := (entry.fields .durationMs).bind codec.asInt }

/-- An entry map always decodes. -/
def entryFromJson (entry : EntryMap raw) : SessionMessageEntry value :=
  (codec.strictEntry entry).getD (codec.salvageEntry entry)

/-! ## The two decoders agree -/

theorem optional_eq_some {α : Type} {read : raw → Option α} {field : Option raw} {result : Option α}
    (isRead : codec.optional read field = some result)
    (null : ∀ held, codec.isNull held = true → read held = none) : field.bind read = result := by
  cases field with
  | none =>
      cases isRead
      rfl
  | some held =>
      unfold optional at isRead
      dsimp only at isRead
      rw [Option.bind_some]
      split at isRead
      · rename_i isNull
        cases isRead
        exact null held isNull
      · obtain ⟨found, read, rfl⟩ := Option.map_eq_some_iff.mp isRead
        exact read

theorem savedParts_eq {index : Nat → Nat} {parts : List (Option (PartMap raw))}
    {reads : List (DocPart raw)} (entryId : String)
    (strict : parts.mapM (fun part => part.bind codec.readPart) = some reads) :
    (parts.mapIdx fun place => codec.savedPart entryId (index place)).reduceOption =
      reads.map codec.fromDocPart := by
  induction parts generalizing index reads with
  | nil =>
      cases strict
      rfl
  | cons part rest ih =>
      rw [List.mapM_cons] at strict
      obtain ⟨read, first, strict⟩ := Option.bind_eq_some_iff.mp strict
      obtain ⟨others, later, last⟩ := Option.bind_eq_some_iff.mp strict
      cases last
      have saved : codec.savedPart entryId (index 0) part = some (codec.fromDocPart read) := by
        unfold savedPart
        rw [first]
      rw [List.mapIdx_cons, saved, List.reduceOption_cons_of_some, List.map_cons]
      exact congrArg _ (ih later)

/-- What the strict decoder accepts, the other reads the same. -/
theorem salvageEntry_of_strict {entry : EntryMap raw} {read : SessionMessageEntry value}
    (strict : codec.strictEntry entry = some read) : codec.salvageEntry entry = read := by
  unfold strictEntry at strict
  obtain ⟨id, isId, strict⟩ := Option.bind_eq_some_iff.mp strict
  obtain ⟨role, isRole, strict⟩ := Option.bind_eq_some_iff.mp strict
  obtain ⟨parts, areParts, strict⟩ := Option.bind_eq_some_iff.mp strict
  obtain ⟨createdAt, isTime, strict⟩ := Option.bind_eq_some_iff.mp strict
  obtain ⟨deviceId, isDevice, strict⟩ := Option.bind_eq_some_iff.mp strict
  obtain ⟨status, isStatus, strict⟩ := Option.bind_eq_some_iff.mp strict
  obtain ⟨continuationOf, isRoot, strict⟩ := Option.bind_eq_some_iff.mp strict
  obtain ⟨durationMs, isDuration, made⟩ := Option.bind_eq_some_iff.mp strict
  cases made
  have statusNull : ∀ held, codec.isNull held = true →
      (codec.asStr held).bind statusOf = none := by
    intro held isNull
    rw [(codec.null held isNull).1]
    rfl
  have readStatus := codec.optional_eq_some isStatus statusNull
  have readRoot := codec.optional_eq_some isRoot fun held isNull => (codec.null held isNull).1
  have readDuration := codec.optional_eq_some isDuration fun held isNull =>
    (codec.null held isNull).2.1
  have readParts : codec.savedParts id entry.parts = parts.map codec.fromDocPart := by
    cases isList : entry.parts with
    | missing =>
        rw [isList] at areParts
        cases areParts
        rfl
    | other =>
        rw [isList] at areParts
        cases areParts
    | list held =>
        rw [isList, strictParts] at areParts
        exact @savedParts_eq raw value codec (fun place => place) held parts id areParts
  have status : ((entry.fields .status).bind codec.asStr).bind statusOf = status := by
    rw [Option.bind_assoc]
    exact readStatus
  unfold salvageEntry
  dsimp only
  rw [isId, Option.getD_some, readParts, isRole, isTime, isDevice, status, readRoot, readDuration]
  rfl

theorem entryFromJson_eq (entry : EntryMap raw) :
    codec.entryFromJson entry = codec.salvageEntry entry := by
  unfold entryFromJson
  cases strict : codec.strictEntry entry with
  | none => rfl
  | some read => exact (codec.salvageEntry_of_strict strict).symm

end Codec

end Zeron.Doc
