import Zeron.Doc.Schema

namespace Zeron.Doc

open Zeron.Transcript

/-! # What a missing field costs

Some keys of a written entry and of its part maps are gone.  A part that has lost its
id or its kind is saved by its content, and only some kinds of content are looked for.
-/

variable {raw value : Type}

def without {key : Type} (fields : key → Option raw) (gone : key → Bool) : key → Option raw :=
  fun key => if gone key then none else fields key

def keep {α : Type} (gone : PartKey → Bool) (key : PartKey) (field : Option α) : Option α :=
  if gone key then none else field

/-- Whether the keys that carry the content of a part are there. -/
def ContentKept (gone : PartKey → Bool) : MessagePart value → Prop
  | .text _ _ => gone .text = false
  | .image _ _ _ _ => gone .path = false ∧ gone .name = false ∧ gone .mimeType = false
  | .reasoning _ _ => gone .reasoning = false
  | .tool _ _ => gone .call = false
  | .input _ _ _ _ => gone .questions = false
  | .error _ _ => gone .message = false
  | .fork _ _ _ => gone .sourceChatId = false ∧ gone .sourceTitle = false

/-- Every field of a tool whose key is there is the same. -/
structure ToolPreserved (gone : PartKey → Bool) (tool read : ToolPart value) : Prop where
  call : gone .call = false → read.call = tool.call
  resolved : gone .isError = false → read.resolved = tool.resolved
  isError : gone .isError = false → tool.resolved = true → read.isError = tool.isError
  output : gone .output = false → read.output = tool.output
  diff : gone .diff = false → read.diff = tool.diff
  outputRef : gone .outputRef = false → read.outputRef = tool.outputRef
  outputBytes : gone .outputBytes = false → read.outputBytes = tool.outputBytes
  diffRef : gone .diffRef = false → read.diffRef = tool.diffRef
  diffStats : gone .diffStats = false → read.diffStats = tool.diffStats
  subagentRef : gone .subagentRef = false → read.subagentRef = tool.subagentRef
  subagentStatus : gone .subagentStatus = false → read.subagentStatus = tool.subagentStatus
  subagentTail : gone .subagentTail = false → read.subagentTail = tool.subagentTail

/-- A part is read as one of its kind, with every field whose key is there unchanged. -/
def Preserved (gone : PartKey → Bool) : MessagePart value → MessagePart value → Prop
  | .text id text, .text id' text' =>
      (gone .id = false → id' = id) ∧ (gone .text = false → text' = text)
  | .image id path name mimeType, .image id' path' name' mimeType' =>
      (gone .id = false → id' = id) ∧ (gone .path = false → path' = path) ∧
        (gone .name = false → name' = name) ∧ (gone .mimeType = false → mimeType' = mimeType)
  | .reasoning id text, .reasoning id' text' =>
      (gone .id = false → id' = id) ∧ (gone .reasoning = false → text' = text)
  | .tool id tool, .tool id' read => (gone .id = false → id' = id) ∧ ToolPreserved gone tool read
  | .input _ requestId questions resolved, .input _ requestId' questions' resolved' =>
      (gone .id = false → requestId' = requestId) ∧
        (gone .questions = false → questions' = questions) ∧
        (gone .resolved = false → resolved' = resolved)
  | .error id message, .error id' message' =>
      (gone .id = false → id' = id) ∧ (gone .message = false → message' = message)
  | .fork id chat title, .fork id' chat' title' =>
      (gone .id = false → id' = id) ∧ (gone .sourceChatId = false → chat' = chat) ∧
        (gone .sourceTitle = false → title' = title)
  | _, _ => False

structure EntryPreserved (gone : EntryKey → Bool) (entry read : SessionMessageEntry value) : Prop where
  id : gone .id = false → read.id = entry.id
  role : gone .role = false → read.role = entry.role
  createdAt : gone .createdAt = false → read.createdAt = entry.createdAt
  deviceId : gone .deviceId = false → read.deviceId = entry.deviceId
  status : gone .status = false → read.status = entry.status
  continuationOf : gone .continuationOf = false → read.continuationOf = entry.continuationOf
  durationMs : gone .durationMs = false → read.durationMs = entry.durationMs

/-- A tool that has lost its id or its kind and nothing else that is looked for. -/
structure Bare (gone : PartKey → Bool) (tool : ToolPart value) : Prop where
  resolved : tool.resolved = true ∨ gone .isError = true
  diff : tool.diff = none ∨ gone .diff = true
  outputRef : tool.outputRef = none ∨ gone .outputRef = true
  outputBytes : tool.outputBytes = none ∨ gone .outputBytes = true
  diffRef : tool.diffRef = none ∨ gone .diffRef = true
  diffStats : tool.diffStats = none ∨ gone .diffStats = true
  subagentRef : tool.subagentRef = none ∨ gone .subagentRef = true
  subagentStatus : tool.subagentStatus = none ∨ gone .subagentStatus = true
  subagentTail : tool.subagentTail = none ∨ gone .subagentTail = true

namespace Codec

variable (codec : Codec raw value)

/-- What the decoders keep of a part whose content is there. -/
def Survives (gone : PartKey → Bool) : MessagePart value → Prop
  | .text _ _ | .reasoning _ _ | .error _ _ => True
  | .image _ path name mimeType =>
      gone .kind = false ∧ path ≠ "" ∧ name ≠ "" ∧ mimeType ∈ imageTypes
  | .tool _ tool => storedCall codec.nullInput tool.call = tool.call ∧
      (gone .id = false ∧ gone .kind = false ∧
          (gone .outputBytes = false → ∀ bytes ∈ tool.outputBytes, bytes < 2 ^ 63) ∨
        Bare gone tool)
  | .input _ _ _ _ | .fork _ _ _ => gone .id = false ∧ gone .kind = false

/-- A written entry without some of its keys. -/
def damaged (entry : SessionMessageEntry value) (gone : EntryKey → Bool)
    (goneOf : Nat → PartKey → Bool) : EntryMap raw where
  fields := without (codec.entryFields entry) gone
  parts := .list (entry.parts.mapIdx fun index part =>
    some (without (codec.pushPart part) (goneOf index)))

/-- What the map of a part is read as, in an entry that is saved under this id. -/
def readDamaged (entryId : String) (goneOf : Nat → PartKey → Bool) (index : Nat)
    (part : MessagePart value) : Option (MessagePart value) :=
  codec.savedPart entryId index (some (without (codec.pushPart part) (goneOf index)))

/-- A missing field costs at most what it carried. -/
def CostsItsOwn (entry : SessionMessageEntry value) (gone : EntryKey → Bool)
    (goneOf : Nat → PartKey → Bool) : Prop :=
  let read := codec.entryFromJson (codec.damaged entry gone goneOf)
  EntryPreserved gone entry read ∧
    read.parts = (entry.parts.mapIdx (codec.readDamaged read.id goneOf)).reduceOption ∧
    ∀ (index : Nat) (part : MessagePart value), entry.parts[index]? = some part →
      ContentKept (goneOf index) part →
      ∃ kept, codec.readDamaged read.id goneOf index part = some kept ∧
        Preserved (goneOf index) part kept

/-! ## The strict shape of a damaged part -/

/-- How the byte count of an output is read back. -/
def readBytes (bytes : Option Nat) : Option (Option Nat) :=
  codec.optional codec.asU64 (bytes.map fun bytes => codec.ofInt (asI64 bytes))

theorem optional_str (gone : PartKey → Bool) (key : PartKey) (field : Option String) :
    codec.optional codec.asStr (if gone key then none else field.map codec.ofStr) =
      some (keep gone key field) := by
  unfold optional keep
  cases gone key <;> cases field <;> simp [codec.str]

theorem optional_bool (gone : PartKey → Bool) (key : PartKey) (field : Option Bool) :
    codec.optional codec.asBool (if gone key then none else field.map codec.ofBool) =
      some (keep gone key field) := by
  unfold optional keep
  cases gone key <;> cases field <;> simp [codec.bool]

theorem optional_raw (gone : PartKey → Bool) (key : PartKey) {field : Option raw}
    (filled : ∀ held ∈ field, codec.isNull held = false) :
    codec.optional some (if gone key then none else field) = some (keep gone key field) := by
  unfold optional keep
  cases gone key with
  | true => rfl
  | false =>
      cases field with
      | none => rfl
      | some held => simp [filled held rfl]

theorem optional_bytes (gone : PartKey → Bool) (field : Option Nat) :
    codec.optional codec.asU64 (if gone .outputBytes then none
      else field.map fun bytes => codec.ofInt (asI64 bytes)) =
      codec.readBytes (keep gone .outputBytes field) := by
  unfold keep readBytes
  cases gone .outputBytes <;> rfl

/-- The values a part holds are not null. -/
structure Filled (part : DocPart raw) : Prop where
  call : ∀ held ∈ part.call, codec.isNull held = false
  questions : ∀ held ∈ part.questions, codec.isNull held = false
  diff : ∀ held ∈ part.diff, codec.isNull held = false
  diffStats : ∀ held ∈ part.diffStats, codec.isNull held = false

theorem bind_of_some {α β : Type} {field : Option α} {found : α} {next : α → Option β}
    (isFound : field = some found) : (field >>= next) = next found := by
  rw [isFound]
  rfl

/-- A part map without some of its keys, as the strict shape has it. -/
def keeping (gone : PartKey → Bool) (part : DocPart raw) (outputBytes : Option Nat) : DocPart raw where
  id := part.id
  kind := part.kind
  path := keep gone .path part.path
  name := keep gone .name part.name
  mimeType := keep gone .mimeType part.mimeType
  text := keep gone .text part.text
  reasoning := keep gone .reasoning part.reasoning
  call := keep gone .call part.call
  isError := keep gone .isError part.isError
  questions := keep gone .questions part.questions
  resolved := keep gone .resolved part.resolved
  message := keep gone .message part.message
  sourceChatId := keep gone .sourceChatId part.sourceChatId
  sourceTitle := keep gone .sourceTitle part.sourceTitle
  output := keep gone .output part.output
  diff := keep gone .diff part.diff
  outputRef := keep gone .outputRef part.outputRef
  outputBytes := outputBytes
  diffRef := keep gone .diffRef part.diffRef
  diffStats := keep gone .diffStats part.diffStats
  subagentRef := keep gone .subagentRef part.subagentRef
  subagentStatus := keep gone .subagentStatus part.subagentStatus
  subagentTail := keep gone .subagentTail part.subagentTail

theorem readPart_without (gone : PartKey → Bool) {part : DocPart raw} (filled : codec.Filled part) :
    codec.readPart (without (codec.partFields part) gone) =
      if gone .id || gone .kind then none
      else (codec.readBytes (keep gone .outputBytes part.outputBytes)).map (keeping gone part) := by
  have isId : (without (codec.partFields part) gone .id).bind codec.asStr =
      if gone .id then none else some part.id := by
    unfold without partFields
    cases gone .id <;> simp [codec.str]
  have isKind : (without (codec.partFields part) gone .kind).bind codec.asStr =
      if gone .kind then none else some part.kind := by
    unfold without partFields
    cases gone .kind <;> simp [codec.str]
  unfold readPart
  rw [isId, isKind]
  cases gone .id with
  | true => rfl
  | false =>
      cases gone .kind with
      | true => rfl
      | false =>
          refine (bind_of_some (codec.optional_str gone .path _)).trans ?_
          refine (bind_of_some (codec.optional_str gone .name _)).trans ?_
          refine (bind_of_some (codec.optional_str gone .mimeType _)).trans ?_
          refine (bind_of_some (codec.optional_str gone .text _)).trans ?_
          refine (bind_of_some (codec.optional_str gone .reasoning _)).trans ?_
          refine (bind_of_some (codec.optional_raw gone .call filled.call)).trans ?_
          refine (bind_of_some (codec.optional_bool gone .isError _)).trans ?_
          refine (bind_of_some (codec.optional_raw gone .questions filled.questions)).trans ?_
          refine (bind_of_some (codec.optional_bool gone .resolved _)).trans ?_
          refine (bind_of_some (codec.optional_str gone .message _)).trans ?_
          refine (bind_of_some (codec.optional_str gone .sourceChatId _)).trans ?_
          refine (bind_of_some (codec.optional_str gone .sourceTitle _)).trans ?_
          refine (bind_of_some (codec.optional_str gone .output _)).trans ?_
          refine (bind_of_some (codec.optional_raw gone .diff filled.diff)).trans ?_
          refine (bind_of_some (codec.optional_str gone .outputRef _)).trans ?_
          rw [show codec.optional codec.asU64 (without (codec.partFields part) gone .outputBytes) = _ from
            codec.optional_bytes gone part.outputBytes]
          cases codec.readBytes (keep gone .outputBytes part.outputBytes) with
          | none => rfl
          | some bytes =>
              refine (bind_of_some (codec.optional_str gone .diffRef _)).trans ?_
              refine (bind_of_some (codec.optional_raw gone .diffStats filled.diffStats)).trans ?_
              refine (bind_of_some (codec.optional_str gone .subagentRef _)).trans ?_
              refine (bind_of_some (codec.optional_str gone .subagentStatus _)).trans ?_
              refine (bind_of_some (codec.optional_str gone .subagentTail _)).trans ?_
              rfl

theorem filled_toDocPart (part : MessagePart value) : codec.Filled (codec.toDocPart part) := by
  cases part with
  | tool id tool =>
      refine ⟨?_, nofun, ?_, ?_⟩
      · rintro _ ⟨⟩
        exact (codec.call tool.call).2
      · intro held isHeld
        obtain ⟨diff, _, rfl⟩ := Option.map_eq_some_iff.mp isHeld
        exact (codec.diff diff).2
      · intro held isHeld
        obtain ⟨stats, _, rfl⟩ := Option.map_eq_some_iff.mp isHeld
        exact (codec.diffStats stats).2
  | input id requestId questions resolved =>
      refine ⟨nofun, ?_, nofun, nofun⟩
      rintro _ ⟨⟩
      exact (codec.questions questions).2
  | _ => exact ⟨nofun, nofun, nofun, nofun⟩

/-! ## The parts one by one -/

section parts

variable {entryId : String} {goneOf : Nat → PartKey → Bool} {index : Nat}

/-- A part with its id and its kind is read by the strict shape. -/
theorem readDamaged_kept {part : MessagePart value} {bytes : Option Nat}
    (isId : goneOf index .id = false) (isKind : goneOf index .kind = false)
    (isBytes : codec.readBytes (keep (goneOf index) .outputBytes (codec.toDocPart part).outputBytes) =
      some bytes) :
    codec.readDamaged entryId goneOf index part =
      some (codec.fromDocPart (keeping (goneOf index) (codec.toDocPart part) bytes)) := by
  have strict := codec.readPart_without (goneOf index) (codec.filled_toDocPart part)
  rw [isId, isKind, isBytes] at strict
  unfold readDamaged savedPart
  rw [Option.bind_some, pushPart, strict]
  rfl

/-- Without its id or its kind, or with a count that is no `u64`, it is saved by its content. -/
theorem readDamaged_lost {part : MessagePart value}
    (lost : goneOf index .id = true ∨ goneOf index .kind = true ∨
      codec.readBytes (keep (goneOf index) .outputBytes (codec.toDocPart part).outputBytes) = none) :
    codec.readDamaged entryId goneOf index part =
      codec.salvagePart (without (codec.pushPart part) (goneOf index)) entryId index := by
  have strict := codec.readPart_without (goneOf index) (codec.filled_toDocPart part)
  have rejected : codec.readPart (without (codec.pushPart part) (goneOf index)) = none := by
    rw [pushPart, strict]
    rcases lost with isId | isKind | isBytes
    · simp [isId]
    · simp [isKind]
    · rw [isBytes]
      exact ite_self none
  unfold readDamaged savedPart
  rw [Option.bind_some, rejected]
  rfl

theorem readBytes_none (gone : PartKey → Bool) :
    codec.readBytes (keep gone .outputBytes none) = some none := by
  unfold keep
  rw [ite_self]
  rfl

/-- The id under which a part is saved. -/
def savedId (gone : PartKey → Bool) (id entryId : String) (index : Nat) : String :=
  if gone .id then s!"{entryId}#recovered-{index}" else id

theorem savedId_eq {gone : PartKey → Bool} (id entryId : String) (index : Nat)
    (kept : gone .id = false) : savedId gone id entryId index = id := by
  unfold savedId
  rw [kept]
  rfl

/-- The content that is looked for in a part that is no image. -/
def content (gone : PartKey → Bool) (part : DocPart raw) (id : String) :
    Option (MessagePart value) :=
  match keep gone .reasoning part.reasoning with
  | some reasoning => some (.reasoning id reasoning)
  | none =>
      match keep gone .text part.text with
      | some text => some (.text id text)
      | none =>
          match (keep gone .call part.call).bind codec.asCall with
          | some call =>
              some (.tool id
                { call
                  isError := (keep gone .isError part.isError).getD false
                  resolved := (keep gone .resolved part.resolved).getD true
                  output := keep gone .output part.output
                  diff := none
                  outputRef := none
                  outputBytes := none
                  diffRef := none
                  diffStats := none
                  subagentRef := none
                  subagentStatus := none
                  subagentTail := none })
          | none => (keep gone .message part.message).map fun message => .error id message

/-- What is looked for in a part that is saved. -/
def salvaged (gone : PartKey → Bool) (part : DocPart raw) (id : String) :
    Option (MessagePart value) :=
  if keep gone .kind (some part.kind) = some "image" then
    some (imagePart id (keep gone .path part.path) (keep gone .name part.name)
      (keep gone .mimeType part.mimeType))
  else codec.content gone part id

theorem read_str (gone : PartKey → Bool) (key : PartKey) (field : Option String) :
    (if gone key then none else field.map codec.ofStr).bind codec.asStr = keep gone key field := by
  unfold keep
  cases gone key <;> cases field <;> simp [codec.str]

theorem read_bool (gone : PartKey → Bool) (key : PartKey) (field : Option Bool) :
    (if gone key then none else field.map codec.ofBool).bind codec.asBool = keep gone key field := by
  unfold keep
  cases gone key <;> cases field <;> simp [codec.bool]

theorem salvagePart_without (gone : PartKey → Bool) (part : DocPart raw) (entryId : String)
    (index : Nat) :
    codec.salvagePart (without (codec.partFields part) gone) entryId index =
      codec.salvaged gone part (savedId gone part.id entryId index) := by
  have isId : ((without (codec.partFields part) gone .id).bind codec.asStr).getD
      s!"{entryId}#recovered-{index}" = savedId gone part.id entryId index := by
    unfold without partFields savedId
    cases gone .id <;> simp [codec.str]
  have isKind : (without (codec.partFields part) gone .kind).bind codec.asStr =
      keep gone .kind (some part.kind) := codec.read_str gone .kind (some part.kind)
  have isReasoning : (without (codec.partFields part) gone .reasoning).bind codec.asStr = _ :=
    codec.read_str gone .reasoning part.reasoning
  have isText : (without (codec.partFields part) gone .text).bind codec.asStr = _ :=
    codec.read_str gone .text part.text
  have isPath : (without (codec.partFields part) gone .path).bind codec.asStr = _ :=
    codec.read_str gone .path part.path
  have isName : (without (codec.partFields part) gone .name).bind codec.asStr = _ :=
    codec.read_str gone .name part.name
  have isType : (without (codec.partFields part) gone .mimeType).bind codec.asStr = _ :=
    codec.read_str gone .mimeType part.mimeType
  have isOutput : (without (codec.partFields part) gone .output).bind codec.asStr = _ :=
    codec.read_str gone .output part.output
  have isMessage : (without (codec.partFields part) gone .message).bind codec.asStr = _ :=
    codec.read_str gone .message part.message
  have isError : (without (codec.partFields part) gone .isError).bind codec.asBool = _ :=
    codec.read_bool gone .isError part.isError
  have isResolved : (without (codec.partFields part) gone .resolved).bind codec.asBool = _ :=
    codec.read_bool gone .resolved part.resolved
  unfold salvagePart salvaged content
  simp only [isId, isKind, isReasoning, isText, isPath, isName, isType, isOutput, isMessage,
    isError, isResolved]
  rfl

/-- Without its id or its kind a part is saved by its content. -/
theorem lost_of_not_whole {part : MessagePart value}
    (lost : ¬ (goneOf index .id = false ∧ goneOf index .kind = false)) :
    codec.readDamaged entryId goneOf index part =
      codec.salvaged (goneOf index) (codec.toDocPart part)
        (savedId (goneOf index) (codec.toDocPart part).id entryId index) := by
  rw [not_and_or, Bool.not_eq_false, Bool.not_eq_false] at lost
  rw [codec.readDamaged_lost (lost.imp id .inl)]
  exact codec.salvagePart_without (goneOf index) (codec.toDocPart part) entryId index

theorem keep_none {α : Type} (gone : PartKey → Bool) (key : PartKey) :
    keep gone key (none : Option α) = none := ite_self none

theorem keep_kept {α : Type} {gone : PartKey → Bool} {key : PartKey} (field : Option α)
    (kept : gone key = false) : keep gone key field = field := by
  unfold keep
  rw [kept]
  rfl

/-- A part that is not an image is not saved as one. -/
theorem salvaged_eq (gone : PartKey → Bool) {part : DocPart raw} (id : String)
    (other : part.kind ≠ "image") : codec.salvaged gone part id = codec.content gone part id := by
  unfold salvaged keep
  cases gone .kind with
  | true => exact if_neg nofun
  | false => exact if_neg fun same => other (Option.some_inj.mp same)

/-- A part with no byte count, and with its id and its kind. -/
theorem readDamaged_whole {part : MessagePart value}
    (whole : goneOf index .id = false ∧ goneOf index .kind = false)
    (noBytes : (codec.toDocPart part).outputBytes = none) :
    codec.readDamaged entryId goneOf index part =
      some (codec.fromDocPart (keeping (goneOf index) (codec.toDocPart part) none)) := by
  refine codec.readDamaged_kept whole.1 whole.2 ?_
  rw [noBytes]
  exact codec.readBytes_none _

/-- A part with its id, its kind and its content is read back, tools and images apart. -/
theorem preserved_whole {gone : PartKey → Bool} {part : MessagePart value}
    (kept : ContentKept gone part)
    (plain : (codec.toDocPart part).kind ∉ ["tool", "image"]) :
    Preserved gone part (codec.fromDocPart (keeping gone (codec.toDocPart part) none)) := by
  cases part with
  | tool id tool => exact absurd (by exact List.mem_cons_self) plain
  | image id path name mimeType =>
      exact absurd (by exact List.mem_cons_of_mem _ List.mem_cons_self) plain
  | text id text => exact ⟨fun _ => rfl, fun _ => congrArg (·.getD "") (keep_kept (some text) kept)⟩
  | reasoning id text =>
      exact ⟨fun _ => rfl, fun _ => congrArg (·.getD "") (keep_kept (some text) kept)⟩
  | error id message =>
      exact ⟨fun _ => rfl, fun _ => congrArg (·.getD "") (keep_kept (some message) kept)⟩
  | fork id chat title =>
      exact ⟨fun _ => rfl, fun _ => congrArg (·.getD "") (keep_kept (some chat) kept.1),
        fun _ => congrArg (·.getD "") (keep_kept (some title) kept.2)⟩
  | input id requestId questions resolved =>
      refine ⟨fun _ => rfl, fun _ => ?_,
        fun stays => congrArg (·.getD false) (keep_kept (some resolved) stays)⟩
      dsimp only [keeping, toDocPart]
      rw [keep_kept _ kept, Option.bind_some, (codec.questions questions).1]
      rfl

theorem survives_text {id text : String} (kept : goneOf index .text = false) :
    ∃ read, codec.readDamaged entryId goneOf index (.text id text) = some read ∧
      Preserved (goneOf index) (.text id text) read := by
  by_cases whole : goneOf index .id = false ∧ goneOf index .kind = false
  · have plain : "text" ∉ ["tool", "image"] := by decide
    exact ⟨_, codec.readDamaged_whole whole rfl, codec.preserved_whole kept plain⟩
  · refine ⟨.text (savedId (goneOf index) id entryId index) text, ?_, savedId_eq id entryId index,
      fun _ => rfl⟩
    have other : "text" ≠ "image" := by decide
    rw [codec.lost_of_not_whole whole, codec.salvaged_eq _ _ other, content]
    dsimp only [toDocPart]
    rw [keep_none, keep_kept _ kept]

theorem survives_reasoning {id text : String} (kept : goneOf index .reasoning = false) :
    ∃ read, codec.readDamaged entryId goneOf index (.reasoning id text) = some read ∧
      Preserved (goneOf index) (.reasoning id text) read := by
  by_cases whole : goneOf index .id = false ∧ goneOf index .kind = false
  · have plain : "reasoning" ∉ ["tool", "image"] := by decide
    exact ⟨_, codec.readDamaged_whole whole rfl, codec.preserved_whole kept plain⟩
  · refine ⟨.reasoning (savedId (goneOf index) id entryId index) text, ?_,
      savedId_eq id entryId index, fun _ => rfl⟩
    have other : "reasoning" ≠ "image" := by decide
    rw [codec.lost_of_not_whole whole, codec.salvaged_eq _ _ other, content]
    dsimp only [toDocPart]
    rw [keep_kept _ kept]

theorem survives_error {id message : String} (kept : goneOf index .message = false) :
    ∃ read, codec.readDamaged entryId goneOf index (.error id message) = some read ∧
      Preserved (goneOf index) (.error id message) read := by
  by_cases whole : goneOf index .id = false ∧ goneOf index .kind = false
  · have plain : "error" ∉ ["tool", "image"] := by decide
    exact ⟨_, codec.readDamaged_whole whole rfl, codec.preserved_whole kept plain⟩
  · refine ⟨.error (savedId (goneOf index) id entryId index) message, ?_,
      savedId_eq id entryId index, fun _ => rfl⟩
    have other : "error" ≠ "image" := by decide
    rw [codec.lost_of_not_whole whole, codec.salvaged_eq _ _ other, content]
    dsimp only [toDocPart]
    simp only [keep_none, keep_kept _ kept]
    rfl

/-- Nothing of an input part is looked for without its id or its kind. -/
theorem survives_input {id requestId : String} {questions : List UserInputQuestion} {resolved : Bool}
    (kept : goneOf index .questions = false) :
    (∃ read, codec.readDamaged entryId goneOf index (.input id requestId questions resolved) =
        some read ∧ Preserved (goneOf index) (.input id requestId questions resolved) read) ↔
      goneOf index .id = false ∧ goneOf index .kind = false := by
  by_cases whole : goneOf index .id = false ∧ goneOf index .kind = false
  · have plain : "input" ∉ ["tool", "image"] := by decide
    exact iff_of_true ⟨_, codec.readDamaged_whole whole rfl, codec.preserved_whole kept plain⟩ whole
  · refine iff_of_false ?_ whole
    rintro ⟨read, isRead, _⟩
    have other : "input" ≠ "image" := by decide
    rw [codec.lost_of_not_whole whole, codec.salvaged_eq _ _ other, content] at isRead
    dsimp only [toDocPart] at isRead
    simp [keep_none] at isRead

theorem survives_fork {id chat title : String} (kept : goneOf index .sourceChatId = false)
    (titled : goneOf index .sourceTitle = false) :
    (∃ read, codec.readDamaged entryId goneOf index (.fork id chat title) = some read ∧
        Preserved (goneOf index) (.fork id chat title : MessagePart value) read) ↔
      goneOf index .id = false ∧ goneOf index .kind = false := by
  by_cases whole : goneOf index .id = false ∧ goneOf index .kind = false
  · have plain : "fork" ∉ ["tool", "image"] := by decide
    exact iff_of_true
      ⟨_, codec.readDamaged_whole whole rfl, codec.preserved_whole ⟨kept, titled⟩ plain⟩ whole
  · refine iff_of_false ?_ whole
    rintro ⟨read, isRead, _⟩
    have other : "fork" ≠ "image" := by decide
    rw [codec.lost_of_not_whole whole, codec.salvaged_eq _ _ other, content] at isRead
    dsimp only [toDocPart] at isRead
    simp [keep_none] at isRead

/-- An image is read as one exactly when its fields are those of a valid one. -/
theorem preserved_imagePart {gone : PartKey → Bool} {id saved path name mimeType : String}
    (named : gone .id = false → saved = id) :
    Preserved gone (.image id path name mimeType : MessagePart value)
        (imagePart saved (some path) (some name) (some mimeType)) ↔
      path ≠ "" ∧ name ≠ "" ∧ mimeType ∈ imageTypes := by
  unfold imagePart
  dsimp only
  split
  · rename_i valid
    exact iff_of_true ⟨named, fun _ => rfl, fun _ => rfl, fun _ => rfl⟩ valid
  · rename_i invalid
    exact iff_of_false not_false invalid

theorem survives_image {id path name mimeType : String} (pathed : goneOf index .path = false)
    (named : goneOf index .name = false) (typed : goneOf index .mimeType = false) :
    (∃ read, codec.readDamaged entryId goneOf index (.image id path name mimeType) = some read ∧
        Preserved (goneOf index) (.image id path name mimeType : MessagePart value) read) ↔
      goneOf index .kind = false ∧ path ≠ "" ∧ name ≠ "" ∧ mimeType ∈ imageTypes := by
  cases isKind : goneOf index .kind with
  | true =>
      refine iff_of_false ?_ nofun
      rintro ⟨read, isRead, _⟩
      have lost : ¬ (goneOf index .id = false ∧ goneOf index .kind = false) := by
        simp [isKind]
      rw [codec.lost_of_not_whole lost, salvaged, keep, isKind] at isRead
      simp [content, toDocPart, keep_none] at isRead
  | false =>
      rw [and_iff_right rfl]
      have isRead : codec.readDamaged entryId goneOf index (.image id path name mimeType) =
          some (imagePart (savedId (goneOf index) id entryId index) (some path) (some name)
            (some mimeType)) := by
        by_cases whole : goneOf index .id = false ∧ goneOf index .kind = false
        · rw [codec.readDamaged_whole whole rfl, savedId_eq _ _ _ whole.1]
          simp [fromDocPart, toDocPart, keeping, keep, pathed, named, typed]
        · rw [codec.lost_of_not_whole whole, salvaged]
          simp [toDocPart, keep, isKind, pathed, named, typed]
      rw [isRead]
      simp only [Option.some.injEq, exists_eq_left']
      exact preserved_imagePart (savedId_eq id entryId index)

theorem subagentStatusOf_str (status : SubagentStatus) :
    subagentStatusOf (subagentStatusStr status) = some status := by
  cases status <;> rfl

theorem asI64_eq {number : Nat} (small : number < 2 ^ 63) : asI64 number = number := by
  apply Int.bmod_eq_of_le <;> omega

theorem asI64_lt (number : Nat) : asI64 number < 2 ^ 63 := by
  have bound : Int.bmod number (2 ^ 64) < ((2 ^ 64 : Nat) + 1) / 2 := Int.bmod_lt (by decide)
  unfold asI64
  omega

theorem readBytes_eq (bytes : Nat) :
    codec.readBytes (some bytes) =
      if 0 ≤ asI64 bytes then some (some (asI64 bytes).toNat) else none := by
  unfold readBytes optional asU64
  dsimp only [Option.map_some]
  rw [if_neg (Bool.eq_false_iff.mp (codec.int _).2), (codec.int _).1, Option.bind_some]
  split <;> rfl

/-- A count above the range of a signed integer is read as another. -/
theorem readBytes_some {bytes : Nat} {found : Option Nat}
    (isFound : codec.readBytes (some bytes) = some found) :
    found = some bytes ↔ bytes < 2 ^ 63 := by
  rw [codec.readBytes_eq] at isFound
  split at isFound
  · cases isFound
    rw [Option.some_inj]
    constructor
    · have bound := asI64_lt bytes
      omega
    · intro small
      rw [asI64_eq small]
      rfl
  · cases isFound

/-- Or as none. -/
theorem readBytes_eq_none {bytes : Nat} (rejected : codec.readBytes (some bytes) = none) :
    ¬ bytes < 2 ^ 63 := by
  intro small
  rw [codec.readBytes_eq, asI64_eq small, if_pos (by omega)] at rejected
  cases rejected

/-- The count of an output is read back unless it is out of the range. -/
theorem kept_bytes {gone : PartKey → Bool} {field found : Option Nat}
    (isFound : codec.readBytes (keep gone .outputBytes field) = some found) :
    (gone .outputBytes = false → found = field) ↔
      (gone .outputBytes = false → ∀ bytes ∈ field, bytes < 2 ^ 63) := by
  refine imp_congr_right fun isKept => ?_
  rw [keep_kept _ isKept] at isFound
  cases field with
  | none =>
      cases isFound
      exact iff_of_true rfl nofun
  | some bytes =>
      rw [codec.readBytes_some isFound]
      simp only [Option.mem_def, Option.some.injEq, forall_eq']

theorem not_small {gone : PartKey → Bool} {field : Option Nat}
    (rejected : codec.readBytes (keep gone .outputBytes field) = none) :
    ¬ (gone .outputBytes = false → ∀ bytes ∈ field, bytes < 2 ^ 63) := by
  intro small
  cases isKept : gone .outputBytes with
  | true =>
      rw [keep, isKept] at rejected
      cases rejected
  | false =>
      rw [keep_kept _ isKept] at rejected
      cases field with
      | none => cases rejected
      | some bytes => exact codec.readBytes_eq_none rejected (small isKept bytes rfl)

/-- What a tool part without its id or its kind is saved as. -/
theorem content_tool {gone : PartKey → Bool} (id saved : String) (tool : ToolPart value)
    (kept : gone .call = false) :
    codec.content gone (codec.toDocPart (.tool id tool)) saved =
      some (.tool saved
        { call := storedCall codec.nullInput tool.call
          isError := (keep gone .isError (if tool.resolved then some tool.isError else none)).getD false
          resolved := true
          output := keep gone .output tool.output
          diff := none
          outputRef := none
          outputBytes := none
          diffRef := none
          diffStats := none
          subagentRef := none
          subagentStatus := none
          subagentTail := none }) := by
  unfold content
  dsimp only [toDocPart]
  simp only [keep_none, keep_kept _ kept, Option.bind_some, codec.call]
  rfl

theorem none_eq_iff {α : Type} {flag : Bool} {field : Option α} :
    (flag = false → none = field) ↔ (field = none ∨ flag = true) := by
  cases flag <;> simp [eq_comm]

/-- A tool that is saved keeps its fields only when it had few. -/
theorem preserved_content {gone : PartKey → Bool} {id saved : String} {tool : ToolPart value}
    (kept : gone .call = false) (named : gone .id = false → saved = id) :
    (∃ read, codec.content gone (codec.toDocPart (.tool id tool)) saved = some read ∧
        Preserved gone (.tool id tool) read) ↔
      storedCall codec.nullInput tool.call = tool.call ∧ Bare gone tool := by
  rw [codec.content_tool id saved tool kept]
  simp only [Option.some.injEq, exists_eq_left', Preserved]
  constructor
  · rintro ⟨_, preserved⟩
    refine ⟨preserved.call kept, ?_, none_eq_iff.mp preserved.diff, none_eq_iff.mp preserved.outputRef,
      none_eq_iff.mp preserved.outputBytes, none_eq_iff.mp preserved.diffRef,
      none_eq_iff.mp preserved.diffStats, none_eq_iff.mp preserved.subagentRef,
      none_eq_iff.mp preserved.subagentStatus, none_eq_iff.mp preserved.subagentTail⟩
    cases isGone : gone .isError with
    | true => exact .inr rfl
    | false => exact .inl (preserved.resolved isGone).symm
  · rintro ⟨same, bare⟩
    refine ⟨named, fun _ => same, ?_, ?_, fun kept => keep_kept _ kept, none_eq_iff.mpr bare.diff,
      none_eq_iff.mpr bare.outputRef, none_eq_iff.mpr bare.outputBytes, none_eq_iff.mpr bare.diffRef,
      none_eq_iff.mpr bare.diffStats, none_eq_iff.mpr bare.subagentRef,
      none_eq_iff.mpr bare.subagentStatus, none_eq_iff.mpr bare.subagentTail⟩
    · intro isKept
      rcases bare.resolved with resolved | gone
      · exact resolved.symm
      · rw [isKept] at gone
        cases gone
    · intro isKept resolved
      dsimp only
      rw [keep_kept _ isKept, resolved]
      rfl

/-- What the strict shape reads in a tool part. -/
theorem preserved_keeping {gone : PartKey → Bool} {id : String} {tool : ToolPart value}
    {bytes : Option Nat} (kept : gone .call = false) :
    Preserved gone (.tool id tool)
        (codec.fromDocPart (keeping gone (codec.toDocPart (.tool id tool)) bytes)) ↔
      storedCall codec.nullInput tool.call = tool.call ∧
        (gone .outputBytes = false → bytes = tool.outputBytes) := by
  have isCall : ((keeping gone (codec.toDocPart (.tool id tool)) bytes).call).bind codec.asCall =
      some (storedCall codec.nullInput tool.call) := by
    dsimp only [keeping, toDocPart]
    rw [keep_kept _ kept, Option.bind_some, (codec.call tool.call).1]
  have notImage : (keeping gone (codec.toDocPart (.tool id tool)) bytes).kind ≠ "image" :=
    show "tool" ≠ "image" by decide
  unfold fromDocPart
  rw [if_neg notImage, if_pos (show (keeping gone (codec.toDocPart (.tool id tool)) bytes).kind = "tool"
    from rfl), isCall]
  constructor
  · rintro ⟨_, preserved⟩
    exact ⟨preserved.call kept, preserved.outputBytes⟩
  · rintro ⟨same, isBytes⟩
    refine ⟨fun _ => rfl, fun _ => same, ?_, ?_, fun kept => keep_kept _ kept, ?_,
      fun kept => keep_kept _ kept, isBytes, fun kept => keep_kept _ kept, ?_,
      fun kept => keep_kept _ kept, ?_, fun kept => keep_kept _ kept⟩
    · intro isKept
      dsimp only [keeping, toDocPart]
      rw [keep_kept _ isKept]
      cases tool.resolved <;> rfl
    · intro isKept resolved
      dsimp only [keeping, toDocPart]
      rw [keep_kept _ isKept, resolved]
      rfl
    · intro isKept
      dsimp only [keeping, toDocPart]
      rw [keep_kept _ isKept]
      cases tool.diff <;> simp [codec.diff]
    · intro isKept
      dsimp only [keeping, toDocPart]
      rw [keep_kept _ isKept]
      cases tool.diffStats <;> simp [codec.diffStats]
    · intro isKept
      dsimp only [keeping, toDocPart]
      rw [keep_kept _ isKept]
      cases tool.subagentStatus <;> simp [subagentStatusOf_str]

theorem survives_tool {id : String} {tool : ToolPart value} (kept : goneOf index .call = false) :
    (∃ read, codec.readDamaged entryId goneOf index (.tool id tool) = some read ∧
        Preserved (goneOf index) (.tool id tool) read) ↔
      codec.Survives (goneOf index) (.tool id tool) := by
  have isSaved : codec.readDamaged entryId goneOf index (.tool id tool) =
        codec.content (goneOf index) (codec.toDocPart (.tool id tool))
          (savedId (goneOf index) id entryId index) →
      ((∃ read, codec.readDamaged entryId goneOf index (.tool id tool) = some read ∧
          Preserved (goneOf index) (.tool id tool) read) ↔
        storedCall codec.nullInput tool.call = tool.call ∧ Bare (goneOf index) tool) := by
    intro isRead
    rw [isRead]
    exact codec.preserved_content kept (savedId_eq id entryId index)
  by_cases whole : goneOf index .id = false ∧ goneOf index .kind = false
  · cases isBytes : codec.readBytes (keep (goneOf index) .outputBytes tool.outputBytes) with
    | none =>
        have isRead : codec.readDamaged entryId goneOf index (.tool id tool) = _ :=
          (codec.readDamaged_lost (.inr (.inr isBytes))).trans
            (codec.salvagePart_without (goneOf index) (codec.toDocPart (.tool id tool)) entryId index)
        rw [isSaved (isRead.trans (codec.salvaged_eq _ _ (show "tool" ≠ "image" by decide)))]
        refine and_congr_right fun _ => ⟨.inr, ?_⟩
        rintro (⟨_, _, small⟩ | bare)
        · exact absurd small (codec.not_small isBytes)
        · exact bare
    | some bytes =>
        have isRead : codec.readDamaged entryId goneOf index (.tool id tool) = _ :=
          codec.readDamaged_kept whole.1 whole.2 isBytes
        rw [isRead]
        simp only [Option.some.injEq, exists_eq_left']
        rw [codec.preserved_keeping kept, codec.kept_bytes isBytes]
        refine and_congr_right fun _ => ⟨fun small => .inl ⟨whole.1, whole.2, small⟩, ?_⟩
        rintro (⟨_, _, small⟩ | bare)
        · exact small
        · intro isKept held isHeld
          rcases bare.outputBytes with none | gone
          · rw [none] at isHeld
            cases isHeld
          · rw [isKept] at gone
            cases gone
  · rw [isSaved ((codec.lost_of_not_whole whole).trans
      (codec.salvaged_eq _ _ (show "tool" ≠ "image" by decide)))]
    refine and_congr_right fun _ => ⟨.inr, ?_⟩
    rintro (⟨isId, isKind, _⟩ | bare)
    · exact absurd ⟨isId, isKind⟩ whole
    · exact bare

theorem survives_iff {part : MessagePart value} (kept : ContentKept (goneOf index) part) :
    (∃ read, codec.readDamaged entryId goneOf index part = some read ∧
        Preserved (goneOf index) part read) ↔
      codec.Survives (goneOf index) part := by
  cases part with
  | text id text => exact iff_of_true (codec.survives_text kept) trivial
  | image id path name mimeType => exact codec.survives_image kept.1 kept.2.1 kept.2.2
  | reasoning id text => exact iff_of_true (codec.survives_reasoning kept) trivial
  | tool id tool => exact codec.survives_tool kept
  | input id requestId questions resolved => exact codec.survives_input kept
  | error id message => exact iff_of_true (codec.survives_error kept) trivial
  | fork id chat title => exact codec.survives_fork kept.1 kept.2

end parts

/-! ## The entry -/

theorem roleOf_str (role : MessageRole) : roleOf (roleStr role) = some role := by
  cases role <;> rfl

theorem statusOf_str (status : MessageStatus) : statusOf (statusStr status) = some status := by
  cases status <;> rfl

theorem without_kept {key : Type} {fields : key → Option raw} {gone : key → Bool} {place : key}
    (kept : gone place = false) : without fields gone place = fields place := by
  unfold without
  rw [kept]
  rfl

theorem entryPreserved (entry : SessionMessageEntry value) (gone : EntryKey → Bool)
    (goneOf : Nat → PartKey → Bool) :
    EntryPreserved gone entry (codec.salvageEntry (codec.damaged entry gone goneOf)) := by
  unfold salvageEntry damaged
  constructor <;> intro kept <;> dsimp only <;> rw [without_kept kept] <;> dsimp only [entryFields]
  · simp [codec.str]
  · simp [codec.str, roleOf_str]
  · simp [codec.int]
  · simp [codec.str]
  · cases entry.status <;> simp [codec.str, statusOf_str]
  · cases entry.continuationOf <;> simp [codec.str]
  · cases entry.durationMs <;> simp [codec.int]

theorem savedParts_damaged (entry : SessionMessageEntry value) (gone : EntryKey → Bool)
    (goneOf : Nat → PartKey → Bool) (entryId : String) :
    codec.savedParts entryId (codec.damaged entry gone goneOf).parts =
      (entry.parts.mapIdx (codec.readDamaged entryId goneOf)).reduceOption := by
  unfold savedParts damaged
  dsimp only
  rw [List.mapIdx_mapIdx]
  rfl

/-- A missing field costs what it carried and no more, except of the parts that need their
    id or their kind to be recognized. -/
theorem costsItsOwn_iff (entry : SessionMessageEntry value) (gone : EntryKey → Bool)
    (goneOf : Nat → PartKey → Bool) :
    codec.CostsItsOwn entry gone goneOf ↔
      ∀ (index : Nat) (part : MessagePart value), entry.parts[index]? = some part →
        ContentKept (goneOf index) part → codec.Survives (goneOf index) part := by
  unfold CostsItsOwn
  dsimp only
  rw [codec.entryFromJson_eq]
  constructor
  · rintro ⟨_, _, whole⟩ index part isPart kept
    exact (codec.survives_iff kept).mp (whole index part isPart kept)
  · intro survives
    refine ⟨codec.entryPreserved entry gone goneOf, ?_, ?_⟩
    · exact codec.savedParts_damaged entry gone goneOf _
    · intro index part isPart kept
      exact (codec.survives_iff kept).mpr (survives index part isPart kept)

end Codec

/-! ## A question without its kind -/

/-- JSON values, those of a nested shape as that shape. -/
inductive Plain where
  | null
  | str (text : String)
  | int (number : Int)
  | bool (flag : Bool)
  | call (call : ToolCall String)
  | questions (list : List UserInputQuestion)
  | diff (diff : ToolDiff)
  | diffStats (stats : List ToolDiffStat)

def plain : Codec Plain String where
  isNull | .null => true | _ => false
  asStr | .str text => some text | _ => none
  asInt | .int number => some number | _ => none
  asBool | .bool flag => some flag | _ => none
  asCall | .call call => some (storedCall (· == "null") call) | _ => none
  asQuestions | .questions list => some list | _ => none
  asDiff | .diff diff => some diff | _ => none
  asDiffStats | .diffStats stats => some stats | _ => none
  ofStr := .str
  ofInt := .int
  ofBool := .bool
  ofCall := .call
  ofQuestions := .questions
  ofDiff := .diff
  ofDiffStats := .diffStats
  nullInput := (· == "null")
  stableHash := fun _ => "0000000000000000"
  null held isNull := by
    cases held with
    | null => exact ⟨rfl, rfl, rfl⟩
    | _ => cases isNull
  str _ := ⟨rfl, rfl⟩
  int _ := ⟨rfl, rfl⟩
  bool _ := ⟨rfl, rfl⟩
  call _ := ⟨rfl, rfl⟩
  questions _ := ⟨rfl, rfl⟩
  diff _ := ⟨rfl, rfl⟩
  diffStats _ := ⟨rfl, rfl⟩

/-- An entry that asks for input. -/
def asking : SessionMessageEntry String where
  id := "m1"
  role := .assistant
  parts := [.input "r1" "r1" [] false]
  createdAt := 1
  deviceId := "d1"
  status := none
  continuationOf := none
  durationMs := none

/-- Its question is dropped with the kind of the part. -/
theorem not_costsItsOwn :
    ¬ plain.CostsItsOwn asking (fun _ => false) (fun _ key => key = .kind) := by
  rintro ⟨_, _, whole⟩
  obtain ⟨read, isRead, _⟩ := whole 0 (.input "r1" "r1" [] false) rfl rfl
  cases isRead

end Zeron.Doc
