import Zeron.Doc.Salvage
import Zeron.Doc.Opening
import Zeron.Doc.Fold

namespace Zeron.Doc

open Zeron.Transcript

/-! # The segment writer

A streaming entry is written tick by tick: what the fold has is compared with a mirror of
what was written, and only the difference goes into the document.
-/

variable {raw value : Type}

structure SegmentWriter (value : Type) where
  entryIndex : Nat
  /-- What was written so far. -/
  written : List (MessagePart value)
  createdAt : Int

/-- A text that grew: its field and what was added. -/
def grown : MessagePart value → MessagePart value → Option (PartKey × String)
  | .text _ old, .text _ new => (stripPrefix new old).map fun delta => (.text, delta)
  | .reasoning _ old, .reasoning _ new => (stripPrefix new old).map fun delta => (.reasoning, delta)
  | _, _ => none

/-- `map.insert`. -/
def put {key : Type} [DecidableEq key] (fields : key → Option raw) (place : key) (held : raw) :
    key → Option raw := fun other => if other = place then some held else fields other

namespace Codec

variable (codec : Codec raw value)

def beginSegment (doc : List (EntryMap raw)) (entryId deviceId : String) (createdAt : Int) :
    List (EntryMap raw) × SegmentWriter value :=
  (doc ++ [codec.pushMessage
      { id := entryId, role := .assistant, parts := [], createdAt, deviceId
        status := some .streaming, continuationOf := none, durationMs := none }],
    { entryIndex := doc.length, written := [], createdAt })

def resume (doc : List (EntryMap raw)) (entryIndex : Nat) (written : List (MessagePart value)) :
    SegmentWriter value where
  entryIndex := entryIndex
  written := written
  createdAt :=
    (doc[entryIndex]?.bind fun entry => (entry.fields .createdAt).bind codec.asInt).getD 0

/-- Keys are only inserted. -/
def updatePartFields (map : PartMap raw) (part : MessagePart value) : PartMap raw :=
  let fields := codec.partFields (codec.toDocPart part)
  fun key =>
    match key with
    | .id | .kind | .sourceChatId | .sourceTitle => map key
    | .text | .reasoning => (map key).map fun held => (fields key).getD held
    | key => (fields key).or (map key)

def appendText (map : PartMap raw) (key : PartKey) (delta : String) : Option (PartMap raw) :=
  ((map key).bind codec.asStr).map fun text =>
    put map key (codec.ofStr (text ++ delta))

section sync

variable [DecidableEq value]

/-- One part of a sync. -/
def syncPart (maps : List (Option (PartMap raw))) (written : List (MessagePart value)) (index : Nat)
    (part : MessagePart value) :
    Option (List (Option (PartMap raw)) × List (MessagePart value)) :=
  match written[index]? with
  | none => some (maps ++ [some (codec.pushPart part)], written ++ [part])
  | some prev =>
      if prev = part then some (maps, written)
      else
        match grown prev part with
        | some (key, delta) =>
            if delta = "" then some (maps, written.set index part)
            else
              (maps[index]?.join.bind fun map => codec.appendText map key delta).map fun map =>
                (maps.set index (some map), written.set index part)
        | none =>
            maps[index]?.join.map fun map =>
              (maps.set index (some (codec.updatePartFields map part)), written.set index part)

def syncParts (index : Nat) (maps : List (Option (PartMap raw)))
    (written : List (MessagePart value)) :
    List (MessagePart value) → Option (List (Option (PartMap raw)) × List (MessagePart value))
  | [] => some (maps, written)
  | part :: rest =>
      (codec.syncPart maps written index part).bind fun next =>
        syncParts (index + 1) next.1 next.2 rest

/-- What the fold has so far goes into the document. -/
def sync (doc : List (EntryMap raw)) (writer : SegmentWriter value)
    (folded : List (MessagePart value)) : Option (List (EntryMap raw) × SegmentWriter value) :=
  doc[writer.entryIndex]?.bind fun entry =>
    match entry.parts with
    | .list maps =>
        (codec.syncParts 0 maps writer.written folded).map fun next =>
          (doc.set writer.entryIndex { entry with parts := .list next.1 },
            { writer with written := next.2 })
    | _ => none

/-- The terminal status and how long the turn ran. -/
def stamp (writer : SegmentWriter value) (entry : EntryMap raw) (status : MessageStatus)
    (now : Int) : EntryMap raw :=
  let stamped := put entry.fields .status (codec.ofStr (statusStr status))
  { entry with
    fields :=
      if 0 < writer.createdAt then
        put stamped .durationMs (codec.ofInt (max (now - writer.createdAt) 0))
      else stamped }

def finish (doc : List (EntryMap raw)) (writer : SegmentWriter value)
    (folded : List (MessagePart value)) (status : MessageStatus) (now : Int) :
    Option (List (EntryMap raw)) :=
  (codec.sync doc writer folded).bind fun (doc, writer) =>
    doc[writer.entryIndex]?.map fun entry =>
      doc.set writer.entryIndex (codec.stamp writer entry status now)

/-! ## A streamed turn -/

inductive Step (value : Type) where
  | event (event : AgentEvent value)
  /-- A commit tick. -/
  | sync
  /-- The writer is taken apart and made again. -/
  | resume

structure Streaming (raw value : Type) where
  doc : List (EntryMap raw)
  writer : SegmentWriter value
  parts : List (MessagePart value)

variable (inputs : Inputs value)

def step (state : Streaming raw value) : Step value → Option (Streaming raw value)
  | .event event => some { state with parts := inputs.foldEventIntoParts state.parts event }
  | .sync =>
      (codec.sync state.doc state.writer (inputs.renderParts state.parts)).map fun (doc, writer) =>
        { state with doc, writer }
  | .resume =>
      some { state with
        writer := codec.resume state.doc state.writer.entryIndex state.writer.written }

def start (doc : List (EntryMap raw)) (entryId deviceId : String) (createdAt : Int) :
    Streaming raw value :=
  let (doc, writer) := codec.beginSegment doc entryId deviceId createdAt
  { doc, writer, parts := [] }

/-- The document after a streamed turn. -/
def stream (doc : List (EntryMap raw)) (entryId deviceId : String) (createdAt : Int)
    (steps : List (Step value)) (status : MessageStatus) (now : Int) : Option (List (EntryMap raw)) :=
  (steps.foldlM (codec.step inputs) (codec.start doc entryId deviceId createdAt)).bind fun state =>
    codec.finish state.doc state.writer (inputs.renderParts state.parts) status now

end sync

end Codec

/-- The parts that the fold has after these steps. -/
def foldSteps (inputs : Inputs value) (parts : List (MessagePart value)) :
    List (Codec.Step value) → List (MessagePart value)
  | [] => parts
  | .event event :: rest => foldSteps inputs (inputs.foldEventIntoParts parts event) rest
  | .sync :: rest | .resume :: rest => foldSteps inputs parts rest

/-- The rendered parts at each tick. -/
def ticks (inputs : Inputs value) (parts : List (MessagePart value)) :
    List (Codec.Step value) → List (List (MessagePart value))
  | [] => []
  | .event event :: rest => ticks inputs (inputs.foldEventIntoParts parts event) rest
  | .sync :: rest => inputs.renderParts parts :: ticks inputs parts rest
  | .resume :: rest => ticks inputs parts rest

/-- The final rendered parts. -/
def finalParts (inputs : Inputs value) (steps : List (Codec.Step value)) :
    List (MessagePart value) := inputs.renderParts (foldSteps inputs [] steps)

/-- An input part is read under its request id. -/
def asRead : MessagePart value → MessagePart value
  | .input _ requestId questions resolved => .input requestId requestId questions resolved
  | part => part

def isImage : MessagePart value → Bool
  | .image _ _ _ _ => true
  | _ => false

def statsOf : MessagePart value → Option (List ToolDiffStat)
  | .tool _ tool => tool.diffStats
  | _ => none

def ValidImage : MessagePart value → Prop
  | .image _ path name mimeType => path ≠ "" ∧ name ≠ "" ∧ mimeType ∈ Codec.imageTypes
  | _ => True

/-- What was written of a part leaves nothing behind. -/
def Leaves (seen final : MessagePart value) : Prop :=
  (isImage final = true → isImage seen = true) ∧ (statsOf final = none → statsOf seen = none)

/-- No tick wrote what an insert does not replace. -/
def Replaceable (inputs : Inputs value) (steps : List (Codec.Step value)) : Prop :=
  (∀ part ∈ finalParts inputs steps, ValidImage part) ∧
    ∀ seen ∈ ticks inputs [] steps, ∀ (index : Nat) (part final : MessagePart value),
      seen[index]? = some part → (finalParts inputs steps)[index]? = some final →
        Leaves part final

/-- What is read of a streamed entry is what one write gives. -/
def Codec.StreamsAsOneWrite [DecidableEq value] (codec : Codec raw value) (inputs : Inputs value)
    (doc : List (EntryMap raw)) (entryId deviceId : String) (createdAt : Int)
    (steps : List (Codec.Step value)) (status : MessageStatus) (now : Int) : Prop :=
  let final := finalParts inputs steps
  ∃ result, codec.stream inputs doc entryId deviceId createdAt steps status now = some result ∧
    ((codec.readEntries result)[doc.length]?).map (·.parts) = some (final.map asRead) ∧
    ((codec.readEntries (doc ++ [codec.pushMessage
      { id := entryId, role := .assistant, parts := final, createdAt, deviceId
        status := some status, continuationOf := none, durationMs := none }]))[doc.length]?).map
          (·.parts) = some (final.map asRead)

end Zeron.Doc
