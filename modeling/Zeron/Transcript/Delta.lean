import Zeron.Data.Reorder
import Zeron.Transcript.Message

namespace Zeron.Transcript

/-! # Transcript deltas

The frames a transcript watch sends and how a watcher applies them.
-/

structure TranscriptUpsert (value : Type) where
  after : Option String
  entry : SessionMessageEntry value
deriving DecidableEq

structure TextAppend where
  entry : String
  part : String
  text : String
  len : Nat
deriving DecidableEq

inductive TranscriptFrame (value : Type) where
  | reset (reset : List (SessionMessageEntry value))
  | delta (upsert : List (TranscriptUpsert value)) (append : List TextAppend)
      (remove : List String) (count : Nat)
deriving DecidableEq

/-- The message of a frame that could not be applied. -/
abbrev TranscriptDesync := String

variable {value : Type} [DecidableEq value]

/-! ## Producing a frame -/

/-- `nt.starts_with(pt)` and `nt[pt.len()..]` together. -/
def stripPrefix (text front : String) : Option String :=
  if front.toList.isPrefixOf text.toList then
    some (String.ofList (text.toList.drop front.toList.length))
  else none

/-- The ids and texts of two parts that are both texts or both reasoning. -/
def textBodies : MessagePart value → MessagePart value →
    Option ((String × String) × (String × String))
  | .text pid pt, .text nid nt => some ((pid, pt), (nid, nt))
  | .reasoning pid pt, .reasoning nid nt => some ((pid, pt), (nid, nt))
  | _, _ => none

/-- The loop over the zipped parts, with the append found so far. -/
def appendOfParts (entry : String) : List (MessagePart value × MessagePart value) →
    Option TextAppend → Option TextAppend
  | [], append => append
  | (p, n) :: rest, append =>
      if p = n then appendOfParts entry rest append
      else
        match textBodies p n with
        | none => none
        | some ((pid, pt), (nid, nt)) =>
            match stripPrefix nt pt with
            | none => none
            | some tail =>
                if pid ≠ nid ∨ append.isSome then none
                else appendOfParts entry rest (some ⟨entry, nid, tail, nt.utf8ByteSize⟩)

def tryTextAppend (prev next : SessionMessageEntry value) : Option TextAppend :=
  if prev.id ≠ next.id ∨ prev.role ≠ next.role ∨ prev.createdAt ≠ next.createdAt ∨
      prev.deviceId ≠ next.deviceId ∨ prev.status ≠ next.status ∨
      prev.continuationOf ≠ next.continuationOf ∨ prev.parts.length ≠ next.parts.length then none
  else appendOfParts next.id (prev.parts.zip next.parts) none

/-- The entry collected last under an id, with its index. -/
def prevById (prev : List (SessionMessageEntry value)) (id : String) :
    Option (SessionMessageEntry value × Nat) :=
  prev.zipIdx.reverse.find? fun item => item.1.id = id

/-- `ix.checked_sub(1).map(|p| list[p].id)`. -/
def idBefore (list : List (SessionMessageEntry value)) : Nat → Option String
  | 0 => none
  | ix + 1 => list[ix]?.map (·.id)

inductive Change (value : Type) where
  | keep
  | append (change : TextAppend)
  | upsert (change : TranscriptUpsert value)

/-- One round of the loop over `next`: what is sent for an entry. -/
def changeOf (prev : List (SessionMessageEntry value)) (after : Option String)
    (entry : SessionMessageEntry value) : Change value :=
  match prevById prev entry.id with
  | some (prevEntry, prevIx) =>
      let prevAfter := idBefore prev prevIx
      if prevEntry = entry ∧ prevAfter = after then .keep
      else if prevAfter = after then
        match tryTextAppend prevEntry entry with
        | some append => .append append
        | none => .upsert ⟨after, entry⟩
      else .upsert ⟨after, entry⟩
  | none => .upsert ⟨after, entry⟩

/-- The loop over `next`; `after` is the id of the entry before. -/
def changesFrom (prev : List (SessionMessageEntry value)) :
    Option String → List (SessionMessageEntry value) → List (Change value)
  | _, [] => []
  | after, entry :: rest => changeOf prev after entry :: changesFrom prev (some entry.id) rest

def Change.upsert? : Change value → Option (TranscriptUpsert value)
  | .upsert change => some change
  | .keep | .append _ => none

def Change.append? : Change value → Option TextAppend
  | .append change => some change
  | .keep | .upsert _ => none

def diffTranscript (prev next : List (SessionMessageEntry value)) : TranscriptFrame value :=
  let remove := (prev.filter fun entry => ¬ entry.id ∈ next.map (·.id)).map (·.id)
  let changes := changesFrom prev none next
  let upsert := changes.filterMap Change.upsert?
  let append := changes.filterMap Change.append?
  if upsert.length * 2 ≥ max next.length 1 ∧ next.length > 4 then .reset next
  else .delta upsert append remove next.length

/-! ## Applying a frame -/

def applyUpsert (current : List (SessionMessageEntry value)) (upsert : TranscriptUpsert value) :
    Except TranscriptDesync (List (SessionMessageEntry value)) :=
  let current := match current.findIdx? (fun entry => entry.id = upsert.entry.id) with
    | some existing => current.eraseIdx existing
    | none => current
  match upsert.after with
  | none => .ok (current.insertIdx 0 upsert.entry)
  | some anchor =>
      match current.findIdx? (fun entry => entry.id = anchor) with
      | some ix => .ok (current.insertIdx (ix + 1) upsert.entry)
      | none => .error ("missing anchor " ++ anchor)

/-- The text a part with this id carries, when it is a text or reasoning part. -/
def tailOf (part : String) : MessagePart value → Option String
  | .text id text | .reasoning id text => if id = part then some text else none
  | _ => none

def withText : MessagePart value → String → MessagePart value
  | .text id _, text => .text id text
  | .reasoning id _, text => .reasoning id text
  | part, _ => part

def applyAppend (current : List (SessionMessageEntry value)) (append : TextAppend) :
    Except TranscriptDesync (List (SessionMessageEntry value)) :=
  match current.findIdx? (fun entry => entry.id = append.entry) with
  | none => .error ("missing append entry " ++ append.entry)
  | some at_ =>
      match current[at_]? with
      | none => .error ("missing append entry " ++ append.entry)
      | some target =>
          match target.parts.findIdx? (fun part => (tailOf append.part part).isSome) with
          | none => .error ("missing append part " ++ append.part)
          | some here =>
              match target.parts[here]? with
              | none => .error ("missing append part " ++ append.part)
              | some part =>
                  let tail := (tailOf append.part part).getD "" ++ append.text
                  if tail.utf8ByteSize ≠ append.len then
                    .error ("append length mismatch on " ++ append.entry ++ "#" ++ append.part ++
                      ": have " ++ toString tail.utf8ByteSize ++ ", expected " ++
                      toString append.len)
                  else
                    .ok (current.set at_
                      { target with parts := target.parts.set here (withText part tail) })

def applyTranscriptFrame (current : List (SessionMessageEntry value)) :
    TranscriptFrame value → Except TranscriptDesync (List (SessionMessageEntry value))
  | .reset reset => .ok reset
  | .delta upsert append remove count => do
      let kept := if remove.isEmpty then current
        else current.filter fun entry => ¬ entry.id ∈ remove
      let placed ← upsert.foldlM applyUpsert kept
      let ended ← append.foldlM applyAppend placed
      if ended.length ≠ count then
        .error ("count mismatch: have " ++ toString ended.length ++ ", expected " ++
          toString count)
      else .ok ended

end Zeron.Transcript
