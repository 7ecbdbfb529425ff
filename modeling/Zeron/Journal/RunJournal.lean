import Zeron.Data.Runs
import Zeron.Data.Lines

namespace Zeron.Journal

open Zeron.Data

/-! # The journal file of one chat

Every event of a run is one JSON line; the file is only ever appended to.  A write
may leave any prefix of its bytes behind, in a process that goes on or in one that
dies, and what is left is read again when the chat is opened next.
-/

abbrev newline : UInt8 := 10

/-! ## Bytes -/

/-- The continuation bytes a first byte of a UTF-8 character asks for. -/
def continuations (first : UInt8) : Option (List (UInt8 × UInt8)) :=
  let any : UInt8 × UInt8 := (0x80, 0xBF)
  if first ≤ 0x7F then some []
  else if 0xC2 ≤ first ∧ first ≤ 0xDF then some [any]
  else if first = 0xE0 then some [(0xA0, 0xBF), any]
  else if first = 0xED then some [(0x80, 0x9F), any]
  else if 0xE1 ≤ first ∧ first ≤ 0xEF then some [any, any]
  else if first = 0xF0 then some [(0x90, 0xBF), any, any]
  else if 0xF1 ≤ first ∧ first ≤ 0xF3 then some [any, any, any]
  else if first = 0xF4 then some [(0x80, 0x8F), any, any]
  else none

def validUtf8From : List (UInt8 × UInt8) → List UInt8 → Bool
  | [], [] => true
  | _ :: _, [] => false
  | (low, high) :: due, byte :: rest =>
      decide (low ≤ byte ∧ byte ≤ high) && validUtf8From due rest
  | [], byte :: rest =>
      match continuations byte with
      | some due => validUtf8From due rest
      | none => false

def validUtf8 (bytes : List UInt8) : Bool := validUtf8From [] bytes

def isBlank (line : List UInt8) : Bool :=
  line.all fun byte => [0x09, 0x0A, 0x0B, 0x0C, 0x0D, 0x20].contains byte

/-- `JournalLine` as JSON: what is written is read back, control characters are
escaped, and no part of a line is a line. -/
structure LineCodec (Event : Type) where
  encode : ℕ → Event → List UInt8
  decode : List UInt8 → Option (ℕ × Event)
  decode_encode : ∀ seq event, decode (encode seq event) = some (seq, event)
  decode_torn : ∀ seq event count, count < (encode seq event).length →
    decode ((encode seq event).take count) = none
  printable : ∀ seq event, ∀ byte ∈ encode seq event, 0x20 ≤ byte
  nonblank : ∀ seq event, isBlank (encode seq event) = false
  utf8 : ∀ seq event, validUtf8 (encode seq event) = true

section

variable {Event : Type} (codec : LineCodec Event)

def parseLine (line : List UInt8) : Option (ℕ × Event) :=
  if isBlank line then none else codec.decode line

/-! ## Reading forwards -/

/-- `BufRead::lines`: a carriage return before a newline goes with it, and nothing
after the last newline is no line. -/
def bufLines (contents : List UInt8) : List (List UInt8) :=
  let pieces := contents.splitOn newline
  let finished := pieces.dropLast.map fun line =>
    if line.getLast? = some 0x0D then line.dropLast else line
  finished ++ pieces.getLast?.toList.filter fun line => line ≠ []

def readLines (contents : List UInt8) : Option (List (ℕ × Event)) :=
  if (bufLines contents).all validUtf8 then some ((bufLines contents).filterMap (parseLine codec))
  else none

/-! ## Reading backwards -/

def tailChunk : ℕ := 64 * 1024

structure RevLines where
  contents : List UInt8
  /-- The bytes before it are not read yet. -/
  pos : ℕ
  buf : List UInt8
  finished : Bool
deriving DecidableEq

def RevLines.openFile (contents : List UInt8) : RevLines :=
  { contents, pos := contents.length, buf := [], finished := false }

def RevLines.fill (lines : RevLines) : RevLines :=
  let count := min (max tailChunk lines.buf.length) lines.pos
  { lines with pos := lines.pos - count
               buf := (lines.contents.drop (lines.pos - count)).take count ++ lines.buf }

def RevLines.endsMidLine (lines : RevLines) : Bool × RevLines :=
  let filled := if lines.buf = [] ∧ 0 < lines.pos then lines.fill else lines
  (midLine newline filled.buf, filled)

/-- What stands before and after the last newline. -/
def splitLast : List UInt8 → Option (List UInt8 × List UInt8)
  | [] => none
  | byte :: rest =>
      match splitLast rest with
      | some (before, line) => some (byte :: before, line)
      | none => if byte = newline then some ([], rest) else none

/-- Every turn without a newline reads at least one byte more. -/
def RevLines.nextLine : ℕ → RevLines → Option (List UInt8) × RevLines
  | 0, lines => (none, lines)
  | fuel + 1, lines =>
      if lines.finished then (none, lines)
      else match splitLast lines.buf with
        | some (before, line) => (some line, { lines with buf := before })
        | none =>
            if lines.pos = 0 then (some lines.buf, { lines with buf := [], finished := true })
            else RevLines.nextLine fuel lines.fill

/-- All lines from here to the start of the file. -/
def RevLines.remaining : ℕ → RevLines → List (List UInt8)
  | 0, _ => []
  | count + 1, lines =>
      match lines.nextLine (lines.pos + 1) with
      | (some line, rest) => line :: RevLines.remaining count rest
      | (none, _) => []

def RevLines.events (lines : RevLines) : List (ℕ × Event) :=
  (lines.remaining (lines.contents.length + 1)).filterMap fun raw =>
    if validUtf8 raw then parseLine codec raw else none

/-- The next seq and whether the file ends mid-line. -/
def scanTail (file : Option (List UInt8)) : ℕ × Bool :=
  match file with
  | none => (1, false)
  | some contents =>
      let (needsNewline, lines) := (RevLines.openFile contents).endsMidLine
      ((match (lines.events codec).head? with
        | some (seq, _) => seq + 1
        | none => 1), needsNewline)

/-! ## Appending -/

structure ChatJournal where
  nextSeq : ℕ
  needsNewline : Bool
deriving DecidableEq

structure RunJournal (Event : Type) where
  /-- The bytes of the chat's file, once there is one. -/
  file : Option (List UInt8)
  /-- The chat's entry in `open_files`. -/
  opened : Option ChatJournal
  /-- History: the events whose append returned `Ok`, with their seqs. -/
  acked : List (ℕ × Event)
deriving DecidableEq

def RunJournal.contents (journal : RunJournal Event) : List UInt8 := journal.file.getD []

/-- How the calls of one append end. -/
inductive Outcome where
  | written
  /-- The file could not be opened or read. -/
  | refused
  /-- `write_all` failed after so many bytes. -/
  | torn (count : ℕ)
deriving DecidableEq

/-- The entry an append works with: the held one, or the tail of the file. -/
def RunJournal.entry (journal : RunJournal Event) : ChatJournal :=
  match journal.opened with
  | some held => held
  | none =>
      let (nextSeq, needsNewline) := scanTail codec journal.file
      { nextSeq, needsNewline }

def ChatJournal.bytes (entry : ChatJournal) (event : Event) : List UInt8 :=
  (if entry.needsNewline then [newline] else []) ++ codec.encode entry.nextSeq event ++ [newline]

def RunJournal.append (journal : RunJournal Event) (event : Event) :
    Outcome → RunJournal Event × Option ℕ
  | .refused => (journal, none)
  | .torn count =>
      let entry := journal.entry codec
      ({ journal with
          file := some (journal.contents ++ (entry.bytes codec event).take count)
          opened := some entry }, none)
  | .written =>
      let entry := journal.entry codec
      ({ file := some (journal.contents ++ entry.bytes codec event)
         opened := some { nextSeq := entry.nextSeq + 1, needsNewline := false }
         acked := journal.acked ++ [(entry.nextSeq, event)] }, some entry.nextSeq)

def RunJournal.replay (journal : RunJournal Event) (afterSeq : ℕ) :
    Option (List (ℕ × Event)) :=
  match journal.file with
  | none => some []
  | some contents =>
      (readLines codec contents).map fun all =>
        let lastSeq := (all.getLast?.map Prod.fst).getD 0
        let start := if lastSeq < afterSeq then 0 else afterSeq
        all.filter fun record => start < record.1

inductive Action (Event : Type) where
  | append (event : Event) (outcome : Outcome)
  /-- The process restarts, or the entry is dropped to keep few files open. -/
  | reopen

def RunJournal.step (journal : RunJournal Event) : Action Event → Option (RunJournal Event)
  | .append event outcome => some (journal.append codec event outcome).1
  | .reopen => some { journal with opened := none }

def newJournal : RunJournal Event := { file := none, opened := none, acked := [] }

end

end Zeron.Journal
