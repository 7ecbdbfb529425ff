import Zeron.Journal.Durable

namespace Zeron.Journal

open Zeron.Data

/-! # Reading backwards against reading forwards

The backward readers yield the lines of any file in reverse and pass over every line that
is not UTF-8.  The forward reader fails on such a line as a whole, so the two agree exactly
on the files that have none.
-/

variable {Event : Type} (codec : LineCodec Event)

/-- `read_lines`; `none` is its error. -/
def readFile : Option (List UInt8) → Option (List (ℕ × Event))
  | none => some []
  | some contents => readLines codec contents

/-- All events of `RevEvents::open`, the newest first. -/
def revEvents : Option (List UInt8) → List (ℕ × Event)
  | none => []
  | some contents => (RevLines.openFile contents).events codec

def lastValidLine (file : Option (List UInt8)) : Option (ℕ × Event) := (revEvents codec file).head?

/-! ## The directory -/

/-- A file name and what follows its last dot, where that is not its first character. -/
def splitExtension (name : List Char) : List Char × Option (List Char) :=
  match (name.reverse.span (· ≠ '.')) with
  | (extension, _ :: stem) =>
      if stem.isEmpty then (name, none) else (stem.reverse, some extension.reverse)
  | (_, []) => (name, none)

/-- A directory entry by its name and contents. -/
abbrev JournalFile := List Char × List UInt8

/-- The chat whose journal an entry is. -/
def JournalFile.chat (file : JournalFile) : Option (List Char) :=
  match splitExtension file.1 with
  | (stem, some extension) => if extension = "jsonl".toList then some stem else none
  | (_, none) => none

/-- A journal whose last event is there and is not `Done`. -/
def isStale (isDone : Event → Bool) : Option (ℕ × Event) → Bool
  | some (_, event) => !isDone event
  | none => false

def staleSessions (isDone : Event → Bool) (directory : List JournalFile) : List (List Char) :=
  (directory.filterMap fun file =>
    match file.chat with
    | some chat => if isStale isDone (lastValidLine codec (some file.2)) then some chat else none
    | none => none).mergeSort fun first second => decide (first ≤ second)

/-! ## The same by a full parse -/

/-- The chat of an entry that is stale by the whole of its file. -/
def staleForward (isDone : Event → Bool) (file : JournalFile) : Option (Option (List Char)) :=
  match file.chat with
  | some chat => (readFile codec (some file.2)).map fun all =>
      if isStale isDone all.getLast? then some chat else none
  | none => some none

def staleSessionsForward (isDone : Event → Bool) (directory : List JournalFile) :
    Option (List (List Char)) :=
  (directory.mapM (staleForward codec isDone)).map fun chats =>
    (chats.filterMap id).mergeSort fun first second => decide (first ≤ second)

/-- The backward readers see of a file what a full parse of it sees. -/
structure ReadsAlike (file : Option (List UInt8)) (all : List (ℕ × Event)) : Prop where
  forward : readFile codec file = some all
  events : revEvents codec file = all.reverse
  last : lastValidLine codec file = all.getLast?
  tail : scanTail codec file =
    ((match all.getLast? with
      | some (seq, _) => seq + 1
      | none => 1), midLine newline (file.getD []))

/-! ## Lines without their carriage return -/

section Lines

variable {codec} {line contents : List UInt8}

/-- What `BufRead::lines` hands on of a finished line. -/
def strip (line : List UInt8) : List UInt8 :=
  if line.getLast? = some 0x0D then line.dropLast else line

theorem strip_cases (line : List UInt8) :
    strip line = line ∨ line = strip line ++ [0x0D] := by
  unfold strip
  split
  · rename_i carriage
    obtain ⟨front, rfl⟩ := List.getLast?_eq_some_iff.mp carriage
    exact .inr (by rw [List.dropLast_concat])
  · exact .inl rfl

theorem due_high {first : UInt8} {due : List (UInt8 × UInt8)}
    (asked : continuations first = some due) : ∀ range ∈ due, 0x80 ≤ range.1 := by
  simp only [continuations] at asked
  intro range member
  split_ifs at asked
  all_goals
    cases asked
    fin_cases member <;> decide

/-- A one-byte character at the end cuts nothing and completes nothing. -/
theorem validUtf8From_concat {due : List (UInt8 × UInt8)} (high : ∀ range ∈ due, 0x80 ≤ range.1)
    (line : List UInt8) : validUtf8From due (line ++ [0x0D]) = validUtf8From due line := by
  induction line generalizing due with
  | nil =>
      cases due with
      | nil => rfl
      | cons range due =>
          have large := high range List.mem_cons_self
          have outside : ¬(range.1 ≤ 0x0D ∧ (0x0D : UInt8) ≤ range.2) := by
            intro inside
            exact absurd (UInt8.le_trans large inside.1) (by decide)
          simp [validUtf8From, outside]
  | cons byte rest ih =>
      cases due with
      | nil =>
          simp only [List.cons_append, validUtf8From]
          cases asked : continuations byte with
          | none => rfl
          | some due => exact ih (due_high asked)
      | cons range due =>
          simp only [List.cons_append, validUtf8From]
          rw [ih fun other member => high other (List.mem_cons_of_mem _ member)]

theorem validUtf8_strip (line : List UInt8) : validUtf8 (strip line) = validUtf8 line := by
  rcases strip_cases line with same | whole
  · rw [same]
  · rw [whole, validUtf8, validUtf8, validUtf8From_concat (by simp)]
    rw [← whole]

theorem parseLine_strip (carriage : ∀ line, codec.decode (line ++ [0x0D]) = codec.decode line)
    (line : List UInt8) : parseLine codec (strip line) = parseLine codec line := by
  rcases strip_cases line with same | whole
  · rw [same]
  · have blank : isBlank (strip line ++ [0x0D]) = isBlank (strip line) := by
      simp [isBlank]
    rw [whole, parseLine, parseLine, blank, carriage, ← whole]

theorem bufLines_eq (contents : List UInt8) :
    ∃ finished last, contents.splitOn newline = finished ++ [last] ∧
      bufLines contents = finished.map strip ++ [last].filter fun line => line ≠ [] := by
  obtain ⟨finished, last, pieces⟩ :=
    List.eq_nil_or_concat (contents.splitOn newline) |>.resolve_left (List.splitOn_ne_nil _ _)
  rw [List.concat_eq_append] at pieces
  refine ⟨finished, last, pieces, ?_⟩
  simp only [bufLines, pieces, List.dropLast_concat, List.getLast?_concat, Option.toList_some]
  rfl

/-- The forward reader gets through exactly the files whose lines are all UTF-8. -/
theorem all_bufLines (contents : List UInt8) :
    (bufLines contents).all validUtf8 = true ↔
      ∀ line ∈ contents.splitOn newline, validUtf8 line = true := by
  obtain ⟨finished, last, pieces, lines⟩ := bufLines_eq contents
  rw [lines, pieces, List.all_append, Bool.and_eq_true, List.all_map, List.all_eq_true,
    List.forall_mem_append]
  apply and_congr
  · simp only [Function.comp_apply, validUtf8_strip]
  · by_cases empty : last = []
    · subst empty
      simp only [List.mem_singleton, forall_eq]
      exact iff_of_true rfl rfl
    · simp [empty]

theorem filterMap_bufLines (carriage : ∀ line, codec.decode (line ++ [0x0D]) = codec.decode line)
    (valid : ∀ line ∈ contents.splitOn newline, validUtf8 line = true) :
    (bufLines contents).filterMap (parseLine codec) = entries codec contents := by
  obtain ⟨finished, last, pieces, lines⟩ := bufLines_eq contents
  have raw : entries codec contents = (contents.splitOn newline).filterMap (parseLine codec) := by
    apply List.filterMap_congr
    intro line member
    rw [parseRaw, if_pos (valid line member)]
  rw [raw, lines, pieces, List.filterMap_append, List.filterMap_append, List.filterMap_map]
  congr 1
  · apply List.filterMap_congr
    intro line _
    exact parseLine_strip carriage line
  · by_cases empty : last = []
    · subst empty
      rfl
    · simp [empty]

end Lines

/-! ## Both directions -/

section Directions

variable {codec} {contents : List UInt8}

theorem remaining_openFile {count : ℕ} (enough : contents.length < count) :
    (RevLines.openFile contents).remaining count = (contents.splitOn newline).reverse := by
  have whole : (RevLines.openFile contents).left = contents := by
    simp [RevLines.left, RevLines.openFile]
  rw [RevLines.remaining_eq rfl (by rw [whole]; exact enough), whole]

theorem events_openFile (contents : List UInt8) :
    (RevLines.openFile contents).events codec = (entries codec contents).reverse := by
  have read := remaining_openFile (Nat.lt_succ_self contents.length)
  rw [RevLines.events, show (RevLines.openFile contents).contents = contents from rfl, read]
  exact List.filterMap_reverse

theorem readLines_of_valid (carriage : ∀ line, codec.decode (line ++ [0x0D]) = codec.decode line)
    (valid : ∀ line ∈ contents.splitOn newline, validUtf8 line = true) :
    readLines codec contents = some (entries codec contents) := by
  rw [readLines, if_pos ((all_bufLines contents).mpr valid), filterMap_bufLines carriage valid]

theorem readsAlike_of_valid (carriage : ∀ line, codec.decode (line ++ [0x0D]) = codec.decode line)
    (valid : ∀ line ∈ contents.splitOn newline, validUtf8 line = true) :
    ReadsAlike codec (some contents) (entries codec contents) := by
  refine ⟨readLines_of_valid carriage valid, events_openFile contents, ?_, scanTail_eq codec contents⟩
  rw [lastValidLine, revEvents, events_openFile, List.head?_reverse]

theorem valid_of_readLines {all : List (ℕ × Event)} (read : readLines codec contents = some all) :
    ∀ line ∈ contents.splitOn newline, validUtf8 line = true := by
  unfold readLines at read
  split at read
  · rename_i valid
    exact (all_bufLines contents).mp valid
  · cases read

/-- The full parse of a directory reads every journal in it. -/
theorem staleForward_some (carriage : ∀ line, codec.decode (line ++ [0x0D]) = codec.decode line)
    (isDone : Event → Bool) {file : JournalFile}
    (valid : file.chat.isSome = true → ∀ line ∈ file.2.splitOn newline, validUtf8 line = true) :
    staleForward codec isDone file = some
      (match file.chat with
        | some chat => if isStale isDone (lastValidLine codec (some file.2)) then some chat else none
        | none => none) := by
  unfold staleForward
  cases chat : file.chat with
  | none => rfl
  | some chat =>
      obtain ⟨forward, -, last, -⟩ := readsAlike_of_valid carriage (valid (by rw [chat]; rfl))
      simp only [forward, Option.map_some, last]

theorem mapM_some {α β : Type} {f : α → Option β} {g : α → β} {elements : List α}
    (each : ∀ element ∈ elements, f element = some (g element)) :
    elements.mapM f = some (elements.map g) := by
  induction elements with
  | nil => rfl
  | cons element rest ih =>
      rw [List.mapM_cons, each element List.mem_cons_self,
        ih fun other member => each other (List.mem_cons_of_mem _ member)]
      rfl

theorem some_of_mapM {α β : Type} {f : α → Option β} {elements : List α} {results : List β}
    (mapped : elements.mapM f = some results) {element : α} (member : element ∈ elements) :
    ∃ result, f element = some result := by
  induction elements generalizing results with
  | nil => cases member
  | cons first rest ih =>
      simp only [List.mapM_cons, Option.bind_eq_bind, Option.bind_eq_some_iff] at mapped
      obtain ⟨result, isResult, others, isOthers, -⟩ := mapped
      rcases List.mem_cons.mp member with rfl | later
      · exact ⟨result, isResult⟩
      · exact ih isOthers later

theorem staleSessionsForward_iff
    (carriage : ∀ line, codec.decode (line ++ [0x0D]) = codec.decode line)
    (isDone : Event → Bool) (directory : List JournalFile) :
    staleSessionsForward codec isDone directory = some (staleSessions codec isDone directory) ↔
      ∀ file ∈ directory, file.chat.isSome = true →
        ∀ line ∈ file.2.splitOn newline, validUtf8 line = true := by
  constructor
  · intro same file member isJournal
    obtain ⟨chats, mapped, -⟩ := Option.map_eq_some_iff.mp same
    obtain ⟨result, read⟩ := some_of_mapM mapped member
    obtain ⟨chat, isChat⟩ := Option.isSome_iff_exists.mp isJournal
    simp only [staleForward, isChat] at read
    obtain ⟨all, forward, -⟩ := Option.map_eq_some_iff.mp read
    exact valid_of_readLines forward
  · intro valid
    rw [staleSessionsForward, mapM_some fun file member =>
      staleForward_some carriage isDone (valid file member), Option.map_some, List.filterMap_map]
    rfl

end Directions

/-- The backward reader takes any file apart at its newlines; it sees the events of a full
parse exactly where the full parse does not fail on a line that is not UTF-8. -/
theorem reads_alike_iff (codec : LineCodec Event)
    (carriage : ∀ line, codec.decode (line ++ [0x0D]) = codec.decode line) (isDone : Event → Bool) :
    (∀ (contents : List UInt8) (count : ℕ), contents.length < count →
      (RevLines.openFile contents).remaining count = (contents.splitOn newline).reverse) ∧
    ReadsAlike codec none [] ∧
    (∀ contents, (∃ all, ReadsAlike codec (some contents) all) ↔
      ∀ line ∈ contents.splitOn newline, validUtf8 line = true) ∧
    ∀ directory : List JournalFile,
      staleSessionsForward codec isDone directory = some (staleSessions codec isDone directory) ↔
        ∀ file ∈ directory, file.chat.isSome = true →
          ∀ line ∈ file.2.splitOn newline, validUtf8 line = true := by
  refine ⟨fun _ _ => remaining_openFile, ⟨rfl, rfl, rfl, rfl⟩, ?_,
    staleSessionsForward_iff carriage isDone⟩
  intro contents
  constructor
  · rintro ⟨all, alike⟩
    exact valid_of_readLines alike.forward
  · exact fun valid => ⟨_, readsAlike_of_valid carriage valid⟩

/-! ## Letters with a carriage return -/

theorem rdropWhile_printable {line : List UInt8} (printable : ∀ byte ∈ line, 0x20 ≤ byte) :
    line.rdropWhile (· = 0x0D) = line := by
  apply List.rdropWhile_eq_self_iff.mpr
  intro some_byte carriage
  have large := printable _ (List.getLast_mem some_byte)
  rw [of_decide_eq_true carriage] at large
  exact absurd large (by decide)

/-- The lines of letters, with white space after them passed over as JSON does. -/
def spacedCodec : LineCodec Letter where
  encode := letterLine
  decode line := parseLetter (line.rdropWhile (· = 0x0D))
  decode_encode seq letter := by
    rw [rdropWhile_printable fun byte member => (letterLine_bytes seq letter byte member).1]
    exact parseLetter_letterLine seq letter
  decode_torn seq letter count torn := by
    rw [rdropWhile_printable fun byte member =>
      (letterLine_bytes seq letter byte (List.mem_of_mem_take member)).1]
    exact parseLetter_take seq letter torn
  printable := letterCodec.printable
  nonblank := letterCodec.nonblank
  utf8 := letterCodec.utf8

theorem spacedCodec_carriage (line : List UInt8) :
    spacedCodec.decode (line ++ [0x0D]) = spacedCodec.decode line := by
  exact congrArg parseLetter (List.rdropWhile_concat_pos _ _ _ (by decide))

theorem reads_alike_carriage :
    ∃ all, ReadsAlike spacedCodec (some (letterLine 1 .a ++ [0x0D, newline])) all :=
  ((reads_alike_iff spacedCodec spacedCodec_carriage fun _ => false).2.2.1 _).mpr
    (by decide)

/-- A torn write in the middle of a character: the full parse fails, the tail is read. -/
theorem torn_character_stops_forward :
    revEvents spacedCodec (some (letterLine 1 .a ++ [newline, 0xE2, 0x82])) = [(1, .a)] ∧
      ¬∃ all, ReadsAlike spacedCodec (some (letterLine 1 .a ++ [newline, 0xE2, 0x82])) all := by
  have torn : readLines spacedCodec (letterLine 1 .a ++ [newline, 0xE2, 0x82]) = none := by
    decide
  refine ⟨?_, ?_⟩
  · have split : (letterLine 1 .a ++ [newline, 0xE2, 0x82]).splitOn newline =
        [letterLine 1 .a, [0xE2, 0x82]] := by decide
    have read : parseRaw spacedCodec (letterLine 1 .a) = some (1, .a) :=
      @parseRaw_encode _ spacedCodec 1 .a
    have skipped : parseRaw spacedCodec [0xE2, 0x82] = none := rfl
    simp [revEvents, events_openFile, entries, records, split, read, skipped]
  · rintro ⟨all, alike⟩
    have read := alike.forward
    simp only [readFile] at read
    rw [torn] at read
    cases read

end Zeron.Journal
