import Zeron.Journal.Tail

namespace Zeron.Journal

open Zeron.Data

/-! # Appended events survive torn writes

As long as the flag of the held entry tells whether the file ends mid-line, what a
failed append leaves behind is a line of its own.  It is passed over unless it is
the whole line, and it is read at all only if it cuts no character in two.
-/

variable {Event : Type} {codec : LineCodec Event} {contents line after : List UInt8}
  {seq : ℕ} {event : Event}

/-- The records of a file. -/
def entries (codec : LineCodec Event) (contents : List UInt8) : List (ℕ × Event) :=
  records (parseRaw codec) newline contents

/-- Every line is UTF-8 without control characters. -/
def Clean (contents : List UInt8) : Prop :=
  ∀ line ∈ contents.splitOn newline, (∀ byte ∈ line, 0x20 ≤ byte) ∧ validUtf8 line = true

theorem parseRaw_nil : parseRaw codec [] = none := rfl

theorem newline_not_mem (printable : ∀ byte ∈ line, 0x20 ≤ byte) : newline ∉ line := by
  intro member
  exact absurd (printable newline member) (by decide)

theorem clean_nil : Clean [] := by
  intro line member
  rw [List.splitOn_nil, List.mem_singleton] at member
  subst member
  exact ⟨by simp, rfl⟩

/-! ## Reading what was written -/

theorem parseRaw_encode (seq : ℕ) (event : Event) :
    parseRaw codec (codec.encode seq event) = some (seq, event) := by
  simp [parseRaw, parseLine, codec.utf8, codec.nonblank, codec.decode_encode]

theorem parseRaw_take (seq : ℕ) (event : Event) (count : ℕ) :
    (parseRaw codec ((codec.encode seq event).take count)).toList = [] ∨
      (parseRaw codec ((codec.encode seq event).take count)).toList = [(seq, event)] := by
  by_cases torn : count < (codec.encode seq event).length
  · left
    simp only [parseRaw, parseLine, codec.decode_torn seq event count torn]
    split <;> [split; skip] <;> rfl
  · right
    rw [List.take_of_length_le (by omega), parseRaw_encode]
    rfl

/-- Reading forwards finds the records, in a file without foreign bytes. -/
theorem readLines_eq (clean : Clean contents) :
    readLines codec contents = some (entries codec contents) := by
  obtain ⟨finished, last, pieces⟩ :=
    List.eq_nil_or_concat (contents.splitOn newline) |>.resolve_left (List.splitOn_ne_nil _ _)
  have kept : finished.map (fun line =>
      if line.getLast? = some 0x0D then line.dropLast else line) = finished := by
    rw [List.map_congr_left (g := id), List.map_id]
    intro line member
    have printable := (clean line (by simp [pieces, member])).1
    rw [if_neg, id]
    intro carriage
    exact absurd (printable 0x0D (List.mem_of_getLast? carriage)) (by decide)
  have shape : bufLines contents = finished ++ [last].filter fun line => line ≠ [] := by
    simp only [bufLines, pieces, List.concat_eq_append, List.dropLast_concat, kept,
      List.getLast?_concat, Option.toList_some]
  have valid : ∀ line ∈ bufLines contents, validUtf8 line = true := by
    intro line member
    rw [shape] at member
    apply (clean line _).2
    rw [pieces, List.concat_eq_append]
    rcases List.mem_append.mp member with inside | final
    · exact List.mem_append_left _ inside
    · exact List.mem_append_right _ (List.mem_of_mem_filter final)
  have parsed : (bufLines contents).filterMap (parseLine codec) = entries codec contents := by
    have same : (bufLines contents).filterMap (parseLine codec) =
        (bufLines contents).filterMap (parseRaw codec) := by
      apply List.filterMap_congr
      intro line member
      simp [parseRaw, valid line member]
    rw [same, shape, entries, records, pieces, List.concat_eq_append, List.filterMap_append,
      List.filterMap_append]
    by_cases empty : last = []
    · subst empty
      simp [parseRaw_nil]
    · simp [empty]
  rw [readLines, if_pos (List.all_eq_true.mpr valid), parsed]

/-! ## What an append adds -/

/-- A line of its own, after a newline or a finished line. -/
theorem extend_line (clean : Clean contents) (printable : ∀ byte ∈ line, 0x20 ≤ byte)
    (valid : validUtf8 line = true)
    (apart : after = contents ++ newline :: line ∨
      midLine newline contents = false ∧ after = contents ++ line) :
    Clean after ∧ entries codec after = entries codec contents ++ (parseRaw codec line).toList := by
  have plain := newline_not_mem printable
  rcases apart with rfl | ⟨finished, rfl⟩
  · refine ⟨?_, records_append_sep plain⟩
    intro other member
    rcases mem_splitOn_append_sep plain member with inside | rfl
    · exact clean other inside
    · exact ⟨printable, valid⟩
  · refine ⟨?_, records_append parseRaw_nil finished plain⟩
    intro other member
    rcases mem_splitOn_append finished plain member with inside | rfl
    · exact clean other inside
    · exact ⟨printable, valid⟩

theorem extend_finish (clean : Clean contents) :
    Clean (contents ++ [newline]) ∧
      entries codec (contents ++ [newline]) = entries codec contents := by
  refine ⟨?_, records_append_finish parseRaw_nil⟩
  intro other member
  rcases mem_splitOn_append_sep (by simp) member with inside | rfl
  · exact clean other inside
  · exact ⟨by simp, rfl⟩

theorem take_concat (line : List UInt8) (count : ℕ) :
    (line ++ [newline]).take count = line.take count ∨
      (line ++ [newline]).take count = line ++ [newline] := by
  by_cases short : count ≤ line.length
  · exact .inl (List.take_append_of_le_length short)
  · right
    apply List.take_of_length_le
    simp only [List.length_append, List.length_singleton]
    omega

variable {entry : ChatJournal}

/-- The flag says so where the file ends mid-line. -/
def ChatJournal.Flagged (entry : ChatJournal) (contents : List UInt8) : Prop :=
  entry.needsNewline = true ∨ midLine newline contents = false

theorem ChatJournal.append_written (clean : Clean contents) (flagged : entry.Flagged contents) :
    Clean (contents ++ entry.bytes codec event) ∧
      entries codec (contents ++ entry.bytes codec event) =
        entries codec contents ++ [(entry.nextSeq, event)] := by
  obtain ⟨nextSeq, needsNewline⟩ := entry
  have started : ∃ start, contents ++ bytes codec { nextSeq, needsNewline } event =
        start ++ [newline] ∧
      (start = contents ++ newline :: codec.encode nextSeq event ∨
        midLine newline contents = false ∧ start = contents ++ codec.encode nextSeq event) := by
    cases needsNewline with
    | true =>
        exact ⟨contents ++ newline :: codec.encode nextSeq event, by simp [bytes], .inl rfl⟩
    | false =>
        refine ⟨contents ++ codec.encode nextSeq event, by simp [bytes], .inr ⟨?_, rfl⟩⟩
        rcases flagged with flagged | finished
        · contradiction
        · exact finished
  obtain ⟨start, whole, apart⟩ := started
  obtain ⟨startClean, started⟩ := @extend_line _ codec _ _ _ clean
    (codec.printable nextSeq event) (codec.utf8 nextSeq event) apart
  obtain ⟨clean, finished⟩ := @extend_finish _ codec _ startClean
  rw [whole, finished, started, parseRaw_encode]
  exact ⟨clean, rfl⟩

theorem ChatJournal.append_torn (clean : Clean contents) (flagged : entry.Flagged contents)
    {count : ℕ} (valid : validUtf8 ((entry.bytes codec event).take count) = true) :
    Clean (contents ++ (entry.bytes codec event).take count) ∧
      (entries codec (contents ++ (entry.bytes codec event).take count) = entries codec contents ∨
        entries codec (contents ++ (entry.bytes codec event).take count) =
          entries codec contents ++ [(entry.nextSeq, event)]) := by
  -- Nothing, or all of it but perhaps the end of the line.
  have cases : (entry.bytes codec event).take count = [] ∨
      (entry.bytes codec event).take count = entry.bytes codec event ∨
      ∃ length, (entry.bytes codec event).take count =
        (if entry.needsNewline then [newline] else []) ++
          (codec.encode entry.nextSeq event).take length := by
    simp only [bytes]
    cases entry.needsNewline with
    | true =>
        cases count with
        | zero => simp
        | succ count =>
            rcases take_concat (codec.encode entry.nextSeq event) count with part | whole
            · exact .inr (.inr ⟨count, by simpa using part⟩)
            · exact .inr (.inl (by simpa using whole))
    | false =>
        rcases take_concat (codec.encode entry.nextSeq event) count with part | whole
        · exact .inr (.inr ⟨count, by simpa using part⟩)
        · exact .inr (.inl (by simpa using whole))
  rcases cases with none | whole | ⟨length, part⟩
  · rw [none, List.append_nil]
    exact ⟨clean, .inl rfl⟩
  · rw [whole]
    obtain ⟨clean, added⟩ := @append_written _ codec _ event _ clean flagged
    exact ⟨clean, .inr added⟩
  · rw [part] at valid ⊢
    have printable : ∀ byte ∈ (codec.encode entry.nextSeq event).take length, 0x20 ≤ byte :=
      fun byte member => codec.printable entry.nextSeq event byte (List.mem_of_mem_take member)
    have extended : Clean (contents ++ ((if entry.needsNewline then [newline] else []) ++
          (codec.encode entry.nextSeq event).take length)) ∧
        entries codec (contents ++ ((if entry.needsNewline then [newline] else []) ++
            (codec.encode entry.nextSeq event).take length)) =
          entries codec contents ++
            (parseRaw codec ((codec.encode entry.nextSeq event).take length)).toList := by
      cases needs : entry.needsNewline with
      | true =>
          rw [needs] at valid
          exact extend_line clean printable valid (.inl (by simp))
      | false =>
          rw [needs] at valid
          have finished : midLine newline contents = false := by
            rcases flagged with flagged | finished
            · rw [needs] at flagged
              contradiction
            · exact finished
          exact extend_line clean printable valid (.inr ⟨finished, by simp⟩)
    refine ⟨extended.1, ?_⟩
    rw [extended.2]
    rcases @parseRaw_take _ codec entry.nextSeq event length with nothing | one
    · rw [nothing, List.append_nil]
      exact .inl rfl
    · rw [one]
      exact .inr rfl

/-! ## Runs -/

namespace RunJournal

theorem entry_closed (file : Option (List UInt8)) (acked : List (ℕ × Event)) :
    ({ file, opened := none, acked } : RunJournal Event).entry codec =
      { nextSeq := match (entries codec (file.getD [])).getLast? with
          | some (seq, _) => seq + 1
          | none => 1
        needsNewline := midLine newline (file.getD []) } := by
  cases file with
  | none => rfl
  | some contents =>
      simp only [entry, scanTail_eq, Option.getD_some]
      rfl

/-- The seqs of a file are below the one its tail gives. -/
theorem lt_of_sorted {all : List (ℕ × Event)}
    (sorted : all.Pairwise fun older newer => older.1 ≤ newer.1) :
    ∀ record ∈ all, record.1 < match all.getLast? with
      | some (seq, _) => seq + 1
      | none => 1 := by
  intro record member
  obtain rfl | ⟨before, last, rfl⟩ := List.eq_nil_or_concat all
  · contradiction
  · rw [List.concat_eq_append, List.getLast?_concat]
    rw [List.concat_eq_append] at member sorted
    rcases List.mem_append.mp member with inside | final
    · exact Nat.lt_succ_of_le
        ((List.pairwise_append.mp sorted).2.2 record inside last (List.mem_singleton_self last))
    · rw [List.mem_singleton.mp final]
      exact Nat.lt_succ_self _

end RunJournal

section

variable [DecidableEq Event] {journal next : RunJournal Event}

/-- What an append must respect: it finds the flag of the held entry right and does
not write a line the file already holds; what a failed one leaves cuts no character
in two. -/
def RunJournal.sound (codec : LineCodec Event) (journal : RunJournal Event) : Action Event → Bool
  | .append _ .refused => true
  | .append event .written =>
      ((journal.entry codec).needsNewline || !midLine newline journal.contents) &&
        decide (((journal.entry codec).nextSeq, event) ∉ entries codec journal.contents)
  | .append event (.torn count) =>
      ((journal.entry codec).needsNewline || !midLine newline journal.contents) &&
        validUtf8 (((journal.entry codec).bytes codec event).take count)
  | .reopen => true

/-- Replay succeeds, and every acknowledged event is in it once, in append order. -/
def RunJournal.Durable (codec : LineCodec Event) (journal : RunJournal Event) : Prop :=
  ∃ all, journal.replay codec 0 = some all ∧ journal.acked.Sublist all ∧
    ∀ record ∈ journal.acked, all.count record = 1

structure RunJournal.Held (codec : LineCodec Event) (journal : RunJournal Event) : Prop where
  clean : Clean journal.contents
  sorted : (entries codec journal.contents).Pairwise fun older newer => older.1 ≤ newer.1
  positive : ∀ record ∈ entries codec journal.contents, 0 < record.1
  bounded : ∀ record ∈ entries codec journal.contents,
    record.1 ≤ (journal.entry codec).nextSeq
  seqs : 0 < (journal.entry codec).nextSeq
  issued : ∀ record ∈ journal.acked, record.1 < (journal.entry codec).nextSeq
  kept : journal.acked.Sublist (entries codec journal.contents)
  once : ∀ record ∈ journal.acked, (entries codec journal.contents).count record = 1

namespace RunJournal

theorem held_new : (newJournal : RunJournal Event).Held codec := by
  have empty : entries codec (newJournal : RunJournal Event).contents = [] :=
    records_nil parseRaw_nil
  constructor
  · exact clean_nil
  · simp [empty]
  · simp [empty]
  · simp [empty]
  · rw [newJournal, entry_closed]
    exact Nat.zero_lt_one
  · simp [newJournal]
  · simp [newJournal]
  · simp [newJournal]

theorem Held.reopen (held : journal.Held codec) :
    ({ journal with opened := none } : RunJournal Event).Held codec := by
  have below := lt_of_sorted held.sorted
  refine { clean := held.clean, sorted := held.sorted, positive := held.positive,
           kept := held.kept, once := held.once, bounded := ?_, seqs := ?_, issued := ?_ }
  · intro record member
    rw [entry_closed]
    exact Nat.le_of_lt (below record member)
  · rw [entry_closed]
    simp only
    split <;> omega
  · intro record member
    rw [entry_closed]
    exact below record (held.kept.subset member)

/-- The file gets one record more, whether it is acknowledged or not. -/
theorem Held.extended (held : journal.Held codec) {file : List UInt8} {opened : ChatJournal}
    (clean : Clean file)
    (added : entries codec file = entries codec journal.contents ∨
      entries codec file =
        entries codec journal.contents ++ [((journal.entry codec).nextSeq, event)])
    (opens : opened = journal.entry codec) :
    ({ journal with file := some file, opened := some opened } : RunJournal Event).Held codec := by
  subst opens
  have old : ∀ record ∈ journal.acked,
      record ≠ ((journal.entry codec).nextSeq, event) := by
    rintro record member rfl
    exact Nat.lt_irrefl _ (held.issued _ member)
  rcases added with same | grown
  · refine { clean, seqs := held.seqs, issued := held.issued, sorted := ?_, positive := ?_,
             bounded := ?_, kept := ?_, once := ?_ } <;>
      simp only [contents, Option.getD_some, same]
    · exact held.sorted
    · exact held.positive
    · exact held.bounded
    · exact held.kept
    · exact held.once
  · refine { clean, seqs := held.seqs, issued := held.issued, sorted := ?_, positive := ?_,
             bounded := ?_, kept := ?_, once := ?_ } <;>
      simp only [contents, Option.getD_some, grown]
    · apply List.pairwise_append.mpr
      refine ⟨held.sorted, List.pairwise_singleton _ _, ?_⟩
      intro record member added new
      rw [List.mem_singleton.mp new]
      exact held.bounded record member
    · intro record member
      rcases List.mem_append.mp member with before | new
      · exact held.positive record before
      · rw [List.mem_singleton.mp new]
        exact held.seqs
    · intro record member
      rcases List.mem_append.mp member with before | new
      · exact held.bounded record before
      · rw [List.mem_singleton.mp new]
        exact Nat.le_refl _
    · exact held.kept.trans (List.sublist_append_left _ _)
    · intro record member
      have before : (entries codec (journal.file.getD [])).count record = 1 :=
        held.once record member
      rw [List.count_append, before, List.count_singleton,
        if_neg (by simpa using (old record member).symm)]

theorem Held.written (held : journal.Held codec)
    (sound : journal.sound codec (.append event .written) = true) :
    (journal.append codec event .written).1.Held codec := by
  simp only [RunJournal.sound, Bool.and_eq_true, Bool.or_eq_true, Bool.not_eq_true',
    decide_eq_true_eq] at sound
  obtain ⟨flagged, fresh⟩ := sound
  obtain ⟨clean, grown⟩ := @ChatJournal.append_written _ codec _ event _
    held.clean flagged
  have extended := @Held.extended _ _ event _ _ held _ _ clean (.inr grown) rfl
  refine { clean, sorted := extended.sorted, positive := extended.positive,
           seqs := Nat.succ_pos _, bounded := ?_, issued := ?_, kept := ?_, once := ?_ }
  · intro record member
    exact Nat.le_succ_of_le (extended.bounded record member)
  · intro record member
    rcases List.mem_append.mp member with before | new
    · exact Nat.lt_succ_of_lt (held.issued record before)
    · rw [List.mem_singleton.mp new]
      exact Nat.lt_succ_self _
  · change (journal.acked ++ _).Sublist (entries codec (journal.contents ++ _))
    rw [grown]
    exact held.kept.append (List.Sublist.refl _)
  · intro record member
    rcases List.mem_append.mp member with before | new
    · exact extended.once record before
    · rw [List.mem_singleton.mp new]
      change (entries codec (journal.contents ++ _)).count _ = 1
      rw [grown, List.count_append, List.count_eq_zero.mpr fresh, List.count_singleton_self]

theorem Held.torn (held : journal.Held codec) {count : ℕ}
    (sound : journal.sound codec (.append event (.torn count)) = true) :
    (journal.append codec event (.torn count)).1.Held codec := by
  simp only [RunJournal.sound, Bool.and_eq_true, Bool.or_eq_true, Bool.not_eq_true'] at sound
  obtain ⟨clean, added⟩ := @ChatJournal.append_torn _ codec _ event _ held.clean
    sound.1 _ sound.2
  exact held.extended clean added rfl

theorem Held.step (held : journal.Held codec) (action : Action Event)
    (sound : journal.sound codec action = true) (stepped : journal.step codec action = some next) :
    next.Held codec := by
  cases action with
  | reopen =>
      cases stepped
      exact held.reopen
  | append event outcome =>
      cases stepped
      cases outcome with
      | written => exact held.written sound
      | refused => exact held
      | torn count => exact held.torn sound

theorem Held.durable (held : journal.Held codec) : journal.Durable codec := by
  refine ⟨entries codec journal.contents, ?_, held.kept, held.once⟩
  obtain ⟨file, opened, acked⟩ := journal
  cases file with
  | none =>
      have empty : entries codec [] = [] := records_nil parseRaw_nil
      simp [replay, contents, empty]
  | some bytes =>
      have read : readLines codec bytes = some (entries codec bytes) := readLines_eq held.clean
      simp only [replay, read, Option.map_some, Nat.not_lt_zero, if_false, Option.some.injEq]
      apply List.filter_eq_self.mpr
      intro record member
      simpa using held.positive record member

end RunJournal

end

/-! ## Text deltas of one letter -/

inductive Letter where
  | a
  | b
deriving DecidableEq

def byteOf (c : Char) : UInt8 := UInt8.ofNat c.toNat

def ascii (text : String) : List UInt8 := text.toList.map byteOf

def digits (seq : ℕ) : List UInt8 := (Nat.toDigits 10 seq).map byteOf

def isDigit (byte : UInt8) : Bool := decide (0x30 ≤ byte ∧ byte ≤ 0x39)

def Letter.text : Letter → String
  | .a => ",\"event\":\x7b\"type\":\"textDelta\",\"text\":\"a\"\x7d\x7d"
  | .b => ",\"event\":\x7b\"type\":\"textDelta\",\"text\":\"b\"\x7d\x7d"

def letterLine (seq : ℕ) (letter : Letter) : List UInt8 :=
  ascii "\x7b\"seq\":" ++ (digits seq ++ ascii letter.text)

def seqOf (line : List UInt8) : ℕ :=
  Nat.ofDigitChars 10 (((line.drop 7).takeWhile isDigit).map fun byte => Char.ofNat byte.toNat) 0

def parseLetter (line : List UInt8) : Option (ℕ × Letter) :=
  if line = letterLine (seqOf line) .a then some (seqOf line, .a)
  else if line = letterLine (seqOf line) .b then some (seqOf line, .b)
  else none

theorem byteOf_toNat {c : Char} (small : c.toNat < 256) : (byteOf c).toNat = c.toNat :=
  UInt8.toNat_ofNat_of_lt' small

theorem toNat_of_mem_toDigits {seq : ℕ} {c : Char} (digit : c ∈ Nat.toDigits 10 seq) :
    48 ≤ c.toNat ∧ c.toNat ≤ 57 :=
  Char.isDigit_iff_toNat.mp (Nat.isDigit_of_mem_toDigits (by decide) (by decide) digit)

theorem isDigit_of_mem_digits {seq : ℕ} {byte : UInt8} (member : byte ∈ digits seq) :
    isDigit byte = true := by
  obtain ⟨c, digit, rfl⟩ := List.mem_map.mp member
  have bounds := toNat_of_mem_toDigits digit
  simp only [isDigit, UInt8.le_iff_toNat_le, byteOf_toNat (show c.toNat < 256 by omega),
    decide_eq_true_eq]
  exact bounds

theorem chars_digits (seq : ℕ) :
    (digits seq).map (fun byte => Char.ofNat byte.toNat) = Nat.toDigits 10 seq := by
  rw [digits, List.map_map, List.map_congr_left (g := id), List.map_id]
  intro c digit
  have bounds := toNat_of_mem_toDigits digit
  simp [byteOf_toNat (show c.toNat < 256 by omega)]

theorem letterText (letter : Letter) :
    ∃ rest, ascii letter.text = 0x2C :: rest ∧ rest.length = 40 := by
  cases letter
  · exact ⟨(ascii Letter.a.text).tail, rfl, rfl⟩
  · exact ⟨(ascii Letter.b.text).tail, rfl, rfl⟩

theorem takeWhile_digits (seq : ℕ) (rest : List UInt8) :
    ((ascii "\x7b\"seq\":" ++ (digits seq ++ 0x2C :: rest)).drop 7).takeWhile isDigit =
      digits seq := by
  have head : (ascii "\x7b\"seq\":").length = 7 := rfl
  rw [List.drop_append_of_le_length (by omega), ← head, List.drop_length, List.nil_append,
    List.takeWhile_append_of_pos (fun byte member => isDigit_of_mem_digits member)]
  simp [isDigit]

theorem seqOf_letterLine (seq : ℕ) (letter : Letter) : seqOf (letterLine seq letter) = seq := by
  obtain ⟨rest, text, _⟩ := letterText letter
  rw [seqOf, letterLine, text, takeWhile_digits, chars_digits, Nat.ofDigitChars_ten_toDigits]

theorem parseLetter_letterLine (seq : ℕ) (letter : Letter) :
    parseLetter (letterLine seq letter) = some (seq, letter) := by
  rw [parseLetter, seqOf_letterLine]
  cases letter with
  | a => simp
  | b =>
      have other : letterLine seq .b ≠ letterLine seq .a := by
        intro same
        have texts := List.append_cancel_left (List.append_cancel_left same)
        exact absurd texts (by decide)
      simp [other]

/-- A line that parses is the line of its own seq. -/
theorem eq_letterLine {line : List UInt8} {seq : ℕ} {letter : Letter}
    (parsed : parseLetter line = some (seq, letter)) : line = letterLine seq letter := by
  unfold parseLetter at parsed
  split at parsed
  · rename_i same
    cases parsed
    exact same
  · split at parsed
    · rename_i same
      cases parsed
      exact same
    · contradiction

theorem parseLetter_take (seq : ℕ) (letter : Letter) {count : ℕ}
    (torn : count < (letterLine seq letter).length) :
    parseLetter ((letterLine seq letter).take count) = none := by
  by_contra parses
  obtain ⟨⟨other, read⟩, parsed⟩ := Option.ne_none_iff_exists'.mp parses
  have part := eq_letterLine parsed
  have whole := List.take_append_drop count (letterLine seq letter)
  obtain ⟨rest, text, length⟩ := letterText letter
  obtain ⟨readRest, readText, readLength⟩ := letterText read
  -- Both lines have the digits that follow the opening, so they are equally long.
  have same : digits other = digits seq := by
    rw [← takeWhile_digits seq rest, ← text, ← letterLine, ← whole, part, letterLine, readText,
      List.append_assoc, List.append_assoc, List.cons_append, takeWhile_digits]
  have lengths := congrArg List.length part
  rw [List.length_take, Nat.min_eq_left (Nat.le_of_lt torn)] at lengths
  simp only [letterLine, text, readText, same, List.length_append, List.length_cons, length,
    readLength] at torn lengths
  omega

theorem validUtf8_ascii {bytes : List UInt8} (plain : ∀ byte ∈ bytes, byte ≤ 0x7F) :
    validUtf8 bytes = true := by
  unfold validUtf8
  induction bytes with
  | nil => rfl
  | cons byte rest ih =>
      have first : continuations byte = some [] := if_pos (plain byte List.mem_cons_self)
      simp only [validUtf8From, first]
      exact ih fun other member => plain other (List.mem_cons_of_mem _ member)

theorem letterLine_bytes (seq : ℕ) (letter : Letter) :
    ∀ byte ∈ letterLine seq letter, 0x20 ≤ byte ∧ byte ≤ 0x7F := by
  intro byte member
  rcases List.mem_append.mp member with head | member
  · have bytes : ∀ byte ∈ ascii "\x7b\"seq\":", 0x20 ≤ byte ∧ byte ≤ 0x7F := by decide +kernel
    exact bytes byte head
  · rcases List.mem_append.mp member with digit | text
    · have bounds := isDigit_of_mem_digits digit
      simp only [isDigit, decide_eq_true_eq, UInt8.le_iff_toNat_le] at bounds ⊢
      have low : (0x30 : UInt8).toNat = 48 := rfl
      have high : (0x39 : UInt8).toNat = 57 := rfl
      have blank : (0x20 : UInt8).toNat = 32 := rfl
      have last : (0x7F : UInt8).toNat = 127 := rfl
      omega
    · have bytes : ∀ letter : Letter, ∀ byte ∈ ascii letter.text, 0x20 ≤ byte ∧ byte ≤ 0x7F := by
        intro letter
        cases letter <;> decide +kernel
      exact bytes letter byte text

def letterCodec : LineCodec Letter where
  encode := letterLine
  decode := parseLetter
  decode_encode := parseLetter_letterLine
  decode_torn _ _ _ torn := parseLetter_take _ _ torn
  printable seq letter byte member := (letterLine_bytes seq letter byte member).1
  nonblank _ _ := rfl
  utf8 seq letter := validUtf8_ascii fun byte member => (letterLine_bytes seq letter byte member).2

end Zeron.Journal
