import Zeron.Journal.RunJournal

namespace Zeron.Journal

open Zeron.Data

/-! # The tail of the file is its last lines

Reading backwards in chunks yields the file's lines from the last to the first, so
the tail scan finds the last record of the whole file.
-/

/-- What of the file is not yielded yet. -/
def RevLines.left (lines : RevLines) : List UInt8 :=
  lines.contents.take lines.pos ++ lines.buf

theorem splitLast_eq_none {buf : List UInt8} (whole : splitLast buf = none) : newline ∉ buf := by
  induction buf with
  | nil => simp
  | cons byte rest ih =>
      simp only [splitLast] at whole
      cases split : splitLast rest with
      | some pair => simp [split] at whole
      | none =>
          simp only [split, ite_eq_right_iff, reduceCtorEq, imp_false] at whole
          simp [ih split, Ne.symm whole]

theorem splitLast_eq_some {buf before line : List UInt8}
    (split : splitLast buf = some (before, line)) :
    buf = before ++ newline :: line ∧ newline ∉ line := by
  induction buf generalizing before with
  | nil => simp [splitLast] at split
  | cons byte rest ih =>
      simp only [splitLast] at split
      cases tail : splitLast rest with
      | some pair =>
          obtain ⟨front, last⟩ := pair
          simp only [tail, Option.some.injEq, Prod.mk.injEq] at split
          obtain ⟨rfl, rfl⟩ := split
          obtain ⟨rfl, plain⟩ := ih tail
          exact ⟨rfl, plain⟩
      | none =>
          simp only [tail, Option.ite_none_right_eq_some, Option.some.injEq, Prod.mk.injEq] at split
          obtain ⟨rfl, rfl, rfl⟩ := split
          exact ⟨rfl, splitLast_eq_none tail⟩

section

variable {lines rest : RevLines} {line : List UInt8}

theorem RevLines.fill_left (lines : RevLines) : lines.fill.left = lines.left := by
  have within : min (max tailChunk lines.buf.length) lines.pos ≤ lines.pos := Nat.min_le_right ..
  simp only [left, fill]
  rw [← List.append_assoc, ← List.take_add, Nat.sub_add_cancel within]

theorem RevLines.fill_pos (unread : lines.pos ≠ 0) : lines.fill.pos < lines.pos := by
  have chunk : 0 < max tailChunk lines.buf.length :=
    Nat.lt_of_lt_of_le (by decide : 0 < tailChunk) (Nat.le_max_left ..)
  simp only [fill]
  omega

theorem RevLines.nextLine_spec {fuel : ℕ} (unfinished : lines.finished = false)
    (enough : lines.pos < fuel) :
    ∃ line rest, lines.nextLine fuel = (some line, rest) ∧ newline ∉ line ∧
      (rest.finished = false ∧ lines.left = rest.left ++ newline :: line ∨
        rest.finished = true ∧ lines.left = line) := by
  induction fuel generalizing lines with
  | zero => omega
  | succ fuel ih =>
      simp only [nextLine, unfinished, Bool.false_eq_true, if_false]
      cases split : splitLast lines.buf with
      | some pair =>
          obtain ⟨before, line⟩ := pair
          obtain ⟨whole, plain⟩ := splitLast_eq_some split
          refine ⟨line, { lines with buf := before }, by simp [unfinished], plain,
            .inl ⟨unfinished, ?_⟩⟩
          simp [left, whole]
      | none =>
          by_cases start : lines.pos = 0
          · refine ⟨lines.buf, { lines with buf := [], finished := true }, by simp [start],
              splitLast_eq_none split, .inr ⟨rfl, ?_⟩⟩
            simp [left, start]
          · have closer := fill_pos start
            obtain ⟨line, rest, read, plain, shape⟩ := @ih lines.fill unfinished (by omega)
            rw [fill_left] at shape
            exact ⟨line, rest, by simpa [start] using read, plain, shape⟩

theorem RevLines.remaining_finished (finished : lines.finished = true) (count : ℕ) :
    lines.remaining count = [] := by
  cases count with
  | zero => rfl
  | succ count => simp [remaining, nextLine, finished]

theorem RevLines.remaining_eq {count : ℕ} (unfinished : lines.finished = false)
    (enough : lines.left.length < count) :
    lines.remaining count = (lines.left.splitOn newline).reverse := by
  induction count generalizing lines with
  | zero => omega
  | succ count ih =>
      obtain ⟨line, rest, read, plain, ⟨unfinished, whole⟩ | ⟨finished, whole⟩⟩ :=
        nextLine_spec unfinished (Nat.lt_succ_self lines.pos)
      · have shorter := congrArg List.length whole
        simp only [List.length_append, List.length_cons] at shorter
        simp only [remaining, read, whole, splitOn_append_sep, splitOn_plain plain,
          List.reverse_append, List.reverse_singleton, List.singleton_append]
        rw [ih unfinished (by omega)]
      · simp only [remaining, read, whole, splitOn_plain plain, remaining_finished finished,
          List.reverse_singleton]

theorem RevLines.openFile_left (contents : List UInt8) :
    (openFile contents).endsMidLine.2.left = contents := by
  simp only [endsMidLine]
  split
  · rw [fill_left]
    simp [left, openFile]
  · simp [left, openFile]

/-- The first chunk read ends as the file does. -/
theorem RevLines.endsMidLine_eq (contents : List UInt8) :
    (openFile contents).endsMidLine.1 = midLine newline contents := by
  by_cases empty : contents = []
  · subst empty
    rfl
  · have whole := openFile_left contents
    have size := List.length_pos_iff.mpr empty
    have read : 0 < min (max tailChunk 0) contents.length :=
      Nat.lt_min.mpr ⟨by decide, size⟩
    have filled : (openFile contents).endsMidLine.2.buf ≠ [] := by
      apply List.ne_nil_of_length_pos
      simp only [endsMidLine, openFile, size, and_self, if_true, fill, List.length_append,
        List.length_take, List.length_drop, List.length_nil]
      omega
    have last : midLine newline (openFile contents).endsMidLine.2.left =
        midLine newline (openFile contents).endsMidLine.2.buf := midLine_append filled
    rw [whole] at last
    rw [last]
    rfl

theorem RevLines.openFile_unfinished (contents : List UInt8) :
    (openFile contents).endsMidLine.2.finished = false := by
  simp only [endsMidLine]
  split <;> rfl

theorem RevLines.openFile_contents (contents : List UInt8) :
    (openFile contents).endsMidLine.2.contents = contents := by
  simp only [endsMidLine]
  split <;> rfl

end

variable {Event : Type} (codec : LineCodec Event)

/-- A line as the tail scan reads it. -/
def parseRaw (raw : List UInt8) : Option (ℕ × Event) :=
  if validUtf8 raw then parseLine codec raw else none

/-- The tail scan finds the last record of the file and whether its last line is
finished. -/
theorem scanTail_eq (contents : List UInt8) :
    scanTail codec (some contents) =
      (match (records (parseRaw codec) newline contents).getLast? with
        | some (seq, _) => seq + 1
        | none => 1, midLine newline contents) := by
  have events : (RevLines.openFile contents).endsMidLine.2.events codec =
      (records (parseRaw codec) newline contents).reverse := by
    have read := RevLines.remaining_eq (RevLines.openFile_unfinished contents)
      (show _ < contents.length + 1 by
        rw [RevLines.openFile_left]
        exact Nat.lt_succ_self _)
    rw [RevLines.openFile_left] at read
    rw [RevLines.events, RevLines.openFile_contents, read]
    exact List.filterMap_reverse ..
  cases last : (records (parseRaw codec) newline contents).getLast? with
  | none => simp only [scanTail, events, List.head?_reverse, RevLines.endsMidLine_eq, last]
  | some pair => simp only [scanTail, events, List.head?_reverse, RevLines.endsMidLine_eq, last]

end Zeron.Journal
