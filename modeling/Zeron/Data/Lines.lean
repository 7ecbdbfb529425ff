import Mathlib

namespace Zeron.Data

/-! # Records in a file of lines

A file is a list of symbols; a separator ends a line.  Every line that parses is a
record, the others are passed over.  What is appended after a finished line, or
after a separator, is a line of its own.
-/

variable {α β : Type} [DecidableEq α] {parse : List α → Option β} {sep : α} {file line : List α}

/-- The file is not empty and its last line is not finished. -/
def midLine (sep : α) (file : List α) : Bool :=
  match file.getLast? with
  | some last => last ≠ sep
  | none => false

def records (parse : List α → Option β) (sep : α) (file : List α) : List β :=
  (file.splitOn sep).filterMap parse

theorem splitOn_append_sep (file line : List α) :
    (file ++ sep :: line).splitOn sep = file.splitOn sep ++ line.splitOn sep := by
  simp only [List.splitOn_eq_splitOnP]
  exact List.splitOnP_append_cons file line (by simp)

theorem splitOn_plain (plain : sep ∉ line) : line.splitOn sep = [line] := by
  rw [List.splitOn_eq_splitOnP]
  apply List.splitOnP_eq_singleton
  intro symbol member
  simp only [beq_eq_false_iff_ne]
  rintro rfl
  exact plain member

theorem midLine_eq_false : midLine sep file = false ↔ file = [] ∨ ∃ before, file = before ++ [sep] := by
  rcases List.eq_nil_or_concat file with rfl | ⟨before, last, rfl⟩
  · simp [midLine]
  · simp [midLine]

theorem midLine_append (some : line ≠ []) : midLine sep (file ++ line) = midLine sep line := by
  rw [midLine, List.getLast?_append_of_ne_nil _ some]
  rfl

theorem records_append_sep (plain : sep ∉ line) :
    records parse sep (file ++ sep :: line) = records parse sep file ++ (parse line).toList := by
  rw [records, splitOn_append_sep, splitOn_plain plain, List.filterMap_append]
  cases parsed : parse line <;> simp [records, parsed]

section

variable (blank : parse [] = none)

include blank

theorem records_nil : records parse sep [] = [] := by
  simp [records, blank]

/-- A separator after an unfinished line adds no record. -/
theorem records_append_finish : records parse sep (file ++ [sep]) = records parse sep file := by
  rw [records_append_sep (by simp), blank]
  simp

theorem records_append (finished : midLine sep file = false) (plain : sep ∉ line) :
    records parse sep (file ++ line) = records parse sep file ++ (parse line).toList := by
  rcases midLine_eq_false.mp finished with rfl | ⟨before, rfl⟩
  · rw [records_nil blank, List.nil_append, List.nil_append, records, splitOn_plain plain]
    cases parsed : parse line <;> simp [parsed]
  · rw [List.append_assoc, List.singleton_append, records_append_sep plain,
      records_append_finish blank]

end

theorem mem_splitOn_append_sep {other : List α} (plain : sep ∉ line)
    (member : other ∈ (file ++ sep :: line).splitOn sep) :
    other ∈ file.splitOn sep ∨ other = line := by
  rw [splitOn_append_sep, splitOn_plain plain] at member
  simpa using member

theorem mem_splitOn_append {other : List α} (finished : midLine sep file = false)
    (plain : sep ∉ line) (member : other ∈ (file ++ line).splitOn sep) :
    other ∈ file.splitOn sep ∨ other = line := by
  rcases midLine_eq_false.mp finished with rfl | ⟨before, rfl⟩
  · rw [List.nil_append, splitOn_plain plain] at member
    exact .inr (by simpa using member)
  · rw [List.append_assoc, List.singleton_append] at member
    rcases mem_splitOn_append_sep plain member with inside | same
    · left
      rw [splitOn_append_sep]
      exact List.mem_append_left _ inside
    · exact .inr same

end Zeron.Data
