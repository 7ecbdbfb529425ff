import Zeron.Data.Json

namespace Zeron.Data

/-! # Byte offsets into text

A text is its characters, and an offset counts the bytes of their UTF-8 form.  An offset
that falls inside a character cuts nothing.
-/

theorem utf8Length_nil : utf8Length [] = 0 := rfl

theorem utf8Length_append (front back : List Char) :
    utf8Length (front ++ back) = utf8Length front + utf8Length back := by
  simp [utf8Length]

theorem utf8Length_cons (char : Char) (text : List Char) :
    utf8Length (char :: text) = char.utf8Size + utf8Length text := by
  simp [utf8Length]

theorem utf8Length_eq_zero {text : List Char} : utf8Length text = 0 ↔ text = [] := by
  cases text with
  | nil => simp [utf8Length]
  | cons char text =>
      have positive := char.utf8Size_pos
      rw [utf8Length_cons]
      simp only [reduceCtorEq, iff_false]
      omega

theorem utf8Length_toList (text : String) : utf8Length text.toList = text.utf8ByteSize := by
  have sizes : ∀ chars : List Char, (String.ofList chars).utf8ByteSize = utf8Length chars := by
    intro chars
    induction chars with
    | nil => simp [utf8Length]
    | cons char chars ih =>
        have split : String.ofList (char :: chars) = String.ofList [char] ++ String.ofList chars := by
          rw [← String.ofList_append, List.singleton_append]
        rw [split, String.utf8ByteSize_append, ih, utf8Length_cons]
        simp
  rw [← sizes, String.ofList_toList]

/-- The text before an offset and the text from it. -/
def cutAt : List Char → Nat → Option (List Char × List Char)
  | text, 0 => some ([], text)
  | [], _ + 1 => none
  | char :: text, offset + 1 =>
      if char.utf8Size ≤ offset + 1 then
        (cutAt text (offset + 1 - char.utf8Size)).map fun cut => (char :: cut.1, cut.2)
      else none

theorem cutAt_zero (text : List Char) : cutAt text 0 = some ([], text) := by
  cases text <;> rfl

theorem cutAt_succ (char : Char) (text : List Char) (offset : Nat) :
    cutAt (char :: text) (offset + 1) =
      if char.utf8Size ≤ offset + 1 then
        (cutAt text (offset + 1 - char.utf8Size)).map fun cut => (char :: cut.1, cut.2)
      else none :=
  rfl

theorem cutAt_eq_some {text front back : List Char} {offset : Nat} :
    cutAt text offset = some (front, back) ↔ text = front ++ back ∧ utf8Length front = offset := by
  induction text generalizing offset front with
  | nil =>
      cases offset with
      | zero =>
          rw [cutAt_zero, utf8Length_eq_zero]
          constructor
          · intro cut
            cases cut
            exact ⟨rfl, rfl⟩
          · rintro ⟨whole, rfl⟩
            rw [whole]
            rfl
      | succ offset =>
          constructor
          · intro cut
            cases cut
          · rintro ⟨whole, size⟩
            rw [(List.append_eq_nil_iff.mp whole.symm).1] at size
            cases size
  | cons char text ih =>
      cases offset with
      | zero =>
          rw [cutAt_zero, utf8Length_eq_zero]
          constructor
          · intro cut
            cases cut
            exact ⟨rfl, rfl⟩
          · rintro ⟨whole, rfl⟩
            rw [whole]
            rfl
      | succ offset =>
          have positive := char.utf8Size_pos
          rw [cutAt_succ]
          constructor
          · intro cut
            split at cut
            · rename_i fits
              obtain ⟨⟨rest, later⟩, isRest, shape⟩ := Option.map_eq_some_iff.mp cut
              cases shape
              obtain ⟨whole, size⟩ := ih.mp isRest
              rw [utf8Length_cons]
              refine ⟨by rw [whole, List.cons_append], ?_⟩
              change char.utf8Size + utf8Length rest = offset + 1
              omega
            · cases cut
          · rintro ⟨whole, size⟩
            cases front with
            | nil => cases size
            | cons first front =>
                rw [List.cons_append, List.cons.injEq] at whole
                obtain ⟨rfl, whole⟩ := whole
                rw [utf8Length_cons] at size
                have fits : char.utf8Size ≤ offset + 1 := by omega
                rw [if_pos fits, ih.mpr ⟨whole, by omega⟩]
                rfl

/-- `str::is_char_boundary`. -/
def isCharBoundary (text : List Char) (offset : Nat) : Bool := (cutAt text offset).isSome

theorem isCharBoundary_iff {text : List Char} {offset : Nat} :
    isCharBoundary text offset = true ↔
      ∃ front back, text = front ++ back ∧ utf8Length front = offset := by
  rw [isCharBoundary, Option.isSome_iff_exists]
  constructor
  · rintro ⟨cut, isCut⟩
    exact ⟨cut.1, cut.2, Iff.mp cutAt_eq_some isCut⟩
  · rintro ⟨front, back, cut⟩
    exact ⟨_, Iff.mpr cutAt_eq_some cut⟩

theorem isCharBoundary_length (text : List Char) : isCharBoundary text (utf8Length text) = true :=
  Iff.mpr isCharBoundary_iff ⟨text, [], by simp, rfl⟩

/-- `while !text.is_char_boundary(end) { end -= 1 }`. -/
def backOff (text : List Char) : Nat → Nat
  | 0 => 0
  | offset + 1 => if isCharBoundary text (offset + 1) then offset + 1 else backOff text offset

theorem backOff_succ (text : List Char) (offset : Nat) :
    backOff text (offset + 1) =
      if isCharBoundary text (offset + 1) then offset + 1 else backOff text offset :=
  rfl

theorem backOff_le (text : List Char) (offset : Nat) : backOff text offset ≤ offset := by
  induction offset with
  | zero => exact Nat.le_refl 0
  | succ offset ih =>
      rw [backOff_succ]
      split
      · exact Nat.le_refl _
      · omega

theorem isCharBoundary_backOff (text : List Char) (offset : Nat) :
    isCharBoundary text (backOff text offset) = true := by
  induction offset with
  | zero => exact Iff.mpr isCharBoundary_iff ⟨[], text, rfl, rfl⟩
  | succ offset ih =>
      rw [backOff_succ]
      split
      · assumption
      · exact ih

theorem backOff_of_boundary {text : List Char} {offset : Nat}
    (boundary : isCharBoundary text offset = true) : backOff text offset = offset := by
  cases offset with
  | zero => rfl
  | succ offset => rw [backOff_succ, if_pos boundary]

theorem le_backOff {text : List Char} {lower offset : Nat}
    (boundary : isCharBoundary text lower = true) (below : lower ≤ offset) :
    lower ≤ backOff text offset := by
  induction offset with
  | zero => omega
  | succ offset ih =>
      rw [backOff_succ]
      split
      · exact below
      · rename_i inside
        have differs : lower ≠ offset + 1 := by
          rintro rfl
          exact inside boundary
        exact ih (by omega)

/-- A character is at most four bytes. -/
theorem boundary_near {text : List Char} {offset : Nat} (inside : offset ≤ utf8Length text) :
    ∃ lower, isCharBoundary text lower = true ∧ lower ≤ offset ∧ offset ≤ lower + 3 := by
  induction text generalizing offset with
  | nil =>
      rw [Iff.mpr utf8Length_eq_zero rfl] at inside
      exact ⟨0, rfl, Nat.zero_le _, by omega⟩
  | cons char text ih =>
      have small := char.utf8Size_le_four
      by_cases first : offset < char.utf8Size
      · exact ⟨0, Iff.mpr isCharBoundary_iff ⟨[], _, rfl, rfl⟩, Nat.zero_le _, by omega⟩
      · rw [utf8Length_cons] at inside
        obtain ⟨lower, boundary, below, near⟩ := ih
          (show offset - char.utf8Size ≤ utf8Length text by omega)
        obtain ⟨front, back, whole, size⟩ := Iff.mp isCharBoundary_iff boundary
        refine ⟨char.utf8Size + lower, ?_, by omega, by omega⟩
        apply Iff.mpr isCharBoundary_iff
        exact ⟨char :: front, back, by rw [whole, List.cons_append], by rw [utf8Length_cons, size]⟩

theorem backOff_near {text : List Char} {offset : Nat} (inside : offset ≤ utf8Length text) :
    offset ≤ backOff text offset + 3 := by
  obtain ⟨lower, boundary, below, near⟩ := boundary_near inside
  have above := le_backOff boundary below
  omega

/-- `String::truncate`, which asserts that the new length is a character boundary. -/
def truncate (text : List Char) (length : Nat) : Option (List Char) :=
  if length ≤ utf8Length text then (cutAt text length).map Prod.fst else some text

theorem truncate_eq_some {text front back : List Char} (whole : text = front ++ back) :
    truncate text (utf8Length front) = some front := by
  have within : utf8Length front ≤ utf8Length text := by
    rw [whole, utf8Length_append]
    omega
  rw [truncate, if_pos within, Iff.mpr cutAt_eq_some ⟨whole, rfl⟩]
  rfl

/-- `text[start..end]`, which panics off a character boundary and on an end before the start. -/
def slice (text : List Char) (start finish : Nat) : Option (List Char) :=
  if start ≤ finish then
    (cutAt text finish).bind fun upper => (cutAt upper.1 start).map Prod.snd
  else none

theorem slice_eq_some {text piece : List Char} {start finish : Nat} :
    slice text start finish = some piece ↔
      ∃ front back, text = front ++ piece ++ back ∧ utf8Length front = start ∧
        utf8Length front + utf8Length piece = finish := by
  rw [slice]
  constructor
  · intro sliced
    split at sliced
    · obtain ⟨⟨upper, back⟩, isUpper, lower⟩ := Option.bind_eq_some_iff.mp sliced
      obtain ⟨⟨front, rest⟩, isFront, rfl⟩ := Option.map_eq_some_iff.mp lower
      obtain ⟨whole, size⟩ := Iff.mp cutAt_eq_some isUpper
      obtain ⟨split, start⟩ := Iff.mp cutAt_eq_some isFront
      dsimp only at split
      rw [split, utf8Length_append] at size
      exact ⟨front, back, by rw [whole, split], start, size⟩
    · cases sliced
  · rintro ⟨front, back, whole, rfl, rfl⟩
    rw [if_pos (Nat.le_add_right _ _), ← utf8Length_append, Iff.mpr cutAt_eq_some ⟨whole, rfl⟩,
      Option.bind_some, Iff.mpr cutAt_eq_some ⟨rfl, rfl⟩]
    rfl

end Zeron.Data
