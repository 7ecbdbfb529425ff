import Mathlib

namespace Zeron.Data.Lww

/-! # Last-writer-wins cells

A cell keeps the value of its newest write together with that write's clock.
Clearing a cell is a write like any other: it stores no value but still leaves
its clock behind.  Nothing here depends on what the clocks are beyond their
being linearly ordered.
-/

variable {κ : Type u} {ν : Type v} [LinearOrder κ]

/-- A clock strictly newer than the stored one.  A cell never written loses
to any clock. -/
def newer (clock : κ) : Option κ → Bool
  | none => true
  | some stored => decide (stored < clock)

@[simp] theorem newer_none (clock : κ) : newer clock none = true := rfl

@[simp] theorem newer_some (clock stored : κ) :
    newer clock (some stored) = decide (stored < clock) := rfl

theorem newer_eq_false {clock : κ} {stored : Option κ} :
    newer clock stored = false ↔ ∃ held, stored = some held ∧ clock ≤ held := by
  cases stored <;> simp [newer]

theorem newer_trans {clock later : κ} {stored : Option κ}
    (first : newer clock stored = true) (second : clock ≤ later) :
    newer later stored = true := by
  cases stored with
  | none => rfl
  | some held => simp only [newer_some, decide_eq_true_eq] at *; exact lt_of_lt_of_le first second

structure Write (κ : Type u) (ν : Type v) where
  value : Option ν
  clock : κ

@[ext]
structure Cell (κ : Type u) (ν : Type v) where
  value : Option ν
  clock : Option κ

/-- The cell no write has reached. -/
def Cell.blank : Cell κ ν := ⟨none, none⟩

def Cell.write (cell : Cell κ ν) (write : Write κ ν) : Cell κ ν :=
  if newer write.clock cell.clock then ⟨write.value, some write.clock⟩ else cell

/-- The cell that holds just this write. -/
def Write.cell (write : Write κ ν) : Cell κ ν := ⟨write.value, some write.clock⟩

/-- An operation may leave a cell alone. -/
def Cell.apply (cell : Cell κ ν) : Option (Write κ ν) → Cell κ ν
  | none => cell
  | some write => cell.write write

@[simp] theorem Cell.apply_none (cell : Cell κ ν) : cell.apply none = cell := rfl

@[simp] theorem Cell.apply_some (cell : Cell κ ν) (write : Write κ ν) :
    cell.apply (some write) = cell.write write := rfl

/-! ## Sequencing two writes -/

/-- The one write two successive writes amount to.  A tie keeps the earlier. -/
def Write.followedBy (first second : Write κ ν) : Write κ ν :=
  if newer second.clock (some first.clock) then second else first

/-- `followedBy` for operations that may leave the cell alone. -/
def followedBy : Option (Write κ ν) → Option (Write κ ν) → Option (Write κ ν)
  | none, second => second
  | first, none => first
  | some first, some second => some (first.followedBy second)

theorem Cell.write_followedBy (cell : Cell κ ν) (first second : Write κ ν) :
    cell.write (first.followedBy second) = (cell.write first).write second := by
  by_cases later : first.clock < second.clock
  · by_cases wins : newer first.clock cell.clock = true
    · have alsoWins := newer_trans wins later.le
      simp [Cell.write, Write.followedBy, later, wins, alsoWins]
    · simp [Cell.write, Write.followedBy, later, wins]
  · by_cases wins : newer first.clock cell.clock = true
    · simp [Cell.write, Write.followedBy, later, wins]
    · have alsoLoses : newer second.clock cell.clock = false := by
        by_contra winning
        simp only [Bool.not_eq_false] at winning
        exact wins (newer_trans winning (not_lt.mp later))
      simp [Cell.write, Write.followedBy, later, wins, alsoLoses]

theorem Cell.apply_followedBy (cell : Cell κ ν) (first second : Option (Write κ ν)) :
    cell.apply (followedBy first second) = (cell.apply first).apply second := by
  cases first with
  | none => rfl
  | some first =>
      cases second with
      | none => rfl
      | some second => exact cell.write_followedBy first second

/-! ## Writes a cell has already absorbed -/

/-- The cell holds that write or a newer one. -/
def Cell.Covers (cell : Cell κ ν) (write : Write κ ν) : Prop :=
  newer write.clock cell.clock = false

theorem Cell.covers_iff {cell : Cell κ ν} {write : Write κ ν} :
    cell.Covers write ↔ ∃ held, cell.clock = some held ∧ write.clock ≤ held :=
  newer_eq_false

theorem Cell.write_eq_self_iff {cell : Cell κ ν} {write : Write κ ν} :
    cell.write write = cell ↔ cell.Covers write := by
  constructor
  · intro same
    by_contra uncovered
    have wins : newer write.clock cell.clock = true := by
      simpa only [Cell.Covers, Bool.not_eq_false] using uncovered
    have clock := congrArg Cell.clock same
    simp only [Cell.write, wins, if_true] at clock
    rw [← clock] at wins
    simp at wins
  · intro covered
    have loses : newer write.clock cell.clock = false := covered
    simp [Cell.write, loses]

theorem Cell.covers_write (cell : Cell κ ν) (write : Write κ ν) :
    (cell.write write).Covers write := by
  by_cases wins : newer write.clock cell.clock = true
  · simp [Cell.Covers, Cell.write, wins]
  · simp [Cell.Covers, Cell.write, wins]

/-- Clocks only move forward, so a later write uncovers nothing. -/
theorem Cell.Covers.write {cell : Cell κ ν} {held : Write κ ν}
    (covered : cell.Covers held) (write : Write κ ν) : (cell.write write).Covers held := by
  obtain ⟨clock, stored, le⟩ := Cell.covers_iff.mp covered
  by_cases wins : newer write.clock cell.clock = true
  · have later : clock < write.clock := by simpa [stored] using wins
    exact Cell.covers_iff.mpr ⟨write.clock, by simp [Cell.write, wins], le.trans later.le⟩
  · simpa [Cell.write, wins] using covered

theorem Cell.Covers.apply {cell : Cell κ ν} {held : Write κ ν}
    (covered : cell.Covers held) (write : Option (Write κ ν)) :
    (cell.apply write).Covers held := by
  cases write with
  | none => exact covered
  | some write => exact covered.write write

/-! ## Keeping up with another cell -/

/-- The cell is as another shows it, or holds a newer write. -/
def Cell.KeepsUp (cell shown : Cell κ ν) : Prop :=
  cell = shown ∨ ∃ clock, cell.clock = some clock ∧ newer clock shown.clock = true

theorem Cell.not_keepsUp_blank {shown : Cell κ ν} (valued : shown.value ≠ none) :
    ¬ (Cell.blank : Cell κ ν).KeepsUp shown := by
  rintro (same | ⟨clock, stored, _⟩)
  · exact valued (congrArg Cell.value same).symm
  · cases stored

/-- A write replaces a cell only by something newer. -/
theorem Cell.KeepsUp.write {cell shown : Cell κ ν} (keeps : cell.KeepsUp shown)
    (write : Write κ ν) : (cell.write write).KeepsUp shown := by
  unfold Cell.write
  split
  · rename_i wins
    refine .inr ⟨write.clock, rfl, ?_⟩
    rcases keeps with same | ⟨clock, stored, later⟩
    · rw [← same]
      exact wins
    · rw [stored, newer_some, decide_eq_true_eq] at wins
      exact newer_trans later wins.le
  · exact keeps

/-- A cell keeps up after a write when it did before, or when the write took
hold and keeps up itself. -/
theorem Cell.keepsUp_write_iff {cell shown : Cell κ ν} {write : Write κ ν} :
    (cell.write write).KeepsUp shown ↔
      cell.KeepsUp shown ∨ newer write.clock cell.clock = true ∧ write.cell.KeepsUp shown := by
  constructor
  · intro keeps
    unfold Cell.write at keeps
    split at keeps
    · rename_i wins
      exact .inr ⟨wins, keeps⟩
    · exact .inl keeps
  · rintro (keeps | ⟨wins, keeps⟩)
    · exact keeps.write write
    · simpa [Cell.write, wins, Write.cell] using keeps

theorem Write.le_of_keepsUp {later write : Write κ ν} (keeps : later.cell.KeepsUp write.cell) :
    write.clock ≤ later.clock := by
  rcases keeps with same | ⟨clock, stored, newer⟩
  · exact (Option.some.inj (congrArg Cell.clock same)).ge
  · cases stored
    exact (of_decide_eq_true newer).le

/-- A write not older than another keeps up with it, if one clock means one
write. -/
theorem Write.keepsUp_of_le {later write : Write κ ν}
    (same : later.clock = write.clock → later.value = write.value)
    (le : write.clock ≤ later.clock) : later.cell.KeepsUp write.cell := by
  rcases lt_or_eq_of_le le with before | equal
  · exact .inr ⟨later.clock, rfl, decide_eq_true before⟩
  · exact .inl (Cell.ext (same equal.symm) (congrArg some equal.symm))

/-- Two writes in sequence amount to one not older than either. -/
theorem le_followedBy {first second : Option (Write κ ν)} {write : Write κ ν}
    (either : write ∈ first ∨ write ∈ second) :
    ∃ final ∈ followedBy first second, write.clock ≤ final.clock := by
  cases first with
  | none => exact ⟨write, by simpa [followedBy] using either, le_refl _⟩
  | some first =>
      cases second with
      | none => exact ⟨write, by simpa [followedBy] using either, le_refl _⟩
      | some second =>
          refine ⟨first.followedBy second, rfl, ?_⟩
          have held : write = first ∨ write = second :=
            either.imp (fun is => (Option.some.inj is).symm) (fun is => (Option.some.inj is).symm)
          by_cases later : first.clock < second.clock
          · simp only [Write.followedBy, newer_some, later, decide_true, if_true]
            rcases held with rfl | rfl
            · exact later.le
            · exact le_refl _
          · simp only [Write.followedBy, newer_some, later, decide_false, Bool.false_eq_true,
              if_false]
            rcases held with rfl | rfl
            · exact le_refl _
            · exact not_lt.mp later

theorem mem_of_followedBy {first second : Option (Write κ ν)} {write : Write κ ν}
    (final : write ∈ followedBy first second) : write ∈ first ∨ write ∈ second := by
  cases first with
  | none => exact .inr final
  | some first =>
      cases second with
      | none => exact .inl final
      | some second =>
          have is : first.followedBy second = write := Option.some.inj final
          unfold Write.followedBy at is
          split at is
          · exact .inr (congrArg some is)
          · exact .inl (congrArg some is)

/-! ## Arrival order -/

theorem Cell.write_comm (cell : Cell κ ν) {first second : Write κ ν}
    (distinct : first.clock ≠ second.clock) :
    (cell.write first).write second = (cell.write second).write first := by
  rw [← cell.write_followedBy, ← cell.write_followedBy]
  have same : first.followedBy second = second.followedBy first := by
    rcases lt_or_gt_of_ne distinct with before | after
    · simp [Write.followedBy, before, not_lt.mpr before.le]
    · simp [Write.followedBy, after, not_lt.mpr after.le]
  rw [same]

theorem Cell.apply_comm (cell : Cell κ ν) {first second : Option (Write κ ν)}
    (distinct : ∀ a ∈ first, ∀ b ∈ second, a.clock ≠ b.clock) :
    (cell.apply first).apply second = (cell.apply second).apply first := by
  cases first with
  | none => rfl
  | some first =>
      cases second with
      | none => rfl
      | some second => exact cell.write_comm (distinct first rfl second rfl)

end Zeron.Data.Lww
