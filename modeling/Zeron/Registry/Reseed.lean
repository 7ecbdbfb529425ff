import Zeron.Registry.Accounted

namespace Zeron.Registry

open Std (ExtTreeMap)
open Zeron.Data

/-! # A row out of its own seed

A seed carries a row's fields under their own clocks, or its tombstone.  What it
leaves behind are the clocks of fields that were cleared, since a field is written
only where `set` names it, and the tombstone clock of a row that was revived.
-/

/-! ## Rows that ops can make -/

/-- Every field has a clock, no field holds a null, and a tombstone is bare. -/
structure Grown (row : RegistryRow) : Prop where
  good : RowGood (fun _ _ => True) row
  tombstone : row.deleted = true → row.delHlc ≠ none ∧ row.fields = ∅ ∧ row.clocks = ∅

theorem grown_applyOp {row : Option RegistryRow} (grown : ∀ held ∈ row, Grown held) (op : RowOp) :
    ∀ held ∈ (applyOp row op).1, Grown held := by
  intro held isHeld
  have good := rowGood_applyOp (fun before isBefore => (grown before isBefore).good)
    (fun _ _ _ => trivial : OpGood (fun _ _ => True) op) held isHeld
  refine ⟨good, fun dead => ?_⟩
  rcases applyOp_cases row op with ⟨_, same⟩ | ⟨_, same⟩ | ⟨_, _, same⟩
  · rw [same] at isHeld
    cases isHeld
    rw [writeOver_live (op.base_deleted row)] at dead
    cases dead
  · rw [same] at isHeld
    cases isHeld
    cases row <;> exact ⟨by simp [RowOp.buried, RegistryRow.tombstone], rfl, rfl⟩
  · rw [same] at isHeld
    exact (grown held isHeld).tombstone dead

theorem grown_applyOps (ops : List RowOp) : ∀ held ∈ applyOps none ops, Grown held := by
  induction ops using List.reverseRecOn with
  | nil =>
      intro held isHeld
      cases isHeld
  | append_singleton ops op ih =>
      rw [applyOps_append]
      exact grown_applyOp ih op

/-! ## What the seed makes -/

theorem seed_lands {row : RegistryRow} (live : row.deleted = false) :
    (rowToSeedOp row).lands none = true := by
  simp [rowToSeedOp, live, RowOp.lands]

/-- The copy a live row's seed makes holds the row's cell wherever the row has a
field, and nothing elsewhere. -/
theorem seeded_cell {row : RegistryRow} (grown : Grown row) (live : row.deleted = false)
    (field : String) :
    ((rowToSeedOp row).writeOver ((rowToSeedOp row).base none)).cell field =
      if row.fields[field]? = none then .blank else row.cell field := by
  have write : (rowToSeedOp row).write? field =
      row.fields[field]?.map fun value => ⟨value.stored, (rowToSeedOp row).clockFor field⟩ := by
    simp [RowOp.write?, rowToSeedOp, live]
  rw [RowOp.writeOver_base_cell rfl, write]
  cases value : row.fields[field]? with
  | none => rfl
  | some value_ =>
      cases clock : row.clocks[field]? with
      | none =>
          rw [grown.good.clocked field clock] at value
          cases value
      | some held =>
          have stamp : (rowToSeedOp row).clockFor field = held := by
            simp [rowToSeedOp, live, RowOp.clockFor, clock]
          simp [stamp, Lww.Cell.write, Lww.Cell.blank, RegistryRow.cell, value, clock,
            grown.good.stored field value_ value]

theorem seeded_header (row : RegistryRow) :
    ((rowToSeedOp row).writeOver ((rowToSeedOp row).base none)).deleted = false ∧
      ((rowToSeedOp row).writeOver ((rowToSeedOp row).base none)).delHlc = none :=
  ⟨writeOver_live (RowOp.base_deleted _ none), ((rowToSeedOp row).writeOver_header _).delHlc⟩

/-! ## Rows that react alike -/

/-- What a later op shows of a row: its fields afterwards, and the changed flag. -/
def reaction (row : RegistryRow) (op : RowOp) : Option (BTreeMap Json) × Bool :=
  ((applyOp (some row) op).1.map RegistryRow.fields, (applyOp (some row) op).2)

/-- The clock an op must beat to delete the row, or to revive it. -/
def RegistryRow.guard (row : RegistryRow) : Option Hlc :=
  if row.deleted then row.delHlc else row.maxClock

theorem foldl_writeField_alike (op : RowOp) (entries : List (String × Json))
    {left right : RegistryRow} (fields : left.fields = right.fields)
    (clocks : left.clocks = right.clocks) (changed : Bool) :
    let leftEnd := entries.foldl (writeField op) (left, changed)
    let rightEnd := entries.foldl (writeField op) (right, changed)
    leftEnd.1.fields = rightEnd.1.fields ∧ leftEnd.2 = rightEnd.2 := by
  induction entries generalizing left right changed with
  | nil => exact ⟨fields, rfl⟩
  | cons entry rest ih =>
      simp only [List.foldl_cons, writeField, clocks]
      split
      · exact ih fields clocks changed
      · exact ih (by simp [fields]) (by simp) true

theorem writeFields_alike (op : RowOp) {left right : RegistryRow}
    (fields : left.fields = right.fields) (clocks : left.clocks = right.clocks) (changed : Bool) :
    (writeFields op left changed).1.map RegistryRow.fields =
        (writeFields op right changed).1.map RegistryRow.fields ∧
      (writeFields op left changed).2 = (writeFields op right changed).2 := by
  obtain ⟨rows, flags⟩ := foldl_writeField_alike op op.writes fields clocks changed
  unfold writeFields
  dsimp only
  rw [flags]
  split
  · exact ⟨congrArg some rows, rfl⟩
  · exact ⟨congrArg some rows, rfl⟩

/-- Rows with one content and equally strong guards react alike to every op. -/
theorem reaction_alike {left right : RegistryRow} (deleted : left.deleted = right.deleted)
    (fields : left.fields = right.fields) (clocks : left.clocks = right.clocks)
    (guards : ∀ hlc, hlcNewer hlc left.guard = hlcNewer hlc right.guard) (op : RowOp) :
    reaction left op = reaction right op := by
  have beats := guards op.hlc
  unfold RegistryRow.guard at beats
  cases gone : right.deleted with
  | true =>
      rw [gone] at deleted
      simp only [deleted, gone, if_true] at beats
      cases kind : op.op with
      | delete => cases newer : hlcNewer op.hlc right.delHlc <;>
          simp [reaction, applyOp, kind, deleted, gone, beats, newer, fields]
      | update => simp [reaction, applyOp, kind, deleted, gone, fields]
      | upsert =>
          cases newer : hlcNewer op.hlc right.delHlc with
          | false => simp [reaction, applyOp, kind, deleted, gone, beats, newer, fields]
          | true =>
              have alike := @writeFields_alike op
                { left with deleted := false, fields := ∅, clocks := ∅ }
                { right with deleted := false, fields := ∅, clocks := ∅ } rfl rfl true
              simpa [reaction, applyOp, kind, deleted, gone, beats, newer] using alike
  | false =>
      rw [gone] at deleted
      simp only [deleted, gone, Bool.false_eq_true, if_false] at beats
      by_cases delete : op.op = .delete
      · cases newer : hlcNewer op.hlc right.maxClock <;>
          simp [reaction, applyOp, delete, deleted, gone, beats, newer, fields]
      · have alike := writeFields_alike op fields clocks false
        simpa [reaction, applyOp, delete, deleted, gone] using alike

/-! ## What a seed keeps -/

/-- Seeding an empty server makes the same row again: the same flag, fields and
clocks, and the same answer to every later op. -/
def SeedsWhole (row : RegistryRow) : Prop :=
  ∃ copy, (applyOp none (rowToSeedOp row)).1 = some copy ∧ copy.deleted = row.deleted ∧
    copy.fields = row.fields ∧ copy.clocks = row.clocks ∧
    ∀ later, reaction row later = reaction copy later

/-- No cleared field keeps a clock, and no tombstone clock beats the whole row. -/
structure Unscarred (row : RegistryRow) : Prop where
  cleared : ∀ field : String, row.fields[field]? = none → row.clocks[field]? = none
  revived : ∀ gone ∈ row.delHlc, ∃ (field : String) (clock : Hlc),
    row.clocks[field]? = some clock ∧ gone ≤ clock

theorem seedsWhole_of_tombstone {row : RegistryRow} (grown : Grown row)
    (dead : row.deleted = true) : SeedsWhole row := by
  obtain ⟨stamped, noFields, noClocks⟩ := grown.tombstone dead
  obtain ⟨gone, isGone⟩ := Option.ne_none_iff_exists'.mp stamped
  refine ⟨.tombstone row.kind row.id gone, ?_, dead.symm, noFields.symm, noClocks.symm, ?_⟩
  · simp [applyOp, rowToSeedOp, dead, isGone]
  · refine reaction_alike dead noFields noClocks fun hlc => ?_
    simp [RegistryRow.guard, dead, isGone, RegistryRow.tombstone]

theorem seedsWhole_live_iff {row : RegistryRow} (grown : Grown row) (live : row.deleted = false) :
    SeedsWhole row ↔ Unscarred row := by
  have copied := applyOp_of_lands (seed_lands live)
  obtain ⟨copyLive, copyGone⟩ := seeded_header row
  have cells := seeded_cell grown live
  generalize (rowToSeedOp row).writeOver ((rowToSeedOp row).base none) = copy at *
  have fields : copy.fields = row.fields := by
    refine ExtTreeMap.ext_getElem? fun {field} => ?_
    have value := congrArg Lww.Cell.value (cells field)
    split at value
    · rename_i absent
      exact value.trans absent.symm
    · exact value
  have copyClocks : ∀ field : String, copy.clocks[field]? =
      if row.fields[field]? = none then none else row.clocks[field]? := by
    intro field
    have clock := congrArg Lww.Cell.clock (cells field)
    split at clock <;> simp_all [RegistryRow.cell, Lww.Cell.blank]
  have rowGuard : ∀ hlc, hlcNewer hlc row.guard = true ↔
      hlcNewer hlc row.delHlc = true ∧ ∀ field : String, hlcNewer hlc row.clocks[field]? = true := by
    intro hlc
    simp [RegistryRow.guard, live, hlcNewer_maxClock]
  have copyGuard : ∀ hlc, hlcNewer hlc copy.guard = true ↔
      ∀ field : String, hlcNewer hlc copy.clocks[field]? = true := by
    intro hlc
    have ungated : hlcNewer hlc copy.delHlc = true := by rw [copyGone]; rfl
    simp [RegistryRow.guard, copyLive, hlcNewer_maxClock, ungated]
  constructor
  · rintro ⟨other, isOther, -, -, clocks, alike⟩
    rw [copied, Option.some.injEq] at isOther
    subst isOther
    refine ⟨fun field absent => ?_, fun gone isGone => ?_⟩
    · rw [← clocks, copyClocks field, if_pos absent]
    · -- A delete stamped with the tombstone clock spares the row, so it spares the copy.
      by_contra unmatched
      have isGone : row.delHlc = some gone := isGone
      have rowSpared : hlcNewer gone row.guard = false := by
        rw [← Bool.not_eq_true, rowGuard]
        exact fun beats => absurd beats.1 (by simp [isGone, hlcNewer])
      have copyBuried : hlcNewer gone copy.guard = true := by
        refine (copyGuard gone).mpr fun field => ?_
        rw [clocks]
        cases held : row.clocks[field]? with
        | none => rfl
        | some clock =>
            by_contra above
            exact unmatched ⟨field, clock, held,
              not_lt.mp fun below => above (decide_eq_true below)⟩
      have flags := congrArg Prod.snd (alike
        { kind := row.kind, id := row.id, op := .delete, set := none, hlc := gone, clocks := none })
      simp only [RegistryRow.guard, live, copyLive, Bool.false_eq_true, if_false] at rowSpared copyBuried
      simp [reaction, applyOp, live, copyLive, rowSpared, copyBuried] at flags
  · rintro ⟨cleared, revived⟩
    have clocks : copy.clocks = row.clocks := by
      refine ExtTreeMap.ext_getElem? fun {field} => ?_
      rw [copyClocks field]
      split
      · rename_i absent
        exact (cleared field absent).symm
      · rfl
    refine ⟨copy, copied, copyLive.trans live.symm, fields, clocks, ?_⟩
    refine reaction_alike (live.trans copyLive.symm) fields.symm clocks.symm fun hlc => ?_
    rw [Bool.eq_iff_iff, rowGuard, copyGuard, clocks]
    refine ⟨And.right, fun beats => ⟨?_, beats⟩⟩
    cases isGone : row.delHlc with
    | none => rfl
    | some gone =>
        obtain ⟨field, clock, held, below⟩ := revived gone isGone
        have wins := beats field
        rw [held] at wins
        exact decide_eq_true (lt_of_le_of_lt below (of_decide_eq_true wins))

/-- A row that ops made is made again by its seed exactly when it is a tombstone
or carries no scar. -/
theorem seedsWhole_iff {ops : List RowOp} {row : RegistryRow} (made : applyOps none ops = some row) :
    SeedsWhole row ↔ row.deleted = true ∨ Unscarred row := by
  have grown := grown_applyOps ops row made
  cases dead : row.deleted with
  | true => exact ⟨fun _ => .inl rfl, fun _ => seedsWhole_of_tombstone grown dead⟩
  | false => simp [seedsWhole_live_iff grown dead]

/-- A session whose status is set and then cleared. -/
def clearedOps : List RowOp :=
  [{ kind := kindSessions, id := "chat-1", op := .upsert
     set := some (fields [("status", .string "idle"), ("unread", .bool true)])
     hlc := encodeHlc 1000 0 "dev-a", clocks := none },
   { kind := kindSessions, id := "chat-1", op := .update
     set := some (fields [("status", .null)]), hlc := encodeHlc 9000 0 "dev-a", clocks := none }]

def clearedRow : RegistryRow :=
  { kind := kindSessions, id := "chat-1", seq := 0, deleted := false, delHlc := none
    fields := fields [("unread", .bool true)]
    clocks := ExtTreeMap.ofList
      [("status", encodeHlc 9000 0 "dev-a"), ("unread", encodeHlc 1000 0 "dev-a")] }

theorem seedsWhole_cleared : applyOps none clearedOps = some clearedRow ∧
    (SeedsWhole clearedRow ↔ clearedRow.deleted = true ∨ Unscarred clearedRow) :=
  have made : applyOps none clearedOps = some clearedRow := by decide
  ⟨made, seedsWhole_iff made⟩

/-- The seed forgets when the status was cleared. -/
theorem seedsWhole_fails_cleared :
    ¬ ∀ ops row, applyOps none ops = some row → SeedsWhole row := by
  intro whole
  obtain ⟨copy, isCopy, _, _, clocks, _⟩ :=
    whole clearedOps clearedRow (by decide)
  have seeded : (applyOp none (rowToSeedOp clearedRow)).1.map RegistryRow.clocks =
      some clearedRow.clocks := by
    rw [isCopy, Option.map_some, clocks]
  exact absurd seeded (by decide)

end Zeron.Registry
