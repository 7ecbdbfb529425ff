import Zeron.Registry.Convergence
import Zeron.Edge.Core

namespace Zeron.Registry

open Zeron.Data
open Std (ExtTreeMap)

/-! # Delivering an op again

A transport may deliver an op twice, with anything in between.  Straight after
its first delivery an op changes nothing.  It stays without effect through
every step that leaves the row live, and through deletes newer than it; what
can bring it back to life is a tombstone older than the op, or a row made
anew without the op's fields.
-/

/-- Ops applied one after the other. -/
def applyOps (row : Option RegistryRow) (ops : List RowOp) : Option RegistryRow :=
  ops.foldl (fun row op => (applyOp row op).1) row

theorem applyOps_append (row : Option RegistryRow) (first second : List RowOp) :
    applyOps row (first ++ second) = applyOps (applyOps row first) second :=
  List.foldl_append

theorem applyOps_cons (row : Option RegistryRow) (op : RowOp) (rest : List RowOp) :
    applyOps row (op :: rest) = applyOps (applyOp row op).1 rest := rfl

/-! ## The newest clock of a row -/

/-- Newer than a row's newest clock is newer than every clock on it. -/
theorem hlcNewer_maxClock {hlc : Hlc} {row : RegistryRow} :
    hlcNewer hlc row.maxClock = true ↔
      hlcNewer hlc row.delHlc = true ∧ ∀ field : String, hlcNewer hlc row.clocks[field]? = true := by
  have fold : ∀ (entries : List (String × Hlc)) (start : Option Hlc),
      hlcNewer hlc (entries.foldl (fun max entry =>
          if max.all (fun held => decide (entry.2 > held)) then some entry.2 else max) start) =
        true ↔
      hlcNewer hlc start = true ∧ ∀ entry ∈ entries, entry.2 < hlc := by
    intro entries
    induction entries with
    | nil => simp
    | cons entry rest ih =>
        intro start
        rw [List.foldl_cons, ih]
        cases start with
        | none => simp [hlcNewer]
        | some held =>
            by_cases beats : entry.2 > held
            · simp only [Option.all_some, beats, decide_true, if_true, hlcNewer,
                decide_eq_true_eq, gt_iff_lt, List.forall_mem_cons]
              exact ⟨fun ⟨first, others⟩ => ⟨lt_trans beats first, first, others⟩,
                fun ⟨_, first, others⟩ => ⟨first, others⟩⟩
            · simp only [Option.all_some, beats, decide_false, Bool.false_eq_true, if_false,
                hlcNewer, decide_eq_true_eq, gt_iff_lt, List.forall_mem_cons]
              exact ⟨fun ⟨first, others⟩ =>
                  ⟨first, lt_of_le_of_lt (not_lt.mp beats) first, others⟩,
                fun ⟨first, _, others⟩ => ⟨first, others⟩⟩
  rw [RegistryRow.maxClock, fold]
  refine and_congr_right fun _ => ⟨fun all field => ?_, fun all entry member => ?_⟩
  · cases held : row.clocks[field]? with
    | none => rfl
    | some clock =>
        have member := ExtTreeMap.mem_toList_iff_getElem?_eq_some.mpr held
        simpa [hlcNewer] using all _ member
  · have held := ExtTreeMap.mem_toList_iff_getElem?_eq_some.mp member
    simpa [hlcNewer, held] using all entry.1

/-! ## When an op has nothing left to do -/

/-- The op changes nothing on this row. -/
def Settled (op : RowOp) (row : Option RegistryRow) : Prop := (applyOp row op).1 = row

/-- Every field the op writes holds that write or a newer one. -/
def RowOp.WrittenIn (op : RowOp) (row : RegistryRow) : Prop :=
  ∀ field, ∀ write ∈ op.write? field, (row.cell field).Covers write

theorem RowOp.writeOver_eq_self_iff {op : RowOp} {row : RegistryRow} :
    op.writeOver row = row ↔ op.WrittenIn row := by
  constructor
  · intro same field write wrote
    have cell := congrArg (fun row : RegistryRow => row.cell field) same
    simp only [RowOp.writeOver_cell, Option.mem_def.mp wrote] at cell
    exact Lww.Cell.write_eq_self_iff.mp cell
  · intro written
    refine RegistryRow.ext_cells (op.writeOver_header row) (fun field => ?_)
    rw [RowOp.writeOver_cell]
    cases wrote : op.write? field with
    | none => rfl
    | some write => exact Lww.Cell.write_eq_self_iff.mpr (written field write wrote)

theorem RowOp.lands_of_delete {op : RowOp} (delete : op.op = .delete)
    (row : Option RegistryRow) : op.lands row = false := by
  cases row with
  | none => simp [RowOp.lands, delete]
  | some row => cases gone : row.deleted <;> simp [RowOp.lands, delete, gone]

/-- A delete is settled once it would bury nothing. -/
theorem settled_delete_iff {op : RowOp} (delete : op.op = .delete) (row : Option RegistryRow) :
    Settled op row ↔ op.buries row = false := by
  constructor
  · intro same
    by_contra buries
    simp only [Bool.not_eq_false] at buries
    simp only [Settled, applyOp_of_buries buries] at same
    cases row with
    | none => cases same
    | some row =>
        -- A row equal to the tombstone the op leaves is not older than the op.
        have is : row = op.buried (some row) := (Option.some.inj same).symm
        rw [is] at buries
        simp [RowOp.buries, RowOp.buried, hlcNewer] at buries
  · intro spares
    simp [Settled, applyOp_of_inert (RowOp.lands_of_delete delete row) spares]

/-- An upsert or update is settled where it does not land, and on a live row
that holds its writes. -/
theorem settled_write_iff {op : RowOp} (writes : op.op ≠ .delete) (row : Option RegistryRow) :
    Settled op row ↔
      (op.lands row = true →
        ∃ live, row = some live ∧ live.deleted = false ∧ op.WrittenIn live) := by
  constructor
  · intro same lands
    simp only [Settled, applyOp_of_lands lands] at same
    have live : (op.writeOver (op.base row)).deleted = false :=
      writeOver_live (op.base_deleted row)
    have again := same
    rw [← again, RowOp.base_of_live live] at again
    exact ⟨_, same.symm, live, RowOp.writeOver_eq_self_iff.mp (Option.some.inj again)⟩
  · intro settled
    cases lands : op.lands row with
    | false => simp [Settled, applyOp_of_inert lands (RowOp.buries_of_write writes row)]
    | true =>
        obtain ⟨live, rfl, here, written⟩ := settled lands
        rw [Settled, applyOp_of_live here writes, RowOp.writeOver_eq_self_iff.mpr written]

/-- Delivered twice in a row, an op counts once. -/
theorem applyOp_settled (op : RowOp) (row : Option RegistryRow) :
    Settled op (applyOp row op).1 := by
  rcases applyOp_cases row op with ⟨lands, same⟩ | ⟨buries, same⟩ | ⟨_, _, same⟩
  · have writes : op.op ≠ .delete := by
      intro delete
      rw [RowOp.lands_of_delete delete row] at lands
      cases lands
    rw [same, settled_write_iff writes]
    intro _
    refine ⟨_, rfl, writeOver_live (op.base_deleted row), fun field write wrote => ?_⟩
    rw [RowOp.writeOver_cell, Option.mem_def.mp wrote]
    exact Lww.Cell.covers_write _ write
  · have delete : op.op = .delete := by
      by_contra writes
      rw [RowOp.buries_of_write writes row] at buries
      cases buries
    rw [same, settled_delete_iff delete]
    cases row <;> simp [RowOp.buries, RowOp.buried, RegistryRow.tombstone, hlcNewer]
  · rw [same]
    exact same

/-! ## What a step in between may do -/

/-- `next` writes every field `op` writes, none with an older clock. -/
def carries (next op : RowOp) : Bool :=
  op.writes.all fun entry =>
    next.set.any (fun set => set.contains entry.1) &&
      decide (op.clockFor entry.1 ≤ next.clockFor entry.1)

/-- A step after which an op settled on `row` is still settled. -/
structure KeepsSettled (op : RowOp) (row : Option RegistryRow) (next : RowOp) : Prop where
  /-- A delete that buries the row is not older than an upsert. -/
  buries : op.op = .upsert → next.buries row = true → op.hlc ≤ next.hlc
  /-- An op that makes the row, or makes it anew, brings the op's fields. -/
  makes : op.op ≠ .delete → next.lands row = true → row.all (·.deleted) = true →
    carries next op = true

theorem carries_iff {next op : RowOp} :
    carries next op = true ↔
      ∀ field, ∀ write ∈ op.write? field, ∃ later ∈ next.write? field,
        write.clock ≤ later.clock := by
  simp only [carries, List.all_eq_true, Bool.and_eq_true, decide_eq_true_eq,
    RowOp.set_contains_iff, Option.mem_def, RowOp.write?_eq_some_iff]
  constructor
  · rintro all field _ ⟨value, member, rfl⟩
    obtain ⟨⟨other, present⟩, clock⟩ := all _ member
    exact ⟨_, ⟨other, present, rfl⟩, clock⟩
  · rintro all ⟨field, value⟩ member
    obtain ⟨_, ⟨other, present, rfl⟩, clock⟩ := all field _ ⟨value, member, rfl⟩
    exact ⟨⟨other, present⟩, clock⟩

/-- A row made anew holds exactly the writes of the op that made it. -/
theorem RowOp.writeOver_base_cell {op : RowOp} {row : Option RegistryRow}
    (gone : row.all (·.deleted) = true) (field : String) :
    (op.writeOver (op.base row)).cell field = Lww.Cell.blank.apply (op.write? field) := by
  rw [RowOp.writeOver_cell]
  congr 1
  cases row with
  | none => rfl
  | some row =>
      have deleted : row.deleted = true := gone
      simp [RowOp.base, deleted, RegistryRow.cell, Lww.Cell.blank]

theorem writtenIn_made_iff {op next : RowOp} {row : Option RegistryRow}
    (gone : row.all (·.deleted) = true) :
    op.WrittenIn (next.writeOver (next.base row)) ↔ carries next op = true := by
  rw [carries_iff]
  refine forall_congr' fun field => forall_congr' fun write => forall_congr' fun _ => ?_
  rw [RowOp.writeOver_base_cell gone, Lww.Cell.covers_iff]
  cases wrote : next.write? field with
  | none => simp [Lww.Cell.blank]
  | some later => simp [Lww.Cell.blank, Lww.Cell.write]

theorem RowOp.WrittenIn.writeOver {op next : RowOp} {row : RegistryRow}
    (written : op.WrittenIn row) : op.WrittenIn (next.writeOver row) := by
  intro field write wrote
  rw [RowOp.writeOver_cell]
  exact (written field write wrote).apply _

/-- Clocks on a row only move forward, whichever way it is overwritten. -/
theorem maxClock_writeOver {hlc : Hlc} {op : RowOp} {row : RegistryRow}
    (newer : hlcNewer hlc (op.writeOver row).maxClock = true) :
    hlcNewer hlc row.maxClock = true := by
  rw [hlcNewer_maxClock] at newer ⊢
  refine ⟨(op.writeOver_header row).delHlc ▸ newer.1, fun field => ?_⟩
  by_contra older
  have covered : (row.cell field).Covers ⟨none, hlc⟩ := by
    simpa [Lww.Cell.Covers, RegistryRow.cell, hlcNewer_eq_newer] using older
  have still := covered.apply (op.write? field)
  rw [← RowOp.writeOver_cell] at still
  have wins := newer.2 field
  rw [hlcNewer_eq_newer] at wins
  simp only [Lww.Cell.Covers, RegistryRow.cell] at still
  rw [still] at wins
  cases wins

/-- What beats a clock beats everything that clock beats. -/
theorem hlc_le_of_newer {hlc later : Hlc} {stored : Option Hlc}
    (loses : hlcNewer hlc stored = false) (wins : hlcNewer later stored = true) : hlc ≤ later := by
  rw [hlcNewer_eq_newer] at loses wins
  by_contra below
  rw [Lww.newer_trans wins (not_le.mp below).le] at loses
  cases loses

/-- Nothing undoes a delete once it is settled. -/
theorem settled_delete_step {op next : RowOp} (delete : op.op = .delete)
    {row : Option RegistryRow} (settled : Settled op row) :
    Settled op (applyOp row next).1 := by
  rw [settled_delete_iff delete] at settled ⊢
  cases row with
  | none => simp [RowOp.buries, delete] at settled
  | some row =>
      simp only [RowOp.buries, delete, decide_true, Bool.true_and] at settled
      rcases applyOp_cases (some row) next with ⟨_, same⟩ | ⟨buries, same⟩ | ⟨_, _, same⟩
      · rw [same]
        have live : (next.writeOver (next.base (some row))).deleted = false :=
          writeOver_live (next.base_deleted (some row))
        by_contra newer
        simp only [RowOp.buries, delete, live, decide_true, Bool.true_and, Bool.false_eq_true,
          if_false, Bool.not_eq_false] at newer
        have below := maxClock_writeOver newer
        cases gone : row.deleted with
        | false =>
            rw [RowOp.base_of_live gone] at below
            simp [gone, below] at settled
        | true =>
            have older := (hlcNewer_maxClock.mp below).1
            simp only [RowOp.base, gone, if_true] at older
            simp [gone, older] at settled
      · rw [same]
        simp only [RowOp.buries, Bool.and_eq_true, decide_eq_true_eq] at buries
        have later : op.hlc ≤ next.hlc := by
          cases gone : row.deleted with
          | false =>
              simp only [gone, Bool.false_eq_true, if_false] at settled buries
              exact hlc_le_of_newer settled buries.2
          | true =>
              simp only [gone, if_true] at settled buries
              exact hlc_le_of_newer settled buries.2
        simp only [RowOp.buries, RowOp.buried, delete, decide_true, Bool.true_and, if_true,
          hlcNewer, decide_eq_false_iff_not]
        exact not_lt.mpr later
      · rw [same]
        simpa [RowOp.buries, delete] using settled

theorem settled_write_step_iff {op next : RowOp} (writes : op.op ≠ .delete)
    {row : Option RegistryRow} (settled : Settled op row) :
    Settled op (applyOp row next).1 ↔ KeepsSettled op row next := by
  rcases applyOp_cases row next with ⟨lands, same⟩ | ⟨buries, same⟩ | ⟨misses, spares, same⟩
  · have live : (next.writeOver (next.base row)).deleted = false :=
      writeOver_live (next.base_deleted row)
    have nextWrites : next.op ≠ .delete := by
      intro delete
      rw [RowOp.lands_of_delete delete row] at lands
      cases lands
    rw [same, settled_write_iff writes]
    have settledHere : (op.lands (some (next.writeOver (next.base row))) = true →
        ∃ held, some (next.writeOver (next.base row)) = some held ∧ held.deleted = false ∧
          op.WrittenIn held) ↔ op.WrittenIn (next.writeOver (next.base row)) := by
      simp [RowOp.lands_of_live writes live, live]
    rw [settledHere]
    cases gone : row.all (·.deleted) with
    | true =>
        rw [writtenIn_made_iff gone]
        refine ⟨fun carried => ⟨fun _ buries => ?_, fun _ _ _ => carried⟩,
          fun keeps => keeps.makes writes lands gone⟩
        rw [RowOp.buries_of_write nextWrites row] at buries
        cases buries
    | false =>
        cases row with
        | none => cases gone
        | some row =>
            have here : row.deleted = false := gone
            have written : op.WrittenIn row := by
              obtain ⟨_, held, _, written⟩ :=
                (settled_write_iff writes _).mp settled (RowOp.lands_of_live writes here)
              cases held
              exact written
            rw [RowOp.base_of_live here]
            refine ⟨fun _ => ⟨fun _ buries => ?_, fun _ _ deleted => ?_⟩,
              fun _ => written.writeOver⟩
            · rw [RowOp.buries_of_write nextWrites _] at buries
              cases buries
            · rw [gone] at deleted
              cases deleted
  · have delete : next.op = .delete := by
      by_contra nextWrites
      rw [RowOp.buries_of_write nextWrites row] at buries
      cases buries
    have dead : (next.buried row).deleted = true := by cases row <;> rfl
    have clock : (next.buried row).delHlc = some next.hlc := by cases row <;> rfl
    rw [same, settled_write_iff writes]
    constructor
    · intro silent
      refine ⟨fun upsert _ => ?_, fun _ lands => ?_⟩
      · by_contra newer
        have revives : op.lands (some (next.buried row)) = true := by
          simp [RowOp.lands, dead, clock, upsert, hlcNewer, not_le.mp newer]
        obtain ⟨_, held, live, _⟩ := silent revives
        cases held
        rw [dead] at live
        cases live
      · rw [RowOp.lands_of_delete delete row] at lands
        cases lands
    · intro keeps lands
      simp only [RowOp.lands, dead, clock, if_true, Bool.and_eq_true, decide_eq_true_eq,
        hlcNewer] at lands
      exact absurd (keeps.buries lands.1 buries) (not_le.mpr lands.2)
  · rw [same]
    refine ⟨fun _ => ⟨fun _ buries => ?_, fun _ lands => ?_⟩, fun _ => settled⟩
    · rw [spares] at buries
      cases buries
    · rw [misses] at lands
      cases lands

theorem settled_step_iff {op next : RowOp} {row : Option RegistryRow}
    (settled : Settled op row) :
    Settled op (applyOp row next).1 ↔ KeepsSettled op row next := by
  by_cases delete : op.op = .delete
  · refine ⟨fun _ => ⟨fun upsert => ?_, fun writes => absurd delete writes⟩,
      fun _ => settled_delete_step delete settled⟩
    rw [delete] at upsert
    cases upsert
  · exact settled_write_step_iff delete settled

/-- Delivering an op again, at any later point of a run, changes nothing
exactly when every step in between keeps it settled. -/
theorem applyOp_redelivery_iff (row : Option RegistryRow) (op : RowOp) (later : List RowOp) :
    (∀ seen rest, later = seen ++ rest →
      (applyOp (applyOps row (op :: seen)) op).1 = applyOps row (op :: seen)) ↔
    (∀ seen next rest, later = seen ++ next :: rest →
      KeepsSettled op (applyOps row (op :: seen)) next) := by
  constructor
  · rintro noop seen next rest rfl
    have before : Settled op (applyOps row (op :: seen)) := noop seen (next :: rest) rfl
    have after := noop (seen ++ [next]) rest (by simp)
    rw [← List.cons_append, applyOps_append] at after
    exact (settled_step_iff before).mp after
  · rintro keeps seen
    induction seen using List.reverseRecOn with
    | nil => exact fun _ _ => applyOp_settled op row
    | append_singleton seen next ih =>
        rintro rest rfl
        have before : Settled op (applyOps row (op :: seen)) :=
          ih (next :: rest) (by simp)
        have step := keeps seen next rest (by simp)
        rw [← List.cons_append, applyOps_append]
        exact (settled_step_iff before).mpr step

/-- A chat created on one device, deleted on a second, and revived on a third
without a title. -/
def createDeleteRevive : RowOp × RowOp × RowOp :=
  ({ kind := "chats", id := "chat-1", op := .upsert, hlc := encodeHlc 1000 0 "dev-a",
     set := some (fields [("title", .string "hello")]), clocks := none },
   { kind := "chats", id := "chat-1", op := .delete, hlc := encodeHlc 2000 0 "dev-b",
     set := none, clocks := none },
   { kind := "chats", id := "chat-1", op := .upsert, hlc := encodeHlc 3000 0 "dev-c",
     set := some (fields [("archived", .bool false)]), clocks := none })

/-- The create, delivered again, puts its title back on the revived row; so it
does in the room's merge. -/
theorem applyOp_redelivers_create :
    let (create, delete, revive) := createDeleteRevive
    Edge.validateOp create = none ∧ Edge.validateOp delete = none ∧
    Edge.validateOp revive = none ∧
    (applyOp (applyOps none [create, delete, revive]) create).1 ≠
      applyOps none [create, delete, revive] ∧
    (let row := [create, delete, revive].foldl (fun row op => (Edge.applyOp row op).1) none
     (Edge.applyOp row create).1 ≠ row) := by
  decide

end Zeron.Registry
