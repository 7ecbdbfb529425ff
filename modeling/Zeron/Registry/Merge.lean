import Zeron.Registry.Row

namespace Zeron.Registry

open Std Zeron.Data

/-! # What one op does to a row

`applyOp` mixes two questions: whether the row exists afterwards, and what each
of its fields holds.  The first is settled by three outcomes (the op lands, it
buries the row, or it does nothing); the second is one last-writer-wins cell
per field.
-/

/-- A field and its clock as one cell. -/
def RegistryRow.cell (row : RegistryRow) (field : String) : Lww.Cell Hlc Json :=
  ⟨row.fields[field]?, row.clocks[field]?⟩

/-- The write an op makes to one field, if any. -/
def RowOp.write? (op : RowOp) (field : String) : Option (Lww.Write Hlc Json) :=
  (op.set.bind (fun set => set[field]?)).map fun value => ⟨value.stored, op.clockFor field⟩

theorem RowOp.mem_writes {op : RowOp} {field : String} {value : Json} :
    (field, value) ∈ op.writes ↔ op.set.bind (fun set => set[field]?) = some value := by
  cases held : op.set with
  | none => simp [RowOp.writes, held]
  | some set => simp [RowOp.writes, held, ExtTreeMap.mem_toList_iff_getElem?_eq_some]

theorem RowOp.write?_eq_some_iff {op : RowOp} {field : String} {write : Lww.Write Hlc Json} :
    op.write? field = some write ↔
      ∃ value, (field, value) ∈ op.writes ∧ ⟨value.stored, op.clockFor field⟩ = write := by
  simp only [RowOp.write?, Option.map_eq_some_iff, RowOp.mem_writes]

theorem RowOp.set_contains_iff {op : RowOp} {field : String} :
    op.set.any (fun set => set.contains field) = true ↔
      ∃ value, (field, value) ∈ op.writes := by
  simp only [RowOp.mem_writes, ← Option.isSome_iff_exists]
  cases op.set with
  | none => simp
  | some set => simp [ExtTreeMap.isSome_getElem?_eq_contains]

/-- Everything about a row but its fields and their clocks. -/
structure RegistryRow.SameHeader (left right : RegistryRow) : Prop where
  kind : left.kind = right.kind
  id : left.id = right.id
  seq : left.seq = right.seq
  deleted : left.deleted = right.deleted
  delHlc : left.delHlc = right.delHlc

theorem RegistryRow.SameHeader.refl (row : RegistryRow) : row.SameHeader row :=
  ⟨rfl, rfl, rfl, rfl, rfl⟩

theorem RegistryRow.SameHeader.trans {a b c : RegistryRow}
    (first : a.SameHeader b) (second : b.SameHeader c) : a.SameHeader c :=
  ⟨first.kind.trans second.kind, first.id.trans second.id, first.seq.trans second.seq,
    first.deleted.trans second.deleted, first.delHlc.trans second.delHlc⟩

theorem RegistryRow.SameHeader.symm {a b : RegistryRow} (same : a.SameHeader b) :
    b.SameHeader a :=
  ⟨same.kind.symm, same.id.symm, same.seq.symm, same.deleted.symm, same.delHlc.symm⟩

theorem RegistryRow.ext_cells {left right : RegistryRow} (header : left.SameHeader right)
    (cells : ∀ field, left.cell field = right.cell field) : left = right := by
  refine RegistryRow.ext header.kind header.id header.seq header.deleted header.delHlc ?_ ?_
  · exact ExtTreeMap.ext_getElem? (fun {field} => congrArg Lww.Cell.value (cells field))
  · exact ExtTreeMap.ext_getElem? (fun {field} => congrArg Lww.Cell.clock (cells field))

/-! ## The field loop -/

theorem writeField_header (op : RowOp) (state : RegistryRow × Bool) (entry : String × Json) :
    (writeField op state entry).1.SameHeader state.1 := by
  unfold writeField
  dsimp only
  split
  · exact .refl _
  · exact ⟨rfl, rfl, rfl, rfl, rfl⟩

theorem writeField_keyed (op : RowOp) :
    KeyedStep (writeField op) (fun state field => state.1.cell field)
      (fun field value cell => cell.write ⟨value.stored, op.clockFor field⟩) where
  here := by
    intro state key value
    simp only [writeField, hlcNewer_eq_newer, RegistryRow.cell, Lww.Cell.write]
    by_cases wins : Lww.newer (op.clockFor key) state.1.clocks[key]? = true
    · simp only [wins, Bool.not_true, Bool.false_eq_true, if_false, if_true]
      cases null : value.isNull <;> simp [Json.stored, null]
    · simp [wins]
  elsewhere := by
    intro state key value other apart
    have differs : compare key other ≠ .eq :=
      fun same => apart (LawfulEqCmp.eq_of_compare same).symm
    simp only [writeField, RegistryRow.cell]
    split
    · rfl
    · cases null : value.isNull <;> simp [ExtTreeMap.getElem?_insert, ExtTreeMap.getElem?_erase, differs]

/-- The row after the field loop.  The loop never reads its `changed` flag, so
the flag it starts with is immaterial. -/
def RowOp.writeOver (op : RowOp) (base : RegistryRow) : RegistryRow :=
  (op.writes.foldl (writeField op) (base, false)).1

theorem foldl_writeField_fst (op : RowOp) (entries : List (String × Json))
    (base : RegistryRow) (left right : Bool) :
    (entries.foldl (writeField op) (base, left)).1 =
      (entries.foldl (writeField op) (base, right)).1 := by
  suffices general : ∀ states : (RegistryRow × Bool) × (RegistryRow × Bool),
      states.1.1 = states.2.1 →
      (entries.foldl (writeField op) states.1).1 = (entries.foldl (writeField op) states.2).1 from
    general ((base, left), (base, right)) rfl
  induction entries with
  | nil => exact fun _ same => same
  | cons entry rest ih =>
      rintro ⟨⟨row, first⟩, ⟨other, second⟩⟩ same
      simp only at same
      subst same
      refine ih (writeField op (row, first) entry, writeField op (row, second) entry) ?_
      simp only [writeField]
      split <;> rfl

theorem foldl_writeField_header (op : RowOp) (entries : List (String × Json))
    (state : RegistryRow × Bool) :
    (entries.foldl (writeField op) state).1.SameHeader state.1 := by
  induction entries generalizing state with
  | nil => exact .refl _
  | cons entry rest ih => exact (ih _).trans (writeField_header op state entry)

/-- The flag only ever rises, and while it stays down nothing was written. -/
theorem foldl_writeField_unchanged (op : RowOp) (entries : List (String × Json))
    {state : RegistryRow × Bool}
    (still : (entries.foldl (writeField op) state).2 = false) :
    entries.foldl (writeField op) state = state := by
  induction entries generalizing state with
  | nil => rfl
  | cons entry rest ih =>
      rw [List.foldl_cons] at still ⊢
      have same := ih still
      rw [same] at still ⊢
      simp only [writeField] at still ⊢
      split
      · rfl
      · rename_i wins
        simp [wins] at still

theorem RowOp.writeOver_header (op : RowOp) (base : RegistryRow) :
    (op.writeOver base).SameHeader base :=
  foldl_writeField_header op op.writes (base, false)

theorem RowOp.writeOver_cell (op : RowOp) (base : RegistryRow) (field : String) :
    (op.writeOver base).cell field = (base.cell field).apply (op.write? field) := by
  unfold RowOp.writeOver RowOp.writes RowOp.write?
  cases op.set with
  | none => rfl
  | some set =>
      have spec := (writeField_keyed op).foldl_toList set (base, false) field
      simp only [Option.map_some, Option.getD_some, Option.bind_some]
      rw [spec]
      cases set[field]? <;> rfl

/-! ## The three outcomes -/

/-- The row a landing op writes over: itself when live, else an empty one. -/
def RowOp.base (op : RowOp) : Option RegistryRow → RegistryRow
  | none =>
      { kind := op.kind, id := op.id, seq := 0, deleted := false, delHlc := none,
        fields := ∅, clocks := ∅ }
  | some row =>
      if row.deleted then { row with deleted := false, fields := ∅, clocks := ∅ } else row

/-- An upsert or update whose writes reach the row. -/
def RowOp.lands (op : RowOp) : Option RegistryRow → Bool
  | none => op.op = .upsert
  | some row =>
      if row.deleted then op.op = .upsert && hlcNewer op.hlc row.delHlc else op.op ≠ .delete

/-- A delete that is causally newer than the row. -/
def RowOp.buries (op : RowOp) : Option RegistryRow → Bool
  | none => op.op = .delete
  | some row =>
      op.op = .delete &&
        (if row.deleted then hlcNewer op.hlc row.delHlc else hlcNewer op.hlc row.maxClock)

/-- The tombstone a burying delete leaves. -/
def RowOp.buried (op : RowOp) : Option RegistryRow → RegistryRow
  | none => .tombstone op.kind op.id op.hlc
  | some row => { row with deleted := true, delHlc := some op.hlc, fields := ∅, clocks := ∅ }

@[simp] theorem RowOp.base_deleted (op : RowOp) (row : Option RegistryRow) :
    (op.base row).deleted = false := by
  cases row with
  | none => rfl
  | some row => cases gone : row.deleted <;> simp [RowOp.base, gone]

theorem writeFields_fst {op : RowOp} {base : RegistryRow} (live : base.deleted = false)
    (changed : Bool) : (writeFields op base changed).1 = some (op.writeOver base) := by
  have row := foldl_writeField_fst op op.writes base changed false
  have stays : (op.writeOver base).deleted = false := (op.writeOver_header base).deleted.trans live
  unfold writeFields
  dsimp only
  split
  · rw [row]
    exact congrArg some (RegistryRow.ext rfl rfl rfl stays.symm rfl rfl rfl)
  · rw [row]
    rfl

theorem writeFields_unchanged {op : RowOp} {base : RegistryRow} {changed : Bool}
    (still : (writeFields op base changed).2 = false) :
    changed = false ∧ (writeFields op base changed).1 = some base := by
  unfold writeFields at *
  dsimp only at *
  split at still
  · cases still
  · rename_i down
    have same := foldl_writeField_unchanged op _ (Bool.eq_false_iff.mpr down)
    have settled : changed = false := by
      rw [same] at down
      exact Bool.eq_false_iff.mpr down
    rw [same]
    exact ⟨settled, by simp [settled]⟩

/-- The flag the field loop starts with: the row was missing or a tombstone. -/
def startsChanged (row : Option RegistryRow) : Bool := row.all (·.deleted)

theorem applyOp_eq_writeFields {op : RowOp} {row : Option RegistryRow}
    (lands : op.lands row = true) :
    applyOp row op = writeFields op (op.base row) (startsChanged row) := by
  cases row with
  | none =>
      have upsert : op.op = .upsert := by simpa [RowOp.lands] using lands
      simp [applyOp, upsert, RowOp.base, startsChanged]
  | some row =>
      cases gone : row.deleted with
      | true =>
          simp only [RowOp.lands, gone, if_true, Bool.and_eq_true, decide_eq_true_eq] at lands
          simp [applyOp, lands.1, lands.2, gone, RowOp.base, startsChanged]
      | false =>
          have writes : op.op ≠ .delete := by simpa [RowOp.lands, gone] using lands
          simp [applyOp, writes, gone, RowOp.base, startsChanged]

theorem applyOp_of_lands {op : RowOp} {row : Option RegistryRow}
    (lands : op.lands row = true) : (applyOp row op).1 = some (op.writeOver (op.base row)) := by
  rw [applyOp_eq_writeFields lands, writeFields_fst (op.base_deleted row)]

theorem applyOp_of_buries {op : RowOp} {row : Option RegistryRow}
    (buries : op.buries row = true) : applyOp row op = (some (op.buried row), true) := by
  cases row with
  | none =>
      have delete : op.op = .delete := by simpa [RowOp.buries] using buries
      simp [applyOp, delete, RowOp.buried]
  | some row =>
      simp only [RowOp.buries, Bool.and_eq_true, decide_eq_true_eq] at buries
      simp [applyOp, buries.1, buries.2, RowOp.buried]

theorem applyOp_of_inert {op : RowOp} {row : Option RegistryRow}
    (misses : op.lands row = false) (spares : op.buries row = false) :
    applyOp row op = (row, false) := by
  cases row with
  | none =>
      cases kind : op.op <;> simp_all [applyOp, RowOp.lands, RowOp.buries]
  | some row =>
      cases kind : op.op with
      | delete =>
          simp only [RowOp.buries, kind, decide_true, Bool.true_and] at spares
          simp [applyOp, kind, spares]
      | update =>
          cases gone : row.deleted <;> simp_all [applyOp, RowOp.lands]
      | upsert =>
          cases gone : row.deleted <;> simp_all [applyOp, RowOp.lands]

/-- What an op can do to a row, exhaustively. -/
theorem applyOp_cases (row : Option RegistryRow) (op : RowOp) :
    (op.lands row = true ∧ (applyOp row op).1 = some (op.writeOver (op.base row))) ∨
    (op.buries row = true ∧ (applyOp row op).1 = some (op.buried row)) ∨
    (op.lands row = false ∧ op.buries row = false ∧ (applyOp row op).1 = row) := by
  cases lands : op.lands row with
  | true => exact .inl ⟨rfl, applyOp_of_lands lands⟩
  | false =>
      cases buries : op.buries row with
      | true => exact .inr (.inl ⟨rfl, by rw [applyOp_of_buries buries]⟩)
      | false => exact .inr (.inr ⟨rfl, rfl, by rw [applyOp_of_inert lands buries]⟩)

/-- An op that reports no change returned the row it was given. -/
theorem applyOp_unchanged {row : Option RegistryRow} {op : RowOp}
    (still : (applyOp row op).2 = false) : (applyOp row op).1 = row := by
  rcases applyOp_cases row op with ⟨lands, _⟩ | ⟨buries, _⟩ | ⟨_, _, same⟩
  · rw [applyOp_eq_writeFields lands] at still ⊢
    obtain ⟨live, same⟩ := writeFields_unchanged still
    rw [same]
    cases row with
    | none => cases live
    | some row =>
        have here : row.deleted = false := live
        simp [RowOp.base, here]
  · rw [applyOp_of_buries buries] at still
    cases still
  · exact same

end Zeron.Registry
