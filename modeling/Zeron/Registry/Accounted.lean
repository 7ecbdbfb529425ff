import Zeron.Registry.Recovery

namespace Zeron.Registry

open Std (ExtTreeMap)
open Zeron.Data

/-! # Accounting for a write

Once a row has taken a write, no op can make it forget: a field only moves to
newer clocks, and a delete that buries the row is newer than everything on it.
So a write is lost only on its way in, when the op that carries it does not land.
-/

/-! ## What may stand on a row -/

/-- Every write of the op is one that may occur. -/
def OpGood (good : String → Lww.Write Hlc Json → Prop) (op : RowOp) : Prop :=
  ∀ field, ∀ write ∈ op.write? field, good field write

/-- Every field has a clock, no field holds a null, and what each holds is a
write that may occur. -/
structure RowGood (good : String → Lww.Write Hlc Json → Prop) (row : RegistryRow) : Prop where
  clocked : ∀ field : String, row.clocks[field]? = none → row.fields[field]? = none
  stored : ∀ (field : String) (value : Json), row.fields[field]? = some value →
    value.stored = some value
  cells : ∀ (field : String) (clock : Hlc), row.clocks[field]? = some clock →
    good field ⟨row.fields[field]?, clock⟩

theorem OpGood.mono {good better : String → Lww.Write Hlc Json → Prop}
    (weaker : ∀ field write, good field write → better field write) {op : RowOp}
    (opGood : OpGood good op) : OpGood better op :=
  fun field write wrote => weaker field write (opGood field write wrote)

theorem RowGood.mono {good better : String → Lww.Write Hlc Json → Prop}
    (weaker : ∀ field write, good field write → better field write) {row : RegistryRow}
    (rowGood : RowGood good row) : RowGood better row :=
  ⟨rowGood.clocked, rowGood.stored,
    fun field clock held => weaker field _ (rowGood.cells field clock held)⟩

theorem opGood_mergeClosed (good : String → Lww.Write Hlc Json → Prop) :
    MergeClosed (OpGood good) := by
  intro a b merged spec goodA goodB field write wrote
  rw [spec.writes field] at wrote
  exact (Lww.mem_of_followedBy wrote).elim (goodA field write) (goodB field write)

theorem rowGood_blank {good : String → Lww.Write Hlc Json → Prop} {row : RegistryRow}
    (noFields : row.fields = ∅) (noClocks : row.clocks = ∅) : RowGood good row :=
  ⟨fun field _ => by simp [noFields], fun field value held => by simp [noFields] at held,
    fun field clock held => by simp [noClocks] at held⟩

theorem RowGood.writeOver {good : String → Lww.Write Hlc Json → Prop} {row : RegistryRow}
    (rowGood : RowGood good row) {op : RowOp} (opGood : OpGood good op) :
    RowGood good (op.writeOver row) := by
  -- Each cell of the result is the row's own, or the op's write.
  have cell : ∀ field, (op.writeOver row).cell field = row.cell field ∨
      ∃ write ∈ op.write? field, (op.writeOver row).cell field = write.cell := by
    intro field
    rw [RowOp.writeOver_cell]
    cases wrote : op.write? field with
    | none => exact .inl rfl
    | some write =>
        by_cases wins : Lww.newer write.clock (row.cell field).clock = true
        · exact .inr ⟨write, rfl, by simp [Lww.Cell.write, wins, Lww.Write.cell]⟩
        · exact .inl (by simp [Lww.Cell.write, wins])
  have parts : ∀ {field : String} {other : Lww.Cell Hlc Json},
      (op.writeOver row).cell field = other →
      (op.writeOver row).fields[field]? = other.value ∧
        (op.writeOver row).clocks[field]? = other.clock :=
    fun same => ⟨congrArg Lww.Cell.value same, congrArg Lww.Cell.clock same⟩
  refine ⟨fun field noClock => ?_, fun field value held => ?_, fun field clock held => ?_⟩
  · rcases cell field with same | ⟨write, _, same⟩
    · rw [(parts same).1]
      exact rowGood.clocked field ((parts same).2.symm.trans noClock)
    · rw [(parts same).2] at noClock
      cases noClock
  · rcases cell field with same | ⟨write, wrote, same⟩
    · exact rowGood.stored field value ((parts same).1.symm.trans held)
    · obtain ⟨sent, _, rfl⟩ := RowOp.write?_eq_some_iff.mp wrote
      have isStored : sent.stored = some value := (parts same).1.symm.trans held
      unfold Json.stored at isStored ⊢
      split at isStored
      · cases isStored
      · rename_i notNull
        cases isStored
        rw [if_neg notNull]
  · rcases cell field with same | ⟨write, wrote, same⟩
    · rw [(parts same).1]
      exact rowGood.cells field clock ((parts same).2.symm.trans held)
    · rw [(parts same).1]
      rw [(parts same).2] at held
      cases held
      exact opGood field write wrote

theorem rowGood_applyOp {good : String → Lww.Write Hlc Json → Prop} {row : Option RegistryRow}
    (rowGood : ∀ held ∈ row, RowGood good held) {op : RowOp} (opGood : OpGood good op) :
    ∀ held ∈ (applyOp row op).1, RowGood good held := by
  intro held isHeld
  rcases applyOp_cases row op with ⟨_, same⟩ | ⟨_, same⟩ | ⟨_, _, same⟩
  · rw [same] at isHeld
    cases isHeld
    refine RowGood.writeOver ?_ opGood
    cases row with
    | none => exact rowGood_blank rfl rfl
    | some before =>
        cases gone : before.deleted with
        | false =>
            rw [RowOp.base_of_live gone]
            exact rowGood before rfl
        | true => exact rowGood_blank (by simp [RowOp.base, gone]) (by simp [RowOp.base, gone])
  · rw [same] at isHeld
    cases isHeld
    cases row <;> exact rowGood_blank rfl rfl
  · rw [same] at isHeld
    exact rowGood held isHeld

/-- A re-seed writes exactly what stands on the row. -/
theorem opGood_seed {good : String → Lww.Write Hlc Json → Prop} {row : RegistryRow}
    (rowGood : RowGood good row) : OpGood good (rowToSeedOp row) := by
  intro field write wrote
  unfold rowToSeedOp at wrote
  split at wrote
  · simp [RowOp.write?] at wrote
  · obtain ⟨value, isValue, rfl⟩ := RowOp.write?_eq_some_iff.mp wrote
    have held : row.fields[field]? = some value := by
      simpa using RowOp.mem_writes.mp isValue
    cases stamped : row.clocks[field]? with
    | none =>
        rw [rowGood.clocked field stamped] at held
        cases held
    | some clock =>
        have standing := rowGood.cells field clock stamped
        rw [held, ← rowGood.stored field value held] at standing
        simpa [RowOp.clockFor, stamped] using standing

/-! ## A write and what accounts for it -/

/-- The row holds the write or a newer one, or a newer delete has removed it. -/
def Accounted (field : String) (write : Lww.Write Hlc Json) (row : Option RegistryRow) : Prop :=
  ∃ held, row = some held ∧
    ((held.deleted = false ∧ (held.cell field).KeepsUp write.cell) ∨
      ∃ hlc, held.delHlc = some hlc ∧ write.clock < hlc)

/-- What beats a row's newest clock is newer than a write the row keeps up with. -/
theorem lt_of_keepsUp {field : String} {write : Lww.Write Hlc Json} {row : RegistryRow} {hlc : Hlc}
    (keeps : (row.cell field).KeepsUp write.cell)
    (beats : hlcNewer hlc row.maxClock = true) : write.clock < hlc := by
  have newest := (hlcNewer_maxClock.mp beats).2 field
  rcases keeps with same | ⟨clock, stored, later⟩
  · have clock : row.clocks[field]? = some write.clock := congrArg Lww.Cell.clock same
    simpa [hlcNewer, clock] using newest
  · have held : row.clocks[field]? = some clock := stored
    have before : write.clock < clock := of_decide_eq_true later
    have after : clock < hlc := by simpa [hlcNewer, held] using newest
    exact lt_trans before after

/-- Whatever an op does, a write accounted for stays so. -/
theorem Accounted.applyOp {field : String} {write : Lww.Write Hlc Json}
    {row : Option RegistryRow} (accounted : Accounted field write row) (op : RowOp) :
    Accounted field write (Registry.applyOp row op).1 := by
  obtain ⟨held, rfl, holds⟩ := accounted
  rcases applyOp_cases (some held) op with ⟨lands, same⟩ | ⟨buries, same⟩ | ⟨_, _, same⟩
  · rw [same]
    refine ⟨_, rfl, ?_⟩
    have header := op.writeOver_header (op.base (some held))
    rcases holds with ⟨live, keeps⟩ | ⟨hlc, removed, later⟩
    · refine .inl ⟨writeOver_live (op.base_deleted _), ?_⟩
      rw [RowOp.base_of_live live, RowOp.writeOver_cell]
      cases op.write? field with
      | none => exact keeps
      | some next => exact keeps.write next
    · refine .inr ⟨hlc, ?_, later⟩
      rw [header.delHlc]
      cases gone : held.deleted <;> simp [RowOp.base, gone, removed]
  · rw [same]
    refine ⟨_, rfl, .inr ⟨op.hlc, rfl, ?_⟩⟩
    simp only [RowOp.buries, Bool.and_eq_true, decide_eq_true_eq] at buries
    rcases holds with ⟨live, keeps⟩ | ⟨hlc, removed, later⟩
    · rw [live] at buries
      exact lt_of_keepsUp keeps buries.2
    · refine lt_trans later ?_
      cases gone : held.deleted with
      | true => simpa [gone, removed, hlcNewer] using buries.2
      | false =>
          have beats : hlcNewer op.hlc held.maxClock = true := by simpa [gone] using buries.2
          simpa [hlcNewer, removed] using (hlcNewer_maxClock.mp beats).1
  · rw [same]
    exact ⟨held, rfl, holds⟩

/-- The op carries the write, or a newer one to the same field. -/
def RowOp.Covers (op : RowOp) (field : String) (write : Lww.Write Hlc Json) : Prop :=
  op.op ≠ .delete ∧ ∃ later ∈ op.write? field, later.cell.KeepsUp write.cell

/-- A tombstone, or a row revived from one, newer than everything the op writes. -/
def RowOp.overruled (op : RowOp) (row : Option RegistryRow) : Bool :=
  row.any fun held => held.delHlc.any fun hlc =>
    op.writes.all fun entry => decide (op.clockFor entry.1 < hlc)

/-- Two writes of one clock to one field are the same write. -/
def Agrees (field : String) (write : Lww.Write Hlc Json) (other : String)
    (candidate : Lww.Write Hlc Json) : Prop :=
  other = field → candidate.clock = write.clock → candidate.value = write.value

/-- An op that carries the write and lands, or meets a newer delete, settles the
account. -/
theorem accounted_of_covers {field : String} {write : Lww.Write Hlc Json} {op : RowOp}
    {row : Option RegistryRow} (covers : op.Covers field write)
    (agrees : ∀ held ∈ row, RowGood (Agrees field write) held)
    (arrives : op.lands row = true ∨ op.overruled row = true) :
    Accounted field write (applyOp row op).1 := by
  obtain ⟨writes, later, wrote, keeps⟩ := covers
  rcases arrives with lands | overruled
  · rw [applyOp_of_lands lands]
    refine ⟨_, rfl, .inl ⟨writeOver_live (op.base_deleted row), ?_⟩⟩
    rw [RowOp.writeOver_cell, Option.mem_def.mp wrote, Lww.Cell.apply_some, Lww.Cell.write]
    split
    · exact keeps
    · -- The row's own clock was not older, so its cell keeps up already.
      rename_i loses
      have baseGood : RowGood (Agrees field write) (op.base row) := by
        cases row with
        | none => exact rowGood_blank rfl rfl
        | some held =>
            cases gone : held.deleted with
            | false =>
                rw [RowOp.base_of_live gone]
                exact agrees held rfl
            | true => exact rowGood_blank (by simp [RowOp.base, gone]) (by simp [RowOp.base, gone])
      obtain ⟨clock, stored, le⟩ := Lww.newer_eq_false.mp (Bool.eq_false_iff.mpr loses)
      have standing := baseGood.cells field clock stored
      have cell : (op.base row).cell field =
          Lww.Write.cell ⟨(op.base row).fields[field]?, clock⟩ := Lww.Cell.ext rfl stored
      rw [cell]
      exact Lww.Write.keepsUp_of_le (standing rfl) ((Lww.Write.le_of_keepsUp keeps).trans le)
  · obtain ⟨held, rfl, removed⟩ := (Option.any_eq_true _ _).mp overruled
    obtain ⟨hlc, isRemoved, older⟩ := (Option.any_eq_true _ _).mp removed
    obtain ⟨value, isValue, rfl⟩ := RowOp.write?_eq_some_iff.mp wrote
    have before := List.all_eq_true.mp older _ isValue
    refine Accounted.applyOp ⟨held, rfl, .inr ⟨hlc, isRemoved, ?_⟩⟩ op
    exact lt_of_le_of_lt (Lww.Write.le_of_keepsUp keeps) (of_decide_eq_true before)

/-- A write that has arrived stays accounted for, whatever arrives later. -/
theorem accounted_applyOps {field : String} {write : Lww.Write Hlc Json} {op : RowOp}
    {row : Option RegistryRow} (covers : op.Covers field write)
    (agrees : ∀ held ∈ row, RowGood (Agrees field write) held)
    (arrives : op.lands row = true ∨ op.overruled row = true) (rest : List RowOp) :
    Accounted field write (applyOps row (op :: rest)) := by
  have arrived : Accounted field write (applyOp row op).1 := accounted_of_covers covers agrees arrives
  rw [applyOps_cons]
  generalize (applyOp row op).1 = held at arrived ⊢
  induction rest generalizing held with
  | nil => exact arrived
  | cons next rest ih => exact ih _ (arrived.applyOp next)

def helloTitle : Lww.Write Hlc Json := ⟨some (.string "hello"), encodeHlc 1000 0 "dev-a"⟩

theorem covers_helloTitle : createDeleteRevive.1.Covers "title" helloTitle :=
  ⟨by decide, helloTitle, rfl, .inl rfl⟩

/-- The title a delete removed from the chat before it was revived. -/
theorem accounted_applyOps_revived :
    Accounted "title" helloTitle
      (applyOps none [createDeleteRevive.1, createDeleteRevive.2.1, createDeleteRevive.2.2]) :=
  accounted_applyOps covers_helloTitle (fun _ held => absurd held (Option.not_mem_none _)) (.inl rfl) _

/-- Merging keeps what either op carries. -/
theorem Coalesced.covers {a b merged : RowOp} (spec : Coalesced a b merged) {field : String}
    {write : Lww.Write Hlc Json} (goodA : OpGood (Agrees field write) a)
    (goodB : OpGood (Agrees field write) b) (either : a.Covers field write ∨ b.Covers field write) :
    merged.Covers field write := by
  obtain ⟨aWrites, bWrites, mergedWrites, _⟩ := spec.lands none
  have mergedGood := opGood_mergeClosed (Agrees field write) spec goodA goodB
  obtain ⟨later, held, keeps⟩ : ∃ later, (later ∈ a.write? field ∨ later ∈ b.write? field) ∧
      later.cell.KeepsUp write.cell := by
    rcases either with ⟨_, later, wrote, keeps⟩ | ⟨_, later, wrote, keeps⟩
    · exact ⟨later, .inl wrote, keeps⟩
    · exact ⟨later, .inr wrote, keeps⟩
  obtain ⟨final, isFinal, le⟩ := Lww.le_followedBy held
  rw [← spec.writes field] at isFinal
  exact ⟨mergedWrites, final, isFinal, Lww.Write.keepsUp_of_le (mergedGood field final isFinal rfl)
    ((Lww.Write.le_of_keepsUp keeps).trans le)⟩

/-! ## In the queue -/

/-- The ops of one row are good. -/
def KeyGood (key : RowKey) (good : String → Lww.Write Hlc Json → Prop) (op : RowOp) : Prop :=
  op.key = key → OpGood good op

theorem Coalesced.keys {a b merged : RowOp} (spec : Coalesced a b merged) :
    a.key = merged.key ∧ b.key = merged.key :=
  have first : a.key = merged.key := (congrArg₂ RowKey.mk spec.kind spec.id).symm
  ⟨first, (congrArg₂ RowKey.mk spec.sameKind spec.sameId).symm.trans first⟩

theorem keyGood_mergeClosed (key : RowKey) (good : String → Lww.Write Hlc Json → Prop) :
    MergeClosed (KeyGood key good) := fun spec goodA goodB mine =>
  opGood_mergeClosed good spec (goodA (spec.keys.1.trans mine)) (goodB (spec.keys.2.trans mine))

/-- Compaction keeps what the queue carries for a row. -/
theorem Compacts.covers {key : RowKey} {field : String} {write : Lww.Write Hlc Json}
    {before after : List (List RowOp)} (compacts : Compacts before after)
    (good : ∀ op ∈ before.flatten, KeyGood key (Agrees field write) op)
    (covered : ∃ op ∈ before.flatten, op.key = key ∧ op.Covers field write) :
    ∃ op ∈ after.flatten, op.key = key ∧ op.Covers field write := by
  induction compacts with
  | refl => exact covered
  | @tail middle after earlierSteps merge ih =>
      obtain ⟨op, member, mine, covers⟩ := ih
      have goodHere := Compacts.forall (keyGood_mergeClosed key (Agrees field write)) earlierSteps good
      obtain ⟨front, between, back, earlier, later, merged, rfl, rfl, coalesced, _⟩ := merge
      have spec := coalesceOps_spec coalesced
      have merges : (earlier.key = key ∧ earlier.Covers field write) ∨
          (later.key = key ∧ later.Covers field write) →
          merged.key = key ∧ merged.Covers field write := by
        intro either
        have mergedKey : merged.key = key := either.elim
          (fun first => spec.keys.1.symm.trans first.1) (fun second => spec.keys.2.symm.trans second.1)
        exact ⟨mergedKey, spec.covers (goodHere earlier (by simp) (spec.keys.1.trans mergedKey))
          (goodHere later (by simp) (spec.keys.2.trans mergedKey)) (either.imp And.right And.right)⟩
      simp only [List.flatten_append, List.flatten_cons, List.mem_append, List.mem_singleton,
        List.nil_append] at member ⊢
      rcases member with inFront | rfl | inBetween | rfl | inBack
      · exact ⟨op, .inl inFront, mine, covers⟩
      · exact ⟨merged, .inr (.inr (.inl rfl)), merges (.inl ⟨mine, covers⟩)⟩
      · exact ⟨op, .inr (.inl inBetween), mine, covers⟩
      · exact ⟨merged, .inr (.inr (.inl rfl)), merges (.inr ⟨mine, covers⟩)⟩
      · exact ⟨op, .inr (.inr (.inr inBack)), mine, covers⟩

end Zeron.Registry
