import Zeron.Registry.Queue
import Zeron.Registry.Redelivery

namespace Zeron.Registry

open Std (ExtTreeMap)
open Zeron.Data

/-! # Recovering a room that lost rows

After a full frame the client re-seeds what the room lacks, behind everything
already queued.  What a row ends up with at the room is its frame row with the
queued ops and then the seed applied to it: a displayed value gets there when
some write of it takes hold on the way and no later delete buries the row.
-/

/-! ## A shown cell along a run -/

/-- The row is live and its field keeps up with a shown cell. -/
def Keeps (field : String) (shown : Lww.Cell Hlc Json) (row : Option RegistryRow) : Prop :=
  ∃ held, row = some held ∧ held.deleted = false ∧ (held.cell field).KeepsUp shown

/-- The op lands, and its write to the field takes hold there and keeps up with
the shown cell. -/
structure RowOp.Brings (op : RowOp) (field : String) (shown : Lww.Cell Hlc Json)
    (row : Option RegistryRow) : Prop where
  intro ::
  lands : op.lands row = true
  write : ∃ write ∈ op.write? field,
    Lww.newer write.clock ((op.base row).cell field).clock = true ∧ write.cell.KeepsUp shown

theorem keeps_writeOver_iff {field : String} {shown : Lww.Cell Hlc Json} {op : RowOp}
    {row : Option RegistryRow} (valued : shown.value ≠ none) (lands : op.lands row = true) :
    Keeps field shown (some (op.writeOver (op.base row))) ↔
      Keeps field shown row ∨ op.Brings field shown row := by
  have live : (op.writeOver (op.base row)).deleted = false := writeOver_live (op.base_deleted row)
  -- What the op writes over keeps up exactly when the row did: a row made anew is blank.
  have base : ((op.base row).cell field).KeepsUp shown ↔ Keeps field shown row := by
    have blank : ∀ fresh : RegistryRow, fresh.fields = ∅ → fresh.clocks = ∅ →
        ¬ (fresh.cell field).KeepsUp shown := by
      intro fresh noFields noClocks keeps
      refine Lww.Cell.not_keepsUp_blank valued ?_
      simpa [RegistryRow.cell, noFields, noClocks, Lww.Cell.blank] using keeps
    cases row with
    | none => simpa [Keeps] using blank _ rfl rfl
    | some held =>
        cases gone : held.deleted with
        | false => simp [RowOp.base_of_live gone, Keeps, gone]
        | true => simpa [Keeps, gone] using blank (op.base (some held)) (by simp [RowOp.base, gone])
                    (by simp [RowOp.base, gone])
  have cell : Keeps field shown (some (op.writeOver (op.base row))) ↔
      (((op.base row).cell field).apply (op.write? field)).KeepsUp shown := by
    simp [Keeps, live, RowOp.writeOver_cell]
  rw [cell, ← base]
  cases wrote : op.write? field with
  | none =>
      refine ⟨.inl, fun either => either.elim id fun brings => ?_⟩
      obtain ⟨write, isWrite, _⟩ := brings.write
      simp [wrote] at isWrite
  | some write =>
      rw [Lww.Cell.apply_some, Lww.Cell.keepsUp_write_iff]
      refine or_congr_right ⟨fun takes => ⟨lands, write, wrote, takes⟩, fun brings => ?_⟩
      obtain ⟨other, isWrite, takes⟩ := brings.write
      rw [wrote] at isWrite
      cases isWrite
      exact takes

/-- One op: a field keeps up afterwards when it did before and the row was not
buried, or when the op brings it. -/
theorem keeps_applyOp_iff {field : String} {shown : Lww.Cell Hlc Json}
    (valued : shown.value ≠ none) (row : Option RegistryRow) (op : RowOp) :
    Keeps field shown (applyOp row op).1 ↔
      (Keeps field shown row ∧ op.buries row = false) ∨ op.Brings field shown row := by
  rcases applyOp_cases row op with ⟨lands, same⟩ | ⟨buries, same⟩ | ⟨misses, spares, same⟩
  · have writes : op.op ≠ .delete := by
      intro delete
      rw [RowOp.lands_of_delete delete row] at lands
      cases lands
    rw [same, keeps_writeOver_iff valued lands]
    simp [RowOp.buries_of_write writes row]
  · have dead : (op.buried row).deleted = true := by cases row <;> rfl
    rw [same]
    refine ⟨fun ⟨held, isHeld, live, _⟩ => ?_, fun either => ?_⟩
    · cases isHeld
      rw [dead] at live
      cases live
    · rcases either with ⟨_, spares⟩ | brings
      · rw [buries] at spares
        cases spares
      · have delete : op.op = .delete := by
          by_contra writes
          rw [RowOp.buries_of_write writes row] at buries
          cases buries
        have lands := brings.lands
        rw [RowOp.lands_of_delete delete row] at lands
        cases lands
  · rw [same]
    refine ⟨fun keeps => .inl ⟨keeps, spares⟩, fun either => either.elim And.left fun brings => ?_⟩
    have lands := brings.lands
    rw [misses] at lands
    cases lands

/-- No op of the run buries the row. -/
def Spared (row : Option RegistryRow) (ops : List RowOp) : Prop :=
  ∀ seen op rest, ops = seen ++ op :: rest → op.buries (applyOps row seen) = false

theorem spared_snoc_iff {row : Option RegistryRow} {ops : List RowOp} {op : RowOp} :
    Spared row (ops ++ [op]) ↔ Spared row ops ∧ op.buries (applyOps row ops) = false := by
  constructor
  · intro spared
    refine ⟨fun seen other rest split => spared seen other (rest ++ [op]) (by simp [split]), ?_⟩
    exact spared ops op [] rfl
  · rintro ⟨spared, last⟩ seen other rest split
    rcases List.eq_nil_or_concat rest with rfl | ⟨front, final, rfl⟩
    · obtain ⟨rfl, same⟩ := List.append_inj' split rfl
      cases same
      exact last
    · have whole : ops ++ [op] = (seen ++ other :: front) ++ [final] := by simpa using split
      obtain ⟨rfl, _⟩ := List.append_inj' whole rfl
      exact spared seen other front rfl

/-- The shown value, or a newer one, reaches the end of the run: it was there
all along, or an op of the run brings it, and nothing after that buries the
row. -/
def Arrives (field : String) (shown : Lww.Cell Hlc Json) (row : Option RegistryRow)
    (ops : List RowOp) : Prop :=
  (Keeps field shown row ∧ Spared row ops) ∨
    ∃ seen op rest, ops = seen ++ op :: rest ∧ op.Brings field shown (applyOps row seen) ∧
      Spared (applyOps row (seen ++ [op])) rest

theorem keeps_applyOps_iff {field : String} {shown : Lww.Cell Hlc Json}
    (valued : shown.value ≠ none) (row : Option RegistryRow) (ops : List RowOp) :
    Keeps field shown (applyOps row ops) ↔ Arrives field shown row ops := by
  induction ops using List.reverseRecOn with
  | nil =>
      refine ⟨fun keeps => .inl ⟨keeps, by simp [Spared]⟩, fun arrives => ?_⟩
      rcases arrives with ⟨keeps, _⟩ | ⟨seen, op, rest, split, _⟩
      · exact keeps
      · simp at split
  | append_singleton ops op ih =>
      have last : applyOps row (ops ++ [op]) = (applyOp (applyOps row ops) op).1 :=
        applyOps_append row ops [op]
      rw [last, keeps_applyOp_iff valued, ih]
      constructor
      · rintro (⟨⟨keeps, spared⟩ | ⟨seen, other, rest, rfl, brings, spared⟩, spares⟩ | brings)
        · exact .inl ⟨keeps, spared_snoc_iff.mpr ⟨spared, spares⟩⟩
        · refine .inr ⟨seen, other, rest ++ [op], by simp, brings, spared_snoc_iff.mpr ⟨spared, ?_⟩⟩
          rw [← applyOps_append]
          simpa using spares
        · exact .inr ⟨ops, op, [], rfl, brings, by simp [Spared]⟩
      · rintro (⟨keeps, spared⟩ | ⟨seen, other, rest, split, brings, spared⟩)
        · exact .inl ⟨.inl ⟨keeps, (spared_snoc_iff.mp spared).1⟩, (spared_snoc_iff.mp spared).2⟩
        · rcases List.eq_nil_or_concat rest with rfl | ⟨front, final, rfl⟩
          · obtain ⟨rfl, same⟩ := List.append_inj' split rfl
            cases same
            exact .inr brings
          · have whole : ops ++ [op] = (seen ++ other :: front) ++ [final] := by simpa using split
            obtain ⟨rfl, same⟩ := List.append_inj' whole rfl
            cases same
            rw [List.concat_eq_append] at spared
            obtain ⟨before, spares⟩ := spared_snoc_iff.mp spared
            rw [← applyOps_append] at spares
            exact .inl ⟨.inr ⟨seen, other, front, rfl, brings, before⟩, by simpa using spares⟩

/-! ## The queue after a full frame -/

/-- The row a frame carries under a key. -/
def frameRow (rows : List RegistryRow) (key : RowKey) : Option RegistryRow :=
  (KeyedTable.putAll .empty rows : RowTable).get? key

namespace RegistryDoc

/-- What a full frame makes the client re-seed of one row: its own copy, when the
server is behind the cursor or lacks the row.  In local-only mode nothing is
queued. -/
def reseed (doc : RegistryDoc) (seq : Nat) (rows : List RegistryRow) (key : RowKey) : List RowOp :=
  if doc.localOnly then []
  else
    match doc.authoritative.get? key with
    | none => []
    | some row =>
      if seq < doc.cursor ∨ (frameRow rows key).isNone = true then [rowToSeedOp row] else []

/-- The room's row once it has applied every queued batch, in order, to the rows
of the frame. -/
def delivered (doc : RegistryDoc) (rows : List RegistryRow) (key : RowKey) : Option RegistryRow :=
  replay (frameRow rows key) (rowOps key doc.pendingOps)

end RegistryDoc

theorem rowToSeedOp_key (row : RegistryRow) : (rowToSeedOp row).key = row.key := by
  unfold rowToSeedOp
  split <;> rfl

/-- A table yields one row per key, in whatever order. -/
theorem filter_arrange (table : RowTable) (order : IterOrder) (key : RowKey) :
    (order.arrange table.values).filter (fun row => row.key = key) = (table.get? key).toList := by
  have perm := (order.perm table.values).filter fun row => decide (row.key = key)
  have values : table.values.filter (fun row => row.key = key) = (table.get? key).toList := by
    have distinct := table.values_distinct.filter fun row => decide (row.key = key)
    have member : ∀ row, row ∈ table.values.filter (fun row => row.key = key) ↔
        table.get? key = some row := by
      intro row
      rw [List.mem_filter, KeyedTable.mem_values, decide_eq_true_eq]
      constructor
      · rintro ⟨found, rfl⟩
        exact found
      · intro found
        have here : row.key = key := KeyedTable.key_of_get? found
        exact ⟨here.symm ▸ found, here⟩
    cases listed : table.values.filter (fun row => row.key = key) with
    | nil =>
        cases found : table.get? key with
        | none => rfl
        | some row =>
            have present := (member row).mpr found
            rw [listed] at present
            cases present
    | cons row rest =>
        rw [listed] at member distinct
        have found := (member row).mp (by simp)
        cases rest with
        | nil => simp [found]
        | cons other more =>
            have again := (member other).mp (by simp)
            have apart := (List.pairwise_cons.mp distinct).1 other (by simp)
            rw [found] at again
            cases again
            exact absurd rfl apart
  rw [values] at perm
  cases found : table.get? key with
  | none =>
      rw [found] at perm
      exact List.perm_nil.mp perm
  | some row =>
      rw [found] at perm
      exact List.perm_singleton.mp perm

theorem rowOps_map_seeds (key : RowKey) (rows : List RegistryRow) :
    rowOps key (rows.map rowToSeedOp) =
      (rows.filter fun row => row.key = key).map rowToSeedOp := by
  simp only [rowOps, List.filter_map, Function.comp_def, rowToSeedOp_key]

theorem rowOps_seedRows (doc : RegistryDoc) (order : IterOrder) (seq : Nat)
    (rows : List RegistryRow) (key : RowKey) (online : doc.localOnly = false) :
    rowOps key ((doc.seedRows order seq true rows).map rowToSeedOp) = doc.reseed seq rows key := by
  rw [rowOps_map_seeds]
  unfold RegistryDoc.seedRows RegistryDoc.reseed
  simp only [Bool.not_true, Bool.false_eq_true, if_false, online]
  by_cases cursor : seq < doc.cursor
  · have behind : seq < doc.serverSeq := cursor
    rw [if_pos behind, filter_arrange]
    cases doc.authoritative.get? key <;> simp [cursor]
  · have ahead : ¬ seq < doc.serverSeq := cursor
    rw [if_neg ahead]
    rw [List.filter_filter]
    have commuted : (order.arrange doc.authoritative.values).filter (fun row =>
        decide (row.key = key) &&
          ((KeyedTable.putAll .empty rows : RowTable).get? row.key).isNone) =
        ((order.arrange doc.authoritative.values).filter fun row => row.key = key).filter
          fun row => (frameRow rows key).isNone := by
      rw [List.filter_filter]
      refine List.filter_congr fun row _ => ?_
      by_cases mine : row.key = key
      · simp [mine, frameRow]
      · simp [mine]
    rw [commuted, filter_arrange]
    cases found : doc.authoritative.get? key with
    | none => rfl
    | some row => cases (frameRow rows key).isNone <;> simp [cursor]

/-- In local-only mode ops fold into the table and the queue stays as it was. -/
theorem enqueueOps_localOnly {doc : RegistryDoc} (localOnly : doc.localOnly = true)
    (now : Nat → Int) (ops : List RowOp) : (doc.enqueueOps now ops).pending = doc.pending := by
  have folds : ∀ (ops : List RowOp) (doc : RegistryDoc),
      (ops.foldl RegistryDoc.foldOp doc).pending = doc.pending := by
    intro ops
    induction ops with
    | nil => exact fun _ => rfl
    | cons op rest ih =>
        intro doc
        rw [List.foldl_cons, ih]
        unfold RegistryDoc.foldOp
        split <;> rfl
  unfold RegistryDoc.enqueueOps
  split
  · rfl
  · simp only [localOnly]
    rw [folds]

/-- What the room makes of the queue after a full frame: the frame's row, the ops
queued before it, and then the re-seed. -/
theorem delivered_applyState (doc : RegistryDoc) (now : Nat → Int) (order : IterOrder) (seq : Nat)
    (gcFloor : Nat) (rows : List RegistryRow) (key : RowKey) :
    (doc.applyState now order seq true gcFloor rows).2.delivered rows key =
      applyOps (frameRow rows key) (rowOps key doc.pendingOps ++ doc.reseed seq rows key) := by
  let settled : RegistryDoc :=
    { doc with
      generation := doc.generation + 1
      authoritative := doc.tableAfter seq true rows
      serverSeq := seq
      gcFloor }
  rw [RegistryDoc.applyState_eq, RegistryDoc.delivered]
  change replay _ (rowOps key (settled.enqueueOps now _).pendingOps) = _
  by_cases mode : doc.localOnly = true
  · have kept := @enqueueOps_localOnly settled mode now
      ((doc.seedRows order seq true rows).map rowToSeedOp)
    rw [RegistryDoc.pendingOps, kept, RegistryDoc.reseed, if_pos mode, List.append_nil,
      replay_eq_foldl]
    rfl
  · have online : doc.localOnly = false := Bool.eq_false_iff.mpr mode
    rw [@RegistryDoc.enqueueOps_replay settled online, ← replay_append,
      rowOps_seedRows doc order seq rows key online, replay_eq_foldl]
    rfl

/-! ## What recovery keeps -/

/-- After a full frame, once the room has applied the whole queue, every value
the client displayed is at the room, or a newer one is. -/
def LosesNothing (doc : RegistryDoc) (now : Nat → Int) (order : IterOrder) (seq gcFloor : Nat)
    (rows : List RegistryRow) : Prop :=
  ∀ key shown, doc.overlayRow key.kind key.id = some shown →
    ∀ field value, shown.fields[field]? = some value →
      Keeps field (shown.cell field)
        ((doc.applyState now order seq true gcFloor rows).2.delivered rows key)

/-- A chat the client holds, with a rename still queued, when the server comes
back empty. -/
def renamedBeforeReset : RegistryDoc :=
  let row : RegistryRow :=
    { kind := kindChats, id := "chat-1", seq := 1, deleted := false, delHlc := none
      fields := fields [("title", .string "one")]
      clocks := ExtTreeMap.ofList [("title", encodeHlc 1000 0 "dev-a")] }
  let rename : RowOp :=
    { kind := kindChats, id := "chat-1", op := .update, hlc := encodeHlc 2000 0 "dev-a"
      set := some (fields [("title", .string "two")]), clocks := none }
  { RegistryDoc.new "dev-a" with
    authoritative := KeyedTable.putAll .empty [row]
    serverSeq := 1
    clock := ⟨2000, 1⟩
    pending := [⟨"b-" ++ encodeHlc 2000 1 "dev-a", [rename], false⟩] }

end Zeron.Registry
