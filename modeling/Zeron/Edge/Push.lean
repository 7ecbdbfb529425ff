import Zeron.Registry.QueueMeaning
import Zeron.Edge.Room

namespace Zeron.Edge

open Zeron.Data Zeron.Registry

/-! # A push batch, row by row

A batch touches rows through one insertion-ordered map, but each row only sees
its own ops: its stored state folded through them, stamped with the batch's seq
whenever one of them changed it.
-/

/-! ## An op stays on its row -/

theorem applyOp_key {row : Option RegistryRow} {op : RowOp} {next : RegistryRow}
    (keyed : ∀ held ∈ row, held.key = op.key) (applied : (applyOp row op).1 = some next) :
    next.key = op.key := by
  rw [applyOp_def] at applied
  by_cases delete : op.op = .delete
  · rw [if_pos delete] at applied
    cases row with
    | none => cases applied; rfl
    | some held =>
        have here := keyed held rfl
        dsimp only at applied
        generalize (if held.deleted then hlcNewer op.hlc held.delHlc
          else hlcNewer op.hlc held.maxClock) = beats at applied
        cases beats <;> (cases applied; exact here)
  · rw [if_neg delete] at applied
    cases row with
    | none =>
        by_cases update : op.op = .update
        · simp [update] at applied
        · simp only [update, if_false] at applied
          split at applied <;> (cases applied; rfl)
    | some held =>
        have here := keyed held rfl
        cases gone : held.deleted with
        | false =>
            simp only [gone, Bool.false_eq_true, if_false] at applied
            split at applied <;> (cases applied; exact here)
        | true =>
            by_cases update : op.op = .update
            · simp only [gone, update, if_true] at applied
              cases applied
              exact here
            · cases newer : hlcNewer op.hlc held.delHlc with
              | false =>
                  simp only [gone, update, newer, if_true, if_false, Bool.not_false] at applied
                  cases applied
                  exact here
              | true =>
                  simp only [gone, update, newer, if_true, if_false, Bool.not_true,
                    Bool.false_eq_true] at applied
                  split at applied <;> (cases applied; exact here)

namespace Room

/-! ## The touched map -/

theorem key_of_touchedRow {touched : List RegistryRow} {key : RowKey} {row : RegistryRow}
    (found : touchedRow touched key = some row) : row.key = key := by
  simpa using List.find?_some found

theorem touchedRow_setTouched (touched : List RegistryRow) (row : RegistryRow) (key : RowKey) :
    touchedRow (setTouched touched row) key =
      if row.key = key then some row else touchedRow touched key := by
  unfold setTouched
  split
  · rename_i present
    have swaps : touchedRow
        (touched.map fun held => if held.key = row.key then row else held) key =
        (touchedRow touched key).map fun held => if held.key = row.key then row else held := by
      simp only [touchedRow, List.find?_map]
      congr 2
      funext held
      by_cases same : held.key = row.key <;> simp [same]
    rw [swaps]
    by_cases mine : row.key = key
    · subst mine
      obtain ⟨held, found⟩ := Option.isSome_iff_exists.mp present
      simp [found, key_of_touchedRow found]
    · cases found : touchedRow touched key with
      | none => simp [mine]
      | some held =>
          have apart : held.key ≠ row.key := (key_of_touchedRow found) ▸ fun same => mine same.symm
          simp [mine, apart]
  · rename_i absent
    simp only [Option.not_isSome_iff_eq_none] at absent
    simp only [touchedRow, List.find?_append] at absent ⊢
    by_cases mine : row.key = key
    · subst mine
      simp [absent]
    · simp [mine]

/-- Touched rows have distinct keys and carry the batch's seq. -/
structure Stamped (seq : Nat) (touched : List RegistryRow) : Prop where
  distinct : touched.Pairwise fun a b => a.key ≠ b.key
  seq : ∀ row ∈ touched, row.seq = seq

theorem Stamped.setTouched {seq : Nat} {touched : List RegistryRow} (stamped : Stamped seq touched)
    {row : RegistryRow} (here : row.seq = seq) : Stamped seq (setTouched touched row) := by
  unfold Room.setTouched
  split
  · constructor
    · rw [List.pairwise_map]
      refine stamped.distinct.imp fun {a b} apart => ?_
      split <;> split <;> simp_all
    · intro held member
      obtain ⟨old, inTouched, rfl⟩ := List.mem_map.mp member
      split
      · exact here
      · exact stamped.seq old inTouched
  · rename_i absent
    simp only [touchedRow, Option.not_isSome_iff_eq_none, List.find?_eq_none,
      decide_eq_true_eq] at absent
    constructor
    · refine List.pairwise_append.mpr ⟨stamped.distinct, List.pairwise_singleton _ _, ?_⟩
      intro held inTouched other isRow
      rw [List.mem_singleton.mp isRow]
      exact absent held inTouched
    · intro held member
      rcases List.mem_append.mp member with old | new
      · exact stamped.seq held old
      · rw [List.mem_singleton.mp new]
        exact here

/-! ## One op, one row -/

/-- What one op of a batch makes of its row. -/
def pushRow (seq : Nat) (row : Option RegistryRow) (op : RowOp) : Option RegistryRow :=
  match applyOp row op with
  | (some next, true) => some { next with seq }
  | _ => row

/-- The room's step where the merges agree, in the client's terms. -/
theorem pushRow_cases {op : RowOp} {row : Option RegistryRow}
    (same : applyOp row op = Registry.applyOp row op) (seq : Nat) :
    ((Registry.applyOp row op).1 = row ∧ pushRow seq row op = row) ∨
      ∃ next, (Registry.applyOp row op).1 = some next ∧
        pushRow seq row op = some { next with seq } := by
  unfold pushRow
  cases applied : applyOp row op with
  | mk next changed =>
      rw [applied] at same
      cases changed with
      | false => exact .inl ⟨applyOp_unchanged (by rw [← same]), by cases next <;> rfl⟩
      | true =>
          cases next with
          | some next => exact .inr ⟨next, by rw [← same], rfl⟩
          | none =>
              -- Only an update on a missing row yields none, and it changes nothing.
              rcases applyOp_cases row op with ⟨_, some_⟩ | ⟨_, some_⟩ | ⟨lands, buries, _⟩
              · simp [← same] at some_
              · simp [← same] at some_
              · rw [applyOp_of_inert lands buries] at same
                cases same

theorem key_of_current {room : Room} {touched : List RegistryRow} {key : RowKey}
    {row : RegistryRow} (found : room.current touched key = some row) : row.key = key := by
  rcases Option.or_eq_some_iff.mp found with inTouched | ⟨_, stored⟩
  · exact key_of_touchedRow inTouched
  · exact KeyedTable.key_of_get? stored

theorem current_pushOp (room : Room) (state : PushState) (op : RowOp) (key : RowKey) :
    room.current (room.pushOp state op).touched key =
      if op.key = key then pushRow (room.seq + 1) (room.current state.touched key) op
      else room.current state.touched key := by
  unfold pushOp pushRow
  dsimp only
  cases applied : applyOp (room.current state.touched op.key) op with
  | mk next changed =>
      by_cases mine : op.key = key
      · subst mine
        rw [if_pos rfl, applied]
        cases next with
        | none => cases changed <;> rfl
        | some row =>
            cases changed with
            | false => rfl
            | true =>
                have rowKey : row.key = op.key :=
                  applyOp_key (fun held isHeld => key_of_current isHeld) (by rw [applied])
                have stampedKey : ({ row with seq := room.seq + 1 } : RegistryRow).key = op.key :=
                  rowKey
                simp [current, touchedRow_setTouched, stampedKey]
      · rw [if_neg mine]
        cases next with
        | none => cases changed <;> rfl
        | some row =>
            cases changed with
            | false => rfl
            | true =>
                have rowKey : row.key = op.key :=
                  applyOp_key (fun held isHeld => key_of_current isHeld) (by rw [applied])
                have stampedKey : ({ row with seq := room.seq + 1 } : RegistryRow).key = op.key :=
                  rowKey
                simp [current, touchedRow_setTouched, stampedKey, mine]

theorem stamped_pushOp {room : Room} {state : PushState}
    (stamped : Stamped (room.seq + 1) state.touched) (op : RowOp) :
    Stamped (room.seq + 1) (room.pushOp state op).touched := by
  unfold pushOp
  dsimp only
  split
  · exact stamped.setTouched rfl
  · exact stamped

/-- No op applied exactly when no row was touched. -/
theorem pushOp_applied {room : Room} {state : PushState}
    (together : state.applied = 0 ↔ state.touched = []) (op : RowOp) :
    (room.pushOp state op).applied = 0 ↔ (room.pushOp state op).touched = [] := by
  unfold pushOp
  dsimp only
  split
  · simp only [Nat.add_eq_zero_iff, Nat.one_ne_zero, and_false, false_iff]
    unfold setTouched
    split
    · rename_i present
      intro empty
      rw [List.map_eq_nil_iff.mp empty] at present
      cases present
    · simp
  · exact together

/-! ## A whole batch -/

/-- What a batch has made of its rows, invariantly along its ops. -/
structure BatchSpec (room : Room) (ops : List RowOp) (state : PushState) : Prop where
  stamped : Stamped (room.seq + 1) state.touched
  applied : state.applied = 0 ↔ state.touched = []
  current : ∀ key, room.current state.touched key =
    (rowOps key ops).foldl (pushRow (room.seq + 1)) (room.rows.get? key)

theorem applyBatch_spec (room : Room) (ops : List RowOp) :
    BatchSpec room ops (room.applyBatch ops) := by
  unfold applyBatch
  induction ops using List.reverseRecOn with
  | nil => exact ⟨⟨.nil, by simp⟩, by simp, fun key => rfl⟩
  | append_singleton ops op ih =>
      rw [List.foldl_append]
      refine ⟨stamped_pushOp ih.stamped op, pushOp_applied ih.applied op, fun key => ?_⟩
      rw [List.foldl_cons, List.foldl_nil, current_pushOp, rowOps_append, List.foldl_append,
        ih.current key]
      by_cases mine : op.key = key
      · simp [mine, rowOps]
      · simp [mine, rowOps]

theorem get?_putAll_touched {room : Room} {touched : List RegistryRow}
    (distinct : touched.Pairwise fun a b => a.key ≠ b.key) (key : RowKey) :
    (room.rows.putAll touched).get? key = room.current touched key := by
  unfold current touchedRow
  cases found : touched.find? fun row => row.key = key with
  | none =>
      have absent : ∀ row ∈ touched, row.key ≠ key := by
        simpa using List.find?_eq_none.mp found
      rw [KeyedTable.get?_putAll_of_not_mem absent]
      rfl
  | some row =>
      have here : row.key = key := by simpa using List.find?_some found
      rw [← here, KeyedTable.get?_putAll_of_mem distinct (List.mem_of_find?_eq_some found)]
      rfl

/-- What a push does to the room: nothing when it is rejected, and otherwise
every row is folded through its own ops. -/
theorem get?_applyPushBatch (room : Room) (now : Int) (batch : String) (ops : List RowOp)
    (key : RowKey) :
    (room.applyPushBatch now batch ops).room.rows.get? key =
      if (rejection batch ops).isNone then
        (rowOps key ops).foldl (pushRow (room.seq + 1)) (room.rows.get? key)
      else room.rows.get? key := by
  have spec := applyBatch_spec room ops
  unfold applyPushBatch
  cases rejection batch ops with
  | some reason => rfl
  | none =>
      dsimp only
      rw [Option.isNone_none, if_pos rfl, ← spec.current key]
      by_cases still : (room.applyBatch ops).applied = 0
      · rw [if_pos still, spec.applied.mp still]
        rfl
      · rw [if_neg still]
        exact get?_putAll_touched spec.stamped.distinct key

/-- A push leaves the room as it was, or stamps what it touched with the next
seq and broadcasts exactly that. -/
theorem applyPushBatch_cases (room : Room) (now : Int) (batch : String) (ops : List RowOp) :
    ((room.applyPushBatch now batch ops).room = room ∧
      (room.applyPushBatch now batch ops).broadcast = none) ∨
    ∃ touched, Stamped (room.seq + 1) touched ∧
      (room.applyPushBatch now batch ops).broadcast = some ⟨room.seq + 1, touched⟩ ∧
      (room.applyPushBatch now batch ops).room =
        { room with rows := room.rows.putAll touched, seq := room.seq + 1, backupDirty := true } := by
  have spec := applyBatch_spec room ops
  unfold applyPushBatch
  cases rejection batch ops with
  | some reason => exact .inl ⟨rfl, rfl⟩
  | none =>
      dsimp only
      split
      · exact .inl ⟨rfl, rfl⟩
      · exact .inr ⟨_, spec.stamped, rfl, rfl⟩

end Room

end Zeron.Edge
