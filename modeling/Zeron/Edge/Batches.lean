import Zeron.Registry.Recovery
import Zeron.Edge.Push
import Zeron.Edge.Agreement

namespace Zeron.Edge

open Zeron.Data Zeron.Registry

/-! # A queue of batches at the room

The room takes a client's batches one after the other.  Up to the seqs it stamps
on them, its rows are then the ones it had with all the queue's ops replayed over
them, exactly as the client replays its pending ops.
-/

/-- The row without its stamp. -/
def unstamped (row : RegistryRow) : RegistryRow := { row with seq := 0 }

/-- The merge neither reads nor writes a row's stamp. -/
theorem applyOp_unstamped (row : Option RegistryRow) (op : RowOp) :
    (Registry.applyOp (row.map unstamped) op).1 = (Registry.applyOp row op).1.map unstamped := by
  have lands : op.lands (row.map unstamped) = op.lands row := by cases row <;> rfl
  have buries : op.buries (row.map unstamped) = op.buries row := by cases row <;> rfl
  have base : op.base (row.map unstamped) = unstamped (op.base row) := by
    cases row with
    | none => rfl
    | some held => cases gone : held.deleted <;> simp [RowOp.base, unstamped, gone]
  have writeOver : ∀ held, op.writeOver (unstamped held) = unstamped (op.writeOver held) := by
    intro held
    have header := op.writeOver_header held
    refine RegistryRow.ext_cells ((op.writeOver_header _).trans ?_) fun field => ?_
    · exact ⟨header.kind.symm, header.id.symm, rfl, header.deleted.symm, header.delHlc.symm⟩
    · exact (op.writeOver_cell _ field).trans (op.writeOver_cell held field).symm
  rcases applyOp_cases row op with ⟨yes, same⟩ | ⟨yes, same⟩ | ⟨misses, spares, same⟩
  · rw [same, applyOp_of_lands (lands.trans yes), base, writeOver]
    rfl
  · rw [same, applyOp_of_buries (buries.trans yes)]
    cases row <;> rfl
  · rw [same, applyOp_of_inert (lands.trans misses) (buries.trans spares)]

theorem undisturbed_unstamped_iff {row : Option RegistryRow} {op : RowOp} :
    Undisturbed (row.map unstamped) op ↔ Undisturbed row op := by
  have lands : op.lands (row.map unstamped) = op.lands row := by cases row <;> rfl
  have clocks : (op.base (row.map unstamped)).clocks = (op.base row).clocks := by
    cases row with
    | none => rfl
    | some held => cases gone : held.deleted <;> simp [RowOp.base, unstamped, gone]
  rw [Undisturbed, Undisturbed, lands, clocks]

theorem replay_unstamped (ops : List RowOp) (row : Option RegistryRow) :
    replay (row.map unstamped) ops = (replay row ops).map unstamped := by
  induction ops generalizing row with
  | nil => rfl
  | cons op rest ih => rw [replay_cons, replay_cons, applyOp_unstamped, ih]

/-- No inherited member shows at any op of a queue, each over what the ops before
it left. -/
def UndisturbedAlong : Option RegistryRow → List RowOp → Prop
  | _, [] => True
  | row, op :: rest => Undisturbed row op ∧ UndisturbedAlong (Registry.applyOp row op).1 rest

theorem undisturbedAlong_unstamped {ops : List RowOp} {row : Option RegistryRow}
    (along : UndisturbedAlong row ops) : UndisturbedAlong (row.map unstamped) ops := by
  induction ops generalizing row with
  | nil => trivial
  | cons op rest ih =>
      refine ⟨undisturbed_unstamped_iff.mpr along.1, ?_⟩
      rw [applyOp_unstamped]
      exact ih along.2

theorem undisturbedAlong_of_ordinary {ops : List RowOp} (ordinary : ∀ op ∈ ops, Ordinary op)
    (row : Option RegistryRow) : UndisturbedAlong row ops := by
  induction ops generalizing row with
  | nil => trivial
  | cons op rest ih =>
      exact ⟨undisturbed_of_ordinary (ordinary op (by simp)) row,
        ih (fun other member => ordinary other (List.mem_cons_of_mem _ member)) _⟩

theorem undisturbedAlong_append {first second : List RowOp} {row : Option RegistryRow}
    (along : UndisturbedAlong row (first ++ second)) :
    UndisturbedAlong row first ∧ UndisturbedAlong (replay row first) second := by
  induction first generalizing row with
  | nil => exact ⟨trivial, along⟩
  | cons op rest ih =>
      obtain ⟨here, later⟩ := ih along.2
      exact ⟨⟨along.1, here⟩, by rw [replay_cons]; exact later⟩

namespace Room

theorem valid_of_accepted {batch : String} {ops : List RowOp}
    (accepted : (rejection batch ops).isNone = true) : ∀ op ∈ ops, Valid op := by
  rw [Option.isNone_iff_eq_none] at accepted
  unfold rejection at accepted
  split at accepted
  · cases accepted
  · split at accepted
    · cases accepted
    · intro op member
      have none_ := List.findSome?_eq_none_iff.mp (Option.map_eq_none_iff.mp accepted) op member
      exact validateOp_eq_none_iff.mp (Option.map_eq_none_iff.mp none_)

/-- What one op makes of its row, up to the stamp. -/
theorem pushRow_unstamped {op : RowOp} (valid : Valid op) (seq : Nat) {row : Option RegistryRow}
    (undisturbed : Undisturbed (row.map unstamped) op) :
    (pushRow seq row op).map unstamped = (Registry.applyOp (row.map unstamped) op).1 := by
  have alike := (applyOp_eq_iff valid row).mpr (undisturbed_unstamped_iff.mp undisturbed)
  rw [applyOp_unstamped]
  rcases pushRow_cases alike seq with ⟨same, kept⟩ | ⟨next, same, stamped⟩
  · rw [same, kept]
  · rw [same, stamped]
    rfl

theorem foldl_pushRow_unstamped {ops : List RowOp} (valid : ∀ op ∈ ops, Valid op) (seq : Nat)
    {row : Option RegistryRow} (along : UndisturbedAlong (row.map unstamped) ops) :
    (ops.foldl (pushRow seq) row).map unstamped = replay (row.map unstamped) ops := by
  induction ops generalizing row with
  | nil => rfl
  | cons op rest ih =>
      have here := pushRow_unstamped (valid op (by simp)) seq along.1
      have later : UndisturbedAlong ((pushRow seq row op).map unstamped) rest := by
        rw [here]
        exact along.2
      rw [List.foldl_cons, ih (fun other member => valid other (List.mem_cons_of_mem _ member)) later,
        here, replay_cons]

/-- A queue of batches, one after the other, and the notifications it sends. -/
def applyBatches (room : Room) (now : Int) (batches : List PendingBatch) :
    Room × List Notification :=
  batches.foldl
    (fun state batch =>
      let pushed := state.1.applyPushBatch now batch.batch batch.ops
      (pushed.room, state.2 ++ pushed.notes))
    (room, [])

/-- The rows of a table, up to their stamps. -/
def content (rows : RowTable) (key : RowKey) : Option RegistryRow :=
  (rows.get? key).map unstamped

theorem content_applyPushBatch {room : Room} {batch : String} {ops : List RowOp}
    (accepted : (rejection batch ops).isNone = true) (now : Int) {key : RowKey}
    (along : UndisturbedAlong (content room.rows key) (rowOps key ops)) :
    content (room.applyPushBatch now batch ops).room.rows key =
      replay (content room.rows key) (rowOps key ops) := by
  rw [content, get?_applyPushBatch, if_pos accepted]
  exact foldl_pushRow_unstamped
    (fun op member => valid_of_accepted accepted op (List.mem_of_mem_filter member)) _ along

/-- Every row ends as the queue's ops replayed over it. -/
theorem content_applyBatches {batches : List PendingBatch}
    (accepted : ∀ batch ∈ batches, (rejection batch.batch batch.ops).isNone = true) (room : Room)
    (now : Int) {key : RowKey}
    (along : UndisturbedAlong (content room.rows key)
      (rowOps key (batches.flatMap PendingBatch.ops))) :
    content (room.applyBatches now batches).1.rows key =
      replay (content room.rows key) (rowOps key (batches.flatMap PendingBatch.ops)) := by
  unfold applyBatches
  induction batches using List.reverseRecOn with
  | nil => rfl
  | append_singleton batches batch ih =>
      rw [List.flatMap_append, rowOps_append] at along ⊢
      obtain ⟨earlier, last⟩ := undisturbedAlong_append along
      have before := ih (fun other member => accepted other (List.mem_append_left _ member)) earlier
      rw [← before] at last
      have here : [batch].flatMap PendingBatch.ops = batch.ops := by simp
      rw [here] at last ⊢
      rw [List.foldl_append, List.foldl_cons, List.foldl_nil,
        content_applyPushBatch (accepted batch (by simp)) now last, before, replay_append]

/-! ## A recovering client's queue -/

theorem keeps_unstamped_iff {field : String} {shown : Lww.Cell Hlc Json}
    {row : Option RegistryRow} : Keeps field shown (row.map unstamped) ↔ Keeps field shown row := by
  cases row with
  | none => rfl
  | some held => simp [Keeps, unstamped, RegistryRow.cell]

/-- `replay` by the room's own merge. -/
def replayByCodeUnit (base : Option RegistryRow) (ops : List RowOp) : Option RegistryRow :=
  ops.foldl (fun row op => (applyOpBy byCodeUnit row op).1.or row) base

theorem replayByCodeUnit_eq {ops : List RowOp} (valid : ∀ op ∈ ops, Valid op)
    {row : Option RegistryRow} (along : UndisturbedAlong row ops) :
    replayByCodeUnit row ops = replay row ops := by
  unfold replayByCodeUnit replay
  induction ops generalizing row with
  | nil => rfl
  | cons op rest ih =>
      have here := valid op (by simp)
      have same := (applyOpBy_byCodeUnit here row).trans ((applyOp_eq_iff here row).mpr along.1)
      have later := along.2
      rw [← applyOp_or_self] at later
      rw [List.foldl_cons, List.foldl_cons, same]
      exact ih (fun other member => valid other (List.mem_cons_of_mem _ member)) later

/-- A room that takes the whole queue shows each row as the client's overlay
did. -/
theorem content_overlay {doc : RegistryDoc} {room : Room} {kind id : String}
    (accepted : ∀ batch ∈ doc.pending, rejection batch.batch batch.ops = none)
    (level : content room.rows ⟨kind, id⟩ = (doc.authoritative.get? ⟨kind, id⟩).map unstamped)
    (along : UndisturbedAlong (doc.authoritative.get? ⟨kind, id⟩)
      (rowOps ⟨kind, id⟩ doc.pendingOps)) (now : Int) :
    (content (room.applyBatches now doc.pending).1.rows ⟨kind, id⟩).filter (fun row => !row.deleted) =
      (doc.overlayRow kind id).map unstamped := by
  have bare := undisturbedAlong_unstamped along
  rw [← level] at bare
  have ends := content_applyBatches
    (fun batch member => Option.isNone_iff_eq_none.mpr (accepted batch member)) room now bare
  rw [ends, level, overlayRow_eq, overlay]
  change Option.filter _ (replay _ (rowOps _ doc.pendingOps)) = _
  rw [replay_unstamped]
  cases replay (doc.authoritative.get? ⟨kind, id⟩) (rowOps ⟨kind, id⟩ doc.pendingOps) with
  | none => rfl
  | some row => cases gone : row.deleted <;> simp [Option.filter, unstamped, gone]

/-- The two merges against each other: one op on one row, one row as a seed, a
sequence of ops on one row, and a client's queue at the room. -/
theorem merges_agree (row : Option RegistryRow) :
    (∀ op, validateOp op = none →
      (applyOpBy byCodeUnit row op = Registry.applyOp row op ↔ Undisturbed row op)) ∧
    (∀ held, rowToSeedOpBy byCodeUnit held = rowToSeedOp held ↔
      held.deleted = true ∨ NewestAgrees held) ∧
    (∀ ops, (∀ op ∈ ops, validateOp op = none) → UndisturbedAlong row ops →
      replayByCodeUnit row ops = replay row ops) ∧
    ∀ (doc : RegistryDoc) (room : Room) (now : Int) (kind id : String),
      (∀ batch ∈ doc.pending, rejection batch.batch batch.ops = none) →
      content room.rows ⟨kind, id⟩ = (doc.authoritative.get? ⟨kind, id⟩).map unstamped →
      UndisturbedAlong (doc.authoritative.get? ⟨kind, id⟩) (rowOps ⟨kind, id⟩ doc.pendingOps) →
      (content (room.applyBatches now doc.pending).1.rows ⟨kind, id⟩).filter
        (fun row => !row.deleted) = (doc.overlayRow kind id).map unstamped := by
  refine ⟨?_, rowToSeedOp_eq_iff, ?_, ?_⟩
  · intro op accepted
    have valid := validateOp_eq_none_iff.mp accepted
    rw [applyOpBy_byCodeUnit valid, applyOp_eq_iff valid]
  · intro ops accepted along
    exact replayByCodeUnit_eq
      (fun op member => validateOp_eq_none_iff.mp (accepted op member)) along
  · intro doc room now kind id accepted level along
    exact content_overlay accepted level along now

/-- An op the room accepts for a field every object inherits. -/
def constructorOp : RowOp :=
  { kind := kindChats, id := "chat-1", op := .upsert
    set := some (fields [("constructor", .string "acme")])
    hlc := "0000000000001-000000-mac", clocks := none }

theorem merges_differ : ¬ ∀ row op, validateOp op = none →
    applyOpBy byCodeUnit row op = Registry.applyOp row op := by
  intro agree
  exact absurd (agree none constructorOp (by decide)) (by decide)

/-- An op the room accepts for a field of its own. -/
def titleOp : RowOp :=
  { constructorOp with set := some (fields [("title", .string "acme")]) }

theorem merges_agree_title :
    validateOp titleOp = none ∧ applyOpBy byCodeUnit none titleOp = Registry.applyOp none titleOp ∧
      replayByCodeUnit none [titleOp] = replay none [titleOp] := by
  have accepted : validateOp titleOp = none := by decide
  have ordinary : Ordinary titleOp := by decide
  have undisturbed := undisturbed_of_ordinary ordinary none
  exact ⟨accepted, ((merges_agree none).1 titleOp accepted).mpr undisturbed,
    (merges_agree none).2.2.1 [titleOp] (by simpa using accepted) ⟨undisturbed, trivial⟩⟩

end Room

end Zeron.Edge
