import Zeron.Registry.Coalesce

namespace Zeron.Registry

open Std Zeron.Data

/-! # Arrival order

On a live row an upsert and an update do the same thing: they write fields.
Writes of distinct clocks commute, so a live row forgets the order in which
its ops arrived.
-/

/-- No field is written by both with one clock. -/
def ClocksApart (a b : RowOp) : Prop :=
  ∀ first ∈ a.writes, ∀ second ∈ b.writes,
    first.1 = second.1 → a.clockFor first.1 ≠ b.clockFor second.1

instance (a b : RowOp) : Decidable (ClocksApart a b) :=
  inferInstanceAs (Decidable (∀ first ∈ a.writes, ∀ second ∈ b.writes, _ → _))

instance : Std.Symm ClocksApart where
  symm _ _ apart second inB first inA same clocks := apart first inA second inB same.symm clocks.symm

theorem ClocksApart.write? {a b : RowOp} (apart : ClocksApart a b) (field : String) :
    ∀ first ∈ a.write? field, ∀ second ∈ b.write? field, first.clock ≠ second.clock := by
  intro first inA second inB
  obtain ⟨_, firstWrites, rfl⟩ := RowOp.write?_eq_some_iff.mp inA
  obtain ⟨_, secondWrites, rfl⟩ := RowOp.write?_eq_some_iff.mp inB
  exact apart _ firstWrites _ secondWrites rfl

theorem RowOp.writeOver_comm {a b : RowOp} (apart : ClocksApart a b) (base : RegistryRow) :
    b.writeOver (a.writeOver base) = a.writeOver (b.writeOver base) := by
  refine RegistryRow.ext_cells ?_ (fun field => ?_)
  · have left := (b.writeOver_header (a.writeOver base)).trans (a.writeOver_header base)
    have right := (a.writeOver_header (b.writeOver base)).trans (b.writeOver_header base)
    exact left.trans right.symm
  · simp only [RowOp.writeOver_cell]
    exact (base.cell field).apply_comm (apart.write? field)

theorem applyOp_of_live {op : RowOp} {row : RegistryRow} (live : row.deleted = false)
    (writes : op.op ≠ .delete) : (applyOp (some row) op).1 = some (op.writeOver row) := by
  rw [applyOp_of_lands (RowOp.lands_of_live writes live), RowOp.base_of_live live]

theorem writeOver_live {op : RowOp} {row : RegistryRow} (live : row.deleted = false) :
    (op.writeOver row).deleted = false :=
  (op.writeOver_header row).deleted.trans live

theorem foldl_applyOp_of_live {ops : List RowOp} (writes : ∀ op ∈ ops, op.op ≠ .delete)
    {row : RegistryRow} (live : row.deleted = false) :
    ops.foldl (fun row op => (applyOp row op).1) (some row) =
        some (ops.foldl (fun row op => op.writeOver row) row) ∧
      (ops.foldl (fun row op => op.writeOver row) row).deleted = false := by
  induction ops generalizing row with
  | nil => exact ⟨rfl, live⟩
  | cons op rest ih =>
      rw [List.foldl_cons, List.foldl_cons, applyOp_of_live live (writes op (by simp))]
      exact ih (fun other member => writes other (List.mem_cons_of_mem _ member))
        (writeOver_live live)

/-- A live row ends the same, and live, whatever order its upserts and updates
arrive in, as long as no field is written twice with one clock. -/
theorem applyOp_converges {row : RegistryRow} (live : row.deleted = false)
    {left right : List RowOp} (perm : left.Perm right) (writes : ∀ op ∈ left, op.op ≠ .delete)
    (distinct : left.Pairwise ClocksApart) :
    ∃ final : RegistryRow, final.deleted = false ∧
      left.foldl (fun row op => (applyOp row op).1) (some row) = some final ∧
      right.foldl (fun row op => (applyOp row op).1) (some row) = some final := by
  obtain ⟨leftIs, leftLive⟩ := foldl_applyOp_of_live writes live
  obtain ⟨rightIs, _⟩ :=
    foldl_applyOp_of_live (fun op member => writes op (perm.mem_iff.mpr member)) live
  have same : left.foldl (fun row op => op.writeOver row) row =
      right.foldl (fun row op => op.writeOver row) row := by
    refine perm.foldl_eq' (fun first inLeft second alsoInLeft base => ?_) row
    by_cases equal : first = second
    · rw [equal]
    · have apart := distinct.forall inLeft alsoInLeft equal
      exact RowOp.writeOver_comm apart base
  exact ⟨_, leftLive, leftIs, by rw [rightIs, same]⟩

/-- A titled chat, and three ops of three devices on it: a rename, a field
cleared under an older clock, and an upsert of both fields. -/
def threeWriters : RegistryRow × RowOp × RowOp × RowOp :=
  let op := fun (op : OpKind) (ms : Int) (device : String) (entries : List (String × Json))
      (clocks : Option (BTreeMap Hlc)) =>
    ({ kind := "chats", id := "chat-1", op, hlc := encodeHlc ms 0 device,
       set := some (fields entries), clocks } : RowOp)
  ({ kind := "chats", id := "chat-1", seq := 7, deleted := false, delHlc := none,
     fields := fields [("title", .string "old")],
     clocks := ExtTreeMap.ofList [("title", encodeHlc 1000 0 "dev-a")] },
   op .update 2000 "dev-a" [("title", .string "renamed")] none,
   op .update 4000 "dev-b" [("cwd", .null)]
     (some (ExtTreeMap.ofList [("cwd", encodeHlc 1500 0 "dev-b")])),
   op .upsert 3000 "dev-c" [("title", .string "upserted"), ("cwd", .string "/tmp")] none)

theorem applyOp_converges_threeWriters :
    ∃ final : RegistryRow, final.deleted = false ∧
      [threeWriters.2.1, threeWriters.2.2.1, threeWriters.2.2.2].foldl
        (fun row op => (applyOp row op).1) (some threeWriters.1) = some final ∧
      [threeWriters.2.2.2, threeWriters.2.2.1, threeWriters.2.1].foldl
        (fun row op => (applyOp row op).1) (some threeWriters.1) = some final :=
  applyOp_converges (by decide) (List.reverse_perm _).symm (by decide)
    (by decide)

end Zeron.Registry
