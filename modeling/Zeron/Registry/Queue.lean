import Zeron.Registry.QueueMeaning

namespace Zeron.Registry

open Zeron.Data

/-! # What the queue operations do

Local writes, pushes, acks and compaction work on the queue and leave the
server's rows and the cursor alone.  What they make of the queue is said once
here: new ops are appended, and then merges happen.
-/

/-! ## What they leave alone -/

/-- The server's part of the replica is untouched. -/
structure SameTable (doc after : RegistryDoc) : Prop where
  authoritative : after.authoritative = doc.authoritative
  serverSeq : after.serverSeq = doc.serverSeq
  localOnly : after.localOnly = doc.localOnly

theorem SameTable.refl (doc : RegistryDoc) : SameTable doc doc := ⟨rfl, rfl, rfl⟩

theorem SameTable.trans {a b c : RegistryDoc} (first : SameTable a b) (second : SameTable b c) :
    SameTable a c :=
  ⟨second.authoritative.trans first.authoritative, second.serverSeq.trans first.serverSeq,
    second.localOnly.trans first.localOnly⟩

namespace RegistryDoc

theorem nextHlc_sameTable (doc : RegistryDoc) (now : Int) : SameTable doc (doc.nextHlc now).2 :=
  ⟨rfl, rfl, rfl⟩

theorem foldl_sameTable {α : Type} {step : RegistryDoc × (Nat → Int) → α → RegistryDoc × (Nat → Int)}
    (one : ∀ state item, SameTable state.1 (step state item).1) (items : List α)
    (state : RegistryDoc × (Nat → Int)) : SameTable state.1 (items.foldl step state).1 := by
  induction items generalizing state with
  | nil => exact .refl _
  | cons item rest ih => exact (one state item).trans (ih _)

theorem restore_sameTable (state : RegistryDoc × (Nat → Int)) (batch : TailBatch) :
    SameTable state.1 (restore state batch).1 := by
  unfold restore
  dsimp only
  split
  · exact .refl _
  · split <;> exact ⟨rfl, rfl, rfl⟩

theorem pushBatch_sameTable (state : RegistryDoc × (Nat → Int)) (ops : List RowOp) :
    SameTable state.1 (pushBatch state ops).1 :=
  ⟨rfl, rfl, rfl⟩

theorem coalesceUnsent_sameTable (doc : RegistryDoc) (now : Nat → Int) :
    SameTable doc (doc.coalesceUnsent now).2 := by
  unfold coalesceUnsent
  dsimp only
  split
  · exact .refl _
  · split
    · exact ⟨rfl, rfl, rfl⟩
    · let kept : RegistryDoc := { doc with pending := doc.pending.take (unsentStart doc.pending) }
      have restored := foldl_sameTable restore_sameTable
        (Compaction.run ((doc.pending.drop (unsentStart doc.pending)).map TailBatch.ofPending)).tail
        (kept, now)
      exact ⟨restored.authoritative, restored.serverSeq, restored.localOnly⟩

theorem enqueueOps_sameTable {doc : RegistryDoc} (online : doc.localOnly = false)
    (now : Nat → Int) (ops : List RowOp) : SameTable doc (doc.enqueueOps now ops) := by
  unfold enqueueOps
  split
  · exact .refl _
  · rw [if_neg (by simp [online])]
    let counted : RegistryDoc := { doc with generation := doc.generation + 1 }
    have pushed := foldl_sameTable pushBatch_sameTable (chunkOps ops.length ops) (counted, now)
    exact SameTable.trans ⟨pushed.authoritative, pushed.serverSeq, pushed.localOnly⟩
      (coalesceUnsent_sameTable _ _)

theorem write_sameTable {doc : RegistryDoc} (online : doc.localOnly = false) (now : Nat → Int)
    (kind id : String) (op : OpKind) (set : BTreeMap Json) :
    SameTable doc (doc.write now kind id op set) :=
  (doc.nextHlc_sameTable (now 0)).trans
    (@enqueueOps_sameTable (doc.nextHlc (now 0)).2 online _ _)

theorem deleteRowOps_sameTable {doc : RegistryDoc} (online : doc.localOnly = false)
    (now : Nat → Int) (keys : List RowKey) : SameTable doc (doc.deleteRowOps now keys) :=
  (doc.nextHlc_sameTable (now 0)).trans
    (@enqueueOps_sameTable (doc.nextHlc (now 0)).2 online _ _)

theorem ackBatch_sameTable (doc : RegistryDoc) (batch : String) (seq : Nat) :
    SameTable doc (doc.ackBatch batch seq).2 := by
  unfold ackBatch
  dsimp only
  split <;> exact ⟨rfl, rfl, rfl⟩

theorem takePushable_sameTable (doc : RegistryDoc) : SameTable doc doc.takePushable.2 :=
  ⟨rfl, rfl, rfl⟩

theorem markDisconnected_sameTable (doc : RegistryDoc) : SameTable doc doc.markDisconnected :=
  ⟨rfl, rfl, rfl⟩

/-! ## What they make of the queue -/

theorem flatten_chunkOps {fuel : Nat} {ops : List RowOp} (enough : ops.length ≤ fuel) :
    (chunkOps fuel ops).flatten = ops := by
  induction fuel generalizing ops with
  | zero => simpa [chunkOps] using (List.length_eq_zero_iff.mp (Nat.le_zero.mp enough)).symm
  | succ fuel ih =>
      cases ops with
      | nil => rfl
      | cons op rest =>
          have fewer : ((op :: rest).drop maxOpsPerBatch).length ≤ fuel := by
            simp only [List.length_drop, maxOpsPerBatch]
            omega
          rw [chunkOps, List.flatten_cons, ih fewer, List.take_append_drop]
          exact nofun

theorem foldl_pushBatch_pendingOps (lists : List (List RowOp))
    (state : RegistryDoc × (Nat → Int)) :
    (lists.foldl pushBatch state).1.pendingOps = state.1.pendingOps ++ lists.flatten := by
  induction lists generalizing state with
  | nil => simp
  | cons ops rest ih =>
      rw [List.foldl_cons, ih]
      simp [pushBatch, nextHlc, pendingOps]

/-- New ops go behind the queue, and then merges happen. -/
theorem enqueueOps_pendingOps {doc : RegistryDoc} (online : doc.localOnly = false)
    (now : Nat → Int) (ops : List RowOp) :
    ∃ kept unsent lists, doc.pendingOps ++ ops = kept ++ unsent.flatten ∧
      (doc.enqueueOps now ops).pendingOps = kept ++ lists.flatten ∧ Compacts unsent lists := by
  unfold enqueueOps
  split
  · rename_i empty
    exact ⟨doc.pendingOps, [], [], by simpa using empty, by simp, .refl⟩
  · rw [if_neg (by simp [online])]
    let counted : RegistryDoc := { doc with generation := doc.generation + 1 }
    have pushed := foldl_pushBatch_pendingOps (chunkOps ops.length ops) (counted, now)
    rw [flatten_chunkOps (Nat.le_refl _)] at pushed
    obtain ⟨kept, unsent, lists, held, left, compacts⟩ :=
      (coalesceUnsent_compacted ((chunkOps ops.length ops).foldl pushBatch (counted, now)).1
        ((chunkOps ops.length ops).foldl pushBatch (counted, now)).2).pendingOps
    exact ⟨kept, unsent, lists, pushed.symm.trans held, left, compacts⟩

/-- Each row's ops replay as its queued ops and then the new ones. -/
theorem enqueueOps_replay {doc : RegistryDoc} (online : doc.localOnly = false) (now : Nat → Int)
    (ops : List RowOp) (key : RowKey) (base : Option RegistryRow) :
    replay base (rowOps key (doc.enqueueOps now ops).pendingOps) =
      replay (replay base (rowOps key doc.pendingOps)) (rowOps key ops) := by
  obtain ⟨kept, unsent, lists, held, left, compacts⟩ := enqueueOps_pendingOps online now ops
  rw [← replay_append, ← rowOps_append, held, left]
  simp only [rowOps_append, replay_append]
  rw [compacts.replay]

end RegistryDoc

/-- A property of ops that merging two of them keeps. -/
def MergeClosed (property : RowOp → Prop) : Prop :=
  ∀ {a b merged : RowOp}, Coalesced a b merged → property a → property b → property merged

theorem Compacts.forall {property : RowOp → Prop} (closed : MergeClosed property)
    {before after : List (List RowOp)} (compacts : Compacts before after)
    (all : ∀ op ∈ before.flatten, property op) : ∀ op ∈ after.flatten, property op := by
  induction compacts with
  | refl => exact all
  | tail _ merge ih =>
      obtain ⟨front, between, back, earlier, later, merged, rfl, rfl, coalesced, _⟩ := merge
      have both : property merged :=
        closed (coalesceOps_spec coalesced) (ih earlier (by simp)) (ih later (by simp))
      intro op member
      simp only [List.flatten_append, List.flatten_cons, List.mem_append, List.mem_singleton,
        List.nil_append] at member ih
      rcases member with inFront | inBetween | rfl | inBack
      · exact ih op (.inl inFront)
      · exact ih op (.inr (.inr (.inl inBetween)))
      · exact both
      · exact ih op (.inr (.inr (.inr (.inr inBack))))

namespace RegistryDoc

theorem enqueueOps_forall {property : RowOp → Prop} (closed : MergeClosed property)
    {doc : RegistryDoc} (online : doc.localOnly = false) (now : Nat → Int) {ops : List RowOp}
    (queued : ∀ op ∈ doc.pendingOps, property op) (added : ∀ op ∈ ops, property op) :
    ∀ op ∈ (doc.enqueueOps now ops).pendingOps, property op := by
  obtain ⟨kept, unsent, lists, held, left, compacts⟩ := enqueueOps_pendingOps online now ops
  have all : ∀ op ∈ kept ++ unsent.flatten, property op := by
    rw [← held]
    exact fun op member => (List.mem_append.mp member).elim (queued op) (added op)
  rw [left]
  intro op member
  rcases List.mem_append.mp member with early | late
  · exact all op (List.mem_append_left _ early)
  · exact compacts.forall closed
      (fun other inTail => all other (List.mem_append_right _ inTail)) op late

/-! ## Server frames -/

/-- The table after a state frame. -/
def tableAfter (doc : RegistryDoc) (seq : Nat) (full : Bool) (rows : List RegistryRow) : RowTable :=
  if !full || decide (seq < doc.serverSeq) then doc.authoritative.putAll rows
  else KeyedTable.putAll .empty rows

/-- The rows a state frame makes the client re-seed. -/
def seedRows (doc : RegistryDoc) (order : IterOrder) (seq : Nat) (full : Bool)
    (rows : List RegistryRow) : List RegistryRow :=
  if !full then []
  else if seq < doc.serverSeq then order.arrange doc.authoritative.values
  else (order.arrange doc.authoritative.values).filter
    fun row => ((KeyedTable.putAll .empty rows : RowTable).get? row.key).isNone

/-- A state frame settles the table and the cursor; then the seeds are queued. -/
theorem applyState_eq (doc : RegistryDoc) (now : Nat → Int) (order : IterOrder) (seq : Nat)
    (full : Bool) (gcFloor : Nat) (rows : List RegistryRow) :
    (doc.applyState now order seq full gcFloor rows).2 =
      enqueueOps
        { doc with
          generation := doc.generation + 1
          authoritative := doc.tableAfter seq full rows
          serverSeq := seq
          gcFloor }
        now ((doc.seedRows order seq full rows).map rowToSeedOp) := by
  have queues : ∀ (after : RegistryDoc) (ops : List RowOp),
      (if ops.isEmpty then after else after.enqueueOps now ops) = after.enqueueOps now ops := by
    intro after ops
    cases ops with
    | nil => rfl
    | cons op rest => rfl
  unfold applyState tableAfter seedRows
  cases full with
  | false => simp [enqueueOps]
  | true =>
      by_cases behind : seq < doc.serverSeq
      · simp only [behind, decide_true, Bool.not_true, Bool.false_or, Bool.false_eq_true, if_false,
          if_true, queues]
      · simp only [behind, decide_false, Bool.not_true, Bool.or_self, Bool.false_eq_true, if_false]
        rw [← queues]
        split <;> rfl

theorem applyState_table {doc : RegistryDoc} (online : doc.localOnly = false) (now : Nat → Int)
    (order : IterOrder) (seq : Nat) (full : Bool) (gcFloor : Nat) (rows : List RegistryRow) :
    let after := (doc.applyState now order seq full gcFloor rows).2
    after.authoritative = doc.tableAfter seq full rows ∧ after.cursor = seq ∧
      after.localOnly = false := by
  let settled : RegistryDoc :=
    { doc with
      generation := doc.generation + 1
      authoritative := doc.tableAfter seq full rows
      serverSeq := seq
      gcFloor }
  have same := @enqueueOps_sameTable settled online now
    ((doc.seedRows order seq full rows).map rowToSeedOp)
  dsimp only
  rw [applyState_eq]
  exact ⟨same.authoritative, same.serverSeq, same.localOnly.trans online⟩

theorem applyRows_table (doc : RegistryDoc) (seq : Nat) (rows : List RegistryRow) :
    let after := (doc.applyRows seq rows).2
    after.authoritative = doc.authoritative.putAll rows ∧
      after.cursor = (if seq = doc.cursor + 1 then seq else doc.cursor) ∧
      after.localOnly = doc.localOnly := by
  unfold applyRows cursor
  dsimp only
  split
  · rename_i gap
    rw [if_neg (by omega)]
    exact ⟨rfl, rfl, rfl⟩
  · split
    · rename_i notGap next
      rw [if_pos (by omega)]
      exact ⟨rfl, rfl, rfl⟩
    · rename_i notGap old
      rw [if_neg (by omega)]
      exact ⟨rfl, rfl, rfl⟩

theorem applyRows_clock (doc : RegistryDoc) (seq : Nat) (rows : List RegistryRow) :
    (doc.applyRows seq rows).2.clock = doc.clock := by
  unfold applyRows
  dsimp only
  split
  · rfl
  · split <;> rfl

theorem applyRows_pending (doc : RegistryDoc) (seq : Nat) (rows : List RegistryRow) :
    (doc.applyRows seq rows).2.pending = doc.pending := by
  unfold applyRows
  dsimp only
  split
  · rfl
  · split <;> rfl

end RegistryDoc

end Zeron.Registry
