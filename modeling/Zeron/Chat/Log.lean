import Zeron.Data.Lww

namespace Zeron.Chat

/-! # The chat room's log

The append-only table of opaque update rows and the one checkpoint of a chat
room.  `rows` and `meta` are the two SQLite tables; a `meta` number is absent
until its first write.  The HTTP route admits only integers as `seqCovered`.
-/

abbrev Bytes := List UInt8

def maxRowBytes : Nat := 1024 * 1024

structure LogRow where
  seq : Nat
  device : String
  batchId : String
  bytes : Bytes
  receivedAt : Int
deriving DecidableEq

structure LogMeta where
  headSeq : Option Nat
  seqFloor : Option Nat
  checkpointSeq : Option Nat
  checkpointSize : Option Nat
  checkpointAt : Option Int
deriving DecidableEq

structure ChatLog where
  rows : List LogRow
  info : LogMeta
  checkpoint : Option Bytes
  frontier : Option Bytes
deriving DecidableEq

/-- The tables `ensureChatLog` creates. -/
def ensureChatLog : ChatLog := ⟨[], ⟨none, none, none, none, none⟩, none, none⟩

namespace ChatLog

def headSeq (log : ChatLog) : Nat := log.info.headSeq.getD 0

def seqFloor (log : ChatLog) : Nat := log.info.seqFloor.getD 0

def checkpointSeq (log : ChatLog) : Nat := log.info.checkpointSeq.getD 0

def checkpointSize (log : ChatLog) : Nat := log.info.checkpointSize.getD 0

inductive AppendError where
  | tooLarge
  | empty
deriving DecidableEq

inductive AppendOutcome where
  | ok (seq : Nat) (dup : Bool)
  | error (error : AppendError)
deriving DecidableEq

/-- `INSERT INTO rows`: `seq` is the primary key and `batch_id` is unique, and
SQLite refuses a row that breaks either. -/
def insertRow (rows : List LogRow) (row : LogRow) : Option (List LogRow) :=
  if rows.any fun other => other.seq = row.seq ∨ other.batchId = row.batchId then none
  else some (rows ++ [row])

/-- `none` is the exception a refused `INSERT` throws. -/
def appendRow (log : ChatLog) (device batchId : String) (bytes : Bytes) (receivedAt : Int) :
    Option (AppendOutcome × ChatLog) :=
  if bytes.length = 0 then some (.error .empty, log)
  else if bytes.length > maxRowBytes then some (.error .tooLarge, log)
  else
    match log.rows.find? (fun row => row.batchId = batchId) with
    | some existing => some (.ok existing.seq true, log)
    | none =>
        let seq := log.headSeq + 1
        (insertRow log.rows ⟨seq, device, batchId, bytes, receivedAt⟩).map fun rows =>
          (.ok seq false, { log with rows, info := { log.info with headSeq := some seq } })

/-- Rows are stored in the order of their seqs.  An empty device name excludes nothing. -/
def rowsAfter (log : ChatLog) (after : Nat) (excludeDevice : Option String) : List LogRow :=
  match excludeDevice with
  | some device =>
      if device = "" then log.rows.filter fun row => row.seq > after
      else log.rows.filter fun row => row.seq > after ∧ row.device ≠ device
  | none => log.rows.filter fun row => row.seq > after

inductive CheckpointError where
  | floorRegression
  | aheadOfHead
  | empty
deriving DecidableEq

inductive CheckpointOutcome where
  | ok (seqFloor pruned : Nat)
  | error (error : CheckpointError)
deriving DecidableEq

def commitCheckpoint (log : ChatLog) (seqCovered : Int) (frontier bytes : Bytes)
    (committedAt : Int) : CheckpointOutcome × ChatLog :=
  if bytes.length = 0 then (.error .empty, log)
  else if seqCovered < log.seqFloor then (.error .floorRegression, log)
  else if seqCovered > log.headSeq then (.error .aheadOfHead, log)
  else
    let covered := seqCovered.toNat
    let rows := log.rows.filter fun row => ¬ row.seq ≤ covered
    (.ok covered (log.rows.length - rows.length),
      { rows
        info :=
          { log.info with
            seqFloor := some covered
            checkpointSeq := some covered
            checkpointSize := some bytes.length
            checkpointAt := some committedAt }
        checkpoint := some bytes
        frontier := some frontier })

/-! ## Runs -/

inductive Call where
  | append (device batchId : String) (bytes : Bytes) (receivedAt : Int)
  | commit (seqCovered : Int) (frontier bytes : Bytes) (committedAt : Int)
deriving DecidableEq

inductive Outcome where
  | append (outcome : AppendOutcome)
  | commit (outcome : CheckpointOutcome)
deriving DecidableEq

def Outcome.rejected : Outcome → Bool
  | .append (.error _) | .commit (.error _) => true
  | .append (.ok _ _) | .commit (.ok _ _) => false

def call (log : ChatLog) : Call → Option (Outcome × ChatLog)
  | .append device batchId bytes receivedAt =>
      (log.appendRow device batchId bytes receivedAt).map fun result => (.append result.1, result.2)
  | .commit seqCovered frontier bytes committedAt =>
      let result := log.commitCheckpoint seqCovered frontier bytes committedAt
      some (.commit result.1, result.2)

/-- The log after a list of calls, `none` when one of them threw. -/
def run (log : ChatLog) (calls : List Call) : Option ChatLog :=
  calls.foldlM (fun log next => (log.call next).map Prod.snd) log

/-! ## The invariant -/

/-- The stored rows are the seqs above the floor and up to the head, one row
each and in order. -/
structure Contiguous (log : ChatLog) : Prop where
  floor : log.seqFloor ≤ log.headSeq
  seqs : log.rows.map (·.seq) = List.range' (log.seqFloor + 1) (log.headSeq - log.seqFloor)
  batches : (log.rows.map (·.batchId)).Nodup
  covers : log.checkpointSeq = log.seqFloor

theorem Contiguous.mem_seq {log : ChatLog} (contiguous : log.Contiguous) {seq : Nat} :
    (∃ row ∈ log.rows, row.seq = seq) ↔ log.seqFloor < seq ∧ seq ≤ log.headSeq := by
  have floor := contiguous.floor
  have listed : seq ∈ log.rows.map (·.seq) ↔ log.seqFloor < seq ∧ seq ≤ log.headSeq := by
    rw [contiguous.seqs, List.mem_range'_1]
    omega
  simpa using listed

theorem contiguous_ensureChatLog : ensureChatLog.Contiguous :=
  ⟨Nat.le_refl _, rfl, List.nodup_nil, rfl⟩

/-- The log with a new row at its head. -/
def appended (log : ChatLog) (device batchId : String) (bytes : Bytes) (receivedAt : Int) :
    ChatLog :=
  { log with
    rows := log.rows ++ [⟨log.headSeq + 1, device, batchId, bytes, receivedAt⟩]
    info := { log.info with headSeq := some (log.headSeq + 1) } }

/-- Everything an append can do to a contiguous log; the `INSERT` never fails. -/
theorem Contiguous.appendRow_cases {log : ChatLog} (contiguous : log.Contiguous)
    (device batchId : String) (bytes : Bytes) (receivedAt : Int) :
    (¬ (bytes.length ≠ 0 ∧ bytes.length ≤ maxRowBytes) ∧
      ∃ error, log.appendRow device batchId bytes receivedAt = some (.error error, log)) ∨
    (∃ row ∈ log.rows, row.batchId = batchId ∧
      log.appendRow device batchId bytes receivedAt = some (.ok row.seq true, log)) ∨
    ((∀ row ∈ log.rows, row.batchId ≠ batchId) ∧
      log.appendRow device batchId bytes receivedAt =
        some (.ok (log.headSeq + 1) false, log.appended device batchId bytes receivedAt)) := by
  unfold appendRow
  split
  · exact .inl ⟨by omega, _, rfl⟩
  · split
    · exact .inl ⟨by omega, _, rfl⟩
    · refine .inr ?_
      cases found : log.rows.find? (fun row => row.batchId = batchId) with
      | some existing =>
          have same := List.find?_some found
          exact .inl ⟨existing, List.mem_of_find?_eq_some found, by simpa using same, rfl⟩
      | none =>
          have unused : ∀ row ∈ log.rows, row.batchId ≠ batchId := by
            simpa using found
          refine .inr ⟨unused, ?_⟩
          have free : ∀ row ∈ log.rows, ¬ (row.seq = log.headSeq + 1 ∨ row.batchId = batchId) := by
            intro row stored clash
            have bound := (contiguous.mem_seq.mp ⟨row, stored, rfl⟩).2
            cases clash with
            | inl seq => omega
            | inr batch => exact unused row stored batch
          have inserts : ¬ log.rows.any (fun other =>
              other.seq = log.headSeq + 1 ∨ other.batchId = batchId) := by
            simpa using free
          simp only [insertRow, inserts]
          rfl

theorem Contiguous.appended {log : ChatLog} (contiguous : log.Contiguous) {batchId : String}
    (unused : ∀ row ∈ log.rows, row.batchId ≠ batchId) (device : String) (bytes : Bytes)
    (receivedAt : Int) : (log.appended device batchId bytes receivedAt).Contiguous where
  floor := contiguous.floor.trans (Nat.le_succ _)
  seqs := by
    have floor := contiguous.floor
    have next : log.headSeq + 1 - log.seqFloor = log.headSeq - log.seqFloor + 1 := by omega
    have last : log.seqFloor + 1 + (log.headSeq - log.seqFloor) = log.headSeq + 1 := by omega
    change (log.rows ++ [_]).map LogRow.seq =
      List.range' (log.seqFloor + 1) (log.headSeq + 1 - log.seqFloor)
    rw [List.map_append, contiguous.seqs, next, List.range'_1_concat, last]
    rfl
  batches := by
    change ((log.rows ++ [_]).map LogRow.batchId).Nodup
    rw [List.map_append, List.nodup_append]
    refine ⟨contiguous.batches, List.nodup_singleton _, ?_⟩
    intro stored isStored fresh isFresh
    obtain ⟨row, member, rfl⟩ := List.mem_map.mp isStored
    rw [List.mem_singleton.mp isFresh]
    exact unused row member
  covers := contiguous.covers

/-- The log with the rows up to `covered` folded into a checkpoint. -/
def pruned (log : ChatLog) (covered : Nat) (frontier bytes : Bytes) (committedAt : Int) :
    ChatLog where
  rows := log.rows.filter fun row => ¬ row.seq ≤ covered
  info :=
    { log.info with
      seqFloor := some covered
      checkpointSeq := some covered
      checkpointSize := some bytes.length
      checkpointAt := some committedAt }
  checkpoint := some bytes
  frontier := some frontier

/-- Everything a commit can do. -/
theorem commitCheckpoint_cases (log : ChatLog) (seqCovered : Int) (frontier bytes : Bytes)
    (committedAt : Int) :
    (∃ error, log.commitCheckpoint seqCovered frontier bytes committedAt = (.error error, log)) ∨
    ∃ covered count : Nat, seqCovered = covered ∧ log.seqFloor ≤ covered ∧
      covered ≤ log.headSeq ∧
      log.commitCheckpoint seqCovered frontier bytes committedAt =
        (.ok covered count, log.pruned covered frontier bytes committedAt) := by
  unfold commitCheckpoint
  split
  · exact .inl ⟨_, rfl⟩
  · split
    · exact .inl ⟨_, rfl⟩
    · split
      · exact .inl ⟨_, rfl⟩
      · exact .inr ⟨seqCovered.toNat, _, by omega, by omega, by omega, rfl⟩

theorem Contiguous.pruned {log : ChatLog} (contiguous : log.Contiguous) {covered : Nat}
    (above : log.seqFloor ≤ covered) (below : covered ≤ log.headSeq) (frontier bytes : Bytes)
    (committedAt : Int) : (log.pruned covered frontier bytes committedAt).Contiguous where
  floor := below
  seqs := by
    change (log.rows.filter fun row => decide (¬ row.seq ≤ covered)).map LogRow.seq =
      List.range' (covered + 1) (log.headSeq - covered)
    have cut : List.range' (log.seqFloor + 1) (log.headSeq - log.seqFloor) =
        List.range' (log.seqFloor + 1) (covered - log.seqFloor) ++
          List.range' (covered + 1) (log.headSeq - covered) := by
      have start : covered + 1 = log.seqFloor + 1 + (covered - log.seqFloor) := by omega
      rw [start, List.range'_append_1]
      congr 1
      omega
    have dropped : (List.range' (log.seqFloor + 1) (covered - log.seqFloor)).filter
        (fun seq => ¬ seq ≤ covered) = [] := by
      rw [List.filter_eq_nil_iff]
      intro seq member
      have bound := List.mem_range'_1.mp member
      simp only [decide_eq_true_eq, not_not]
      omega
    have kept : (List.range' (covered + 1) (log.headSeq - covered)).filter
        (fun seq => ¬ seq ≤ covered) = List.range' (covered + 1) (log.headSeq - covered) := by
      rw [List.filter_eq_self]
      intro seq member
      have bound := List.mem_range'_1.mp member
      simp only [decide_eq_true_eq]
      omega
    have mapped := List.filter_map (p := fun seq => decide (¬ seq ≤ covered)) (f := LogRow.seq)
      (l := log.rows)
    rw [contiguous.seqs, cut, List.filter_append, dropped, kept, List.nil_append] at mapped
    exact mapped.symm
  batches := contiguous.batches.sublist (List.filter_sublist.map _)
  covers := rfl

/-! ## Every run -/

/-- A call on a contiguous log returns, moves nothing back, keeps the log
contiguous, and leaves it alone when it is rejected. -/
theorem Contiguous.call {log : ChatLog} (contiguous : log.Contiguous) (next : Call) :
    ∃ outcome after, log.call next = some (outcome, after) ∧ after.Contiguous ∧
      log.headSeq ≤ after.headSeq ∧ log.seqFloor ≤ after.seqFloor ∧
      (outcome.rejected = true → after = log) := by
  cases next with
  | append device batchId bytes receivedAt =>
      rcases contiguous.appendRow_cases device batchId bytes receivedAt with
        ⟨_, error, result⟩ | ⟨row, _, _, result⟩ | ⟨unused, result⟩
      · refine ⟨.append (.error error), log, ?_, contiguous, le_rfl, le_rfl, fun _ => rfl⟩
        simp only [ChatLog.call, result, Option.map_some]
      · refine ⟨.append (.ok row.seq true), log, ?_, contiguous, le_rfl, le_rfl, fun _ => rfl⟩
        simp only [ChatLog.call, result, Option.map_some]
      · refine ⟨.append (.ok (log.headSeq + 1) false), _, ?_,
          contiguous.appended unused device bytes receivedAt, Nat.le_succ _, le_rfl,
          by simp [Outcome.rejected]⟩
        simp only [ChatLog.call, result, Option.map_some]
  | commit seqCovered frontier bytes committedAt =>
      rcases log.commitCheckpoint_cases seqCovered frontier bytes committedAt with
        ⟨error, result⟩ | ⟨covered, count, _, above, below, result⟩
      · refine ⟨.commit (.error error), log, ?_, contiguous, le_rfl, le_rfl, fun _ => rfl⟩
        simp only [ChatLog.call, result]
      · refine ⟨.commit (.ok covered count), _, ?_,
          contiguous.pruned above below frontier bytes committedAt, le_rfl, above,
          by simp [Outcome.rejected]⟩
        simp only [ChatLog.call, result]

theorem Contiguous.run {log : ChatLog} (contiguous : log.Contiguous) (calls : List Call) :
    ∃ after, log.run calls = some after ∧ after.Contiguous := by
  induction calls generalizing log with
  | nil => exact ⟨log, rfl, contiguous⟩
  | cons next rest ih =>
      obtain ⟨outcome, after, called, still, _⟩ := contiguous.call next
      obtain ⟨final, ran, ends⟩ := ih still
      refine ⟨final, ?_, ends⟩
      rw [ChatLog.run, List.foldlM_cons, called]
      exact ran

/-- The row of an accepted batch is stored until a checkpoint passes it. -/
def Stores (log : ChatLog) (batchId : String) (seq : Nat) : Prop :=
  log.seqFloor < seq → ∃ row ∈ log.rows, row.batchId = batchId ∧ row.seq = seq

theorem Stores.call {log : ChatLog} (contiguous : log.Contiguous) {batchId : String} {seq : Nat}
    (stores : log.Stores batchId seq) {next : Call} {outcome : Outcome} {after : ChatLog}
    (called : log.call next = some (outcome, after)) : after.Stores batchId seq := by
  cases next with
  | append device other bytes receivedAt =>
      rcases contiguous.appendRow_cases device other bytes receivedAt with
        ⟨_, error, result⟩ | ⟨row, _, _, result⟩ | ⟨_, result⟩
      · simp only [ChatLog.call, result, Option.map_some, Option.some.injEq, Prod.mk.injEq] at called
        rw [← called.2]
        exact stores
      · simp only [ChatLog.call, result, Option.map_some, Option.some.injEq, Prod.mk.injEq] at called
        rw [← called.2]
        exact stores
      · simp only [ChatLog.call, result, Option.map_some, Option.some.injEq, Prod.mk.injEq] at called
        rw [← called.2]
        intro above
        obtain ⟨row, stored, same⟩ := stores above
        exact ⟨row, List.mem_append_left _ stored, same⟩
  | commit seqCovered frontier bytes committedAt =>
      rcases log.commitCheckpoint_cases seqCovered frontier bytes committedAt with
        ⟨error, result⟩ | ⟨covered, count, _, above, _, result⟩
      · simp only [ChatLog.call, result, Option.some.injEq, Prod.mk.injEq] at called
        rw [← called.2]
        exact stores
      · simp only [ChatLog.call, result, Option.some.injEq, Prod.mk.injEq] at called
        rw [← called.2]
        intro past
        have past : covered < seq := past
        obtain ⟨row, stored, batch, same⟩ := stores (by omega)
        refine ⟨row, List.mem_filter.mpr ⟨stored, ?_⟩, batch, same⟩
        simp only [decide_eq_true_eq]
        omega

theorem Stores.run {log : ChatLog} (contiguous : log.Contiguous) {batchId : String} {seq : Nat}
    (stores : log.Stores batchId seq) {calls : List Call} {after : ChatLog}
    (ran : log.run calls = some after) : after.Stores batchId seq := by
  induction calls generalizing log with
  | nil =>
      cases ran
      exact stores
  | cons next rest ih =>
      obtain ⟨outcome, middle, called, still, _⟩ := contiguous.call next
      rw [ChatLog.run, List.foldlM_cons, called] at ran
      exact ih still (stores.call contiguous called) ran

/-- Replaying a batch whose row is stored answers with the row's seq. -/
theorem Contiguous.replay {log : ChatLog} (contiguous : log.Contiguous) {row : LogRow}
    (stored : row ∈ log.rows) (device : String) {bytes : Bytes} (receivedAt : Int)
    (fits : bytes.length ≠ 0 ∧ bytes.length ≤ maxRowBytes) :
    log.appendRow device row.batchId bytes receivedAt = some (.ok row.seq true, log) := by
  rcases contiguous.appendRow_cases device row.batchId bytes receivedAt with
    ⟨rejected, _⟩ | ⟨other, member, same, result⟩ | ⟨unused, _⟩
  · exact absurd fits rejected
  · rw [List.inj_on_of_nodup_map contiguous.batches member stored same] at result
    exact result
  · exact absurd rfl (unused row stored)

/-- An accepted append leaves the row it answers with in the log. -/
theorem Contiguous.stores {log : ChatLog} (contiguous : log.Contiguous) {device batchId : String}
    {bytes : Bytes} {receivedAt : Int} {seq : Nat} {dup : Bool} {after : ChatLog}
    (accepted : log.appendRow device batchId bytes receivedAt = some (.ok seq dup, after)) :
    after.Contiguous ∧ after.Stores batchId seq := by
  rcases contiguous.appendRow_cases device batchId bytes receivedAt with
    ⟨_, error, result⟩ | ⟨row, stored, same, result⟩ | ⟨unused, result⟩
  · rw [result] at accepted
    cases accepted
  · rw [result] at accepted
    cases accepted
    exact ⟨contiguous, fun _ => ⟨row, stored, same, rfl⟩⟩
  · rw [result] at accepted
    cases accepted
    refine ⟨contiguous.appended unused device bytes receivedAt, fun _ => ?_⟩
    exact ⟨_, List.mem_append_right _ (List.mem_singleton.mpr rfl), rfl, rfl⟩

end ChatLog

end Zeron.Chat
