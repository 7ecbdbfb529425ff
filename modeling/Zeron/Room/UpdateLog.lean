import Zeron.Data.Groups
import Zeron.Room.Fragments

namespace Zeron.Room

open Zeron.Data

/-! # Chunked update-log rows

One logical update is stored as consecutive rows, the first with `cont = 0` and the rest
with `cont = 1`, and replay concatenates each first row with its followers.  An append
can throw after any of its rows; the flush then keeps the whole pending list and appends
all of it again later.
-/

def chunkBytes : Nat := 1500000

instance : NeZero chunkBytes := ⟨by decide⟩

structure UpdateRow where
  seq : Nat
  bytes : Bytes
  receivedAt : Nat
  cont : Nat
deriving DecidableEq, Repr

/-- `sequence` is the largest `seq` ever given out: deleted rows never free theirs. -/
structure UpdateTable where
  rows : List UpdateRow
  sequence : Nat
deriving DecidableEq, Repr

namespace UpdateTable

def empty : UpdateTable := { rows := [], sequence := 0 }

def insert (table : UpdateTable) (bytes : Bytes) (receivedAt cont : Nat) : UpdateTable :=
  { rows := table.rows ++ [{ seq := table.sequence + 1, bytes, receivedAt, cont }]
    sequence := table.sequence + 1 }

def deleteAll (table : UpdateTable) : UpdateTable := { table with rows := [] }

end UpdateTable

/-- The first row of an update starts at its first byte. -/
def contAt (off : Nat) : Nat := if off = 0 then 0 else 1

/-- The rows from `off` on.  `left` is the number of rows the call still inserts before it
throws, or throws at its end where it has fewer; the flag says that it did not throw. -/
def appendFrom (chunk : Nat) [NeZero chunk] (update : Bytes) (receivedAt off : Nat)
    (table : UpdateTable) (left : Option Nat) : UpdateTable × Bool :=
  if off < update.length then
    if left = some 0 then (table, false)
    else
      let stop := min (off + chunk) update.length
      appendFrom chunk update receivedAt (off + chunk)
        (table.insert (update.extract off stop) receivedAt (contAt off)) (left.map (· - 1))
  else (table, left.isNone)
termination_by update.length - off
decreasing_by have := NeZero.pos chunk; omega

def appendUpdateRow (table : UpdateTable) (update : Bytes) (receivedAt : Nat)
    (left : Option Nat) : UpdateTable × Bool :=
  appendFrom chunkBytes update receivedAt 0 table left

def join : List Bytes → Bytes
  | [part] => part
  | group => group.flatten

def readFrom (parts : List Bytes) : List UpdateRow → List Bytes
  | [] => if parts.isEmpty then [] else [join parts]
  | row :: rest =>
      if row.cont = 0 ∧ ¬parts.isEmpty then join parts :: readFrom [row.bytes] rest
      else readFrom (parts ++ [row.bytes]) rest

def readUpdateRows (table : UpdateTable) : List Bytes :=
  readFrom [] (table.rows.mergeSort (keyLe UpdateRow.seq))

/-- One call of `appendUpdateRow`, with where it throws. -/
structure AppendCall where
  update : Bytes
  receivedAt : Nat
  left : Option Nat
deriving DecidableEq, Repr

def UpdateTable.call (table : UpdateTable) (call : AppendCall) : UpdateTable :=
  (appendUpdateRow table call.update call.receivedAt call.left).1

/-- `calls` are the appends made since the log was last cleared. -/
structure UpdateLog where
  table : UpdateTable
  pending : List Bytes
  calls : List AppendCall
deriving DecidableEq, Repr

/-- Where a flush throws: before the update of that index is complete, after some rows. -/
abbrev Interruption := Option (Nat × Nat)

def Interruption.here : Interruption → Option Nat
  | some (0, rows) => some rows
  | _ => none

def Interruption.next : Interruption → Interruption
  | some (index, rows) => some (index - 1, rows)
  | none => none

/-- The loop of the flush over the pending updates, with the calls it makes.  A throw past
the last update is one of the meta writes that follow the loop. -/
def appendPending (now : Nat) (table : UpdateTable) (calls : List AppendCall) :
    List Bytes → Interruption → UpdateTable × List AppendCall × Bool
  | [], interruption => (table, calls, interruption.isNone)
  | update :: rest, interruption =>
      let called := appendUpdateRow table update now interruption.here
      let calls := calls ++ [{ update, receivedAt := now, left := interruption.here }]
      if called.2 then appendPending now called.1 calls rest interruption.next
      else (called.1, calls, false)

namespace UpdateLog

def start : UpdateLog := { table := .empty, pending := [], calls := [] }

def recordLoroUpdates (log : UpdateLog) (updates : List Bytes) : UpdateLog :=
  { log with pending := log.pending ++ updates.filter fun update => !update.isEmpty }

def flush (log : UpdateLog) (now : Nat) (interruption : Interruption) : UpdateLog :=
  if log.pending.isEmpty then log
  else
    let (table, calls, completed) := appendPending now log.table log.calls log.pending interruption
    { table, calls, pending := if completed then [] else log.pending }

/-- The log folded into a snapshot. -/
def foldLog (log : UpdateLog) : UpdateLog := { log with table := log.table.deleteAll, calls := [] }

def dropLog (log : UpdateLog) : UpdateLog := { log.foldLog with pending := [] }

/-- The object is evicted: its memory goes, its table stays. -/
def evict (log : UpdateLog) : UpdateLog := { log with pending := [] }

end UpdateLog

inductive LogStep where
  | record (updates : List Bytes)
  | flush (now : Nat) (interruption : Interruption)
  | fold
  | drop
  | evict

def UpdateLog.next (log : UpdateLog) : LogStep → UpdateLog
  | .record updates => log.recordLoroUpdates updates
  | .flush now interruption => log.flush now interruption
  | .fold => log.foldLog
  | .drop => log.dropLog
  | .evict => log.evict

def UpdateLog.run (steps : List LogStep) : UpdateLog := steps.foldl UpdateLog.next .start

/-! ## What the rows hold -/

/-- What a call leaves in the log: the whole update, or the chunks before it threw. -/
def AppendCall.stored (call : AppendCall) : Bytes :=
  match call.left with
  | none => call.update
  | some rows => call.update.take (rows * chunkBytes)

/-- A call that left no row leaves no item. -/
def AppendCall.kept (call : AppendCall) : Bool := call.left != some 0

structure UpdateTable.Ordered (table : UpdateTable) : Prop where
  ascending : table.rows.Pairwise fun first second => first.seq < second.seq
  given : ∀ row ∈ table.rows, row.seq ≤ table.sequence

theorem UpdateTable.Ordered.insert {table : UpdateTable} (ordered : table.Ordered)
    (bytes : Bytes) (receivedAt cont : Nat) : (table.insert bytes receivedAt cont).Ordered := by
  constructor
  · simp only [UpdateTable.insert, List.pairwise_append, List.pairwise_singleton,
      List.mem_singleton, forall_eq, true_and]
    refine ⟨ordered.ascending, ?_⟩
    intro row member
    have := ordered.given row member
    omega
  · intro row member
    rcases List.mem_append.mp member with old | new
    · have := ordered.given row old
      simp only [UpdateTable.insert]
      omega
    · cases List.mem_singleton.mp new
      exact Nat.le_refl _

theorem UpdateTable.Ordered.deleteAll (table : UpdateTable) : table.deleteAll.Ordered := by
  constructor
  · exact List.Pairwise.nil
  · intro row member
    cases member

theorem UpdateTable.Ordered.sorted {table : UpdateTable} (ordered : table.Ordered) :
    table.rows.mergeSort (keyLe UpdateRow.seq) = table.rows := by
  apply List.mergeSort_of_pairwise
  apply ordered.ascending.imp
  intro first second less
  exact decide_eq_true (Nat.le_of_lt less)

/-- The rows of one append: a first row and its followers. -/
inductive Block : List UpdateRow → Prop where
  | mk (row : UpdateRow) (followers : List UpdateRow) (first : row.cont = 0)
      (rest : ∀ row ∈ followers, row.cont ≠ 0) : Block (row :: followers)

def blockBytes (block : List UpdateRow) : Bytes := (block.map UpdateRow.bytes).flatten

theorem blockBytes_cons (row : UpdateRow) (rows : List UpdateRow) :
    blockBytes (row :: rows) = row.bytes ++ blockBytes rows := rfl

theorem join_eq_flatten (group : List Bytes) : join group = group.flatten := by
  unfold join
  split
  · simp
  · rfl

theorem readFrom_followers {followers : List UpdateRow} (rest : ∀ row ∈ followers, row.cont ≠ 0)
    (parts : List Bytes) (rows : List UpdateRow) :
    readFrom parts (followers ++ rows) = readFrom (parts ++ followers.map UpdateRow.bytes) rows := by
  induction followers generalizing parts with
  | nil => simp
  | cons row followers ih =>
      have follows := rest row List.mem_cons_self
      simp only [List.cons_append, readFrom, follows, false_and, if_false]
      rw [ih fun row member => rest row (List.mem_cons_of_mem _ member)]
      simp

/-- The rows gathered so far end where the next block starts. -/
theorem readFrom_blocks {blocks : List (List UpdateRow)} (valid : ∀ block ∈ blocks, Block block)
    {parts : List Bytes} (pending : parts ≠ []) :
    readFrom parts blocks.flatten = parts.flatten :: blocks.map blockBytes := by
  induction blocks generalizing parts with
  | nil => simp [readFrom, pending, join_eq_flatten]
  | cons block blocks ih =>
      obtain ⟨row, followers, first, rest⟩ := valid block List.mem_cons_self
      have tail := @ih (fun block member => valid block (List.mem_cons_of_mem _ member))
        ([row.bytes] ++ followers.map UpdateRow.bytes) (by simp)
      simp only [List.flatten_cons, List.cons_append, readFrom, first, true_and,
        List.isEmpty_eq_false_iff.mpr pending, join_eq_flatten]
      rw [readFrom_followers rest, tail]
      simp [blockBytes]

theorem readFrom_nil_blocks {blocks : List (List UpdateRow)}
    (valid : ∀ block ∈ blocks, Block block) :
    readFrom [] blocks.flatten = blocks.map blockBytes := by
  cases blocks with
  | nil => rfl
  | cons block blocks =>
      obtain ⟨row, followers, first, rest⟩ := valid block List.mem_cons_self
      have tail := @readFrom_blocks blocks
        (fun block member => valid block (List.mem_cons_of_mem _ member))
        ([row.bytes] ++ followers.map UpdateRow.bytes) (by simp)
      simp only [List.flatten_cons, List.cons_append, readFrom, List.isEmpty_nil, not_true,
        and_false, if_false, List.nil_append]
      rw [readFrom_followers rest, tail]
      simp [blockBytes]

/-! ## What one append writes -/

section Appending

variable {chunk : Nat} {update : Bytes} {off : Nat} {left : Option Nat} {table : UpdateTable}

/-- What the rows from `off` on hold. -/
def storedFrom (chunk : Nat) (update : Bytes) (off : Nat) : Option Nat → Bytes
  | none => update.drop off
  | some rows => (update.drop off).take (rows * chunk)

theorem storedFrom_step (inside : off < update.length) (more : left ≠ some 0) :
    update.extract off (min (off + chunk) update.length) ++
        storedFrom chunk update (off + chunk) (left.map (· - 1)) =
      storedFrom chunk update off left := by
  have piece : update.extract off (min (off + chunk) update.length) =
      (update.drop off).take chunk := by
    rw [List.extract_eq_take_drop]
    apply List.take_eq_take_iff.mpr
    simp only [List.length_drop]
    omega
  rw [piece]
  cases left with
  | none =>
      simp only [storedFrom, Option.map_none]
      rw [← List.drop_drop, List.take_append_drop]
  | some rows =>
      obtain ⟨rows, rfl⟩ : ∃ before, rows = before + 1 := ⟨rows - 1, by
        have : rows ≠ 0 := fun zero => more (by rw [zero])
        omega⟩
      simp only [storedFrom, Option.map_some, Nat.add_sub_cancel]
      rw [← List.drop_drop, Nat.succ_mul, Nat.add_comm (rows * chunk), List.take_add]

theorem storedFrom_past (past : ¬off < update.length) : storedFrom chunk update off left = [] := by
  have nothing : update.drop off = [] := List.drop_eq_nil_of_le (by omega)
  cases left <;> simp [storedFrom, nothing]

variable [NeZero chunk]

/-- Rows that only continue: those of an append that has inserted its first. -/
theorem appendFrom_followers (receivedAt : Nat) (started : 0 < off) (ordered : table.Ordered) :
    (appendFrom chunk update receivedAt off table left).1.Ordered ∧
      ∃ rows, (appendFrom chunk update receivedAt off table left).1.rows = table.rows ++ rows ∧
        (∀ row ∈ rows, row.cont ≠ 0) ∧ blockBytes rows = storedFrom chunk update off left := by
  induction off, table, left using appendFrom.induct chunk update receivedAt with
  | case1 off table inside =>
      rw [appendFrom, if_pos inside, if_pos rfl]
      exact ⟨ordered, [], by simp [storedFrom, blockBytes]⟩
  | case2 off table left inside more stop ih =>
      rw [appendFrom, if_pos inside, if_neg more]
      obtain ⟨after, rows, written, follow, bytes⟩ :=
        ih (by omega) (ordered.insert _ _ _)
      refine ⟨after, _ :: rows, written.trans (List.append_assoc _ _ _), ?_, ?_⟩
      · intro row member
        rcases List.mem_cons.mp member with rfl | later
        · simp [contAt, Nat.pos_iff_ne_zero.mp started]
        · exact follow row later
      · rw [blockBytes_cons, bytes]
        exact storedFrom_step inside more
  | case3 off table left past =>
      rw [appendFrom, if_neg past]
      exact ⟨ordered, [], by simp [storedFrom_past past, blockBytes]⟩

theorem appendFrom_zero (receivedAt : Nat) (bytes : update ≠ []) (some_row : left ≠ some 0)
    (ordered : table.Ordered) :
    (appendFrom chunk update receivedAt 0 table left).1.Ordered ∧
      ∃ block, Block block ∧ blockBytes block = storedFrom chunk update 0 left ∧
        (appendFrom chunk update receivedAt 0 table left).1.rows = table.rows ++ block := by
  have inside : 0 < update.length := List.length_pos_iff.mpr bytes
  have started : 0 < 0 + chunk := by have := NeZero.pos chunk; omega
  rw [appendFrom, if_pos inside, if_neg some_row]
  obtain ⟨after, rows, written, follow, held⟩ :=
    @appendFrom_followers chunk update (0 + chunk) (left.map (· - 1)) _ _ receivedAt started
      (ordered.insert (update.extract 0 (min (0 + chunk) update.length)) receivedAt (contAt 0))
  refine ⟨after, _ :: rows, ⟨_, rows, rfl, follow⟩, ?_, written.trans (List.append_assoc _ _ _)⟩
  rw [blockBytes_cons, held]
  exact storedFrom_step inside some_row

end Appending

theorem storedFrom_zero (call : AppendCall) :
    storedFrom chunkBytes call.update 0 call.left = call.stored := by
  cases left : call.left <;> simp only [storedFrom, AppendCall.stored, left, List.drop_zero]

/-- An append leaves the table alone or adds one block to it. -/
theorem call_cases {table : UpdateTable} (ordered : table.Ordered) (call : AppendCall)
    (bytes : call.update ≠ []) :
    (table.call call).Ordered ∧
      ((call.kept = false ∧ (table.call call).rows = table.rows) ∨
        (call.kept = true ∧ ∃ block, Block block ∧ blockBytes block = call.stored ∧
          (table.call call).rows = table.rows ++ block)) := by
  by_cases none : call.left = some 0
  · have same : table.call call = table := by
      unfold UpdateTable.call appendUpdateRow
      rw [appendFrom, if_pos (List.length_pos_iff.mpr bytes), if_pos none]
    rw [same]
    exact ⟨ordered, .inl ⟨by simp [AppendCall.kept, none], rfl⟩⟩
  · obtain ⟨after, block, valid, held, written⟩ :=
      @appendFrom_zero chunkBytes call.update call.left table _ call.receivedAt bytes none ordered
    rw [storedFrom_zero] at held
    exact ⟨after, .inr ⟨by simp [AppendCall.kept, none], block, valid, held, written⟩⟩

/-! ## The log over a run -/

/-- The rows are one block for each append that left any. -/
structure UpdateLog.Kept (log : UpdateLog) : Prop where
  ordered : log.table.Ordered
  content : ∀ update ∈ log.pending, update ≠ []
  blocks : ∃ blocks : List (List UpdateRow), log.table.rows = blocks.flatten ∧
    (∀ block ∈ blocks, Block block) ∧
    blocks.map blockBytes = (log.calls.filter AppendCall.kept).map AppendCall.stored

namespace UpdateLog.Kept

variable {log : UpdateLog}

theorem start : UpdateLog.start.Kept := by
  constructor
  · exact UpdateTable.Ordered.deleteAll .empty
  · intro update member
    cases member
  · exact ⟨[], by simp [UpdateLog.start, UpdateTable.empty]⟩

theorem call (kept : log.Kept) (call : AppendCall) (bytes : call.update ≠ []) :
    ({ log with table := log.table.call call, calls := log.calls ++ [call] } : UpdateLog).Kept := by
  obtain ⟨blocks, rows, valid, held⟩ := kept.blocks
  obtain ⟨ordered, ⟨lost, same⟩ | ⟨stays, block, last, stored, written⟩⟩ :=
    call_cases kept.ordered call bytes
  · refine ⟨ordered, kept.content, blocks, same.trans rows, valid, ?_⟩
    simp [List.filter_append, lost, held]
  · refine ⟨ordered, kept.content, blocks ++ [block], ?_, ?_, ?_⟩
    · rw [written, rows]
      simp
    · intro other member
      rcases List.mem_append.mp member with old | new
      · exact valid other old
      · cases List.mem_singleton.mp new
        exact last
    · simp [List.filter_append, stays, held, stored]

theorem appendPending (now : Nat) {updates : List Bytes} (content : ∀ update ∈ updates, update ≠ [])
    (kept : log.Kept) (interruption : Interruption) :
    ({ log with
        table := (appendPending now log.table log.calls updates interruption).1
        calls := (Zeron.Room.appendPending now log.table log.calls updates interruption).2.1 }
      : UpdateLog).Kept := by
  induction updates generalizing log interruption with
  | nil => exact kept
  | cons update rest ih =>
      have after := kept.call { update, receivedAt := now, left := interruption.here }
        (content update List.mem_cons_self)
      have later := ih (fun update member => content update (List.mem_cons_of_mem _ member)) after
        interruption.next
      simp only [Zeron.Room.appendPending]
      split
      · exact later
      · exact after

theorem withPending (kept : log.Kept) {pending : List Bytes}
    (content : ∀ update ∈ pending, update ≠ []) : ({ log with pending } : UpdateLog).Kept :=
  ⟨kept.ordered, content, kept.blocks⟩

theorem flush (kept : log.Kept) (now : Nat) (interruption : Interruption) :
    (log.flush now interruption).Kept := by
  unfold UpdateLog.flush
  split
  · exact kept
  · apply withPending (kept.appendPending now kept.content interruption)
    intro update member
    split at member
    · cases member
    · exact kept.content update member

theorem recordLoroUpdates (kept : log.Kept) (updates : List Bytes) :
    (log.recordLoroUpdates updates).Kept := by
  apply kept.withPending
  intro update member
  rcases List.mem_append.mp member with old | new
  · exact kept.content update old
  · have content := (List.mem_filter.mp new).2
    simpa using content

theorem foldLog (kept : log.Kept) : log.foldLog.Kept :=
  ⟨UpdateTable.Ordered.deleteAll log.table, kept.content, [], rfl, by simp, rfl⟩

theorem next (kept : log.Kept) (step : LogStep) : (log.next step).Kept := by
  cases step with
  | record updates => exact kept.recordLoroUpdates updates
  | flush now interruption => exact kept.flush now interruption
  | fold => exact kept.foldLog
  | drop => exact kept.foldLog.withPending (by simp)
  | evict => exact kept.withPending (by simp)

theorem run (steps : List LogStep) : (UpdateLog.run steps).Kept := by
  unfold UpdateLog.run
  induction steps using List.reverseRecOn with
  | nil => exact start
  | append_singleton steps step ih =>
      rw [List.foldl_append]
      exact ih.next step

theorem read (kept : log.Kept) : readUpdateRows log.table =
    (log.calls.filter AppendCall.kept).map AppendCall.stored := by
  obtain ⟨blocks, rows, valid, held⟩ := kept.blocks
  rw [readUpdateRows, kept.ordered.sorted, rows, readFrom_nil_blocks valid, held]

end UpdateLog.Kept

theorem count_completed_le (calls : List AppendCall) (update : Bytes) :
    calls.countP (fun call => call.left.isNone && call.update == update) ≤
      ((calls.filter AppendCall.kept).map AppendCall.stored).count update := by
  induction calls with
  | nil => exact Nat.le_refl 0
  | cons call calls ih =>
      cases left : call.left with
      | none =>
          by_cases same : call.update = update <;>
            simp [AppendCall.kept, AppendCall.stored, left, same, ih]
      | some rows =>
          rw [List.countP_cons_of_neg (by simp [left])]
          apply ih.trans
          apply List.Sublist.count_le
          exact ((List.sublist_cons_self call calls).filter _).map _

/-- Replay yields one item for each append that left a row, in their order: a completed
append's update whole, and of an interrupted one the chunks before it threw. -/
theorem update_log_reassembles (steps : List LogStep) :
    let log := UpdateLog.run steps
    readUpdateRows log.table = (log.calls.filter AppendCall.kept).map AppendCall.stored ∧
      (∀ update, log.calls.countP (fun call => call.left.isNone && call.update == update) ≤
        (readUpdateRows log.table).count update) ∧
      ∀ item ∈ readUpdateRows log.table, ∃ call ∈ log.calls,
        (call.left = none ∧ item = call.update) ∨
          ∃ rows, call.left = some rows ∧ item = call.update.take (rows * chunkBytes) := by
  intro log
  have read : readUpdateRows log.table = (log.calls.filter AppendCall.kept).map AppendCall.stored :=
    (UpdateLog.Kept.run steps).read
  refine ⟨read, ?_, ?_⟩
  · intro update
    rw [read]
    exact count_completed_le log.calls update
  · intro item member
    rw [read] at member
    obtain ⟨call, kept, rfl⟩ := List.mem_map.mp member
    refine ⟨call, (List.mem_filter.mp kept).1, ?_⟩
    cases left : call.left with
    | none => exact .inl ⟨rfl, by simp [AppendCall.stored, left]⟩
    | some rows => exact .inr ⟨rows, rfl, by simp [AppendCall.stored, left]⟩

end Zeron.Room
