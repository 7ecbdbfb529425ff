import Zeron.Command.Host
import Zeron.Data.Runs
import Zeron.Data.Splits

namespace Zeron.Doc

/-! # The queue of unsent messages

What was typed while the agent was busy waits in a movable list of row maps that any
device may retype, reorder and drop.  Writers store a row as it is given and address
the raw list; readers trim the ids and skip the rows they cannot read.
-/

/-- `str::trim`. -/
def trim (text : String) : String := String.ofList (Command.trim text.toList)

/-- Why a queued row is not currently eligible for delivery. -/
inductive QueueDeliveryGate where
  | editing (leaseId ownerDeviceId ownerInstanceId : String) (acquiredAtMs expiresAtMs : Int)
      (baseTextHash : String)
  | reviewRequired (previousLeaseId ownerDeviceId : String) (sinceMs : Int)
      (baseTextHash : String)
deriving DecidableEq, Repr

structure QueuedMessage where
  id : String
  text : String
  attachments : List String := []
  holdForTurnEnd : Bool := false
  issuedBy : String
  issuedAt : Int := 0
  editedAt : Option Int := none
  deliveryGate : Option QueueDeliveryGate := none
deriving DecidableEq, Repr

/-- What stands under `deliveryGate` in a row: a gate this host knows, or one it does not. -/
inductive StoredGate where
  | gate (value : QueueDeliveryGate)
  | undecodable
deriving DecidableEq, Repr

/-- A row map of the movable list.  A key that is missing, null or of another type than the
readers ask for is `none`. -/
structure QueueRow where
  id : Option String
  text : Option String
  attachments : Option (List String) := none
  holdForTurnEnd : Option Bool := none
  issuedBy : Option String := none
  issuedAt : Option Int := none
  editedAt : Option Int := none
  deliveryGate : Option StoredGate := none
deriving DecidableEq, Repr

/-- A gate kind of a later version fails closed. -/
def StoredGate.read : StoredGate → QueueDeliveryGate
  | .gate value => value
  | .undecodable => .reviewRequired "" "" 0 ""

def queuedFromJson (row : QueueRow) : Option QueuedMessage :=
  match row.id, row.text with
  | some id, some text =>
      if trim id = "" then none
      else if trim text = "" then none
      else some {
        id := trim id, text
        attachments := row.attachments.getD []
        holdForTurnEnd := row.holdForTurnEnd.getD false
        issuedBy := row.issuedBy.getD ""
        issuedAt := row.issuedAt.getD 0
        editedAt := row.editedAt
        deliveryGate := row.deliveryGate.map StoredGate.read }
  | _, _ => none

def readQueue (queue : List QueueRow) : List QueuedMessage := queue.filterMap queuedFromJson

def writeQueuedMap (item : QueuedMessage) : QueueRow where
  id := some item.id
  text := some item.text
  issuedBy := some item.issuedBy
  issuedAt := some item.issuedAt
  attachments := if item.attachments = [] then none else some item.attachments
  holdForTurnEnd := if item.holdForTurnEnd then some true else none
  editedAt := item.editedAt
  deliveryGate := item.deliveryGate.map .gate

/-- The check `push_queued` and `insert_queued` begin with. -/
def schemaError (item : QueuedMessage) : Option String :=
  if trim item.id = "" then some "queued message id required"
  else if trim item.text = "" then some "queued message text required"
  else none

def insertQueued (queue : List QueueRow) (index : Nat) (item : QueuedMessage) :
    Except String (List QueueRow) :=
  match schemaError item with
  | some error => .error error
  | none => .ok (queue.insertIdx (min index queue.length) (writeQueuedMap item))

def pushQueued (queue : List QueueRow) (item : QueuedMessage) : Except String (List QueueRow) :=
  match schemaError item with
  | some error => .error error
  | none => .ok (queue ++ [writeQueuedMap item])

def indexOf (queue : List QueueRow) (id : String) : Option Nat :=
  queue.findIdx? fun row => row.id = some id

def removeQueued (queue : List QueueRow) (id : String) : Bool × List QueueRow :=
  match indexOf queue id with
  | none => (false, queue)
  | some index => (true, queue.eraseIdx index)

/-- The row map at the index of an id takes the writes of `edit`; `none` is no write. -/
def editRow (queue : List QueueRow) (id : String) (edit : QueueRow → Option QueueRow) :
    Bool × List QueueRow :=
  match indexOf queue id with
  | none => (false, queue)
  | some index =>
      match queue[index]?.bind edit with
      | none => (false, queue)
      | some row => (true, queue.set index row)

def setQueuedText (queue : List QueueRow) (id text : String) (nowMs : Int) :
    Bool × List QueueRow :=
  if trim text = "" then removeQueued queue id
  else editRow queue id fun row =>
    if row.text = some text then none
    else some { row with text := some text, editedAt := some nowMs }

def setQueuedDeliveryGate (queue : List QueueRow) (id : String)
    (gate : Option QueueDeliveryGate) : Bool × List QueueRow :=
  editRow queue id fun row => some { row with deliveryGate := gate.map .gate }

def QueueRow.replaceText (row : QueueRow) (nowMs : Int) : Option String → QueueRow
  | none => row
  | some text =>
      if row.text = some text then row
      else { row with text := some text, editedAt := some nowMs }

def QueueRow.replaceAttachments (row : QueueRow) (nowMs : Int) :
    Option (List String) → QueueRow
  | none => row
  | some attachments => { row with attachments := some attachments, editedAt := some nowMs }

/-- An edit is resolved in one commit that also releases the row. -/
def finishQueuedEdit (queue : List QueueRow) (id : String) (replacement : Option String)
    (attachments : Option (List String)) (nowMs : Int) : Bool × List QueueRow :=
  if replacement.any fun text => trim text = "" then removeQueued queue id
  else editRow queue id fun row =>
    some { (row.replaceText nowMs replacement).replaceAttachments nowMs attachments with
      deliveryGate := none }

/-- `mov` takes the row out and puts it back at its new index. -/
def moveRow (queue : List QueueRow) (start finish : Nat) : List QueueRow :=
  match queue[start]? with
  | none => queue
  | some row => (queue.eraseIdx start).insertIdx finish row

def moveQueued (queue : List QueueRow) (id : String) (index : Nat) : Bool × List QueueRow :=
  match indexOf queue id with
  | none => (false, queue)
  | some start =>
      let finish := min index (queue.length - 1)
      if start = finish then (false, queue) else (true, moveRow queue start finish)

/-- The row is looked up twice: its index under the raw id, the message handed back under
the id it is read under. -/
def takeQueued (queue : List QueueRow) (id : String) : Option QueuedMessage × List QueueRow :=
  match indexOf queue id with
  | none => (none, queue)
  | some index =>
      let item := (readQueue queue).find? fun item => item.id = id
      if item.any fun item => item.deliveryGate.isSome then (none, queue)
      else (item, queue.eraseIdx index)

def takeQueueHead (queue : List QueueRow) : Option QueuedMessage × List QueueRow :=
  match readQueue queue with
  | [] => (none, queue)
  | head :: _ => takeQueued queue head.id

/-! ## Runs -/

inductive QueueCall where
  | push (item : QueuedMessage)
  | insert (index : Nat) (item : QueuedMessage)
  | setText (id text : String) (nowMs : Int)
  | setGate (id : String) (gate : Option QueueDeliveryGate)
  | finishEdit (id : String) (replacement : Option String) (attachments : Option (List String))
      (nowMs : Int)
  | move (id : String) (index : Nat)
  | remove (id : String)
  | take (id : String)
  | takeHead
deriving Repr

/-- The document after a call; a refused one leaves it as it was. -/
def QueueCall.run (queue : List QueueRow) : QueueCall → List QueueRow
  | .push item => (pushQueued queue item).toOption.getD queue
  | .insert index item => (insertQueued queue index item).toOption.getD queue
  | .setText id text nowMs => (setQueuedText queue id text nowMs).2
  | .setGate id gate => (setQueuedDeliveryGate queue id gate).2
  | .finishEdit id replacement attachments nowMs =>
      (finishQueuedEdit queue id replacement attachments nowMs).2
  | .move id index => (moveQueued queue id index).2
  | .remove id => (removeQueued queue id).2
  | .take id => (takeQueued queue id).2
  | .takeHead => (takeQueueHead queue).2

def queueStep (queue : List QueueRow) (call : QueueCall) : Option (List QueueRow) :=
  some (call.run queue)

/-- The ids `index_of` compares. -/
def rawIds (queue : List QueueRow) : List String := queue.filterMap fun row => row.id

/-- A row that is put into the queue carries an id that reads back as itself and that no row
of the queue has. -/
def Admissible (queue : List QueueRow) : QueueCall → Prop
  | .push item | .insert _ item =>
      schemaError item = none → trim item.id = item.id ∧ item.id ∉ rawIds queue
  | _ => True

/-! ## The two views agree -/

structure Tidy (queue : List QueueRow) : Prop where
  distinct : (rawIds queue).Nodup
  trimmed : ∀ id ∈ rawIds queue, trim id = id

/-- Every row that is read without a gate is taken under the id it is read under, and its
taking removes that one row; so it is for the head. -/
structure Addressable (queue : List QueueRow) : Prop where
  taken : ∀ front item rear, readQueue queue = front ++ item :: rear →
    item.deliveryGate = none →
    ∃ before row after, queue = before ++ row :: after ∧ queuedFromJson row = some item ∧
      takeQueued queue item.id = (some item, before ++ after) ∧
      readQueue (before ++ after) = front ++ rear
  head : ∀ item rear, readQueue queue = item :: rear → item.deliveryGate = none →
    ∃ rest, takeQueueHead queue = (some item, rest) ∧ readQueue rest = rear

variable {queue rest before after : List QueueRow} {row : QueueRow} {item : QueuedMessage}
  {id : String} {index : Nat}

@[simp] theorem rawIds_append (front rear : List QueueRow) :
    rawIds (front ++ rear) = rawIds front ++ rawIds rear := List.filterMap_append

@[simp] theorem readQueue_append (front rear : List QueueRow) :
    readQueue (front ++ rear) = readQueue front ++ readQueue rear := List.filterMap_append

theorem id_mem_rawIds (member : row ∈ queue) (keyed : row.id = some id) : id ∈ rawIds queue :=
  List.mem_filterMap.mpr ⟨row, member, keyed⟩

/-- A row is read under its trimmed id. -/
theorem id_of_read (read : queuedFromJson row = some item) :
    ∃ raw, row.id = some raw ∧ item.id = trim raw := by
  unfold queuedFromJson at read
  split at read
  · rename_i raw text keyed texted
    split_ifs at read
    cases read
    exact ⟨raw, keyed, rfl⟩
  · cases read

/-- The position of a readable row in the raw list. -/
theorem exists_row_of_read {front rear : List QueuedMessage}
    (read : readQueue queue = front ++ item :: rear) :
    ∃ before row after, queue = before ++ row :: after ∧ queuedFromJson row = some item ∧
      readQueue before = front ∧ readQueue after = rear := by
  obtain ⟨first, second, rfl, readFirst, readSecond⟩ := List.filterMap_eq_append_iff.mp read
  obtain ⟨skipped, row, after, rfl, unread, readRow, readAfter⟩ :=
    List.filterMap_eq_cons_iff.mp readSecond
  refine ⟨first ++ skipped, row, after, by simp, readRow, ?_, readAfter⟩
  have nothing : readQueue skipped = [] := List.filterMap_eq_nil_iff.mpr unread
  rw [readQueue_append, nothing, List.append_nil]
  exact readFirst

theorem Tidy.not_before (tidy : Tidy (before ++ row :: after)) (keyed : row.id = some id)
    {other : QueueRow} (earlier : other ∈ before) : other.id ≠ some id := by
  intro same
  have twice := tidy.distinct
  rw [rawIds_append] at twice
  exact (List.nodup_append.mp twice).2.2 id (id_mem_rawIds earlier same) id
    (id_mem_rawIds List.mem_cons_self keyed) rfl

theorem Tidy.indexOf (tidy : Tidy (before ++ row :: after)) (keyed : row.id = some id) :
    indexOf (before ++ row :: after) id = some before.length := by
  have absent : before.findIdx? (fun row => row.id = some id) = none := by
    apply List.findIdx?_eq_none_iff.mpr
    intro other earlier
    simpa using tidy.not_before keyed earlier
  rw [Doc.indexOf, List.findIdx?_append, absent]
  simp [List.findIdx?_cons, keyed]

/-- The first row read under the id is the one at the index of the id. -/
theorem Tidy.find (tidy : Tidy (before ++ row :: after)) (keyed : row.id = some id)
    (read : queuedFromJson row = some item) (sameId : item.id = id) :
    (readQueue (before ++ row :: after)).find? (fun item => item.id = id) = some item := by
  have absent : (readQueue before).find? (fun item => item.id = id) = none := by
    apply List.find?_eq_none.mpr
    intro earlier found
    obtain ⟨other, member, readOther⟩ := List.mem_filterMap.mp found
    obtain ⟨raw, keyedOther, trimmed⟩ := id_of_read readOther
    have stored : raw ∈ rawIds (before ++ row :: after) :=
      id_mem_rawIds (List.mem_append_left _ member) keyedOther
    rw [tidy.trimmed raw stored] at trimmed
    have distinct := tidy.not_before keyed member
    rw [keyedOther, ← trimmed] at distinct
    simpa using fun same => distinct (congrArg some same)
  have readRest : readQueue (row :: after) = item :: readQueue after :=
    List.filterMap_cons_some read
  rw [readQueue_append, List.find?_append, absent, readRest]
  simp [sameId]

theorem Tidy.take (tidy : Tidy (before ++ row :: after))
    (read : queuedFromJson row = some item) (open_ : item.deliveryGate = none) :
    takeQueued (before ++ row :: after) item.id = (some item, before ++ after) := by
  obtain ⟨raw, keyed, trimmed⟩ := id_of_read read
  have stored : raw ∈ rawIds (before ++ row :: after) :=
    id_mem_rawIds (List.mem_append_right _ List.mem_cons_self) keyed
  rw [tidy.trimmed raw stored] at trimmed
  rw [takeQueued, tidy.indexOf (trimmed ▸ keyed)]
  dsimp only
  rw [tidy.find (trimmed ▸ keyed) read rfl]
  simp [open_, List.eraseIdx_append_of_length_le]

theorem Tidy.addressable (tidy : Tidy queue) : Addressable queue where
  taken front item rear read open_ := by
    obtain ⟨before, row, after, rfl, readRow, readBefore, readAfter⟩ := exists_row_of_read read
    refine ⟨before, row, after, rfl, readRow, tidy.take readRow open_, ?_⟩
    rw [readQueue_append, readBefore, readAfter]
  head item rear read open_ := by
    have split : readQueue queue = [] ++ item :: rear := read
    obtain ⟨before, row, after, rfl, readRow, readBefore, readAfter⟩ := exists_row_of_read split
    refine ⟨before ++ after, ?_, by rw [readQueue_append, readBefore, readAfter]; rfl⟩
    rw [takeQueueHead, read]
    exact tidy.take readRow open_

/-! ## What each call does to the raw ids -/

theorem Tidy.sublist (tidy : Tidy queue) (fewer : List.Sublist (rawIds rest) (rawIds queue)) :
    Tidy rest :=
  ⟨tidy.distinct.sublist fewer, fun id member => tidy.trimmed id (fewer.subset member)⟩

theorem Tidy.perm (tidy : Tidy queue) (moved : List.Perm (rawIds rest) (rawIds queue)) :
    Tidy rest :=
  ⟨moved.nodup_iff.mpr tidy.distinct, fun id member => tidy.trimmed id (moved.subset member)⟩

theorem Tidy.eraseIdx (tidy : Tidy queue) (index : Nat) : Tidy (queue.eraseIdx index) :=
  tidy.sublist ((List.eraseIdx_sublist queue index).filterMap _)

theorem rawIds_writeQueuedMap (item : QueuedMessage) :
    rawIds (writeQueuedMap item :: queue) = item.id :: rawIds queue := rfl

theorem Tidy.cons (tidy : Tidy queue) (trimmed : trim item.id = item.id)
    (fresh : item.id ∉ rawIds queue) : Tidy (writeQueuedMap item :: queue) := by
  constructor
  · rw [rawIds_writeQueuedMap]
    exact List.nodup_cons.mpr ⟨fresh, tidy.distinct⟩
  · intro id member
    rw [rawIds_writeQueuedMap] at member
    rcases List.mem_cons.mp member with rfl | old
    · exact trimmed
    · exact tidy.trimmed id old

theorem Tidy.insertIdx (tidy : Tidy queue) (trimmed : trim item.id = item.id)
    (fresh : item.id ∉ rawIds queue) (inside : index ≤ queue.length) :
    Tidy (queue.insertIdx index (writeQueuedMap item)) :=
  (tidy.cons trimmed fresh).perm ((List.perm_insertIdx _ queue inside).filterMap _)

theorem Tidy.insertQueued (tidy : Tidy queue)
    (admissible : Admissible queue (.insert index item)) :
    Tidy ((insertQueued queue index item).toOption.getD queue) := by
  unfold Doc.insertQueued
  cases checked : schemaError item with
  | some error => exact tidy
  | none =>
      obtain ⟨trimmed, fresh⟩ := admissible checked
      exact tidy.insertIdx trimmed fresh (Nat.min_le_right _ _)

/-- The back of the queue is the index past its end. -/
theorem pushQueued_eq_insertQueued (queue : List QueueRow) (item : QueuedMessage) :
    pushQueued queue item = insertQueued queue queue.length item := by
  rw [pushQueued, insertQueued, Nat.min_self, List.insertIdx_length_self]

theorem Tidy.removeQueued (tidy : Tidy queue) (id : String) : Tidy (removeQueued queue id).2 := by
  unfold Doc.removeQueued
  split
  · exact tidy
  · exact tidy.eraseIdx _

theorem rawIds_set (found : queue[index]? = some row) {written : QueueRow}
    (sameId : written.id = row.id) : rawIds (queue.set index written) = rawIds queue := by
  obtain ⟨before, after, rfl, rfl⟩ := Data.exists_append_of_getElem? found
  rw [List.set_append_right _ _ le_rfl, Nat.sub_self, List.set_cons_zero, rawIds_append,
    rawIds_append]
  unfold rawIds
  rw [List.filterMap_cons, List.filterMap_cons, sameId]

/-- An edit that leaves the id alone keeps the two views together. -/
theorem Tidy.editRow (tidy : Tidy queue) (id : String) {edit : QueueRow → Option QueueRow}
    (sameId : ∀ row written, edit row = some written → written.id = row.id) :
    Tidy (editRow queue id edit).2 := by
  unfold Doc.editRow
  split
  · exact tidy
  · split
    · exact tidy
    · rename_i index _ written edited
      obtain ⟨row, found, edited⟩ := Option.bind_eq_some_iff.mp edited
      exact tidy.perm (.of_eq (rawIds_set found (sameId row written edited)))

theorem Tidy.setQueuedText (tidy : Tidy queue) (id text : String) (nowMs : Int) :
    Tidy (setQueuedText queue id text nowMs).2 := by
  unfold Doc.setQueuedText
  split
  · exact tidy.removeQueued id
  · apply tidy.editRow
    intro row written edited
    split at edited
    · cases edited
    · cases edited
      rfl

theorem QueueRow.replaceText_id (row : QueueRow) (nowMs : Int) (replacement : Option String) :
    (row.replaceText nowMs replacement).id = row.id := by
  cases replacement with
  | none => rfl
  | some text =>
      rw [QueueRow.replaceText]
      split <;> rfl

theorem QueueRow.replaceAttachments_id (row : QueueRow) (nowMs : Int)
    (attachments : Option (List String)) :
    (row.replaceAttachments nowMs attachments).id = row.id := by
  cases attachments <;> rfl

theorem Tidy.finishQueuedEdit (tidy : Tidy queue) (id : String) (replacement : Option String)
    (attachments : Option (List String)) (nowMs : Int) :
    Tidy (finishQueuedEdit queue id replacement attachments nowMs).2 := by
  unfold Doc.finishQueuedEdit
  split
  · exact tidy.removeQueued id
  · apply tidy.editRow
    intro row written edited
    cases edited
    exact (QueueRow.replaceAttachments_id _ nowMs attachments).trans
      (row.replaceText_id nowMs replacement)

theorem moveRow_perm (queue : List QueueRow) {start finish : Nat}
    (inside : finish ≤ queue.length - 1) : List.Perm (moveRow queue start finish) queue := by
  unfold moveRow
  split
  · exact .refl queue
  · rename_i row found
    obtain ⟨bounded, rfl⟩ := List.getElem?_eq_some_iff.mp found
    have room : finish ≤ (queue.eraseIdx start).length := by
      rw [List.length_eraseIdx_of_lt bounded]
      exact inside
    exact (List.perm_insertIdx _ _ room).trans (List.getElem_cons_eraseIdx_perm bounded)

theorem Tidy.moveQueued (tidy : Tidy queue) (id : String) (index : Nat) :
    Tidy (moveQueued queue id index).2 := by
  unfold Doc.moveQueued
  split
  · exact tidy
  · dsimp only
    split
    · exact tidy
    · exact tidy.perm ((moveRow_perm queue (Nat.min_le_right _ _)).filterMap _)

theorem Tidy.takeQueued (tidy : Tidy queue) (id : String) : Tidy (takeQueued queue id).2 := by
  unfold Doc.takeQueued
  split
  · exact tidy
  · dsimp only
    split
    · exact tidy
    · exact tidy.eraseIdx _

theorem Tidy.takeQueueHead (tidy : Tidy queue) : Tidy (takeQueueHead queue).2 := by
  unfold Doc.takeQueueHead
  split
  · exact tidy
  · exact tidy.takeQueued _

theorem Tidy.run (tidy : Tidy queue) {call : QueueCall} (admissible : Admissible queue call) :
    Tidy (call.run queue) := by
  cases call with
  | push item =>
      change Tidy ((pushQueued queue item).toOption.getD queue)
      rw [pushQueued_eq_insertQueued]
      exact tidy.insertQueued admissible
  | insert index item => exact tidy.insertQueued admissible
  | setText id text nowMs => exact tidy.setQueuedText id text nowMs
  | setGate id gate =>
      apply tidy.editRow
      intro row written edited
      cases edited
      rfl
  | finishEdit id replacement attachments nowMs =>
      exact tidy.finishQueuedEdit id replacement attachments nowMs
  | move id index => exact tidy.moveQueued id index
  | remove id => exact tidy.removeQueued id
  | take id => exact tidy.takeQueued id
  | takeHead => exact tidy.takeQueueHead

/-- While every added row has an id of its own that reads back as itself, the queue stays
addressable by the ids it is read under, whatever malformed rows it began with. -/
theorem queue_addressable {start queue : List QueueRow} (tidy : Tidy start)
    (run : Data.Reaches queueStep Admissible start queue) : Addressable queue := by
  have kept : Tidy queue := by
    apply run.keeps tidy
    intro before call after tidyBefore admissible stepped
    cases stepped
    exact tidyBefore.run admissible
  exact kept.addressable

instance (queue : List QueueRow) : DecidablePred (Admissible queue)
  | .push _ | .insert _ _ => inferInstanceAs (Decidable (_ → _))
  | .setText _ _ _ | .setGate _ _ | .finishEdit _ _ _ _ | .move _ _ | .remove _ | .take _
  | .takeHead => .isTrue trivial

def typed (id text : String) : QueuedMessage := { id, text, issuedBy := "phone" }

theorem tidy_new : Tidy [] :=
  ⟨List.nodup_nil, fun _ inside => absurd inside List.not_mem_nil⟩

/-- A send fails after its row was taken: the row goes back to the head and is taken again. -/
theorem queue_addressable_requeued :
    Addressable [writeQueuedMap (typed "q2" "second"), writeQueuedMap (typed "q1" "first")] := by
  have ran : Data.runAll queueStep (fun queue call => decide (Admissible queue call)) []
      [.push (typed "q1" "first"), .push (typed "q2" "second"), .take "q2",
        .insert 0 (typed "q2" "second")] =
      some [writeQueuedMap (typed "q2" "second"), writeQueuedMap (typed "q1" "first")] := by
    decide
  exact queue_addressable tidy_new
    ((Data.reaches_of_runAll ran).mono fun _ _ checked => of_decide_eq_true checked)

/-- A row pushed with a padded id is read as `q1`, yet nothing takes it. -/
theorem queue_not_addressable : ¬ ∀ queue,
    Data.Reaches queueStep (fun _ _ => True) [] queue → Addressable queue := by
  intro always
  have pushed := always [writeQueuedMap (typed " q1" "first")]
    (.single ⟨.push (typed " q1" "first"), trivial, by decide⟩)
  obtain ⟨rest, taken, -⟩ := pushed.head (typed "q1" "first") [] (by decide) rfl
  have stuck : (takeQueueHead [writeQueuedMap (typed " q1" "first")]).1 = none := by
    decide
  rw [taken] at stuck
  cases stuck

end Zeron.Doc
