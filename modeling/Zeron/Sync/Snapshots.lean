import Zeron.Data.Runs

namespace Zeron.Sync

open Zeron.Data

/-! # Snapshots and the outbox

What the store keeps of one document.  A local update is enqueued before it is sent, and a
marker says that the outbox holds all that is unpublished.  When an enqueue fails, the
process remembers it and the next snapshot drops the marker; only the process does.
-/

/-- The calls that write a snapshot. -/
inductive SnapshotWriter where
  | saveSnapshot
  | saveSnapshotWithCursor
  | saveVerifiedSnapshotWithCursor
deriving DecidableEq

structure SnapshotRow (blob : Type) where
  bytes : blob
  cursor : Option Nat
  epoch : Option Nat
  cursorVerified : Bool
  /-- Who wrote the bytes; no column holds it. -/
  writer : SnapshotWriter
deriving DecidableEq

structure OutboxRow (blob : Type) where
  batchId : String
  bytes : blob
  needsCheckpoint : Bool
deriving DecidableEq

/-- The rows of one document, and what the process remembers of it. -/
structure DocsStore (blob : Type) where
  snapshot : Option (SnapshotRow blob)
  outbox : List (OutboxRow blob)
  outboxInitialized : Bool
  /-- The document is among the `failed_publications`. -/
  failedPublication : Bool
  /-- The updates whose enqueue failed, and that were neither enqueued nor acknowledged
  since; nothing holds them. -/
  owed : List String
  /-- Those of them that were owed when the snapshot was saved, while the outbox has not been
  initialized since; nothing holds them. -/
  due : List String
deriving DecidableEq

inductive StoreAction (blob : Type) where
  | enqueueChatUpdate (batchId : String) (update : blob)
  /-- The insertion fails. -/
  | enqueueFails (batchId : String) (update : blob)
  /-- The updates under the ids that are drawn for them. -/
  | initializeChatOutbox (updates : List (String × blob))
  | saveSnapshot (bytes : blob)
  | saveSnapshotWithCursor (bytes : blob) (cursor epoch : Nat)
  | saveVerifiedSnapshotWithCursor (bytes : blob) (cursor epoch : Nat)
  | acknowledgeChatUpdate (batchId : String)
  | rejectChatUpdate (batchId : String)
  | deleteSnapshot
  /-- Another call fails, and its transaction is rolled back. -/
  | rolledBack
  | restart

namespace DocsStore

variable {blob : Type}

def new : DocsStore blob where
  snapshot := none
  outbox := []
  outboxInitialized := false
  failedPublication := false
  owed := []
  due := []

/-- `INSERT OR IGNORE INTO chat_outbox`. -/
def insertOrIgnore (outbox : List (OutboxRow blob)) (batchId : String) (update : blob) :
    List (OutboxRow blob) :=
  if outbox.any fun row => row.batchId = batchId then outbox
  else outbox ++ [{ batchId, bytes := update, needsCheckpoint := false }]

/-- `INSERT INTO chat_outbox`, which fails on an id that is there. -/
def insert (outbox : List (OutboxRow blob)) (update : String × blob) :
    Option (List (OutboxRow blob)) :=
  if outbox.any fun row => row.batchId = update.1 then none
  else some (outbox ++ [{ batchId := update.1, bytes := update.2, needsCheckpoint := false }])

def settle (store : DocsStore blob) (batchId : String) : DocsStore blob :=
  { store with
    owed := store.owed.filter (· ≠ batchId)
    due := store.due.filter (· ≠ batchId) }

def enqueueChatUpdate (store : DocsStore blob) (batchId : String) (update : blob) :
    DocsStore blob :=
  { store.settle batchId with outbox := insertOrIgnore store.outbox batchId update }

def enqueueFails (store : DocsStore blob) (batchId : String) : DocsStore blob :=
  { store with failedPublication := true, owed := batchId :: store.owed }

def initializeChatOutbox (store : DocsStore blob) (updates : List (String × blob)) :
    Option (DocsStore blob) :=
  if store.outboxInitialized then some { store with due := [] }
  else
    (updates.foldlM insert store.outbox).map fun outbox =>
      { store with outbox, outboxInitialized := true, due := [] }

/-- `invalidate_failed_publication`, after a snapshot was written in the same transaction. -/
def invalidateFailedPublication (store : DocsStore blob) : DocsStore blob :=
  { store with
    outboxInitialized := store.outboxInitialized && !store.failedPublication
    due := store.owed }

def saveSnapshot (store : DocsStore blob) (bytes : blob) : DocsStore blob :=
  invalidateFailedPublication
    { store with
      snapshot := some
        (match store.snapshot with
        | none => { bytes, cursor := none, epoch := none, cursorVerified := false, writer := .saveSnapshot }
        | some row => { row with bytes, writer := .saveSnapshot }) }

def saveSnapshotWithCursor (store : DocsStore blob) (bytes : blob) (cursor epoch : Nat) :
    DocsStore blob :=
  invalidateFailedPublication
    { store with
      snapshot := some
        { bytes, cursor := some cursor, epoch := some epoch, cursorVerified := false
          writer := .saveSnapshotWithCursor } }

def saveVerifiedSnapshotWithCursor (store : DocsStore blob) (bytes : blob) (cursor epoch : Nat) :
    DocsStore blob :=
  invalidateFailedPublication
    { store with
      snapshot := some
        { bytes, cursor := some cursor, epoch := some epoch, cursorVerified := true
          writer := .saveVerifiedSnapshotWithCursor } }

def acknowledgeChatUpdate (store : DocsStore blob) (batchId : String) : DocsStore blob :=
  { store.settle batchId with outbox := store.outbox.filter fun row => row.batchId ≠ batchId }

def rejectChatUpdate (store : DocsStore blob) (batchId : String) : DocsStore blob :=
  { store with
    outbox := store.outbox.map fun row =>
      if row.batchId = batchId then { row with needsCheckpoint := true } else row }

/-- The jobs of the document are deleted with them. -/
def deleteSnapshot (store : DocsStore blob) : DocsStore blob :=
  { store with snapshot := none, outbox := [], outboxInitialized := false, due := [] }

/-- `DocsStore::open` starts with no failed publications. -/
def restart (store : DocsStore blob) : DocsStore blob := { store with failedPublication := false }

def chatOutboxInitialized (store : DocsStore blob) : Bool := store.outboxInitialized

def snapshotCursorVerified (store : DocsStore blob) : Bool :=
  (store.snapshot.map SnapshotRow.cursorVerified).getD false

def step (store : DocsStore blob) : StoreAction blob → Option (DocsStore blob)
  | .enqueueChatUpdate batchId update => some (store.enqueueChatUpdate batchId update)
  | .enqueueFails batchId _ => some (store.enqueueFails batchId)
  | .initializeChatOutbox updates => store.initializeChatOutbox updates
  | .saveSnapshot bytes => some (store.saveSnapshot bytes)
  | .saveSnapshotWithCursor bytes cursor epoch => some (store.saveSnapshotWithCursor bytes cursor epoch)
  | .saveVerifiedSnapshotWithCursor bytes cursor epoch =>
      some (store.saveVerifiedSnapshotWithCursor bytes cursor epoch)
  | .acknowledgeChatUpdate batchId => some (store.acknowledgeChatUpdate batchId)
  | .rejectChatUpdate batchId => some (store.rejectChatUpdate batchId)
  | .deleteSnapshot => some store.deleteSnapshot
  | .rolledBack => some store
  | .restart => some store.restart

/-- No update is forgotten, and only verified bytes are vouched for. -/
structure Remembers (store : DocsStore blob) : Prop where
  /-- A snapshot that was saved while an update was owed, as it still is, has no marker. -/
  unpublished : ∀ batchId ∈ store.due, store.snapshot.isSome = true → batchId ∈ store.owed →
    store.chatOutboxInitialized = false
  verified : store.snapshotCursorVerified = true →
    ∃ row, store.snapshot = some row ∧ row.writer = .saveVerifiedSnapshotWithCursor

/-! ## When the store remembers -/

/-- A save finds no update owed, or the failure remembered, or the marker gone already; a
plain save does not come after a verified one. -/
def Allowed (store : DocsStore blob) : StoreAction blob → Prop
  | .saveSnapshot _ =>
      (store.owed = [] ∨ store.failedPublication = true ∨ store.outboxInitialized = false) ∧
        store.snapshotCursorVerified = false
  | .saveSnapshotWithCursor _ _ _ | .saveVerifiedSnapshotWithCursor _ _ _ =>
      store.owed = [] ∨ store.failedPublication = true ∨ store.outboxInitialized = false
  | _ => True

instance (store : DocsStore blob) : (action : StoreAction blob) → Decidable (Allowed store action)
  | .saveSnapshot _ => inferInstanceAs (Decidable ((_ ∨ _ ∨ _) ∧ _))
  | .saveSnapshotWithCursor _ _ _ => inferInstanceAs (Decidable (_ ∨ _ ∨ _))
  | .saveVerifiedSnapshotWithCursor _ _ _ => inferInstanceAs (Decidable (_ ∨ _ ∨ _))
  | .enqueueChatUpdate _ _ => inferInstanceAs (Decidable True)
  | .enqueueFails _ _ => inferInstanceAs (Decidable True)
  | .initializeChatOutbox _ => inferInstanceAs (Decidable True)
  | .acknowledgeChatUpdate _ => inferInstanceAs (Decidable True)
  | .rejectChatUpdate _ => inferInstanceAs (Decidable True)
  | .deleteSnapshot => inferInstanceAs (Decidable True)
  | .rolledBack => inferInstanceAs (Decidable True)
  | .restart => inferInstanceAs (Decidable True)

variable {store next : DocsStore blob}

/-- A step that saves nothing. -/
theorem Remembers.of_kept (remembers : Remembers store) (snapshot : next.snapshot = store.snapshot)
    (due : ∀ batchId ∈ next.due, batchId ∈ store.due ∧ batchId ∈ store.owed)
    (marker : next.due ≠ [] → next.outboxInitialized = store.outboxInitialized) : Remembers next := by
  constructor
  · intro batchId isDue stored _
    obtain ⟨wasDue, wasOwed⟩ := due batchId isDue
    rw [snapshot] at stored
    have unmarked := remembers.unpublished batchId wasDue stored wasOwed
    exact (marker (List.ne_nil_of_mem isDue)).trans unmarked
  · intro verified
    rw [snapshotCursorVerified, snapshot] at verified
    rw [snapshot]
    exact remembers.verified verified

/-- After a save every update that is owed is due. -/
theorem unpublished_save_iff :
    (∀ batchId ∈ store.owed, (store.outboxInitialized && !store.failedPublication) = false) ↔
      store.owed = [] ∨ store.failedPublication = true ∨ store.outboxInitialized = false := by
  cases store.owed with
  | nil => simp
  | cons batchId rest =>
      rw [List.forall_mem_cons, Bool.and_eq_false_iff, Bool.not_eq_false']
      simp only [reduceCtorEq, false_or]
      constructor
      · exact fun unmarked => unmarked.1.symm
      · exact fun unmarked => ⟨unmarked.symm, fun _ _ => unmarked.symm⟩

theorem remembers_save {row : SnapshotRow blob} :
    Remembers (invalidateFailedPublication { store with snapshot := some row }) ↔
      (store.owed = [] ∨ store.failedPublication = true ∨ store.outboxInitialized = false) ∧
        (row.cursorVerified = true → row.writer = .saveVerifiedSnapshotWithCursor) := by
  rw [← unpublished_save_iff]
  constructor
  · intro remembers
    refine ⟨fun batchId isOwed => remembers.unpublished batchId isOwed rfl isOwed, ?_⟩
    intro verified
    obtain ⟨other, same, isWriter⟩ := remembers.verified verified
    cases same
    exact isWriter
  · rintro ⟨unmarked, written⟩
    exact ⟨fun batchId isDue _ _ => unmarked batchId isDue, fun verified => ⟨row, rfl, written verified⟩⟩

theorem remembers_saveSnapshot (bytes : blob) :
    Remembers (store.saveSnapshot bytes) ↔ Allowed store (.saveSnapshot bytes) := by
  rw [saveSnapshot, remembers_save, Allowed]
  apply and_congr_right
  intro _
  unfold snapshotCursorVerified
  cases store.snapshot with
  | none => simp
  | some row => cases verified : row.cursorVerified <;> simp [verified]

/-- What is due is owed. -/
def DueOwed (store : DocsStore blob) : Prop := ∀ batchId ∈ store.due, batchId ∈ store.owed

theorem dueOwed_step {action : StoreAction blob} (dueOwed : DueOwed store)
    (stepped : store.step action = some next) : DueOwed next := by
  have settled : ∀ batchId, DueOwed (store.settle batchId) := by
    intro batchId other isDue
    obtain ⟨wasDue, apart⟩ := List.mem_filter.mp isDue
    exact List.mem_filter.mpr ⟨dueOwed other wasDue, apart⟩
  cases action with
  | enqueueChatUpdate batchId update =>
      cases stepped
      exact settled batchId
  | enqueueFails batchId update =>
      cases stepped
      exact fun other isDue => List.mem_cons_of_mem _ (dueOwed other isDue)
  | initializeChatOutbox updates =>
      rw [step, initializeChatOutbox] at stepped
      split at stepped
      · cases stepped
        exact nofun
      · obtain ⟨outbox, _, rfl⟩ := Option.map_eq_some_iff.mp stepped
        exact nofun
  | saveSnapshot bytes | saveSnapshotWithCursor bytes cursor epoch
  | saveVerifiedSnapshotWithCursor bytes cursor epoch =>
      cases stepped
      exact fun _ isDue => isDue
  | acknowledgeChatUpdate batchId =>
      cases stepped
      exact settled batchId
  | deleteSnapshot =>
      cases stepped
      exact nofun
  | rejectChatUpdate | rolledBack | restart =>
      cases stepped
      exact dueOwed

/-- A step keeps the store's memory exactly when it is an allowed one. -/
theorem remembers_step_iff {action : StoreAction blob} (remembers : Remembers store)
    (dueOwed : DueOwed store) (stepped : store.step action = some next) :
    Remembers next ↔ Allowed store action := by
  have settled : ∀ batchId, ∀ other ∈ (store.settle batchId).due, other ∈ store.due ∧ other ∈ store.owed := by
    intro batchId other isDue
    have wasDue := (List.mem_filter.mp isDue).1
    exact ⟨wasDue, dueOwed other wasDue⟩
  cases action with
  | enqueueChatUpdate batchId update =>
      cases stepped
      exact iff_of_true (remembers.of_kept rfl (settled batchId) fun _ => rfl) trivial
  | enqueueFails batchId update =>
      cases stepped
      exact iff_of_true (remembers.of_kept rfl (fun other isDue => ⟨isDue, dueOwed other isDue⟩)
        fun _ => rfl) trivial
  | initializeChatOutbox updates =>
      rw [step, initializeChatOutbox] at stepped
      split at stepped
      · cases stepped
        exact iff_of_true (remembers.of_kept rfl nofun fun due => absurd rfl due) trivial
      · obtain ⟨outbox, _, rfl⟩ := Option.map_eq_some_iff.mp stepped
        exact iff_of_true (remembers.of_kept rfl nofun fun due => absurd rfl due) trivial
  | saveSnapshot bytes =>
      cases stepped
      exact remembers_saveSnapshot bytes
  | saveSnapshotWithCursor bytes cursor epoch =>
      cases stepped
      rw [saveSnapshotWithCursor, remembers_save, Allowed]
      simp
  | saveVerifiedSnapshotWithCursor bytes cursor epoch =>
      cases stepped
      rw [saveVerifiedSnapshotWithCursor, remembers_save, Allowed]
      simp
  | acknowledgeChatUpdate batchId =>
      cases stepped
      exact iff_of_true (remembers.of_kept rfl (settled batchId) fun _ => rfl) trivial
  | rejectChatUpdate batchId =>
      cases stepped
      exact iff_of_true (remembers.of_kept rfl (fun other isDue => ⟨isDue, dueOwed other isDue⟩)
        fun _ => rfl) trivial
  | deleteSnapshot =>
      cases stepped
      refine iff_of_true ⟨nofun, ?_⟩ trivial
      intro verified
      cases verified
  | rolledBack =>
      cases stepped
      exact iff_of_true remembers trivial
  | restart =>
      cases stepped
      exact iff_of_true (remembers.of_kept rfl (fun other isDue => ⟨isDue, dueOwed other isDue⟩)
        fun _ => rfl) trivial

structure Sound (store : DocsStore blob) : Prop where
  remembers : Remembers store
  dueOwed : DueOwed store

theorem sound_new : Sound (new : DocsStore blob) := by
  refine ⟨⟨nofun, ?_⟩, nofun⟩
  intro verified
  cases verified

/-- As long as every step is an allowed one the store forgets no update and vouches only for
verified bytes, and the first step that is not ends that. -/
theorem nothing_forgotten_iff (runs : Reaches step Allowed new store) :
    Remembers store ∧
      ∀ action next, store.step action = some next → (Remembers next ↔ Allowed store action) := by
  have sound : Sound store := runs.keeps sound_new fun _ _ _ sound allowed stepped =>
    ⟨(remembers_step_iff sound.remembers sound.dueOwed stepped).mpr allowed,
      dueOwed_step sound.dueOwed stepped⟩
  exact ⟨sound.remembers, fun _ _ stepped => remembers_step_iff sound.remembers sound.dueOwed stepped⟩

/-- An enqueue fails, the next save drops the marker, and the outbox is initialized again. -/
def failedAndReplayed : List (StoreAction String) :=
  [.initializeChatOutbox [], .enqueueFails "u" "op", .saveVerifiedSnapshotWithCursor "v1" 7 2, .restart,
    .saveSnapshotWithCursor "v2" 7 2]

theorem nothing_forgotten_replayed :
    ((runAll step (fun store action => decide (Allowed store action)) new failedAndReplayed).map
        fun store => (store.due, store.outboxInitialized)) = some (["u"], false) ∧
    ∀ store, runAll step (fun store action => decide (Allowed store action)) new failedAndReplayed =
      some store → Remembers store := by
  refine ⟨by decide, ?_⟩
  intro store ran
  have runs := (reaches_of_runAll ran).mono fun _ _ permitted => of_decide_eq_true permitted
  exact (nothing_forgotten_iff runs).1

/-- A restart after a failed enqueue leaves the marker of a snapshot saved later, and a plain
save keeps the mark of a verified one. -/
theorem not_all_remembered :
    (¬ ∀ store : DocsStore String, Reaches step (fun _ _ => True) new store →
      ∀ batchId ∈ store.due, store.snapshot.isSome = true → batchId ∈ store.owed →
        store.chatOutboxInitialized = false) ∧
    ¬ ∀ store : DocsStore String, Reaches step (fun _ _ => True) new store →
      store.snapshotCursorVerified = true →
        ∃ row, store.snapshot = some row ∧ row.writer = .saveVerifiedSnapshotWithCursor := by
  constructor
  · intro claimed
    have ran : runAll step (fun _ _ => true) (new : DocsStore String)
        [.initializeChatOutbox [], .enqueueFails "u" "op", .restart, .saveSnapshot "v1"] = some
        { snapshot := some ⟨"v1", none, none, false, .saveSnapshot⟩, outbox := []
          outboxInitialized := true, failedPublication := false, owed := ["u"], due := ["u"] } := by
      decide
    have marked := claimed _ ((reaches_of_runAll ran).mono fun _ _ _ => trivial) "u"
      List.mem_cons_self rfl List.mem_cons_self
    cases marked
  · intro claimed
    have ran : runAll step (fun _ _ => true) (new : DocsStore String)
        [.saveVerifiedSnapshotWithCursor "v1" 7 2, .saveSnapshot "v2"] = some
        { snapshot := some ⟨"v2", some 7, some 2, true, .saveSnapshot⟩, outbox := []
          outboxInitialized := false, failedPublication := false, owed := [], due := [] } := by
      decide
    obtain ⟨row, same, writer⟩ := claimed _ ((reaches_of_runAll ran).mono fun _ _ _ => trivial) rfl
    cases same
    cases writer

end DocsStore

end Zeron.Sync
