import Zeron.Data.Runs

namespace Zeron.Sync

open Zeron.Data

/-! # Sync jobs

A row for every document with work to do, under a version from one clock.  Completing a
job names the version that was read before the work, so that it cannot erase a job that
was scheduled in the meantime.
-/

structure SyncJob where
  version : Int
  cursor : String
deriving DecidableEq

/-- The rows of `chat_sync_jobs` by document and kind, and the one of `sync_job_clock`. -/
structure JobStore where
  clock : Int
  jobs : String × String → Option SyncJob
  /-- Every version handed out so far, the latest first; no row holds them. -/
  handed : List Int

inductive JobAction where
  | scheduleSyncJob (doc kind : String)
  | reconcilePage (version : Int) (ids : List String)
  | completeSyncJob (doc kind : String) (version : Int)
  /-- A call fails, or the process stops: what was not committed is gone. -/
  | rolledBack

namespace JobStore

def new : JobStore := { clock := 0, jobs := fun _ => none, handed := [] }

def reconcileKey : String × String := ("*", "reconcile")

/-- `UPDATE sync_job_clock SET value=value+1`; the column is strict, so it never overflows
into a real number. -/
def bump (store : JobStore) : Option JobStore :=
  if store.clock + 1 < 2 ^ 63 then
    some { store with clock := store.clock + 1, handed := (store.clock + 1) :: store.handed }
  else none

def put (store : JobStore) (key : String × String) (job : Option SyncJob) : JobStore :=
  { store with jobs := Function.update store.jobs key job }

def scheduleSyncJob (store : JobStore) (doc kind : String) : Option JobStore :=
  store.bump.map fun store => store.put (doc, kind) (some { version := store.clock, cursor := "" })

def syncJobVersion (store : JobStore) (doc kind : String) : Option Int :=
  (store.jobs (doc, kind)).map SyncJob.version

def reconciliationProgress (store : JobStore) : Option (Int × String) :=
  (store.jobs reconcileKey).map fun job => (job.version, job.cursor)

/-- One row of a page: a job that is there keeps its cursor. -/
def wake (store : JobStore) (id : String) : JobStore :=
  store.put (id, "wake") (some
    { version := store.clock
      cursor := ((store.jobs (id, "wake")).map SyncJob.cursor).getD "" })

def setCursor (store : JobStore) (cursor : String) : JobStore :=
  store.put reconcileKey ((store.jobs reconcileKey).map fun job => { job with cursor })

def reconcilePage (store : JobStore) (version : Int) (ids : List String) : Option JobStore :=
  if store.syncJobVersion "*" "reconcile" ≠ some version then some store
  else
    match ids.getLast? with
    | some last => store.bump.map fun store => (ids.foldl wake store).setCursor last
    | none => some (store.put reconcileKey none)

def completeSyncJob (store : JobStore) (doc kind : String) (version : Int) : JobStore :=
  if store.syncJobVersion doc kind = some version then store.put (doc, kind) none else store

def step (store : JobStore) : JobAction → Option JobStore
  | .scheduleSyncJob doc kind => store.scheduleSyncJob doc kind
  | .reconcilePage version ids => store.reconcilePage version ids
  | .completeSyncJob doc kind version => some (store.completeSyncJob doc kind version)
  | .rolledBack => some store

/-- Any call at any time. -/
def Any (_ : JobStore) (_ : JobAction) : Prop := True

/-! ## One step -/

theorem put_jobs_self (store : JobStore) (key : String × String) (job : Option SyncJob) :
    (store.put key job).jobs key = job := Function.update_self ..

theorem put_jobs_of_ne {store : JobStore} {key other : String × String} {job : Option SyncJob}
    (differs : other ≠ key) : (store.put key job).jobs other = store.jobs other :=
  Function.update_of_ne differs ..

/-- What a step may do to the clock and to each row. -/
structure Moves (before after : JobStore) : Prop where
  clock : (after.clock = before.clock ∧ after.handed = before.handed) ∨
    (before.clock < after.clock ∧ after.handed = after.clock :: before.handed)
  /-- A row has its old version or the newest of all. -/
  jobs : ∀ key job, after.jobs key = some job →
    (∃ old, before.jobs key = some old ∧ old.version = job.version) ∨
      (before.clock < after.clock ∧ job.version = after.clock)

theorem Moves.refl (store : JobStore) : Moves store store :=
  ⟨.inl ⟨rfl, rfl⟩, fun _ job isJob => .inl ⟨job, isJob, rfl⟩⟩

/-- Changing one row leaves the clock, and the others as they are. -/
theorem Moves.put {before after : JobStore} (moves : Moves before after) {key : String × String}
    {row : Option SyncJob} (fits : ∀ job, row = some job →
      (∃ old, before.jobs key = some old ∧ old.version = job.version) ∨
        (before.clock < after.clock ∧ job.version = after.clock)) :
    Moves before (after.put key row) := by
  refine ⟨moves.clock, ?_⟩
  intro other job isJob
  by_cases same : other = key
  · subst same
    rw [put_jobs_self] at isJob
    exact fits job isJob
  · rw [put_jobs_of_ne same] at isJob
    exact moves.jobs other job isJob

theorem moves_bump {before after : JobStore} (bumped : before.bump = some after) :
    Moves before after ∧ before.clock < after.clock := by
  unfold bump at bumped
  split at bumped
  · cases bumped
    have later : before.clock < before.clock + 1 := by omega
    exact ⟨⟨.inr ⟨later, rfl⟩, fun _ job isJob => .inl ⟨job, isJob, rfl⟩⟩, later⟩
  · cases bumped

theorem moves_foldl_wake {before after : JobStore} (moves : Moves before after)
    (later : before.clock < after.clock) (ids : List String) :
    Moves before (ids.foldl wake after) ∧ (ids.foldl wake after).clock = after.clock := by
  induction ids generalizing after with
  | nil => exact ⟨moves, rfl⟩
  | cons id ids ih =>
      rw [List.foldl_cons]
      apply ih
      · apply moves.put
        intro job isJob
        cases isJob
        exact .inr ⟨later, rfl⟩
      · exact later

theorem moves_step {before after : JobStore} {action : JobAction}
    (stepped : before.step action = some after) : Moves before after := by
  cases action with
  | scheduleSyncJob doc kind =>
      obtain ⟨bumped, isBumped, rfl⟩ := Option.map_eq_some_iff.mp stepped
      obtain ⟨moves, later⟩ := moves_bump isBumped
      apply moves.put
      intro job isJob
      cases isJob
      exact .inr ⟨later, rfl⟩
  | reconcilePage version ids =>
      rw [step, reconcilePage] at stepped
      split at stepped
      · cases stepped
        exact .refl before
      · split at stepped
        · rename_i last _
          obtain ⟨bumped, isBumped, rfl⟩ := Option.map_eq_some_iff.mp stepped
          obtain ⟨first, later⟩ := moves_bump isBumped
          obtain ⟨moves, _⟩ := moves_foldl_wake first later ids
          apply moves.put
          intro job isJob
          obtain ⟨row, isRow, rfl⟩ := Option.map_eq_some_iff.mp isJob
          exact moves.jobs _ row isRow
        · cases stepped
          exact (Moves.refl before).put nofun
  | completeSyncJob doc kind version =>
      cases stepped
      unfold completeSyncJob
      split
      · exact (Moves.refl before).put nofun
      · exact .refl before
  | rolledBack =>
      cases stepped
      exact .refl before

/-! ## Whole runs -/

/-- Versions come from the clock, which has never handed out one twice. -/
structure Dated (store : JobStore) : Prop where
  jobs : ∀ key job, store.jobs key = some job → job.version ∈ store.handed
  handed : ∀ version ∈ store.handed, version ≤ store.clock
  fresh : store.handed.Pairwise fun later earlier => earlier < later

theorem dated_new : Dated new := ⟨by simp [new], by simp [new], .nil⟩

theorem Dated.moves {before after : JobStore} (dated : Dated before) (moves : Moves before after) :
    Dated after := by
  have clock : before.clock ≤ after.clock := by
    rcases moves.clock with ⟨same, _⟩ | ⟨later, _⟩ <;> omega
  constructor
  · intro key job isJob
    rcases moves.jobs key job isJob with ⟨old, isOld, same⟩ | ⟨later, newest⟩
    · have held := dated.jobs key old isOld
      rw [same] at held
      rcases moves.clock with ⟨_, handed⟩ | ⟨_, handed⟩
      · rwa [handed]
      · rw [handed]
        exact List.mem_cons_of_mem _ held
    · rcases moves.clock with ⟨same, _⟩ | ⟨_, handed⟩
      · omega
      · rw [handed, newest]
        exact List.mem_cons_self
  · intro version inside
    rcases moves.clock with ⟨same, handed⟩ | ⟨later, handed⟩
    · rw [handed] at inside
      have bound := dated.handed version inside
      omega
    · rw [handed] at inside
      rcases List.mem_cons.mp inside with rfl | earlier
      · exact Int.le_refl _
      · have bound := dated.handed version earlier
        omega
  · rcases moves.clock with ⟨same, handed⟩ | ⟨later, handed⟩
    · rw [handed]
      exact dated.fresh
    · rw [handed]
      apply List.pairwise_cons.mpr
      refine ⟨?_, dated.fresh⟩
      intro version inside
      have bound := dated.handed version inside
      omega

theorem dated_of_reaches {store : JobStore} (runs : Reaches step Any new store) : Dated store :=
  runs.keeps dated_new fun _ _ _ dated _ stepped => dated.moves (moves_step stepped)

theorem clock_le {before after : JobStore} (runs : Reaches step Any before after) :
    before.clock ≤ after.clock := by
  induction runs with
  | refl => exact Int.le_refl _
  | tail _ stepped ih =>
      obtain ⟨action, _, taken⟩ := stepped
      rcases (moves_step taken).clock with ⟨same, _⟩ | ⟨later, _⟩ <;> omega

/-- A job that was scheduled keeps a version of at least its own, for as long as it is there. -/
structure AtLeast (version : Int) (key : String × String) (store : JobStore) : Prop where
  clock : version ≤ store.clock
  job : ∀ job, store.jobs key = some job → version ≤ job.version

theorem AtLeast.moves {version : Int} {key : String × String} {before after : JobStore}
    (atLeast : AtLeast version key before) (moves : Moves before after) :
    AtLeast version key after := by
  have bound := atLeast.clock
  constructor
  · rcases moves.clock with ⟨same, _⟩ | ⟨later, _⟩ <;> omega
  · intro job isJob
    rcases moves.jobs key job isJob with ⟨old, isOld, same⟩ | ⟨later, newest⟩
    · have held := atLeast.job old isOld
      omega
    · omega

/-- The calls that schedule a job: its own, and a page of the current scan that names it. -/
inductive Schedules (store : JobStore) (doc kind : String) : JobAction → Prop
  | own : Schedules store doc kind (.scheduleSyncJob doc kind)
  | page {version : Int} {ids : List String}
      (current : store.syncJobVersion "*" "reconcile" = some version) (named : doc ∈ ids)
      (isWake : kind = "wake") : Schedules store doc kind (.reconcilePage version ids)

theorem foldl_wake_job {store : JobStore} {doc : String} {ids : List String}
    (named : doc ∈ ids ∨ ∃ job, store.jobs (doc, "wake") = some job ∧ job.version = store.clock) :
    ∃ job, (ids.foldl wake store).jobs (doc, "wake") = some job ∧ job.version = store.clock := by
  induction ids generalizing store with
  | nil => exact named.resolve_left (by simp)
  | cons id ids ih =>
      rw [List.foldl_cons]
      have clock : (store.wake id).clock = store.clock := rfl
      rw [← clock]
      apply ih
      by_cases same : doc = id
      · subst same
        exact .inr ⟨_, put_jobs_self .., rfl⟩
      · rcases named with inside | ⟨job, isJob, isVersion⟩
        · exact .inl ((List.mem_cons.mp inside).resolve_left same)
        · refine .inr ⟨job, ?_, isVersion⟩
          rw [wake, put_jobs_of_ne (by simpa using same)]
          exact isJob

/-- A job that is scheduled gets a version that the clock had not reached. -/
theorem scheduled_job {before after : JobStore} {doc kind : String} {action : JobAction}
    (schedules : before.Schedules doc kind action) (stepped : before.step action = some after) :
    ∃ job, after.jobs (doc, kind) = some job ∧ job.version = after.clock ∧
      before.clock < after.clock := by
  cases schedules with
  | own =>
      obtain ⟨bumped, isBumped, rfl⟩ := Option.map_eq_some_iff.mp stepped
      exact ⟨_, put_jobs_self .., rfl, (moves_bump isBumped).2⟩
  | @page version ids current named isWake =>
      subst isWake
      rw [step, reconcilePage, if_neg (not_not.mpr current)] at stepped
      split at stepped
      · obtain ⟨bumped, isBumped, rfl⟩ := Option.map_eq_some_iff.mp stepped
        obtain ⟨moves, later⟩ := moves_bump isBumped
        obtain ⟨job, isJob, isVersion⟩ := @foldl_wake_job bumped doc ids (.inl named)
        obtain ⟨_, clock⟩ := moves_foldl_wake moves later ids
        have apart : (doc, "wake") ≠ reconcileKey := by simp [reconcileKey]
        refine ⟨job, ?_, ?_, ?_⟩
        · rw [setCursor, put_jobs_of_ne apart]
          exact isJob
        · exact isVersion.trans clock.symm
        · exact lt_of_lt_of_eq later clock.symm
      · rename_i nothing
        rw [List.getLast?_eq_none_iff.mp nothing] at named
        cases named

theorem completeSyncJob_of_newer {store : JobStore} {doc kind : String} {version newer : Int}
    (atLeast : AtLeast newer (doc, kind) store) (below : version < newer) :
    store.completeSyncJob doc kind version = store := by
  apply if_neg
  intro current
  obtain ⟨job, isJob, isVersion⟩ := Option.map_eq_some_iff.mp current
  have bound := atLeast.job job isJob
  omega

/-- Completing the version that was read never erases a job scheduled since, however much
later it comes, and no page of an older scan is accepted. -/
theorem newer_wake_survives {read before scheduled after : JobStore} {doc kind : String}
    {version : Int} {action : JobAction} (begins : Reaches step Any new read)
    (isRead : read.syncJobVersion doc kind = some version) (meanwhile : Reaches step Any read before)
    (schedules : before.Schedules doc kind action) (isScheduled : before.step action = some scheduled)
    (runs : Reaches step Any scheduled after) :
    (∃ newer, (scheduled.completeSyncJob doc kind version).syncJobVersion doc kind = some newer ∧
      version < newer) ∧
    after.completeSyncJob doc kind version = after ∧
    (after.handed.Pairwise fun later earlier => earlier < later) ∧
    (∀ key job, after.jobs key = some job → job.version ∈ after.handed) ∧
    ∀ stale ids, after.syncJobVersion "*" "reconcile" ≠ some stale →
      after.reconcilePage stale ids = some after := by
  obtain ⟨old, isOld, oldVersion⟩ := Option.map_eq_some_iff.mp isRead
  have datedRead := dated_of_reaches begins
  have readBound := datedRead.handed _ (datedRead.jobs _ old isOld)
  have onward := clock_le meanwhile
  obtain ⟨job, isJob, isVersion, later⟩ := scheduled_job schedules isScheduled
  have begun : AtLeast scheduled.clock (doc, kind) scheduled := by
    refine ⟨Int.le_refl _, ?_⟩
    intro other isOther
    rw [isJob] at isOther
    cases isOther
    omega
  have held : AtLeast scheduled.clock (doc, kind) after := runs.keeps begun
    fun _ _ _ atLeast _ stepped => atLeast.moves (moves_step stepped)
  have below : version < scheduled.clock := by omega
  have reached : Reaches step Any new scheduled :=
    (begins.trans meanwhile).tail ⟨action, trivial, isScheduled⟩
  have dated := dated_of_reaches (reached.trans runs)
  refine ⟨⟨job.version, ?_, by omega⟩, completeSyncJob_of_newer held below, dated.fresh, dated.jobs, ?_⟩
  · rw [completeSyncJob_of_newer begun below, syncJobVersion, isJob]
    rfl
  · intro stale ids notCurrent
    exact if_pos notCurrent

/-- One wake of a chat, and the store after a second one. -/
def woken (version : Int) (handed : List Int) : JobStore where
  clock := version
  jobs := Function.update (fun _ => none) ("chat", "wake") (some { version, cursor := "" })
  handed := handed

theorem newer_wake_survives_reschedule :
    ((woken 2 [2, 1]).completeSyncJob "chat" "wake" 1).syncJobVersion "chat" "wake" = some 2 := by
  have first : new.step (.scheduleSyncJob "chat" "wake") = some (woken 1 [1]) := by
    simp [step, scheduleSyncJob, bump, new, woken, put]
  have second : (woken 1 [1]).step (.scheduleSyncJob "chat" "wake") = some (woken 2 [2, 1]) := by
    simp [step, scheduleSyncJob, bump, woken, put]
  have isRead : (woken 1 [1]).syncJobVersion "chat" "wake" = some 1 := by
    simp [syncJobVersion, woken]
  obtain ⟨_, same, _⟩ := newer_wake_survives
    (.single ⟨_, trivial, first⟩) isRead .refl .own second .refl
  rw [same]
  simp [syncJobVersion, woken]

end JobStore

end Zeron.Sync
