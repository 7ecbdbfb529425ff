import Mathlib.Order.Basic
import Zeron.Data.Runs

namespace Zeron.Room

open Zeron.Data

/-! # The nightly backup of a session room

The alarm puts a snapshot of the document and then clears the mark that writes set.
The room goes on serving between the awaits of the handler, and a handler that stops at
a guard leaves no alarm behind.
-/

/-- Where the alarm handler waits; nothing else puts a backup. -/
inductive AlarmStage (Version : Type)
  | idle
  | flushing
  | loading
  | trimming
  | resolving
  | putting (vv : Version)
  | stored (vv : Version)
  deriving DecidableEq

structure BackupRoom (Version : Type) where
  chatId : Option String := none
  backupDirty : Bool := false
  postReset : Bool := false
  backupVV : Option Version := none
  /-- The scheduled alarm, and the `getAlarm` and `setAlarm` calls under way. -/
  alarmSet : Bool := false
  asking : Nat := 0
  setting : Nat := 0
  stage : AlarmStage Version := .idle
  /-- The version of the snapshot in the bucket, and every one it took the place of. -/
  backup : Option Version := none
  replaced : List (Version × Version) := []
  /-- A real update was recorded after the snapshot in the bucket was exported. -/
  stale : Bool := false
  /-- The same of the snapshot exported last. -/
  sinceExport : Bool := false

inductive BackupAction (Version : Type)
  | join (roomId : String)
  | record (updates : List (List UInt8))
  | dropLog
  | answer
  | arm
  | fire
  /-- The handler goes on after an await; the document is then at this version. -/
  | resume (version : Version)
  | land

namespace BackupRoom

variable {Version : Type} [PartialOrder Version] [DecidableLE Version]

def markActivity (room : BackupRoom Version) : BackupRoom Version :=
  { room with asking := room.asking + 1 }

def recordLoroUpdates (room : BackupRoom Version) (updates : List (List UInt8)) :
    BackupRoom Version :=
  if updates.all List.isEmpty then room
  else markActivity
    { room with backupDirty := true, postReset := false, stale := true, sinceExport := true }

def dropLog (room : BackupRoom Version) : BackupRoom Version := { room with postReset := true }

/-- The new snapshot includes the one put before. -/
def advances (room : BackupRoom Version) (version : Version) : Bool :=
  match room.backupVV with
  | some prev => prev ≤ version
  | none => true

def mayPut (room : BackupRoom Version) : Bool := room.chatId.isSome && !room.postReset

/-- An alarm is set, or will be when the calls under way are answered. -/
def armed (room : BackupRoom Version) : Bool := room.alarmSet || 0 < room.asking || 0 < room.setting

/-- What the handler does from one await to the next. -/
def resume (room : BackupRoom Version) (version : Version) : Option (BackupRoom Version) :=
  match room.stage with
  | .idle => none
  | .flushing => some { room with stage := if room.backupDirty then .loading else .idle }
  | .loading => some { room with stage := .trimming }
  | .trimming => some { room with stage := if room.mayPut then .resolving else .idle }
  | .resolving =>
      -- the snapshot is exported in the step that compares the versions
      if room.advances version then
        some { room with stage := .putting version, sinceExport := false }
      else some { room with stage := .idle }
  | .putting _ => none
  | .stored vv => some { room with backupVV := some vv, backupDirty := false, stage := .idle }

/-- The put reaches the bucket. -/
def land (room : BackupRoom Version) : Option (BackupRoom Version) :=
  match room.stage with
  | .putting vv =>
      some { room with
        stage := .stored vv
        backup := some vv
        replaced := (room.backup.toList.map fun old => (old, vv)) ++ room.replaced
        stale := room.sinceExport }
  | _ => none

def step (room : BackupRoom Version) : BackupAction Version → Option (BackupRoom Version)
  | .join roomId =>
      some (if room.chatId.isNone && roomId ≠ "" then { room with chatId := some roomId } else room)
  | .record updates => some (room.recordLoroUpdates updates)
  | .dropLog => some room.dropLog
  | .answer =>
      if room.asking = 0 then none
      else if room.alarmSet then some { room with asking := room.asking - 1 }
      else some { room with asking := room.asking - 1, setting := room.setting + 1 }
  | .arm =>
      if room.setting = 0 then none
      else some { room with setting := room.setting - 1, alarmSet := true }
  | .fire =>
      match room.stage with
      | .idle => if room.alarmSet then some { room with alarmSet := false, stage := .flushing } else none
      | _ => none
  | .resume version => room.resume version
  | .land => room.land

/-- No handler runs and the backup is behind: it is marked, and an alarm will come. -/
def Noticed (room : BackupRoom Version) : Prop :=
  room.stage = .idle → room.stale = true → room.backupDirty = true ∧ room.armed = true

/-- No put took the place of a backup it does not include. -/
def Monotone (room : BackupRoom Version) : Prop :=
  ∀ old new, (old, new) ∈ room.replaced → old ≤ new

/-- The handler clears the mark only where nothing was recorded since the export, and
stops at a guard only where an alarm will come. -/
def careful (room : BackupRoom Version) : BackupAction Version → Bool
  | .resume version =>
      match room.stage with
      | .trimming => room.mayPut || room.armed
      | .resolving => room.advances version || room.armed
      | .stored _ => !room.stale
      | _ => true
  | _ => true

variable {room after : BackupRoom Version} {action : BackupAction Version}

/-! ## Puts -/

/-- The version on record is that of the backup, but for the time from a put to its answer. -/
structure Versioned (room : BackupRoom Version) : Prop where
  monotone : room.Monotone
  recorded : match room.stage with
    | .stored vv => room.backup = some vv
    | _ => room.backup = room.backupVV
  includes : ∀ vv prev, room.stage = .putting vv → room.backupVV = some prev → prev ≤ vv

omit [DecidableLE Version] in
theorem Versioned.congr {other : BackupRoom Version} (held : room.Versioned)
    (stage : other.stage = room.stage) (backup : other.backup = room.backup)
    (backupVV : other.backupVV = room.backupVV) (replaced : other.replaced = room.replaced) :
    other.Versioned := by
  constructor
  · intro old new member
    rw [replaced] at member
    exact held.monotone old new member
  · rw [stage, backup, backupVV]
    exact held.recorded
  · rw [stage, backupVV]
    exact held.includes

theorem advances_includes {version prev : Version} (advances : room.advances version = true)
    (recorded : room.backupVV = some prev) : prev ≤ version := by
  simpa [BackupRoom.advances, recorded] using advances

theorem Versioned.resume {version : Version} (held : room.Versioned)
    (resumed : room.resume version = some after) : after.Versioned := by
  have recorded := held.recorded
  unfold BackupRoom.resume at resumed
  cases stage : room.stage <;> simp only [stage, reduceCtorEq, Option.some.injEq] at resumed recorded
  case flushing =>
    subst resumed
    cases room.backupDirty <;> exact ⟨held.monotone, recorded, nofun⟩
  case loading =>
    subst resumed
    exact ⟨held.monotone, recorded, nofun⟩
  case trimming =>
    subst resumed
    cases room.mayPut <;> exact ⟨held.monotone, recorded, nofun⟩
  case resolving =>
    split at resumed
    · rename_i advances
      cases resumed
      refine ⟨held.monotone, recorded, ?_⟩
      rintro vv prev ⟨⟩ same
      exact advances_includes advances same
    · cases resumed
      exact ⟨held.monotone, recorded, nofun⟩
  case stored vv =>
    subst resumed
    exact ⟨held.monotone, recorded, nofun⟩

omit [DecidableLE Version] in
theorem Versioned.land (held : room.Versioned) (landed : room.land = some after) :
    after.Versioned := by
  have recorded := held.recorded
  have includes := held.includes
  unfold BackupRoom.land at landed
  split at landed
  · rename_i vv putting
    cases landed
    rw [putting] at recorded
    refine ⟨?_, rfl, nofun⟩
    intro old new member
    rcases List.mem_append.mp member with put | before
    · obtain ⟨was, old', pair⟩ := List.mem_map.mp put
      cases pair
      apply includes vv old putting
      rw [← recorded]
      exact Option.mem_toList.mp old'
    · exact held.monotone old new before
  · cases landed

theorem Versioned.step (held : room.Versioned) (stepped : room.step action = some after) :
    after.Versioned := by
  cases action with
  | join roomId =>
      cases stepped
      split <;> exact held.congr rfl rfl rfl rfl
  | record updates =>
      cases stepped
      unfold recordLoroUpdates
      split <;> exact held.congr rfl rfl rfl rfl
  | dropLog =>
      cases stepped
      exact held.congr rfl rfl rfl rfl
  | answer =>
      simp only [BackupRoom.step] at stepped
      split at stepped
      · cases stepped
      · split at stepped <;> cases stepped <;> exact held.congr rfl rfl rfl rfl
  | arm =>
      simp only [BackupRoom.step] at stepped
      split at stepped <;> cases stepped
      exact held.congr rfl rfl rfl rfl
  | fire =>
      simp only [BackupRoom.step] at stepped
      have recorded := held.recorded
      split at stepped
      · rename_i idle
        rw [idle] at recorded
        split at stepped <;> cases stepped
        exact ⟨held.monotone, recorded, nofun⟩
      · cases stepped
  | resume version => exact held.resume stepped
  | land => exact held.land stepped

theorem reaches_versioned {allowed : BackupRoom Version → BackupAction Version → Prop}
    (runs : Reaches step allowed {} room) : room.Versioned := by
  apply runs.keeps
  · exact ⟨nofun, rfl, nofun⟩
  · intro before action next held _ stepped
    exact held.step stepped

/-! ## The mark and the alarm -/

/-- The mark lasts while the backup is behind, and an alarm comes once no handler runs. -/
structure Kept (room : BackupRoom Version) : Prop where
  exported : room.sinceExport = true → room.stale = true
  marked : room.stale = true → room.backupDirty = true
  comes : room.stage = .idle → room.stale = true → room.armed = true

omit [PartialOrder Version] [DecidableLE Version] in
theorem Kept.noticed (kept : room.Kept) : room.Noticed :=
  fun idle stale => ⟨kept.marked stale, kept.comes idle stale⟩

omit [PartialOrder Version] [DecidableLE Version] in
theorem Kept.recordLoroUpdates (kept : room.Kept) (updates : List (List UInt8)) :
    (room.recordLoroUpdates updates).Kept := by
  unfold BackupRoom.recordLoroUpdates
  split
  · exact kept
  · constructor
    · exact fun _ => rfl
    · exact fun _ => rfl
    · intro _ _
      simp [armed, markActivity]

theorem Kept.resume {version : Version} (kept : room.Kept)
    (careful : room.careful (.resume version) = true)
    (resumed : room.resume version = some after) : after.Kept := by
  unfold BackupRoom.resume at resumed
  unfold BackupRoom.careful at careful
  cases stage : room.stage <;>
    simp only [stage, reduceCtorEq, Option.some.injEq] at resumed careful
  case flushing =>
    subst resumed
    refine ⟨kept.exported, kept.marked, ?_⟩
    intro idle stale
    have dirty := kept.marked stale
    simp [dirty] at idle
  case loading =>
    subst resumed
    exact ⟨kept.exported, kept.marked, nofun⟩
  case trimming =>
    subst resumed
    refine ⟨kept.exported, kept.marked, ?_⟩
    intro idle _
    rcases (Bool.or_eq_true _ _).mp careful with mayPut | armed
    · simp [mayPut] at idle
    · exact armed
  case resolving =>
    split at resumed
    · cases resumed
      exact ⟨nofun, kept.marked, nofun⟩
    · rename_i behind
      cases resumed
      refine ⟨kept.exported, kept.marked, ?_⟩
      intro _ _
      rcases (Bool.or_eq_true _ _).mp careful with advances | armed
      · exact absurd advances behind
      · exact armed
  case stored vv =>
    subst resumed
    have fresh : room.stale = false := by simpa using careful
    constructor
    · exact kept.exported
    · intro stale
      simp [fresh] at stale
    · intro _ stale
      simp [fresh] at stale

omit [PartialOrder Version] [DecidableLE Version] in
theorem Kept.land (kept : room.Kept) (landed : room.land = some after) : after.Kept := by
  unfold BackupRoom.land at landed
  split at landed
  · cases landed
    exact ⟨id, fun recorded => kept.marked (kept.exported recorded), nofun⟩
  · cases landed

theorem Kept.step (kept : room.Kept) (careful : room.careful action = true)
    (stepped : room.step action = some after) : after.Kept := by
  cases action with
  | join roomId =>
      cases stepped
      split <;> exact ⟨kept.exported, kept.marked, kept.comes⟩
  | record updates =>
      cases stepped
      exact kept.recordLoroUpdates updates
  | dropLog =>
      cases stepped
      exact ⟨kept.exported, kept.marked, kept.comes⟩
  | answer =>
      simp only [BackupRoom.step] at stepped
      split at stepped
      · cases stepped
      · split at stepped <;> cases stepped
        · rename_i already
          exact ⟨kept.exported, kept.marked, fun _ _ => by simp [armed, already]⟩
        · exact ⟨kept.exported, kept.marked, fun _ _ => by simp [armed]⟩
  | arm =>
      simp only [BackupRoom.step] at stepped
      split at stepped <;> cases stepped
      exact ⟨kept.exported, kept.marked, fun _ _ => by simp [armed]⟩
  | fire =>
      simp only [BackupRoom.step] at stepped
      split at stepped
      · split at stepped <;> cases stepped
        exact ⟨kept.exported, kept.marked, nofun⟩
      · cases stepped
  | resume version => exact kept.resume careful stepped
  | land => exact kept.land stepped

theorem reaches_kept (runs : Reaches step (fun room action => room.careful action = true) {} room) :
    room.Kept := by
  apply runs.keeps
  · exact ⟨nofun, nofun, nofun⟩
  · intro before action next kept careful stepped
    exact kept.step careful stepped

/-- A backup that is behind is noticed in every run whose handlers clear the mark and stop
with care; the backup itself only ever moves forward. -/
theorem careful_backup_noticed
    (runs : Reaches step (fun room action => room.careful action = true) {} room) :
    room.Noticed ∧ room.Monotone :=
  ⟨(reaches_kept runs).noticed, (reaches_versioned runs).monotone⟩

/-- A night with a write and its put, and a second one that replaces the backup. -/
theorem two_nights_noticed : ∃ room : BackupRoom Nat,
    (Reaches step (fun room action => room.careful action = true) {} room ∧
      room.replaced = [(4, 6)]) ∧ room.Noticed ∧ room.Monotone := by
  have ran : (runAll step careful {}
      [.join "chat", .record [[1]], .answer, .arm, .fire, .resume 4, .resume 4, .resume 4,
        .resume 4, .land, .resume 4, .record [[2]], .answer, .arm, .fire, .resume 6, .resume 6,
        .resume 6, .resume 6, .land, .resume 6]).map replaced = some [(4, 6)] := by
    decide
  obtain ⟨room, ran, put⟩ := Option.map_eq_some_iff.mp ran
  have runs := reaches_of_runAll ran
  exact ⟨room, ⟨runs, put⟩, careful_backup_noticed runs⟩

/-- A write during the put: its mark is cleared with those of the writes before it. -/
theorem write_during_put_unnoticed : ∃ room : BackupRoom Nat,
    Reaches step (fun _ _ => True) {} room ∧ ¬ (room.Noticed ∧ room.Monotone) := by
  have ran : (runAll step (fun _ _ => true) {}
      [.join "chat", .record [[1]], .answer, .arm, .fire, .resume 4, .resume 4, .resume 4,
        .resume 4, .record [[2]], .land, .resume 4]).map
      (fun room => (decide (room.stage = .idle), room.stale, room.backupDirty)) =
      some (true, true, false) := by
    decide
  obtain ⟨room, ran, ends⟩ := Option.map_eq_some_iff.mp ran
  injection ends with idle ends
  injection ends with stale clean
  refine ⟨room, (reaches_of_runAll ran).mono fun _ _ _ => trivial, fun held => ?_⟩
  have noticed := (held.1 (of_decide_eq_true idle) stale).1
  rw [clean] at noticed
  cases noticed

end BackupRoom

end Zeron.Room
