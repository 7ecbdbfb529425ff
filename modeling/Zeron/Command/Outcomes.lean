import Zeron.Command.Once

namespace Zeron.Command

open Zeron.Data

/-! # Outcomes are truthful and final

A pass settles the command it marked; nobody else should write a status for it.
The sweep and the retry write one for whatever was marked, is not executing and
looked pending in the rows they read, so both must find the row still pending and
not executed by a relayed ingest.
-/

/-! ## What a task holds -/

/-- The id the task put into `executing`. -/
def Task.holds : Task → Option String
  | .drain pass =>
      match pass.stage with
      | .marking entry _ | .abandoning entry | .marked entry _ | .executing entry
      | .resolving entry _ _ | .releasing entry => some entry.id
      | _ => none
  | .relay call =>
      match call.stage with
      | .marking _ | .marked _ | .executing | .releasing _ => some call.entry.id
      | _ => none
  | .retry _ => none

/-- The command the task marked and has not settled yet. -/
def Task.owes : Task → Option String
  | .drain pass =>
      match pass.stage with
      | .marked entry disposition => if disposition = .skip then none else some entry.id
      | .executing entry | .resolving entry _ _ => some entry.id
      | _ => none
  | .relay call =>
      match call.stage with
      | .marked _ | .executing => some call.entry.id
      | _ => none
  | .retry _ => none

/-- The command a pass executed with success and has not settled yet. -/
def Task.unwritten : Task → Option String
  | .drain pass =>
      match pass.stage with
      | .resolving entry executed _ => if executed = .applied then some entry.id else none
      | _ => none
  | _ => none

/-- The command a pass marked to reject it for its attachments. -/
def Task.refuses : Task → Option String
  | .drain pass =>
      match pass.stage with
      | .refused entry => some entry.id
      | _ => none
  | _ => none

/-- A pending row the ledger holds; whether it executes comes next. -/
def Task.suspects : Task → Option String
  | .drain pass =>
      match pass.stage with
      | .suspecting _ entry _ => some entry.id
      | _ => none
  | .retry stage =>
      match stage with
      | .suspecting _ _ entry _ _ => some entry.id
      | _ => none
  | _ => none

def pendingIds (entries : List SessionCommandEntry) : List String :=
  (entries.filter fun entry => entry.status = .pending).map SessionCommandEntry.id

/-- The commands the task is going to reject. -/
def Task.condemns : Task → List String
  | .drain pass =>
      match pass.stage with
      | .rejecting _ entry _ | .refused entry => [entry.id]
      | _ => []
  | .retry stage =>
      match stage with
      | .scanning _ _ _ dead | .suspecting _ _ _ _ dead | .closing dead => pendingIds dead
      | .weighing _ _ entry _ dead => pendingIds (entry :: dead)
      | _ => []
  | .relay _ => []

/-- The command the next step rejects because it looks dead. -/
def Task.rejects (pick : ℕ) : Task → Option String
  | .drain pass =>
      match pass.stage with
      | .rejecting _ entry _ => some entry.id
      | _ => none
  | .retry (.closing dead) =>
      dead[pick]?.bind fun old => if old.status = .pending then some old.id else none
  | _ => none

/-- The command a pass marks next in order to settle it. -/
def Task.settling : Task → Option String
  | .drain pass =>
      match pass.stage with
      | .marking entry disposition => if disposition = .skip then none else some entry.id
      | .refusing entry => some entry.id
      | _ => none
  | _ => none

/-- The ids of the rows a pass read. -/
def PassStage.rows : PassStage → List String
  | .sweeping commands rest | .finding commands rest =>
      commands.map SessionCommandEntry.id ++ rest.map SessionCommandEntry.id
  | .suspecting commands entry rest | .rejecting commands entry rest =>
      entry.id :: (commands.map SessionCommandEntry.id ++ rest.map SessionCommandEntry.id)
  | .chosen _ entry | .evaluating _ entry _ | .gating entry | .refusing entry | .refused entry
  | .claiming entry _ | .marking entry _ | .abandoning entry | .marked entry _
  | .executing entry | .resolving entry _ _ | .releasing entry => [entry.id]
  | .starting | .reading | .waiting | .leaving => []

def Task.rows : Task → List String
  | .drain pass => pass.stage.rows
  | _ => []

theorem Task.holds_of_owes {task : Task} {id : String} (owes : task.owes = some id) :
    task.holds = some id := by
  cases task with
  | drain pass =>
      obtain ⟨controlsOnly, guard, skipped, stage⟩ := pass
      cases stage <;> simp_all [Task.owes, Task.holds]
  | relay call =>
      obtain ⟨entry, guard, stage⟩ := call
      cases stage <;> simp_all [Task.owes, Task.holds]
  | retry stage => simp [Task.owes] at owes

theorem Task.owes_of_unwritten {task : Task} {id : String} (unwritten : task.unwritten = some id) :
    task.owes = some id := by
  cases task with
  | drain pass =>
      obtain ⟨controlsOnly, guard, skipped, stage⟩ := pass
      cases stage <;> simp_all [Task.owes, Task.unwritten]
  | relay call => simp [Task.unwritten] at unwritten
  | retry stage => simp [Task.unwritten] at unwritten

theorem Task.rows_of_unwritten {task : Task} {id : String} (unwritten : task.unwritten = some id) :
    id ∈ task.rows := by
  cases task with
  | drain pass =>
      obtain ⟨controlsOnly, guard, skipped, stage⟩ := pass
      cases stage <;> simp_all [Task.rows, PassStage.rows, Task.unwritten]
  | relay call => simp [Task.unwritten] at unwritten
  | retry stage => simp [Task.unwritten] at unwritten

theorem Task.condemns_of_refuses {task : Task} {id : String} (refuses : task.refuses = some id) :
    id ∈ task.condemns := by
  cases task with
  | drain pass =>
      obtain ⟨controlsOnly, guard, skipped, stage⟩ := pass
      cases stage <;> simp_all [Task.condemns, Task.refuses]
  | relay call => simp [Task.refuses] at refuses
  | retry stage => simp [Task.refuses] at refuses

/-- Who owes an outcome has condemned nothing. -/
theorem Task.condemns_of_owes {task : Task} {id : String} (owes : task.owes = some id) :
    task.condemns = [] := by
  cases task with
  | drain pass =>
      obtain ⟨controlsOnly, guard, skipped, stage⟩ := pass
      cases stage <;> simp_all [Task.owes, Task.condemns]
  | relay call => rfl
  | retry stage => simp [Task.owes] at owes

theorem mem_keepLatest {entry other : SessionCommandEntry} {dead : List SessionCommandEntry}
    (member : other ∈ keepLatest entry dead) : other = entry ∨ other ∈ dead := by
  induction dead with
  | nil => simpa [keepLatest] using member
  | cons held rest ih =>
      simp only [keepLatest] at member
      grind

theorem pendingIds_keepLatest {id : String} {entry : SessionCommandEntry}
    {dead : List SessionCommandEntry} (member : id ∈ pendingIds (keepLatest entry dead)) :
    id ∈ pendingIds (entry :: dead) := by
  simp only [pendingIds, List.mem_map, List.mem_filter] at member ⊢
  obtain ⟨other, ⟨inside, pending⟩, rfl⟩ := member
  exact ⟨other, ⟨List.mem_cons.mpr (mem_keepLatest inside), pending⟩, rfl⟩

theorem pendingIds_eraseIdx {id : String} {index : ℕ} {dead : List SessionCommandEntry}
    (member : id ∈ pendingIds (dead.eraseIdx index)) : id ∈ pendingIds dead := by
  simp only [pendingIds, List.mem_map, List.mem_filter] at member ⊢
  obtain ⟨other, ⟨inside, pending⟩, rfl⟩ := member
  exact ⟨other, ⟨List.mem_of_mem_eraseIdx inside, pending⟩, rfl⟩

theorem mem_pendingIds {id : String} {entries : List SessionCommandEntry} :
    id ∈ pendingIds entries ↔ ∃ entry ∈ entries, entry.status = .pending ∧ entry.id = id := by
  simp [pendingIds, and_assoc]

/-! ## What one step does to it -/

section

variable {shared : Shared} {task : Task} {reply : Reply} {effect : Effect} {next : Option Task}
  {id : String}

theorem Executed.status_ne_pending (executed : Executed) : executed.status ≠ .pending := by
  cases executed <;> simp [Executed.status]

theorem Task.next_holds (taken : task.next shared reply = some (effect, next)) :
    (∃ id, effect = .claim id ∧ next.bind Task.holds = some id ∧ id ∉ shared.executing) ∨
    (∃ id, effect = .unclaim id ∧ task.holds = some id ∧ next.bind Task.holds = none) ∨
    ((∀ id, effect ≠ .claim id ∧ effect ≠ .unclaim id) ∧ next.bind Task.holds = task.holds) := by
  cases task with
  | drain pass =>
      obtain ⟨controlsOnly, guard, skipped, stage⟩ := pass
      cases stage <;> simp only [Task.next, Pass.next, Task.holds] at taken ⊢ <;>
        grind [Task.holds, Pass.skip]
  | relay call =>
      obtain ⟨entry, guard, stage⟩ := call
      cases stage <;> simp only [Task.next, Relay.next, Task.holds] at taken ⊢ <;>
        grind [Task.holds]
  | retry stage => grind [Task.next_retry taken, Task.holds]

theorem Task.next_owes (taken : task.next shared reply = some (effect, next))
    (owes : next.bind Task.owes = some id) :
    (task.owes = some id ∧ (∀ other, effect ≠ .mark other) ∧
      (∀ other status resolution, effect ≠ .write other status resolution)) ∨
    (effect = .mark id ∧ (id ∉ shared.processed ∨ task.settling = some id) ∧
      next.bind Task.unwritten = none) := by
  cases task with
  | drain pass =>
      obtain ⟨controlsOnly, guard, skipped, stage⟩ := pass
      cases stage <;> simp only [Task.next, Pass.next, Task.owes, Task.settling] at taken ⊢ <;>
        grind [Task.owes, Task.unwritten, Pass.skip]
  | relay call =>
      obtain ⟨entry, guard, stage⟩ := call
      cases stage <;> simp only [Task.next, Relay.next, Task.owes] at taken ⊢ <;>
        grind [Task.owes, Task.unwritten]
  | retry stage => grind [Task.next_retry taken, Task.owes]

theorem Task.next_unwritten (taken : task.next shared reply = some (effect, next)) :
    (∀ id, task.unwritten = some id → ∃ resolution, effect = .write id .applied resolution) ∧
    (∀ id, next.bind Task.unwritten = some id → effect = .apply id false) ∧
    (∀ id relayed, effect = .apply id relayed → task.owes = some id ∧ task.unwritten = none ∧
      (relayed = true ∧ next.bind Task.owes = none ∨ next.bind Task.unwritten = some id)) := by
  cases task with
  | drain pass =>
      obtain ⟨controlsOnly, guard, skipped, stage⟩ := pass
      cases stage <;> simp only [Task.next, Pass.next, Task.owes, Task.unwritten] at taken ⊢ <;>
        grind [Task.owes, Task.unwritten, Pass.skip, Executed.status]
  | relay call =>
      obtain ⟨entry, guard, stage⟩ := call
      cases stage <;> simp only [Task.next, Relay.next, Task.owes, Task.unwritten] at taken ⊢ <;>
        grind [Task.owes, Task.unwritten]
  | retry stage => grind [Task.next_retry taken, Task.unwritten]

theorem Task.next_refuses (taken : task.next shared reply = some (effect, next))
    (refuses : next.bind Task.refuses = some id) :
    effect = .mark id ∧ task.settling = some id := by
  cases task with
  | drain pass =>
      obtain ⟨controlsOnly, guard, skipped, stage⟩ := pass
      cases stage <;> simp only [Task.next, Pass.next, Task.settling] at taken ⊢ <;>
        grind [Task.refuses, Pass.skip]
  | relay call =>
      obtain ⟨entry, guard, stage⟩ := call
      cases stage <;> simp only [Task.next, Relay.next] at taken ⊢ <;> grind [Task.refuses]
  | retry stage => grind [Task.next_retry taken, Task.refuses]

theorem Task.next_rows (taken : task.next shared reply = some (effect, next)) :
    ∀ after, next = some after → ∀ id ∈ after.rows,
      id ∈ task.rows ∨ id ∈ shared.commands.map SessionCommandEntry.id := by
  cases task with
  | drain pass =>
      obtain ⟨controlsOnly, guard, skipped, stage⟩ := pass
      cases stage <;> simp only [Task.next, Pass.next, Task.rows] at taken ⊢ <;>
        grind [Task.rows, PassStage.rows, Pass.skip]
  | relay call =>
      obtain ⟨entry, guard, stage⟩ := call
      cases stage <;> simp only [Task.next, Relay.next] at taken ⊢ <;> grind [Task.rows]
  | retry stage => grind [Task.next_retry taken, Task.rows]

theorem Task.next_suspects (taken : task.next shared reply = some (effect, next))
    (suspects : next.bind Task.suspects = some id) : id ∈ shared.processed := by
  cases task with
  | drain pass =>
      obtain ⟨controlsOnly, guard, skipped, stage⟩ := pass
      cases stage <;> simp only [Task.next, Pass.next] at taken <;>
        grind [Task.suspects, Pass.skip, Reply.isProcessed]
  | relay call =>
      obtain ⟨entry, guard, stage⟩ := call
      cases stage <;> simp only [Task.next, Relay.next] at taken <;> grind [Task.suspects]
  | retry stage =>
      cases stage with
      | scanning commands messages rest dead =>
          cases rest with
          | nil =>
              cases taken
              simp [Task.suspects] at suspects
          | cons entry rest =>
              simp only [Task.next, RetryStage.next] at taken
              cases entry.payload.messageId <;> cases entry.status <;>
                grind [Task.suspects, Reply.isProcessed]
      | _ => grind [Task.next, RetryStage.next, Task.suspects]

theorem Task.next_condemns (taken : task.next shared reply = some (effect, next)) :
    ∀ after, next = some after → ∀ id ∈ after.condemns, id ∈ task.condemns ∨
      (task.suspects = some id ∧ id ∉ shared.executing) ∨
      (effect = .mark id ∧ task.settling = some id) := by
  cases task with
  | drain pass =>
      obtain ⟨controlsOnly, guard, skipped, stage⟩ := pass
      cases stage <;>
        simp only [Task.next, Pass.next, Task.condemns, Task.suspects, Task.settling] at taken ⊢ <;>
        grind [Task.condemns, Pass.skip]
  | relay call =>
      obtain ⟨entry, guard, stage⟩ := call
      cases stage <;> simp only [Task.next, Relay.next] at taken <;> grind [Task.condemns]
  | retry stage =>
      cases stage with
      | scanning commands messages rest dead =>
          cases rest with
          | nil => grind [Task.next, RetryStage.next, Task.condemns]
          | cons entry rest =>
              simp only [Task.next, RetryStage.next] at taken
              cases entry.payload.messageId <;> cases status : entry.status <;>
                grind [Task.condemns, mem_pendingIds]
      | weighing commands messages entry rest dead =>
          simp only [Task.next, RetryStage.next, Task.condemns] at taken ⊢
          split at taken
          · cases taken
            rintro after ⟨⟩ id member
            left
            rw [mem_pendingIds] at member ⊢
            obtain ⟨other, inside, pending⟩ := member
            exact ⟨other, List.mem_cons_of_mem _ inside, pending⟩
          · cases taken
            rintro after ⟨⟩ id member
            exact .inl (pendingIds_keepLatest member)
      | suspecting commands messages entry rest dead =>
          grind [Task.next, RetryStage.next, Task.condemns, Task.suspects, mem_pendingIds]
      | closing dead =>
          simp only [Task.next, RetryStage.next, Task.condemns] at taken ⊢
          intro after found id member
          subst found
          left
          cases picked : dead[reply.pick]? with
          | none => grind
          | some old =>
              rw [picked] at taken
              have kept : after = .retry (.closing (dead.eraseIdx reply.pick)) := by grind
              subst kept
              exact pendingIds_eraseIdx member
      | _ => grind [Task.next, RetryStage.next, Task.condemns, pendingIds]

/-- A status is written by whoever owes it, by a refusal, or for a command that looks
dead. -/
theorem Task.next_write {status : SessionCommandStatus} {resolution : Option String}
    (taken : task.next shared reply = some (.write id status resolution, next)) :
    status ≠ .pending ∧
    ((task.owes = some id ∧ id ∈ task.rows ∧ next.bind Task.owes = none) ∨
      (task.refuses = some id ∧ status = .rejected) ∨
      (task.rejects reply.pick = some id ∧ id ∈ task.condemns ∧ status = .rejected)) := by
  cases task with
  | drain pass =>
      obtain ⟨controlsOnly, guard, skipped, stage⟩ := pass
      cases stage <;>
        simp only [Task.next, Pass.next, Task.owes, Task.refuses, Task.rejects, Task.condemns,
          Task.rows] at taken ⊢ <;>
        grind [Task.owes, Pass.skip, PassStage.rows, Executed.status_ne_pending]
  | relay call =>
      obtain ⟨entry, guard, stage⟩ := call
      cases stage <;> simp only [Task.next, Relay.next] at taken <;> grind
  | retry stage =>
      cases stage with
      | closing dead =>
          grind [Task.next, RetryStage.next, Task.rejects, Task.condemns, mem_pendingIds]
      | scanning commands messages rest dead =>
          cases rest with
          | nil => grind [Task.next, RetryStage.next]
          | cons entry rest =>
              simp only [Task.next, RetryStage.next] at taken
              cases entry.payload.messageId <;> cases entry.status <;> grind
      | _ => grind [Task.next, RetryStage.next]

end

/-! ## The document's rows -/

section

variable {shared : Shared} {index : ℕ} {effect : Effect} {id other : String}
  {status : SessionCommandStatus} {resolution : Option String}

theorem setCommandStatus_eq_none {commands : List SessionCommandEntry} :
    setCommandStatus id status resolution commands = none ↔ commandStatus id commands = none := by
  induction commands with
  | nil => simp [setCommandStatus, commandStatus]
  | cons row rest ih =>
      by_cases same : row.id = id
      · simp [setCommandStatus, commandStatus, same]
      · simpa [setCommandStatus, commandStatus, same] using ih

theorem commandStatus_setCommandStatus {commands written : List SessionCommandEntry}
    (wrote : setCommandStatus id status resolution commands = some written) :
    commandStatus other written =
      if other = id then some status else commandStatus other commands := by
  induction commands generalizing written with
  | nil => simp [setCommandStatus] at wrote
  | cons row rest ih =>
      by_cases same : row.id = id
      · simp only [setCommandStatus, same, if_true, Option.some.injEq] at wrote
        subst wrote
        by_cases target : other = id
        · simp [commandStatus, target]
        · have different : row.id ≠ other := fun named => target (named.symm.trans same)
          simp [commandStatus, different, target, Ne.symm target]
      · simp only [setCommandStatus, same, if_false, Option.map_eq_some_iff] at wrote
        obtain ⟨tail, wrote, rfl⟩ := wrote
        have tailStatus := ih wrote
        by_cases target : row.id = other
        · have different : other ≠ id := fun named => same (target.trans named)
          simp [commandStatus, target, different]
        · simpa [commandStatus, target] using tailStatus

theorem commandStatus_isSome {commands : List SessionCommandEntry} :
    (commandStatus id commands).isSome ↔ id ∈ commands.map SessionCommandEntry.id := by
  simp [commandStatus]

/-- A write over an existing row gives it its status and is recorded. -/
theorem Shared.after_write (row : commandStatus id shared.commands ≠ none) :
    commandStatus id (shared.after index (.write id status resolution)).commands = some status ∧
      (id, status) ∈ (shared.after index (.write id status resolution)).outcomes := by
  simp only [Shared.after]
  cases wrote : setCommandStatus id status resolution shared.commands with
  | none => exact absurd (setCommandStatus_eq_none.mp wrote) row
  | some written => simp [commandStatus_setCommandStatus wrote]

/-- A row keeps its status, or the step writes the new one. -/
theorem Shared.status_after :
    commandStatus id (shared.after index effect).commands = commandStatus id shared.commands ∨
      ∃ status resolution, effect = .write id status resolution ∧
        commandStatus id (shared.after index effect).commands = some status := by
  cases effect with
  | write target status resolution =>
      simp only [Shared.after]
      cases wrote : setCommandStatus target status resolution shared.commands with
      | none => exact .inl rfl
      | some written =>
          simp only [commandStatus_setCommandStatus wrote]
          by_cases same : id = target
          · subst same
            exact .inr ⟨status, resolution, rfl, by simp⟩
          · simp [same]
  | _ => exact .inl rfl

theorem Shared.after_rows (quiet : ∀ id status resolution, effect ≠ .write id status resolution) :
    (shared.after index effect).commands = shared.commands ∧
      (shared.after index effect).outcomes = shared.outcomes := by
  cases effect <;> simp_all [Shared.after]

theorem Shared.after_applied (quiet : ∀ id relayed, effect ≠ .apply id relayed) :
    (shared.after index effect).applied = shared.applied ∧
      (shared.after index effect).relayed = shared.relayed := by
  cases effect <;> simp_all [Shared.after]
  split <;> exact ⟨rfl, rfl⟩

/-- An outcome is old, or the step writes it over an existing row. -/
theorem Shared.outcomes_after (wrote : (id, status) ∈ (shared.after index effect).outcomes) :
    (id, status) ∈ shared.outcomes ∨ ∃ resolution, effect = .write id status resolution ∧
      commandStatus id shared.commands ≠ none := by
  cases effect with
  | write target outcome resolution =>
      simp only [Shared.after] at wrote
      cases set : setCommandStatus target outcome resolution shared.commands with
      | none => exact .inl (by simpa [set] using wrote)
      | some written =>
          simp only [set, List.mem_append, List.mem_singleton, Prod.mk.injEq] at wrote
          rcases wrote with wrote | ⟨rfl, rfl⟩
          · exact .inl wrote
          · refine .inr ⟨resolution, rfl, ?_⟩
            intro absent
            rw [setCommandStatus_eq_none.mpr absent] at set
            contradiction
  | _ => exact .inl wrote

theorem Shared.applied_after (applied : id ∈ (shared.after index effect).applied) :
    id ∈ shared.applied ∨ ∃ relayed, effect = .apply id relayed := by
  cases effect with
  | apply target relayed =>
      rcases List.mem_cons.mp applied with rfl | applied
      · exact .inr ⟨relayed, rfl⟩
      · exact .inl applied
  | write target status resolution =>
      rw [(Shared.after_applied (by simp)).1] at applied
      exact .inl applied
  | _ => exact .inl applied

theorem Shared.relayed_kept (member : id ∈ shared.relayed) :
    id ∈ (shared.after index effect).relayed := by
  cases effect with
  | apply target relayed =>
      simp only [Shared.after]
      split
      · exact List.mem_cons_of_mem _ member
      · exact member
  | write target status resolution => rwa [(Shared.after_applied (by simp)).2]
  | _ => exact member

theorem Shared.outcomes_kept (member : (id, status) ∈ shared.outcomes) :
    (id, status) ∈ (shared.after index effect).outcomes := by
  cases effect with
  | write target status resolution =>
      simp only [Shared.after]
      split
      · exact List.mem_append_left _ member
      · exact member
  | _ => exact member

end

/-- The document keeps its rows, and none that had a status is pending again. -/
def keepsOutcomes (before after : List SessionCommandEntry) : Bool :=
  before.all fun row =>
    (commandStatus row.id after).isSome &&
      (commandStatus row.id before == some .pending || commandStatus row.id after != some .pending)

/-- What a step must respect.  A pass settles only what it is the first to mark;
nothing is rejected as dead but a row that is still pending and that no relayed
ingest executed with success; and the document forgets no outcome, in a crash
neither the one a pass is about to write for an execution that succeeded. -/
def System.considerate (s : System) : Action → Bool
  | .advance index reply =>
      (((s.task index).bind Task.settling).all fun id => decide (id ∉ s.shared.processed)) &&
      (((s.task index).bind (Task.rejects reply.pick)).all fun id =>
        (commandStatus id s.shared.commands).all fun status =>
          status == .pending && decide (id ∉ s.shared.relayed))
  | .sync commands _ => keepsOutcomes s.shared.commands commands
  | .crash commands _ =>
      keepsOutcomes s.shared.commands commands &&
        s.tasks.all fun task => task.bind Task.unwritten = none
  | _ => true

structure System.Settled (s : System) : Prop where
  held : ∀ index task id, s.task index = some task → task.holds = some id →
    id ∈ s.shared.executing
  alone : ∀ left right first second id, s.task left = some first → s.task right = some second →
    first.holds = some id → second.holds = some id → left = right
  owed : ∀ index task id, s.task index = some task → task.owes = some id →
    id ∈ s.shared.processed ∧ (∀ status, (id, status) ∉ s.shared.outcomes) ∧
      (id ∈ s.shared.applied → task.unwritten = some id)
  condemned : ∀ index task id, s.task index = some task → id ∈ task.condemns →
    id ∈ s.shared.processed ∧
      ∀ other holder, s.task other = some holder → holder.owes ≠ some id
  refused : ∀ index task id, s.task index = some task → task.refuses = some id →
    (∀ status, (id, status) ∈ s.shared.outcomes → status = .rejected) ∧
      id ∉ s.shared.applied
  suspected : ∀ index task id, s.task index = some task → task.suspects = some id →
    id ∈ s.shared.processed
  rows : ∀ index task id, s.task index = some task → id ∈ task.rows →
    (commandStatus id s.shared.commands).isSome
  written : ∀ id status, (id, status) ∈ s.shared.outcomes → id ∈ s.shared.processed ∧
    ∃ now, commandStatus id s.shared.commands = some now ∧ now ≠ .pending
  succeeded : ∀ id ∈ s.shared.applied, id ∈ s.shared.processed ∧
    (id ∈ s.shared.relayed ∨ (id, .applied) ∈ s.shared.outcomes ∨
      ∃ index task, s.task index = some task ∧ task.unwritten = some id)
  final : ∀ id before after, (id, before) ∈ s.shared.outcomes → (id, after) ∈ s.shared.outcomes →
    before = after
  truthful : ∀ id ∈ s.shared.applied, (id, .rejected) ∉ s.shared.outcomes

section

variable {s : System} {index : ℕ} {next : Option Task} {task : Task} {reply : Reply}
  {effect : Effect}

theorem task_of_update {tasks : ℕ → Option Task} {other : ℕ} {held : Task}
    (present : Function.update tasks index next other = some held) :
    other = index ∧ next = some held ∨ other ≠ index ∧ tasks other = some held := by
  by_cases same : other = index
  · subst same
    rw [Function.update_self] at present
    exact .inl ⟨rfl, present⟩
  · rw [Function.update_of_ne same] at present
    exact .inr ⟨same, present⟩

namespace System.Settled

theorem held_advance (settled : s.Settled) (found : s.task index = some task)
    (taken : task.next s.shared reply = some (effect, next)) :
    ∀ other holder id, Function.update s.task index next other = some holder →
      holder.holds = some id → id ∈ (s.shared.after index effect).executing := by
  intro other holder id present holds
  obtain ⟨claimed, rfl, mine, _⟩ | ⟨released, rfl, mine, gone⟩ | ⟨quiet, kept⟩ :=
    Task.next_holds taken
  · obtain ⟨rfl, rfl⟩ | ⟨_, present⟩ := task_of_update present
    · have same : claimed = id := by simpa [holds] using mine.symm
      simp [Shared.after, same]
    · exact List.mem_cons_of_mem _ (settled.held other holder id present holds)
  · obtain ⟨rfl, rfl⟩ | ⟨different, present⟩ := task_of_update present
    · simp [holds] at gone
    · have foreign : id ≠ released := by
        rintro rfl
        exact different (settled.alone other index holder task id present found holds mine)
      simp [Shared.after, foreign, settled.held other holder id present holds]
  · have executing : (s.shared.after index effect).executing = s.shared.executing := by
      cases effect <;> simp_all [Shared.after]
      split <;> rfl
    rw [executing]
    obtain ⟨rfl, rfl⟩ | ⟨_, present⟩ := task_of_update present
    · rw [Option.bind_some, holds] at kept
      exact settled.held other task id found kept.symm
    · exact settled.held other holder id present holds

theorem alone_advance (settled : s.Settled) (found : s.task index = some task)
    (taken : task.next s.shared reply = some (effect, next)) :
    ∀ left right first second id, Function.update s.task index next left = some first →
      Function.update s.task index next right = some second →
      first.holds = some id → second.holds = some id → left = right := by
  -- A claim is taken on an id nobody holds.
  have news : ∀ holder id, next = some holder → holder.holds = some id →
      task.holds = some id ∨ id ∉ s.shared.executing := by
    rintro holder id rfl holds
    obtain ⟨claimed, rfl, mine, free⟩ | ⟨released, rfl, mine, gone⟩ | ⟨quiet, kept⟩ :=
      Task.next_holds taken
    · have same : claimed = id := by simpa [holds] using mine.symm
      exact .inr (same ▸ free)
    · simp [holds] at gone
    · rw [Option.bind_some, holds] at kept
      exact .inl kept.symm
  intro left right first second id presentLeft presentRight holdsLeft holdsRight
  obtain ⟨rfl, mine⟩ | ⟨_, stoodLeft⟩ := task_of_update presentLeft
  · obtain ⟨rfl, _⟩ | ⟨_, stoodRight⟩ := task_of_update presentRight
    · rfl
    · rcases news first id mine holdsLeft with before | free
      · exact settled.alone left right task second id found stoodRight before holdsRight
      · exact absurd (settled.held right second id stoodRight holdsRight) free
  · obtain ⟨rfl, mine⟩ | ⟨_, stoodRight⟩ := task_of_update presentRight
    · rcases news second id mine holdsRight with before | free
      · exact settled.alone left right first task id stoodLeft found holdsLeft before
      · exact absurd (settled.held left first id stoodLeft holdsLeft) free
    · exact settled.alone left right first second id stoodLeft stoodRight holdsLeft holdsRight

/-- Whoever owes an outcome is the only one to owe it. -/
theorem owes_alone (settled : s.Settled) {left right : ℕ} {first second : Task} {id : String}
    (foundLeft : s.task left = some first) (foundRight : s.task right = some second)
    (owesLeft : first.owes = some id) (owesRight : second.owes = some id) : left = right :=
  settled.alone left right first second id foundLeft foundRight (Task.holds_of_owes owesLeft)
    (Task.holds_of_owes owesRight)

/-- A pass that marks a command in order to settle it is the first to mark it. -/
theorem settling_fresh (found : s.task index = some task)
    (considerate : s.considerate (.advance index reply) = true) {id : String}
    (settling : task.settling = some id) : id ∉ s.shared.processed := by
  simp only [System.considerate, found, Option.bind_some, settling, Option.all_some,
    Bool.and_eq_true, decide_eq_true_eq] at considerate
  exact considerate.1

/-- What is rejected as dead is still pending, and no execution of it succeeded. -/
theorem rejects_pending (settled : s.Settled) (found : s.task index = some task)
    (considerate : s.considerate (.advance index reply) = true) {id : String}
    (rejects : task.rejects reply.pick = some id) (condemns : id ∈ task.condemns)
    (row : commandStatus id s.shared.commands ≠ none) :
    (∀ status, (id, status) ∉ s.shared.outcomes) ∧ id ∉ s.shared.applied := by
  obtain ⟨status, row⟩ := Option.ne_none_iff_exists'.mp row
  simp only [System.considerate, found, Option.bind_some, rejects, row, Option.all_some,
    Bool.and_eq_true, beq_iff_eq, decide_eq_true_eq] at considerate
  obtain ⟨_, rfl, unrelayed⟩ := considerate
  have silent : ∀ status, (id, status) ∉ s.shared.outcomes := by
    intro status wrote
    obtain ⟨_, now, current, settledRow⟩ := settled.written id status wrote
    rw [row] at current
    exact settledRow (Option.some.inj current).symm
  refine ⟨silent, ?_⟩
  intro applied
  obtain ⟨_, relayed | wrote | ⟨other, holder, present, unwritten⟩⟩ := settled.succeeded id applied
  · exact unrelayed relayed
  · exact silent .applied wrote
  · exact (settled.condemned index task id found condemns).2 other holder present
      (Task.owes_of_unwritten unwritten)

/-- A write for an id somebody else owes an outcome for does not happen. -/
theorem write_spares (settled : s.Settled) (found : s.task index = some task) {id : String}
    {status : SessionCommandStatus} {resolution : Option String}
    (taken : task.next s.shared reply = some (.write id status resolution, next))
    {other : ℕ} {holder : Task} (different : other ≠ index) (present : s.task other = some holder) :
    holder.owes ≠ some id := by
  intro owes
  obtain ⟨_, ⟨mine, _⟩ | ⟨refuses, _⟩ | ⟨_, condemns, _⟩⟩ := Task.next_write taken
  · exact different (settled.owes_alone present found owes mine)
  · exact (settled.condemned index task id found (Task.condemns_of_refuses refuses)).2 other holder
      present owes
  · exact (settled.condemned index task id found condemns).2 other holder present owes

theorem unmarked_silent (settled : s.Settled) {id : String} (fresh : id ∉ s.shared.processed) :
    (∀ status, (id, status) ∉ s.shared.outcomes) ∧ id ∉ s.shared.applied :=
  ⟨fun status wrote => fresh (settled.written id status wrote).1,
    fun applied => fresh (settled.succeeded id applied).1⟩

theorem owed_advance (settled : s.Settled) (found : s.task index = some task)
    (considerate : s.considerate (.advance index reply) = true)
    (taken : task.next s.shared reply = some (effect, next)) :
    ∀ other holder id, Function.update s.task index next other = some holder →
      holder.owes = some id → id ∈ (s.shared.after index effect).processed ∧
        (∀ status, (id, status) ∉ (s.shared.after index effect).outcomes) ∧
          (id ∈ (s.shared.after index effect).applied → holder.unwritten = some id) := by
  intro other holder id present owes
  obtain ⟨rfl, rfl⟩ | ⟨different, present⟩ := task_of_update present
  · rcases @Task.next_owes _ _ _ _ _ id taken owes with
      ⟨before, unmarked, quiet⟩ | ⟨rfl, fresh, _⟩
    · obtain ⟨recorded, silent, unwritten⟩ := settled.owed other task id found before
      rw [Shared.after_processed unmarked, (Shared.after_rows quiet).2]
      refine ⟨recorded, silent, ?_⟩
      intro applied
      obtain ⟨written, _, executed⟩ := Task.next_unwritten taken
      rcases Shared.applied_after applied with applied | ⟨relayed, rfl⟩
      · obtain ⟨resolution, wrote⟩ := written id (unwritten applied)
        exact absurd wrote (quiet id .applied resolution)
      · obtain ⟨_, _, ⟨_, gone⟩ | stays⟩ := executed id relayed rfl
        · rw [Option.bind_some, owes] at gone
          contradiction
        · exact stays
    · have absent : id ∉ s.shared.processed := by
        rcases fresh with absent | settling
        · exact absent
        · exact settling_fresh found considerate settling
      obtain ⟨silent, unapplied⟩ := settled.unmarked_silent absent
      exact ⟨List.mem_insert_self, silent, fun applied => absurd applied unapplied⟩
  · obtain ⟨recorded, silent, unwritten⟩ := settled.owed other holder id present owes
    refine ⟨s.shared.processed_subset index effect id recorded, ?_, ?_⟩
    · intro status wrote
      rcases Shared.outcomes_after wrote with wrote | ⟨resolution, rfl, _⟩
      · exact silent status wrote
      · exact settled.write_spares found taken different present owes
    · intro applied
      rcases Shared.applied_after applied with applied | ⟨relayed, rfl⟩
      · exact unwritten applied
      · have mine := ((Task.next_unwritten taken).2.2 id relayed rfl).1
        exact absurd (settled.owes_alone present found owes mine) different

theorem condemned_advance (settled : s.Settled) (found : s.task index = some task)
    (considerate : s.considerate (.advance index reply) = true)
    (taken : task.next s.shared reply = some (effect, next)) :
    ∀ other holder id, Function.update s.task index next other = some holder →
      id ∈ holder.condemns → id ∈ (s.shared.after index effect).processed ∧
        ∀ third debtor, Function.update s.task index next third = some debtor →
          debtor.owes ≠ some id := by
  intro other holder id present condemns
  -- The command was marked before and nobody owed it, or the refusal marks it now.
  have known : (id ∈ s.shared.processed ∧
        ∀ third debtor, s.task third = some debtor → debtor.owes ≠ some id) ∨
      (other = index ∧ effect = .mark id ∧ id ∉ s.shared.processed) := by
    obtain ⟨rfl, rfl⟩ | ⟨different, present⟩ := task_of_update present
    · rcases Task.next_condemns taken holder rfl id condemns with
        before | ⟨suspects, free⟩ | ⟨marks, settling⟩
      · exact .inl (settled.condemned other task id found before)
      · refine .inl ⟨settled.suspected other task id found suspects, ?_⟩
        intro third debtor stands owes
        exact free (settled.held third debtor id stands (Task.holds_of_owes owes))
      · exact .inr ⟨rfl, marks, settling_fresh found considerate settling⟩
    · exact .inl (settled.condemned other holder id present condemns)
  constructor
  · rcases known with ⟨recorded, _⟩ | ⟨_, rfl, _⟩
    · exact s.shared.processed_subset index effect id recorded
    · exact List.mem_insert_self
  · intro third debtor stands owes
    obtain ⟨rfl, rfl⟩ | ⟨different, stands⟩ := task_of_update stands
    · rcases known with ⟨recorded, unowed⟩ | ⟨rfl, _, _⟩
      · rcases @Task.next_owes _ _ _ _ _ id taken owes with ⟨before, _⟩ | ⟨_, fresh, _⟩
        · exact unowed third task found before
        · rcases fresh with absent | settling
          · exact absent recorded
          · exact settling_fresh found considerate settling recorded
      · rw [Function.update_self] at present
        cases present
        rw [Task.condemns_of_owes owes] at condemns
        contradiction
    · rcases known with ⟨_, unowed⟩ | ⟨_, _, absent⟩
      · exact unowed third debtor stands owes
      · exact absent (settled.owed third debtor id stands owes).1

theorem refused_advance (settled : s.Settled) (found : s.task index = some task)
    (considerate : s.considerate (.advance index reply) = true)
    (taken : task.next s.shared reply = some (effect, next)) :
    ∀ other holder id, Function.update s.task index next other = some holder →
      holder.refuses = some id →
        (∀ status, (id, status) ∈ (s.shared.after index effect).outcomes → status = .rejected) ∧
          id ∉ (s.shared.after index effect).applied := by
  intro other holder id present refuses
  obtain ⟨rfl, rfl⟩ | ⟨different, present⟩ := task_of_update present
  · obtain ⟨rfl, settling⟩ := @Task.next_refuses _ _ _ _ _ id taken refuses
    obtain ⟨silent, unapplied⟩ :=
      settled.unmarked_silent (settling_fresh found considerate settling)
    exact ⟨fun status wrote => absurd wrote (silent status), unapplied⟩
  · obtain ⟨rejected, unapplied⟩ := settled.refused other holder id present refuses
    have unowed := (settled.condemned other holder id present
      (Task.condemns_of_refuses refuses)).2 index task found
    constructor
    · intro status wrote
      rcases Shared.outcomes_after wrote with wrote | ⟨resolution, rfl, _⟩
      · exact rejected status wrote
      · obtain ⟨_, ⟨mine, _⟩ | ⟨_, now⟩ | ⟨_, _, now⟩⟩ := Task.next_write taken
        · exact absurd mine unowed
        · exact now
        · exact now
    · intro applied
      rcases Shared.applied_after applied with applied | ⟨relayed, rfl⟩
      · exact unapplied applied
      · exact unowed ((Task.next_unwritten taken).2.2 id relayed rfl).1

theorem written_advance (settled : s.Settled) (found : s.task index = some task)
    (taken : task.next s.shared reply = some (effect, next)) :
    ∀ id status, (id, status) ∈ (s.shared.after index effect).outcomes →
      id ∈ (s.shared.after index effect).processed ∧
        ∃ now, commandStatus id (s.shared.after index effect).commands = some now ∧
          now ≠ .pending := by
  intro id status wrote
  rcases Shared.outcomes_after wrote with before | ⟨resolution, rfl, row⟩
  · obtain ⟨recorded, now, current, done⟩ := settled.written id status before
    refine ⟨s.shared.processed_subset index effect id recorded, ?_⟩
    rcases @Shared.status_after s.shared index effect id with
      same | ⟨status, resolution, rfl, same⟩
    · exact ⟨now, same.trans current, done⟩
    · exact ⟨status, same, (Task.next_write taken).1⟩
  · have recorded : id ∈ s.shared.processed := by
      obtain ⟨_, ⟨mine, _⟩ | ⟨refuses, _⟩ | ⟨_, condemns, _⟩⟩ := Task.next_write taken
      · exact (settled.owed index task id found mine).1
      · exact (settled.condemned index task id found (Task.condemns_of_refuses refuses)).1
      · exact (settled.condemned index task id found condemns).1
    exact ⟨s.shared.processed_subset index _ id recorded, status,
      (Shared.after_write row).1, (Task.next_write taken).1⟩

theorem succeeded_advance (settled : s.Settled) (found : s.task index = some task)
    (taken : task.next s.shared reply = some (effect, next)) :
    ∀ id ∈ (s.shared.after index effect).applied,
      id ∈ (s.shared.after index effect).processed ∧
        (id ∈ (s.shared.after index effect).relayed ∨
          (id, .applied) ∈ (s.shared.after index effect).outcomes ∨
          ∃ other holder, Function.update s.task index next other = some holder ∧
            holder.unwritten = some id) := by
  intro id applied
  rcases Shared.applied_after applied with applied | ⟨relayed, rfl⟩
  · obtain ⟨recorded, kept⟩ := settled.succeeded id applied
    refine ⟨s.shared.processed_subset index effect id recorded, ?_⟩
    rcases kept with relayed | wrote | ⟨other, holder, present, unwritten⟩
    · exact .inl (Shared.relayed_kept relayed)
    · exact .inr (.inl (Shared.outcomes_kept wrote))
    · right
      by_cases same : other = index
      · subst same
        rw [found] at present
        cases present
        -- The pass writes the outcome it owes, over the row it read.
        obtain ⟨resolution, rfl⟩ := (Task.next_unwritten taken).1 id unwritten
        have row := settled.rows other task id found (Task.rows_of_unwritten unwritten)
        left
        exact (Shared.after_write (Option.isSome_iff_ne_none.mp row)).2
      · right
        exact ⟨other, holder, by rwa [Function.update_of_ne same], unwritten⟩
  · obtain ⟨mine, _, ⟨rfl, _⟩ | stays⟩ := (Task.next_unwritten taken).2.2 id relayed rfl
    · exact ⟨(settled.owed index task id found mine).1, .inl (by simp [Shared.after])⟩
    · refine ⟨(settled.owed index task id found mine).1, .inr (.inr ?_)⟩
      obtain ⟨holder, rfl, unwritten⟩ := Option.bind_eq_some_iff.mp stays
      exact ⟨index, holder, Function.update_self .., unwritten⟩

theorem final_advance (settled : s.Settled) (found : s.task index = some task)
    (considerate : s.considerate (.advance index reply) = true)
    (taken : task.next s.shared reply = some (effect, next)) :
    ∀ id before after, (id, before) ∈ (s.shared.after index effect).outcomes →
      (id, after) ∈ (s.shared.after index effect).outcomes → before = after := by
  -- What the step writes agrees with every outcome the command had.
  have agrees : ∀ id status resolution, effect = .write id status resolution →
      commandStatus id s.shared.commands ≠ none →
        ∀ other, (id, other) ∈ s.shared.outcomes → other = status := by
    rintro id status resolution rfl row other wrote
    obtain ⟨_, ⟨mine, _⟩ | ⟨refuses, rfl⟩ | ⟨rejects, condemns, _⟩⟩ := Task.next_write taken
    · exact absurd wrote ((settled.owed index task id found mine).2.1 other)
    · exact (settled.refused index task id found refuses).1 other wrote
    · exact absurd wrote ((settled.rejects_pending found considerate rejects condemns row).1 other)
  intro id before after first second
  rcases Shared.outcomes_after first with first | ⟨left, writes, row⟩
  · rcases Shared.outcomes_after second with second | ⟨right, writes, row⟩
    · exact settled.final id before after first second
    · exact agrees id after right writes row before first
  · rcases Shared.outcomes_after second with second | ⟨right, again, _⟩
    · exact (agrees id before left writes row after second).symm
    · rw [writes] at again
      cases again
      rfl

theorem truthful_advance (settled : s.Settled) (found : s.task index = some task)
    (considerate : s.considerate (.advance index reply) = true)
    (taken : task.next s.shared reply = some (effect, next)) :
    ∀ id ∈ (s.shared.after index effect).applied,
      (id, .rejected) ∉ (s.shared.after index effect).outcomes := by
  intro id applied wrote
  rcases Shared.outcomes_after wrote with wrote | ⟨resolution, rfl, row⟩
  · rcases Shared.applied_after applied with applied | ⟨relayed, rfl⟩
    · exact settled.truthful id applied wrote
    · have mine := ((Task.next_unwritten taken).2.2 id relayed rfl).1
      exact (settled.owed index task id found mine).2.1 .rejected wrote
  · have before : id ∈ s.shared.applied := by
      rcases Shared.applied_after applied with before | ⟨_, impossible⟩
      · exact before
      · contradiction
    obtain ⟨_, ⟨mine, _⟩ | ⟨refuses, _⟩ | ⟨rejects, condemns, _⟩⟩ := Task.next_write taken
    · have unwritten := (settled.owed index task id found mine).2.2 before
      obtain ⟨_, writes⟩ := (Task.next_unwritten taken).1 id unwritten
      simp at writes
    · exact (settled.refused index task id found refuses).2 before
    · exact (settled.rejects_pending found considerate rejects condemns row).2 before

theorem rows_advance (settled : s.Settled) (found : s.task index = some task)
    (taken : task.next s.shared reply = some (effect, next)) :
    ∀ other holder id, Function.update s.task index next other = some holder →
      id ∈ holder.rows → (commandStatus id (s.shared.after index effect).commands).isSome := by
  intro other holder id present read
  have row : (commandStatus id s.shared.commands).isSome := by
    obtain ⟨rfl, rfl⟩ | ⟨_, present⟩ := task_of_update present
    · rcases Task.next_rows taken holder rfl id read with before | fresh
      · exact settled.rows other task id found before
      · exact commandStatus_isSome.mpr fresh
    · exact settled.rows other holder id present read
  rcases @Shared.status_after s.shared index effect id with
    same | ⟨status, resolution, _, same⟩
  · rwa [same]
  · simp [same]

theorem suspected_advance (settled : s.Settled)
    (taken : task.next s.shared reply = some (effect, next)) :
    ∀ other holder id, Function.update s.task index next other = some holder →
      holder.suspects = some id → id ∈ (s.shared.after index effect).processed := by
  intro other holder id present suspects
  apply s.shared.processed_subset index effect id
  obtain ⟨rfl, rfl⟩ | ⟨_, present⟩ := task_of_update present
  · exact @Task.next_suspects _ _ _ _ _ id taken suspects
  · exact settled.suspected other holder id present suspects

theorem keepsOutcomes_row {before after : List SessionCommandEntry} {id : String}
    (keeps : keepsOutcomes before after = true) {status : SessionCommandStatus}
    (row : commandStatus id before = some status) :
    ∃ now, commandStatus id after = some now ∧ (status ≠ .pending → now ≠ .pending) := by
  obtain ⟨held, member, rfl⟩ := List.mem_map.mp
    (commandStatus_isSome.mp (Option.isSome_iff_exists.mpr ⟨status, row⟩))
  have kept := List.all_eq_true.mp keeps held member
  rw [row] at kept
  cases later : commandStatus held.id after with
  | none => simp [later] at kept
  | some now =>
      refine ⟨now, rfl, ?_⟩
      intro done
      simpa [later, done] using kept

/-- The document changes and forgets no outcome. -/
theorem replaced (settled : s.Settled) {commands : List SessionCommandEntry}
    {messages : List String} (keeps : keepsOutcomes s.shared.commands commands = true) :
    System.Settled { s with shared := { s.shared with commands, messages } } where
  held := settled.held
  alone := settled.alone
  owed := settled.owed
  condemned := settled.condemned
  refused := settled.refused
  suspected := settled.suspected
  rows := by
    intro index task id found read
    obtain ⟨status, row⟩ := Option.isSome_iff_exists.mp (settled.rows index task id found read)
    obtain ⟨now, kept, _⟩ := keepsOutcomes_row keeps row
    exact Option.isSome_iff_exists.mpr ⟨now, kept⟩
  written := by
    intro id status wrote
    obtain ⟨recorded, before, row, done⟩ := settled.written id status wrote
    obtain ⟨now, kept, still⟩ := keepsOutcomes_row keeps row
    exact ⟨recorded, now, kept, still done⟩
  succeeded := settled.succeeded
  final := settled.final
  truthful := settled.truthful

/-- Every task is gone, and none of them took an outcome with it. -/
theorem crashed (settled : s.Settled)
    (written : (s.tasks.all fun task => task.bind Task.unwritten = none) = true) :
    System.Settled { shared := { s.shared with executing := [], promptLock := none },
                     tasks := s.tasks.map fun _ => none } := by
  have gone := fun index => System.task_crash (s := s)
    { s.shared with executing := [], promptLock := none } index
  constructor
  case written => exact settled.written
  case final => exact settled.final
  case truthful => exact settled.truthful
  case succeeded =>
    intro id applied
    obtain ⟨recorded, relayed | wrote | ⟨index, task, found, unwritten⟩⟩ :=
      settled.succeeded id applied
    · exact ⟨recorded, .inl relayed⟩
    · exact ⟨recorded, .inr (.inl wrote)⟩
    · have done := List.all_eq_true.mp written _ (System.mem_tasks found)
      simp [unwritten] at done
  all_goals
    intro index
    simp only [gone]
    simp

theorem spawned (settled : s.Settled) (task : Task) (idle : task.holds = none)
    (unowed : task.owes = none) (innocent : task.condemns = []) (unrefused : task.refuses = none)
    (unsuspected : task.suspects = none) (unread : task.rows = [])
    (unwritten : task.unwritten = none) : (s.spawn task).Settled := by
  have known : ∀ index held, (s.spawn task).task index = some held →
      held = task ∨ s.task index = some held := by
    intro index held found
    rw [System.task_spawn] at found
    split_ifs at found
    · exact .inl (Option.some.inj found).symm
    · exact .inr found
  have before : ∀ index held, s.task index = some held → (s.spawn task).task index = some held := by
    intro index held found
    rw [System.task_spawn, if_neg, found]
    rintro rfl
    simp [System.task] at found
  constructor
  case held =>
    intro index held id found holds
    obtain rfl | found := known index held found
    · rw [idle] at holds
      contradiction
    · exact settled.held index held id found holds
  case alone =>
    intro left right first second id foundLeft foundRight holdsLeft holdsRight
    obtain rfl | foundLeft := known left first foundLeft
    · rw [idle] at holdsLeft
      contradiction
    · obtain rfl | foundRight := known right second foundRight
      · rw [idle] at holdsRight
        contradiction
      · exact settled.alone left right first second id foundLeft foundRight holdsLeft holdsRight
  case owed =>
    intro index held id found owes
    obtain rfl | found := known index held found
    · rw [unowed] at owes
      contradiction
    · exact settled.owed index held id found owes
  case condemned =>
    intro index held id found condemns
    obtain rfl | found := known index held found
    · rw [innocent] at condemns
      contradiction
    · obtain ⟨recorded, unowing⟩ := settled.condemned index held id found condemns
      refine ⟨recorded, ?_⟩
      intro other holder present
      obtain rfl | present := known other holder present
      · rw [unowed]
        simp
      · exact unowing other holder present
  case refused =>
    intro index held id found refuses
    obtain rfl | found := known index held found
    · rw [unrefused] at refuses
      contradiction
    · exact settled.refused index held id found refuses
  case suspected =>
    intro index held id found suspects
    obtain rfl | found := known index held found
    · rw [unsuspected] at suspects
      contradiction
    · exact settled.suspected index held id found suspects
  case rows =>
    intro index held id found read
    obtain rfl | found := known index held found
    · rw [unread] at read
      contradiction
    · exact settled.rows index held id found read
  case written => exact settled.written
  case succeeded =>
    intro id applied
    obtain ⟨recorded, relayed | wrote | ⟨index, held, found, unwrote⟩⟩ :=
      settled.succeeded id applied
    · exact ⟨recorded, .inl relayed⟩
    · exact ⟨recorded, .inr (.inl wrote)⟩
    · exact ⟨recorded, .inr (.inr ⟨index, held, before index held found, unwrote⟩)⟩
  case final => exact settled.final
  case truthful => exact settled.truthful

theorem step {after : System} (settled : s.Settled) (action : Action)
    (considerate : s.considerate action = true) (stepped : s.step action = some after) :
    after.Settled := by
  cases action with
  | drain controlsOnly =>
      cases stepped
      apply settled.spawned <;> rfl
  | relay entry =>
      cases stepped
      apply settled.spawned <;> rfl
  | retry =>
      cases stepped
      apply settled.spawned <;> rfl
  | advance index reply =>
      obtain ⟨task, effect, next, found, taken, shared, tasks⟩ := System.advanced stepped
      constructor
      all_goals try rw [tasks]
      all_goals try rw [shared]
      · exact settled.held_advance found taken
      · exact settled.alone_advance found taken
      · exact settled.owed_advance found considerate taken
      · exact settled.condemned_advance found considerate taken
      · exact settled.refused_advance found considerate taken
      · exact settled.suspected_advance taken
      · exact settled.rows_advance found taken
      · exact settled.written_advance found taken
      · exact settled.succeeded_advance found taken
      · exact settled.final_advance found considerate taken
      · exact settled.truthful_advance found considerate taken
  | sync commands messages =>
      cases stepped
      exact settled.replaced considerate
  | crash commands messages =>
      simp only [System.considerate, Bool.and_eq_true] at considerate
      cases stepped
      exact (settled.crashed considerate.2).replaced considerate.1

end System.Settled

end

theorem System.Fresh.settled {s : System} (fresh : s.Fresh) : s.Settled := by
  constructor <;>
    simp [fresh.no_task, fresh.outcomes, fresh.applied]

/-- In a run of considerate steps a command that was executed with success is never
rejected, and the statuses the host writes for a command are all the same. -/
theorem outcomes_truthful_and_final {start finish : System} (fresh : start.Fresh)
    (runs : Reaches System.step (fun s action => s.considerate action = true) start finish) :
    (∀ id ∈ finish.shared.applied, (id, .rejected) ∉ finish.shared.outcomes) ∧
      ∀ id before after, (id, before) ∈ finish.shared.outcomes →
        (id, after) ∈ finish.shared.outcomes → before = after := by
  have settled := runs.keeps fresh.settled fun _ action _ settled considerate stepped =>
    settled.step action considerate stepped
  exact ⟨settled.truthful, settled.final⟩

/-! ## A relayed command whose row arrives later -/

/-- The host of a chat whose ledger has not received the interrupt yet. -/
def unheard : System := { interrupted with shared := { interrupted.shared with commands := [] } }

/-- The relayed interrupt is executed; then its row arrives and a pass sweeps it. -/
def rowAfterRelay : List Action :=
  [.relay (interruptEntry "i1" 1000 none)] ++ List.replicate 10 (.advance 0 prompted) ++
    [.sync [interruptEntry "i1" 1000 none] [], .drain true] ++
    List.replicate 5 (.advance 1 prompted)

theorem relayed_command_rejected :
    ∃ finish, Reaches System.step (fun _ _ => True) unheard finish ∧
      "i1" ∈ finish.shared.applied ∧ ("i1", .rejected) ∈ finish.shared.outcomes := by
  have ran : ((runAll System.step (fun _ _ => true) unheard rowAfterRelay).map fun finish =>
      (finish.shared.applied, finish.shared.outcomes)) =
        some (["i1"], [("i1", .rejected)]) := by decide
  obtain ⟨finish, ran, seen⟩ := Option.map_eq_some_iff.mp ran
  obtain ⟨applied, outcomes⟩ := Prod.mk.inj seen
  refine ⟨finish, (reaches_of_runAll ran).mono (fun _ _ _ => trivial), ?_, ?_⟩
  · rw [applied]
    decide
  · rw [outcomes]
    decide

/-- A pass over a pending row: it is executed and its outcome stays. -/
theorem outcome_of_one_pass :
    ∃ finish, Reaches System.step (fun s action => s.considerate action = true) interrupted
        finish ∧
      finish.shared.applied = ["i1"] ∧ finish.shared.outcomes = [("i1", .applied)] ∧
      (∀ id ∈ finish.shared.applied, (id, .rejected) ∉ finish.shared.outcomes) ∧
      ∀ id before after, (id, before) ∈ finish.shared.outcomes →
        (id, after) ∈ finish.shared.outcomes → before = after := by
  have ran : ((runAll System.step System.considerate interrupted
      (.drain true :: List.replicate 13 (.advance 0 prompted))).map fun finish =>
      (finish.shared.applied, finish.shared.outcomes)) =
        some (["i1"], [("i1", .applied)]) := by decide
  obtain ⟨finish, ran, seen⟩ := Option.map_eq_some_iff.mp ran
  obtain ⟨applied, outcomes⟩ := Prod.mk.inj seen
  have runs := reaches_of_runAll ran
  exact ⟨finish, runs, applied, outcomes, outcomes_truthful_and_final interrupted_fresh runs⟩

end Zeron.Command
