import Zeron.Data.Claims
import Zeron.Command.Host

namespace Zeron.Command

open Zeron.Data

/-! # A command executes at most once

A task that recorded the command in the ledger holds the claim to execute it.
Drain passes do not read whether their mark was the first, so the claim is theirs
alone only where nobody marked the command since they read the ledger.
-/

/-! ## What a task is about to do -/

/-- The command a pass chose and has not marked yet. -/
def PassStage.unmarked : PassStage → Option SessionCommandEntry
  | .chosen _ entry | .evaluating _ entry _ | .gating entry | .refusing entry
  | .claiming entry _ | .marking entry _ => some entry
  | _ => none

def Task.guard : Task → Bool
  | .drain pass => pass.guard
  | .relay call => call.guard
  | .retry _ => false

/-- The prompt a pass chose and has not marked yet. -/
def Task.prompt : Task → Option String
  | .drain pass =>
      match pass.stage.unmarked with
      | some entry => if entry.isPrompt then some entry.id else none
      | none => none
  | _ => none

/-- The command the next step marks. -/
def Task.marking : Task → Option SessionCommandEntry
  | .drain pass =>
      match pass.stage with
      | .refusing entry | .marking entry _ => some entry
      | _ => none
  | .relay call =>
      match call.stage with
      | .marking _ => some call.entry
      | _ => none
  | .retry _ => none

/-- The command a pass marks next in order to execute it. -/
def Task.committing : Task → Option SessionCommandEntry
  | .drain pass =>
      match pass.stage with
      | .marking entry .execute => some entry
      | _ => none
  | _ => none

/-- The row a pass looks at next in its search for a command to run. -/
def Task.finding : Task → Option SessionCommandEntry
  | .drain pass =>
      match pass.stage with
      | .finding _ (entry :: _) => some entry
      | _ => none
  | _ => none

/-- The command whose `execute` the next step enters. -/
def Task.ticket : Task → Option String
  | .drain pass =>
      match pass.stage with
      | .marked entry .execute => some entry.id
      | _ => none
  | .relay call =>
      match call.stage with
      | .marked .execute => some call.entry.id
      | _ => none
  | .retry _ => none

/-- Prompts are handled under the lock only, and only prompts wait for attachments. -/
def Task.Shaped : Task → Prop
  | .drain pass =>
      (∀ entry, pass.stage.unmarked = some entry → entry.isPrompt = true → pass.guard = true) ∧
        ∀ entry, pass.stage = .refusing entry → entry.isPrompt = true
  | .relay call =>
      match call.stage with
      | .arriving | .waiting | .leaving _ => True
      | _ => call.entry.isPrompt = true → call.guard = true
  | .retry _ => True

/-! ## What one step does to it -/

section

variable {shared : Shared} {task : Task} {reply : Reply} {effect : Effect} {next : Option Task}

theorem missingAttachments_control {landed : Option (List String)} {entry : SessionCommandEntry}
    (control : entry.isPrompt = false) : missingAttachments landed entry = [] := by
  unfold missingAttachments
  cases payload : entry.payload <;> simp_all [SessionCommandEntry.isPrompt,
    SessionCommandPayload.isPrompt] <;> cases landed <;> rfl

/-- A retry only ever writes that a dead attempt is rejected. -/
theorem RetryStage.next_effect {stage : RetryStage} {after : Option RetryStage}
    (taken : stage.next shared reply = some (effect, after)) :
    effect = .idle ∨ ∃ id resolution, effect = .write id .rejected resolution := by
  cases stage with
  | scanning commands messages rest dead =>
      cases rest with
      | nil => grind [RetryStage.next]
      | cons entry rest =>
          simp only [RetryStage.next] at taken
          cases entry.payload.messageId <;> cases entry.status <;> grind
  | closing dead =>
      simp only [RetryStage.next] at taken
      grind
  | _ => grind [RetryStage.next]

theorem Task.next_retry {stage : RetryStage}
    (taken : (Task.retry stage).next shared reply = some (effect, next)) :
    (effect = .idle ∨ ∃ id resolution, effect = .write id .rejected resolution) ∧
      (next = none ∨ ∃ stage, next = some (.retry stage)) := by
  simp only [Task.next, Option.map_eq_some_iff, Prod.exists, Prod.mk.injEq] at taken
  obtain ⟨effect, after, taken, rfl, rfl⟩ := taken
  refine ⟨RetryStage.next_effect taken, ?_⟩
  cases after with
  | none => exact .inl rfl
  | some stage => exact .inr ⟨stage, rfl⟩

theorem Task.next_ticket (taken : task.next shared reply = some (effect, next)) :
    (∃ id, task.ticket = some id ∧ effect = .enter id ∧ next.bind Task.ticket = none) ∨
    (task.ticket = none ∧ (∀ id, effect ≠ .enter id) ∧
      ∀ id, next.bind Task.ticket = some id → effect = .mark id ∧
        (id ∉ shared.processed ∨ ∃ entry, task.committing = some entry ∧ entry.id = id)) := by
  cases task with
  | drain pass =>
      obtain ⟨controlsOnly, guard, skipped, stage⟩ := pass
      cases stage <;> simp only [Task.next, Pass.next, Task.ticket, Task.committing] at taken ⊢ <;>
        grind [Task.ticket, Pass.skip]
  | relay call =>
      obtain ⟨entry, guard, stage⟩ := call
      cases stage <;> simp only [Task.next, Relay.next, Task.ticket] at taken ⊢ <;>
        grind [Task.ticket]
  | retry stage => grind [Task.next_retry taken, Task.ticket]

theorem Task.next_guard (taken : task.next shared reply = some (effect, next)) :
    (effect = .acquire ∧ shared.promptLock.isSome = false) ∨
    (effect = .release task.guard ∧ next = none) ∨
    ((effect ≠ .acquire ∧ ∀ guard, effect ≠ .release guard) ∧
      ∀ after, next = some after → after.guard = task.guard) := by
  cases task with
  | drain pass =>
      obtain ⟨controlsOnly, guard, skipped, stage⟩ := pass
      cases stage <;> simp only [Task.next, Pass.next, Task.guard] at taken ⊢ <;>
        grind [Task.guard, Pass.skip]
  | relay call =>
      obtain ⟨entry, guard, stage⟩ := call
      cases stage <;> simp only [Task.next, Relay.next, Task.guard] at taken ⊢ <;>
        grind [Task.guard]
  | retry stage => grind [Task.next_retry taken, Task.guard]

theorem Task.next_prompt (taken : task.next shared reply = some (effect, next)) {id : String}
    (chosen : next.bind Task.prompt = some id) :
    (∀ other, effect ≠ .mark other) ∧
      (task.prompt = some id ∨ ∃ entry, task.finding = some entry ∧ entry.id = id ∧
        entry.isPrompt = true ∧ reply.isProcessed shared id = false) := by
  cases task with
  | drain pass =>
      obtain ⟨controlsOnly, guard, skipped, stage⟩ := pass
      cases stage <;> simp only [Task.next, Pass.next, Task.prompt, Task.finding] at taken ⊢ <;>
        grind [Task.prompt, Pass.skip, PassStage.unmarked]
  | relay call =>
      obtain ⟨entry, guard, stage⟩ := call
      cases stage <;> simp only [Task.next, Relay.next] at taken ⊢ <;>
        grind [Task.prompt]
  | retry stage => grind [Task.next_retry taken, Task.prompt]

theorem Task.next_mark {id : String} (taken : task.next shared reply = some (.mark id, next)) :
    ∃ entry, task.marking = some entry ∧ entry.id = id := by
  cases task with
  | drain pass =>
      obtain ⟨controlsOnly, guard, skipped, stage⟩ := pass
      cases stage <;> simp only [Task.next, Pass.next, Task.marking] at taken ⊢ <;>
        grind [Pass.skip]
  | relay call =>
      obtain ⟨entry, guard, stage⟩ := call
      cases stage <;> simp only [Task.next, Relay.next, Task.marking] at taken ⊢ <;> grind
  | retry stage => grind [Task.next_retry taken]

theorem Task.next_shaped (taken : task.next shared reply = some (effect, next))
    (shaped : task.Shaped) : ∀ after, next = some after → after.Shaped := by
  cases task with
  | drain pass =>
      obtain ⟨controlsOnly, guard, skipped, stage⟩ := pass
      cases stage <;> simp only [Task.next, Pass.next, Task.Shaped] at taken shaped ⊢ <;>
        grind [Pass.skip, PassStage.unmarked, Task.Shaped, missingAttachments_control]
  | relay call =>
      obtain ⟨entry, guard, stage⟩ := call
      cases stage <;> simp only [Task.next, Relay.next, Task.Shaped] at taken shaped ⊢ <;>
        grind [Task.Shaped]
  | retry stage => grind [Task.next_retry taken, Task.Shaped]

theorem Task.Shaped.guard_of_prompt (shaped : task.Shaped) {id : String}
    (chosen : task.prompt = some id) : task.guard = true := by
  cases task with
  | drain pass =>
      simp only [Task.prompt] at chosen
      split at chosen
      · rename_i entry unmarked
        apply shaped.1 entry unmarked
        by_contra control
        simp [control] at chosen
      · simp at chosen
  | relay call => simp [Task.prompt] at chosen
  | retry stage => simp [Task.prompt] at chosen

theorem Task.Shaped.guard (shaped : task.Shaped) {entry : SessionCommandEntry}
    (marking : task.marking = some entry) (prompt : entry.isPrompt = true) :
    task.guard = true := by
  cases task with
  | drain pass =>
      obtain ⟨controlsOnly, guard, skipped, stage⟩ := pass
      cases stage <;> simp_all [Task.marking, Task.Shaped, Task.guard, PassStage.unmarked]
  | relay call =>
      obtain ⟨relayed, guard, stage⟩ := call
      cases stage <;> simp_all [Task.marking, Task.Shaped, Task.guard]
  | retry stage => simp [Task.marking] at marking

end

/-! ## Tasks side by side -/

section

variable {s after : System} {index : ℕ} {next : Option Task} {task : Task}

theorem System.task_set (shared : Shared) (found : s.task index = some task) (other : ℕ) :
    System.task { shared, tasks := s.tasks.set index next } other =
      Function.update s.task index next other := by
  have inside : index < s.tasks.length := by
    by_contra outside
    rw [System.task, List.getElem?_eq_none (by omega)] at found
    simp at found
  by_cases same : other = index
  · subst same
    simp [System.task, inside]
  · rw [Function.update_of_ne same, System.task, System.task]
    simp [List.getElem?_set_ne (Ne.symm same)]

theorem System.task_spawn (task : Task) (other : ℕ) :
    (s.spawn task).task other =
      if other = s.tasks.length then some task else s.task other := by
  rw [System.task, System.task, System.spawn, List.getElem?_append]
  split_ifs with inside final last
  · omega
  · rfl
  · subst last
    simp
  · have : other - s.tasks.length ≠ 0 := by omega
    rw [List.getElem?_eq_none (i := other) (by omega)]
    simp [this]

theorem System.task_crash (shared : Shared) (other : ℕ) :
    System.task { shared, tasks := s.tasks.map fun _ => none } other = none := by
  rw [System.task, List.getElem?_map]
  cases s.tasks[other]? <;> rfl

theorem System.mem_tasks (found : s.task index = some task) : some task ∈ s.tasks := by
  unfold System.task at found
  cases held : s.tasks[index]? with
  | none => rw [held] at found; simp at found
  | some slot =>
      rw [held] at found
      simp only [Option.join_some] at found
      rw [← found]
      exact List.mem_of_getElem? held

theorem System.advanced {reply : Reply} (stepped : s.step (.advance index reply) = some after) :
    ∃ task effect next, s.task index = some task ∧
      task.next s.shared reply = some (effect, next) ∧
      after.shared = s.shared.after index effect ∧
      after.task = Function.update s.task index next := by
  simp only [System.step] at stepped
  cases found : s.task index with
  | none => simp [found] at stepped
  | some task =>
      simp only [found, Option.map_eq_some_iff, Prod.exists] at stepped
      obtain ⟨effect, next, taken, rfl⟩ := stepped
      exact ⟨task, effect, next, rfl, taken, rfl, funext (System.task_set _ found)⟩

end

/-! ## Runs -/

/-- What a step must respect.  A search that cannot read the ledger stops at no
prompt the ledger holds; a pass that marks a control command in order to execute it
is the first to mark it; and a control command is marked under no id a pass chose a
prompt under. -/
def System.careful (s : System) : Action → Bool
  | .advance index reply =>
      (((s.task index).bind Task.finding).all fun entry =>
        !entry.isPrompt || reply.ok || decide (entry.id ∉ s.shared.processed)) &&
      (((s.task index).bind Task.committing).all fun entry =>
        entry.isPrompt || decide (entry.id ∉ s.shared.processed)) &&
      (((s.task index).bind Task.marking).all fun entry =>
        entry.isPrompt || s.tasks.all fun other => other.bind Task.prompt ≠ some entry.id)
  | _ => true

/-- The tickets of the tasks in flight. -/
def System.tickets (s : System) (index : ℕ) : Option String := (s.task index).bind Task.ticket

theorem Shared.after_promptLock {shared : Shared} {index : ℕ} {effect : Effect}
    (quiet : effect ≠ .acquire ∧ ∀ guard, effect ≠ .release guard) :
    (shared.after index effect).promptLock = shared.promptLock := by
  cases effect <;> simp_all [Shared.after]
  split <;> rfl

theorem Shared.after_processed {shared : Shared} {index : ℕ} {effect : Effect}
    (quiet : ∀ id, effect ≠ .mark id) :
    (shared.after index effect).processed = shared.processed := by
  cases effect <;> simp_all [Shared.after]
  split <;> rfl

theorem Shared.after_entered {shared : Shared} {index : ℕ} {effect : Effect}
    (quiet : ∀ id, effect ≠ .enter id) :
    (shared.after index effect).entered = shared.entered := by
  cases effect <;> simp_all [Shared.after]
  split <;> rfl

theorem Shared.processed_subset (shared : Shared) (index : ℕ) (effect : Effect) :
    ∀ id ∈ shared.processed, id ∈ (shared.after index effect).processed := by
  intro id member
  by_cases quiet : ∀ id, effect ≠ .mark id
  · rwa [Shared.after_processed quiet]
  · push Not at quiet
    obtain ⟨marked, rfl⟩ := quiet
    exact List.mem_insert_of_mem member

structure System.Once (s : System) : Prop where
  shaped : ∀ index task, s.task index = some task → task.Shaped
  locked : ∀ index task, s.task index = some task → task.guard = true →
    s.shared.promptLock = some index
  prompts : ∀ index task id, s.task index = some task → task.prompt = some id →
    id ∉ s.shared.processed
  claims : ClaimsOnce s.tickets s.shared.processed s.shared.entered

section

variable {s after : System} {index : ℕ} {next : Option Task} {task : Task} {reply : Reply}
  {effect : Effect}

theorem System.Once.spawn (once : s.Once) (shaped : task.Shaped) (unlocked : task.guard = false)
    (unmarked : task.prompt = none) (unclaimed : task.ticket = none) : (s.spawn task).Once where
  shaped := by
    intro index found
    rw [System.task_spawn]
    split_ifs
    · rintro ⟨⟩
      exact shaped
    · exact once.shaped index found
  locked := by
    intro index found
    rw [System.task_spawn]
    split_ifs
    · rintro ⟨⟩ held
      rw [unlocked] at held
      contradiction
    · exact once.locked index found
  prompts := by
    intro index found id
    rw [System.task_spawn]
    split_ifs
    · rintro ⟨⟩ chosen
      rw [unmarked] at chosen
      contradiction
    · exact once.prompts index found id
  claims := by
    apply (once.claims.drop s.tasks.length).congr
    intro other
    rw [System.tickets, System.task_spawn]
    by_cases last : other = s.tasks.length
    · subst last
      simp [unclaimed]
    · rw [if_neg last, Function.update_of_ne last]
      rfl

theorem System.Once.locked_advance (once : s.Once) (found : s.task index = some task)
    (taken : task.next s.shared reply = some (effect, next)) :
    ∀ other held, Function.update s.task index next other = some held → held.guard = true →
      (s.shared.after index effect).promptLock = some other := by
  intro other held present guarded
  obtain ⟨rfl, free⟩ | ⟨rfl, rfl⟩ | ⟨quiet, kept⟩ := Task.next_guard taken
  · by_cases same : other = index
    · subst same
      rfl
    · rw [Function.update_of_ne same] at present
      have locked := once.locked other held present guarded
      simp [locked] at free
  · by_cases same : other = index
    · subst same
      simp at present
    · rw [Function.update_of_ne same] at present
      have locked := once.locked other held present guarded
      have foreign : task.guard = false := by
        by_contra guards
        have mine := once.locked index task found (by simpa using guards)
        rw [locked] at mine
        exact same (Option.some.inj mine)
      simp [Shared.after, foreign, locked]
  · rw [Shared.after_promptLock quiet]
    by_cases same : other = index
    · subst same
      rw [Function.update_self] at present
      rw [kept held present] at guarded
      exact once.locked other task found guarded
    · rw [Function.update_of_ne same] at present
      exact once.locked other held present guarded

/-- A prompt is marked under the lock, so no other pass has chosen it. -/
theorem System.Once.mark_spares (once : s.Once) (found : s.task index = some task)
    (careful : s.careful (.advance index reply) = true) {entry : SessionCommandEntry}
    (marking : task.marking = some entry) {other : ℕ} {held : Task} (different : other ≠ index)
    (present : s.task other = some held) : held.prompt ≠ some entry.id := by
  intro chosen
  by_cases prompt : entry.isPrompt = true
  · have mine := once.locked index task found ((once.shaped index task found).guard marking prompt)
    have theirs := once.locked other held present
      ((once.shaped other held present).guard_of_prompt chosen)
    rw [mine] at theirs
    exact different (Option.some.inj theirs).symm
  · simp only [System.careful, found, Option.bind_some, marking, Option.all_some, prompt,
      Bool.and_eq_true, Bool.false_or, List.all_eq_true, decide_eq_true_eq] at careful
    exact careful.2 _ (System.mem_tasks present) (by simpa using chosen)

theorem System.Once.prompts_advance (once : s.Once) (found : s.task index = some task)
    (careful : s.careful (.advance index reply) = true)
    (taken : task.next s.shared reply = some (effect, next)) :
    ∀ other held id, Function.update s.task index next other = some held →
      held.prompt = some id → id ∉ (s.shared.after index effect).processed := by
  intro other held id present chosen
  by_cases same : other = index
  · subst same
    rw [Function.update_self] at present
    obtain ⟨quiet, before | ⟨entry, finding, rfl, prompt, unread⟩⟩ :=
      @Task.next_prompt _ _ _ _ _ taken id (by simpa [present] using chosen)
    · rw [Shared.after_processed quiet]
      exact once.prompts other task id found before
    · rw [Shared.after_processed quiet]
      simp only [System.careful, found, Option.bind_some, finding, Option.all_some, prompt,
        Bool.and_eq_true, Bool.not_true, Bool.false_or, Bool.or_eq_true, decide_eq_true_eq]
        at careful
      rcases careful.1.1 with ok | absent
      · simpa [Reply.isProcessed, ok] using unread
      · exact absent
  · rw [Function.update_of_ne same] at present
    have before := once.prompts other held id present chosen
    by_cases quiet : ∀ id, effect ≠ .mark id
    · rwa [Shared.after_processed quiet]
    · push Not at quiet
      obtain ⟨marked, rfl⟩ := quiet
      obtain ⟨entry, marking, rfl⟩ := Task.next_mark taken
      have spared := once.mark_spares found careful marking same present
      intro member
      rcases List.mem_insert_iff.mp member with rfl | member
      · exact spared chosen
      · exact before member

/-- Whoever marks a command in order to execute it is the first to mark it. -/
theorem System.Once.commit_fresh (once : s.Once) (found : s.task index = some task)
    (careful : s.careful (.advance index reply) = true) {entry : SessionCommandEntry}
    (committing : task.committing = some entry) : entry.id ∉ s.shared.processed := by
  by_cases prompt : entry.isPrompt = true
  · apply once.prompts index task entry.id found
    cases task with
    | drain pass =>
        obtain ⟨controlsOnly, guard, skipped, stage⟩ := pass
        simp only [Task.committing] at committing
        split at committing
        · cases committing
          simp [Task.prompt, PassStage.unmarked, prompt]
        · simp at committing
    | relay call => simp [Task.committing] at committing
    | retry stage => simp [Task.committing] at committing
  · simp only [System.careful, found, Option.bind_some, committing, Option.all_some, prompt,
      Bool.and_eq_true, Bool.false_or, decide_eq_true_eq] at careful
    exact careful.1.2

theorem System.Once.claims_advance (once : s.Once) (found : s.task index = some task)
    (careful : s.careful (.advance index reply) = true)
    (taken : task.next s.shared reply = some (effect, next)) :
    ClaimsOnce (Function.update s.tickets index (next.bind Task.ticket))
      (s.shared.after index effect).processed (s.shared.after index effect).entered := by
  have wide := s.shared.processed_subset index effect
  obtain ⟨id, ticket, rfl, spent⟩ | ⟨unclaimed, quiet, fresh⟩ := Task.next_ticket taken
  · rw [spent]
    exact once.claims.spend (by simp [System.tickets, found, ticket])
  · rw [Shared.after_entered quiet]
    cases claimed : next.bind Task.ticket with
    | none => exact (once.claims.drop index).record wide
    | some id =>
        obtain ⟨rfl, first⟩ := fresh id claimed
        have absent : id ∉ s.shared.processed := by
          rcases first with absent | ⟨entry, committing, rfl⟩
          · exact absent
          · exact once.commit_fresh found careful committing
        exact once.claims.claim absent wide List.mem_insert_self index

theorem System.Once.step (once : s.Once) (action : Action) (careful : s.careful action = true)
    (stepped : s.step action = some after) : after.Once := by
  cases action with
  | drain controlsOnly =>
      cases stepped
      apply once.spawn <;> simp [Task.Shaped, PassStage.unmarked, Task.guard, Task.prompt,
        Task.ticket]
  | relay entry =>
      cases stepped
      apply once.spawn <;> simp [Task.Shaped, Task.guard, Task.prompt, Task.ticket]
  | retry =>
      cases stepped
      apply once.spawn <;> simp [Task.Shaped, Task.guard, Task.prompt, Task.ticket]
  | advance index reply =>
      obtain ⟨task, effect, next, found, taken, shared, tasks⟩ := System.advanced stepped
      constructor
      · rw [tasks]
        intro other held present
        by_cases same : other = index
        · subst same
          rw [Function.update_self] at present
          exact Task.next_shaped taken (once.shaped other task found) held present
        · rw [Function.update_of_ne same] at present
          exact once.shaped other held present
      · rw [tasks, shared]
        exact once.locked_advance found taken
      · rw [tasks, shared]
        exact once.prompts_advance found careful taken
      · rw [shared]
        apply (once.claims_advance found careful taken).congr
        intro other
        rw [System.tickets, tasks]
        by_cases same : other = index
        · subst same
          simp
        · simp [Function.update_of_ne same, System.tickets]
  | sync commands messages =>
      cases stepped
      exact { once with }
  | crash commands messages =>
      cases stepped
      constructor
      · intro index task found
        rw [System.task_crash] at found
        contradiction
      · intro index task found
        rw [System.task_crash] at found
        contradiction
      · intro index task id found
        rw [System.task_crash] at found
        contradiction
      · apply (once.claims.forget).congr
        intro index
        rw [System.tickets, System.task_crash]
        rfl

end

/-- A host that has not executed anything yet, whatever its ledger and document hold. -/
structure System.Fresh (s : System) : Prop where
  idle : s.tasks = []
  entered : s.shared.entered = []
  applied : s.shared.applied = []
  relayed : s.shared.relayed = []
  outcomes : s.shared.outcomes = []

theorem System.Fresh.no_task {s : System} (fresh : s.Fresh) (index : ℕ) :
    s.task index = none := by
  simp [System.task, fresh.idle]

theorem System.Fresh.once {s : System} (fresh : s.Fresh) : s.Once where
  shaped := by simp [fresh.no_task]
  locked := by simp [fresh.no_task]
  prompts := by simp [fresh.no_task]
  claims := by
    rw [fresh.entered]
    apply (@ClaimsOnce.record _ _ _ _ s.shared.processed .nothing (by simp)).congr
    intro index
    simp [System.tickets, fresh.no_task]

/-- In a run of careful steps `execute` is entered at most once for each command. -/
theorem executes_once {start finish : System} (fresh : start.Fresh)
    (runs : Reaches System.step (fun s action => s.careful action = true) start finish) :
    finish.shared.entered.Nodup :=
  (runs.keeps fresh.once fun _ action _ once careful stepped =>
    once.step action careful stepped).claims.once

/-! ## Two passes over one control command -/

def prompted : Reply :=
  { ok := true, nowMs := 2000, landed := none, outcome := .ok (.applied, none), pick := 0 }

/-- A chat whose ledger holds one pending interrupt. -/
def interrupted : System :=
  { shared := { commands := [interruptEntry "i1" 1000 none], messages := [], processed := [],
                executing := [], promptLock := none, entered := [], applied := [], relayed := [],
                outcomes := [] },
    tasks := [] }

theorem interrupted_fresh : interrupted.Fresh := ⟨rfl, rfl, rfl, rfl, rfl⟩

/-- The second pass evaluates the command before the first marks it, and claims it once
the first has let go of it. -/
def overlappingPasses : List Action :=
  [.drain true, .drain true] ++ List.replicate 8 (.advance 1 prompted) ++
    List.replicate 14 (.advance 0 prompted) ++ List.replicate 3 (.advance 1 prompted)

theorem overlapping_passes_execute_twice :
    ∃ finish, Reaches System.step (fun _ _ => True) interrupted finish ∧
      ¬ finish.shared.entered.Nodup := by
  have ran : ((runAll System.step (fun _ _ => true) interrupted overlappingPasses).map
      fun finish => finish.shared.entered) = some ["i1", "i1"] := by decide
  obtain ⟨finish, ran, entered⟩ := Option.map_eq_some_iff.mp ran
  refine ⟨finish, (reaches_of_runAll ran).mono (fun _ _ _ => trivial), ?_⟩
  rw [entered]
  decide

/-- One pass alone is careful up to the execution it enters. -/
theorem executes_once_in_turn :
    ∃ finish, Reaches System.step (fun s action => s.careful action = true) interrupted finish ∧
      finish.shared.entered = ["i1"] ∧ finish.shared.entered.Nodup := by
  have ran : ((runAll System.step System.careful interrupted
      (.drain true :: List.replicate 11 (.advance 0 prompted))).map
      fun finish => finish.shared.entered) = some ["i1"] := by decide
  obtain ⟨finish, ran, entered⟩ := Option.map_eq_some_iff.mp ran
  have runs := reaches_of_runAll ran
  exact ⟨finish, runs, entered, executes_once interrupted_fresh runs⟩

end Zeron.Command
