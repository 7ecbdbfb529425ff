import Zeron.Harness.Claude

namespace Zeron.Harness

open Zeron.Data
open Zeron.Doc (DoneStatus)

/-! # A subagent keeps one identity

A task is announced under the tool call that spawned it, and later under the calls that wake it.
Its events are to carry the first of these.  Tagged frames and messages find it; a notification
finds it by the task's id alone.
-/

variable {norm : Normalizer} {task tool spawn other : String} {frame : Frame}

/-- A frame as it is normalized. -/
structure Step where
  frame : Frame
  fresh : String
  interrupted : Bool

def Normalizer.next (norm : Normalizer) (step : Step) : Normalizer :=
  (norm.normalize step.fresh step.frame step.interrupted).1

def Normalizer.events (norm : Normalizer) (step : Step) : List AgentEvent :=
  (norm.normalize step.fresh step.frame step.interrupted).2

def Normalizer.after (norm : Normalizer) (steps : List Step) : Normalizer :=
  steps.foldl Normalizer.next norm

/-! ## What a run announces -/

/-- The task and the tool call a frame announces. -/
def announcement (step : Step) : Option (String × String) :=
  match step.frame with
  | .system frame => startedTask frame
  | _ => none

def announcements (steps : List Step) : List (String × String) := steps.filterMap announcement

/-- The spawns a frame calls. -/
def calledSpawns (step : Step) : List String :=
  match step.frame with
  | .assistant frame => if frame.parentToolUseId = none then spawnBlocks frame else []
  | _ => []

/-- The restored call of a task, or the first one it is announced under. -/
def identity (norm : Normalizer) (steps : List Step) (task : String) : Option String :=
  (norm.agentTasks task).or ((announcements steps).lookup task)

/-- The calls of a task. -/
def Known (norm : Normalizer) (steps : List Step) (task tool : String) : Prop :=
  (task, tool) ∈ announcements steps ∨ norm.agentTasks task = some tool

def spawnCalls (norm : Normalizer) (steps : List Step) : List String :=
  norm.agentSpawnTools ++ steps.flatMap calledSpawns

/-! ## What a frame changes -/

theorem enter_agentTasks (norm : Normalizer) (task spawn other : String) :
    (norm.enter task spawn).agentTasks other =
      (norm.agentTasks other).or ([(task, spawn)].lookup other) := by
  rw [Normalizer.enter]
  by_cases same : other = task
  · subst same
    cases held : norm.agentTasks other with
    | some old => simp [held]
    | none => simp [List.lookup]
  · have apart : (other == task) = false := by simpa using same
    cases held : norm.agentTasks task with
    | some old => simp [List.lookup, apart]
    | none => simp [List.lookup, apart, Function.update_of_ne same]

theorem enter_else (norm : Normalizer) (task spawn : String) :
    (norm.enter task spawn).agentToolSpawns = norm.agentToolSpawns ∧
      (norm.enter task spawn).agentSpawnTools = norm.agentSpawnTools := by
  rw [Normalizer.enter]
  split <;> exact ⟨rfl, rfl⟩

/-- A frame that announces nothing leaves the tasks as they are, and adds the spawns it calls. -/
theorem next_of_silent (step : Step) (silent : announcement step = none) :
    (norm.next step).agentTasks = norm.agentTasks ∧
      (norm.next step).agentToolSpawns = norm.agentToolSpawns ∧
      (norm.next step).agentSpawnTools = norm.agentSpawnTools ++ calledSpawns step := by
  obtain ⟨frame, fresh, interrupted⟩ := step
  cases frame with
  | system frame =>
      change startedTask frame = none at silent
      simp only [Normalizer.next, Normalizer.normalize, Normalizer.system, silent, calledSpawns,
        List.append_nil]
      by_cases notified : frame.subtype = "task_notification"
      · simp [notified]
      · by_cases quiet : frame.subtype ≠ "init" ∨ norm.sawInit = true
        · simp [notified, quiet]
        · simp [notified, quiet]
  | assistant frame =>
      simp only [Normalizer.next, Normalizer.normalize, Normalizer.assistant, calledSpawns]
      cases tagged : frame.parentToolUseId with
      | some parent => simp
      | none => simp
  | _ => simp [Normalizer.next, Normalizer.normalize, Normalizer.result, calledSpawns]

theorem next_of_announced (step : Step) (announced : announcement step = some (task, tool)) :
    norm.next step = norm.taskStarted task tool ∧ calledSpawns step = [] := by
  obtain ⟨frame, fresh, interrupted⟩ := step
  cases frame with
  | system frame =>
      change startedTask frame = some (task, tool) at announced
      have started : frame.subtype = "task_started" := by
        rw [startedTask] at announced
        split at announced
        · rename_i both
          exact both.1
        · cases announced
      have apart : frame.subtype ≠ "task_notification" := by
        rw [started]
        decide
      refine ⟨?_, rfl⟩
      change (norm.system frame).1 = _
      rw [Normalizer.system, if_neg apart, announced]
  | _ => cases announced

/-! ## What holds in every run -/

/-- The maps say what was announced. -/
structure Tracks (norm : Normalizer) (steps : List Step) (now : Normalizer) : Prop where
  tasks : ∀ task, now.agentTasks task = identity norm steps task
  woken : ∀ tool, (now.agentToolSpawns tool = none ∧ ∀ task, (task, tool) ∉ announcements steps) ∨
    ∃ task spawn, (task, tool) ∈ announcements steps ∧ now.agentToolSpawns tool = some spawn ∧
      now.agentTasks task = some spawn
  spawns : ∀ call, call ∈ now.agentSpawnTools ↔
    call ∈ spawnCalls norm steps ∨ ∃ task, now.agentTasks task = some call

/-- Before the first frame nothing was woken, and the spawns of known tasks are known. -/
structure Fresh (norm : Normalizer) : Prop where
  unwoken : ∀ tool, norm.agentToolSpawns tool = none
  named : "" ∉ norm.agentSpawnTools
  spawns : ∀ task call, norm.agentTasks task = some call → call ∈ norm.agentSpawnTools

theorem Fresh.tracks (start : Fresh norm) : Tracks norm [] norm where
  tasks task := by simp [identity, announcements]
  woken tool := .inl ⟨start.unwoken tool, by simp [announcements]⟩
  spawns call := by
    constructor
    · intro member
      exact .inl (by simpa [spawnCalls] using member)
    · rintro (called | ⟨task, held⟩)
      · simpa [spawnCalls] using called
      · exact start.spawns task call held

theorem announcements_concat (steps : List Step) (step : Step) :
    announcements (steps ++ [step]) = announcements steps ++ (announcement step).toList := by
  rw [announcements, List.filterMap_append]
  cases found : announcement step <;> simp [announcements, found]

theorem spawnCalls_concat (norm : Normalizer) (steps : List Step) (step : Step) :
    spawnCalls norm (steps ++ [step]) = spawnCalls norm steps ++ calledSpawns step := by
  simp [spawnCalls, List.append_assoc]

theorem identity_concat (norm : Normalizer) (steps : List Step) (step : Step) (task : String) :
    identity norm (steps ++ [step]) task =
      (identity norm steps task).or ((announcement step).toList.lookup task) := by
  rw [identity, identity, announcements_concat, List.lookup_append, Option.or_assoc]

theorem Tracks.next {now : Normalizer} {steps : List Step} (tracks : Tracks norm steps now)
    (step : Step) : Tracks norm (steps ++ [step]) (now.next step) := by
  cases found : announcement step with
  | none =>
      obtain ⟨tasks, woken, spawns⟩ := @next_of_silent now step found
      have same : announcements (steps ++ [step]) = announcements steps := by
        rw [announcements_concat, found]
        simp
      constructor
      · intro task
        rw [tasks, tracks.tasks, identity_concat, found]
        simp
      · intro tool
        rw [woken, tasks, same]
        exact tracks.woken tool
      · intro call
        rw [spawns, tasks, spawnCalls_concat, List.mem_append, List.mem_append, tracks.spawns]
        tauto
  | some pair =>
      obtain ⟨task, tool⟩ := pair
      obtain ⟨started, uncalled⟩ := @next_of_announced now _ _ step found
      have entered := enter_agentTasks now task tool
      obtain ⟨sameWoken, sameSpawns⟩ := enter_else now task tool
      have grows : ∀ other call, now.agentTasks other = some call →
          (now.enter task tool).agentTasks other = some call := by
        intro other call held
        rw [entered, held]
        rfl
      obtain ⟨spawn, held⟩ : ∃ spawn, (now.enter task tool).agentTasks task = some spawn := by
        rw [entered]
        cases old : now.agentTasks task <;> simp [List.lookup]
      have shape : now.taskStarted task tool = { now.enter task tool with
          agentSpawnTools := now.agentSpawnTools ++ [spawn]
          agentToolSpawns := Function.update now.agentToolSpawns tool (some spawn) } := by
        rw [Normalizer.taskStarted, held, sameWoken, sameSpawns]
        rfl
      have more : announcements (steps ++ [step]) = announcements steps ++ [(task, tool)] := by
        rw [announcements_concat, found]
        rfl
      rw [started, shape]
      constructor
      · intro other
        change (now.enter task tool).agentTasks other = _
        rw [entered, tracks.tasks, identity_concat, found]
        rfl
      · intro other
        rw [more]
        change (Function.update now.agentToolSpawns tool (some spawn) other = none ∧ _) ∨
          ∃ named call, _ ∧ Function.update now.agentToolSpawns tool (some spawn) other = some call ∧
            (now.enter task tool).agentTasks named = some call
        by_cases same : other = tool
        · subst same
          exact .inr ⟨task, spawn, by simp, by simp, held⟩
        · rw [Function.update_of_ne same]
          rcases tracks.woken other with ⟨unwoken, absent⟩ | ⟨held_task, held_spawn, listed, woken, kept⟩
          · refine .inl ⟨unwoken, fun other_task member => ?_⟩
            rcases List.mem_append.mp member with early | late
            · exact absent other_task early
            · simp only [List.mem_singleton, Prod.mk.injEq] at late
              exact same late.2
          · exact .inr ⟨held_task, held_spawn, List.mem_append_left _ listed, woken,
              grows _ _ kept⟩
      · intro call
        change call ∈ now.agentSpawnTools ++ [spawn] ↔
          _ ∨ ∃ other, (now.enter task tool).agentTasks other = some call
        rw [List.mem_append, List.mem_singleton, tracks.spawns, spawnCalls_concat, uncalled,
          List.append_nil]
        constructor
        · rintro ((called | ⟨other, kept⟩) | rfl)
          · exact .inl called
          · exact .inr ⟨other, grows _ _ kept⟩
          · exact .inr ⟨task, held⟩
        · rintro (called | ⟨other, kept⟩)
          · exact .inl (.inl called)
          · by_cases same : other = task
            · subst same
              rw [held] at kept
              cases kept
              exact .inr rfl
            · rw [entered, List.lookup, show (other == task) = false by simpa using same] at kept
              exact .inl (.inr ⟨other, by simpa using kept⟩)

/-- A run tracks what it announced. -/
theorem Fresh.tracks_after (start : Fresh norm) (steps : List Step) :
    Tracks norm steps (norm.after steps) := by
  induction steps using List.reverseRecOn with
  | nil => exact start.tracks
  | append_singleton steps step ih =>
      have stepped := ih.next step
      rw [Normalizer.after, List.foldl_concat]
      exact stepped

/-! ## Restored runs -/

theorem nonempty_ne {text : Option String} (some : nonempty text = .some tool) : tool ≠ "" := by
  obtain ⟨-, kept⟩ := Option.filter_eq_some_iff.mp some
  simpa using kept

theorem fresh_new (fresh : String) : Fresh (Normalizer.new fresh) where
  unwoken _ := rfl
  named member := by cases member
  spawns _ _ held := by cases held

theorem Fresh.enter (start : Fresh norm) (known : spawn ∈ norm.agentSpawnTools) :
    Fresh (norm.enter task spawn) := by
  obtain ⟨woken, spawns⟩ := enter_else norm task spawn
  constructor
  · rw [woken]
    exact start.unwoken
  · rw [spawns]
    exact start.named
  · intro other call held
    rw [spawns]
    rw [enter_agentTasks] at held
    cases old : norm.agentTasks other with
    | some kept =>
        rw [old] at held
        cases held
        exact start.spawns other _ old
    | none =>
        rw [old, Option.none_or] at held
        by_cases same : (other == task) = true
        · simp only [List.lookup, same] at held
          cases held
          exact known
        · simp [List.lookup, same] at held

theorem Fresh.restoreRecord (start : Fresh norm) (record : Json) :
    Fresh (norm.restoreRecord record) := by
  rw [Normalizer.restoreRecord]
  split
  · exact start
  · split
    · exact start
    · split
      · refine ⟨start.unwoken, ?_, fun task call held =>
          List.mem_append_left _ (start.spawns task call held)⟩
        intro member
        rcases List.mem_append.mp member with old | new
        · exact start.named old
        · obtain ⟨block, -, made⟩ := List.mem_filterMap.mp new
          split at made
          · exact absurd rfl (nonempty_ne made)
          · cases made
      · dsimp only
        split
        · rename_i found
          apply start.enter
          have contained := List.find?_some found
          simpa using contained
        · exact start
      · exact start

theorem Fresh.restoreLine (start : Fresh norm) (parse : String → Option Json) (line : List UInt8) :
    Fresh (norm.restoreLine parse line) := by
  rw [Normalizer.restoreLine]
  cases fromUtf8 line with
  | none => exact start
  | some text =>
      dsimp only
      split
      · cases parse text with
        | none => exact start
        | some record => exact start.restoreRecord record
      · exact start

theorem fresh_restoreSpawns (fresh : String) (parse : String → Option Json) (sessionId : String)
    (file : Option (List (List UInt8))) :
    Fresh (Normalizer.restoreSpawns fresh parse sessionId file) := by
  rw [Normalizer.restoreSpawns]
  split
  · exact fresh_new fresh
  · induction file.getD [] using List.reverseRecOn with
    | nil => exact fresh_new fresh
    | append_singleton lines line ih =>
        rw [List.foldl_concat]
        exact ih.restoreLine parse line

/-! ## What the events carry -/

def Frame.parent : Frame → Option String
  | .streamEvent frame => frame.parentToolUseId
  | .assistant frame | .user frame => frame.parentToolUseId
  | _ => none

/-- The events of a tagged frame carry the spawn its tag stands for. -/
theorem events_tagged (now : Normalizer) (step : Step) (tagged : step.frame.parent = some tool) :
    ∀ event ∈ now.events step, ∃ inner, event = .subagent (now.spawnOf tool) inner := by
  obtain ⟨frame, fresh, interrupted⟩ := step
  intro event member
  cases frame with
  | streamEvent frame =>
      change frame.parentToolUseId = some tool at tagged
      change event ∈ now.streamEvent frame at member
      rw [Normalizer.streamEvent, tagged] at member
      split at member
      · cases member
      · dsimp only at member
        split at member
        · exact ⟨_, List.mem_singleton.mp member⟩
        · split at member
          · cases member
          · exact ⟨_, List.mem_singleton.mp member⟩
        · cases member
  | assistant frame =>
      change frame.parentToolUseId = some tool at tagged
      simp only [Normalizer.events, Normalizer.normalize, Normalizer.assistant, tagged,
        taggedAssistant, List.mem_append, List.mem_filterMap, Option.mem_toList,
        Option.map_eq_some_iff] at member
      rcases member with ⟨block, -, made⟩ | ⟨code, -, made⟩
      · rw [taggedBlock] at made
        split at made
        · split at made
          · cases made
          · exact ⟨_, (Option.some.inj made).symm⟩
        · exact ⟨_, (Option.some.inj made).symm⟩
        · cases made
      · exact ⟨_, made.symm⟩
  | user frame =>
      change frame.parentToolUseId = some tool at tagged
      simp only [Normalizer.events, Normalizer.normalize, Normalizer.user, tagged] at member
      obtain ⟨inner, -, made⟩ := List.mem_map.mp member
      exact ⟨inner, made.symm⟩
  | _ => cases tagged

/-! ## One identity -/

section identity

variable {steps : List Step} {index : Nat} {step : Step}

/-- A notification names a task by its id or by one of its calls. -/
def Names (norm : Normalizer) (steps : List Step) (frame : SystemFrame) (task : String) : Prop :=
  frame.taskId = some task ∨ ∃ tool, frame.toolUseId = some tool ∧ Known norm steps task tool

def Notifies (step : Step) (frame : SystemFrame) : Prop :=
  step.frame = .system frame ∧ frame.subtype = "task_notification"

/-- A block of the parent's own message sends a text to a task. -/
def Sends (step : Step) (block : ContentBlock) (task text : String) : Prop :=
  ∃ frame, step.frame = .assistant frame ∧ frame.parentToolUseId = none ∧
    block ∈ frame.blocks.filter isToolUse ∧ addressee block = some task ∧
    steerText block = some text

/-- Every call is of one task, and a frame tagged with a call comes after its announcement. -/
structure Orderly (norm : Normalizer) (steps : List Step) : Prop where
  announcedFirst : ∀ index step task tool, steps[index]? = some step →
    step.frame.parent = some tool → Known norm steps task tool →
    Known norm (steps.take index) task tool
  distinct : ∀ task other tool, Known norm steps task tool → Known norm steps other tool →
    task = other

/-- What a frame emits for a task carries its identity. -/
structure KeepsIdentity (norm : Normalizer) (steps : List Step) (index : Nat) (step : Step) :
    Prop where
  tagged : ∀ task tool spawn, step.frame.parent = some tool → Known norm steps task tool →
    identity norm steps task = some spawn →
    ∀ event ∈ (norm.after (steps.take index)).events step, ∃ inner, event = .subagent spawn inner
  steers : ∀ block task text spawn, Sends step block task text →
    identity norm steps task = some spawn →
    (norm.after (steps.take index)).steerOf block = some (.subagent spawn (.userMessage text)) ∧
      .subagent spawn (.userMessage text) ∈ (norm.after (steps.take index)).events step
  settles : ∀ frame status task spawn, Notifies step frame →
    terminalStatus (frame.status.getD "") = some status → Names norm steps frame task →
    identity norm steps task = some spawn →
    (norm.after (steps.take index)).events step = [.subagent spawn (.done status none none none)]
  shells : ∀ frame tool, Notifies step frame →
    (∀ task spawn, identity norm steps task = some spawn → ¬ Names norm steps frame task) →
    frame.toolUseId = some tool → tool ∉ spawnCalls norm steps →
    (norm.after (steps.take index)).events step = []

/-- Messages are sent to tasks known by then, and a terminal notification of a task carries its
id, or no id known by then and the call that spawned it. -/
structure Recognized (norm : Normalizer) (steps : List Step) (index : Nat) (step : Step) :
    Prop where
  steers : ∀ block task text, Sends step block task text → (identity norm steps task).isSome →
    (identity norm (steps.take index) task).isSome
  settles : ∀ frame status task spawn, Notifies step frame →
    terminalStatus (frame.status.getD "") = some status → Names norm steps frame task →
    identity norm steps task = some spawn →
    (frame.taskId = some task ∧ (identity norm (steps.take index) task).isSome) ∨
      (frame.taskId.bind (identity norm (steps.take index)) = none ∧
        frame.toolUseId = some spawn ∧
        (spawn ∈ spawnCalls norm (steps.take index) ∨
          identity norm (steps.take index) task = some spawn))

theorem announcements_take (index : Nat) : announcements (steps.take index) <+: announcements steps :=
  List.IsPrefix.filterMap _ (List.take_prefix index steps)

theorem identity_of_take (early : identity norm (steps.take index) task = some spawn) :
    identity norm steps task = some spawn := by
  obtain ⟨late, whole⟩ := @announcements_take steps index
  rw [identity, ← whole, List.lookup_append, ← Option.or_assoc,
    show (norm.agentTasks task).or _ = _ from early]
  rfl

theorem known_of_take (early : Known norm (steps.take index) task tool) :
    Known norm steps task tool :=
  early.imp_left fun member => (announcements_take index).mem member

theorem known_of_identity (found : identity norm steps task = some spawn) :
    Known norm steps task spawn := by
  rcases Option.or_eq_some_iff.mp found with restored | ⟨-, listed⟩
  · exact .inr restored
  · obtain ⟨before, after, same, -⟩ := List.lookup_eq_some_iff.mp listed
    exact .inl (by simp [same])

theorem Fresh.known_ne_empty (start : Fresh norm) (known : Known norm steps task tool) :
    tool ≠ "" := by
  rcases known with announced | restored
  · obtain ⟨step, -, made⟩ := List.mem_filterMap.mp announced
    rw [announcement] at made
    split at made
    · rw [startedTask] at made
      split at made
      · obtain ⟨named, -, found⟩ := Option.bind_eq_some_iff.mp made
        obtain ⟨call, kept, same⟩ := Option.map_eq_some_iff.mp found
        cases same
        exact nonempty_ne kept
      · cases made
    · cases made
  · rintro rfl
    exact start.named (start.spawns task _ restored)

/-- Where a tag leads once its call is known. -/
theorem Tracks.spawnOf {now : Normalizer} (tracks : Tracks norm (steps.take index) now)
    (orderly : Orderly norm steps) (known : Known norm (steps.take index) task tool)
    (found : identity norm steps task = some spawn) : now.spawnOf tool = spawn := by
  rw [Normalizer.spawnOf]
  rcases tracks.woken tool with ⟨unwoken, unlisted⟩ | ⟨other, call, listed, woken, held⟩
  · rw [unwoken]
    rcases known with announced | restored
    · exact absurd announced (unlisted task)
    · rw [identity, restored] at found
      exact Option.some.inj found
  · rw [woken]
    have same : other = task :=
      orderly.distinct _ _ tool (known_of_take (.inl listed)) (known_of_take known)
    subst same
    rw [tracks.tasks] at held
    rw [identity_of_take held] at found
    exact Option.some.inj found

/-- The spawn a terminal notification settles. -/
def Normalizer.settled (now : Normalizer) (frame : SystemFrame) : Option String :=
  ((frame.taskId.bind now.agentTasks).or (nonempty frame.toolUseId)).filter
    fun parent => decide (parent ∈ now.agentSpawnTools)

theorem events_notification (now : Normalizer) {frame : SystemFrame} {status : DoneStatus}
    (notifies : Notifies step frame) (terminal : terminalStatus (frame.status.getD "") = some status) :
    now.events step = (now.settled frame).toList.map fun parent =>
      AgentEvent.subagent parent (.done status none none none) := by
  obtain ⟨same, subtype⟩ := notifies
  simp only [Normalizer.events, Normalizer.normalize, same, Normalizer.system, subtype, if_true,
    Normalizer.taskNotification, Normalizer.settled]
  cases found : (frame.taskId.bind now.agentTasks).or (nonempty frame.toolUseId) with
  | none => rfl
  | some parent =>
      by_cases known : parent ∈ now.agentSpawnTools
      · simp [terminal, known, Option.filter]
      · simp [known, Option.filter]

/-- A terminal notification settles a task under its identity exactly when it is recognized. -/
theorem settled_iff (tracks : Tracks norm (steps.take index) (norm.after (steps.take index)))
    (start : Fresh norm) (orderly : Orderly norm steps) (frame : SystemFrame)
    (found : identity norm steps task = some spawn) :
    (norm.after (steps.take index)).settled frame = some spawn ↔
      (frame.taskId = some task ∧ (identity norm (steps.take index) task).isSome) ∨
        (frame.taskId.bind (identity norm (steps.take index)) = none ∧
          frame.toolUseId = some spawn ∧
          (spawn ∈ spawnCalls norm (steps.take index) ∨
            identity norm (steps.take index) task = some spawn)) := by
  have known := known_of_identity found
  have holder : ∀ other, identity norm (steps.take index) other = some spawn → other = task :=
    fun other held =>
      orderly.distinct _ _ spawn (known_of_identity (identity_of_take held)) known
  rw [Normalizer.settled, show (norm.after (steps.take index)).agentTasks = _ from funext tracks.tasks,
    Option.filter_eq_some_iff, Option.or_eq_some_iff, decide_eq_true_eq, tracks.spawns]
  constructor
  · rintro ⟨byTask | ⟨unknown, byTool⟩, spawned⟩
    · obtain ⟨other, named, held⟩ := Option.bind_eq_some_iff.mp byTask
      have same := holder other held
      subst same
      exact .inl ⟨named, by simp [held]⟩
    · refine .inr ⟨unknown, (Option.filter_eq_some_iff.mp byTool).1, spawned.imp_right ?_⟩
      rintro ⟨other, held⟩
      rw [tracks.tasks] at held
      have same := holder other held
      subst same
      exact held
  · rintro (⟨named, early⟩ | ⟨unknown, called, spawned⟩)
    · obtain ⟨call, held⟩ := Option.isSome_iff_exists.mp early
      have same := identity_of_take held
      rw [found] at same
      cases same
      exact ⟨.inl (by rw [named]; exact held), .inr ⟨task, by rw [tracks.tasks, held]⟩⟩
    · refine ⟨.inr ⟨unknown, ?_⟩, spawned.imp_right fun held => ⟨task, by rw [tracks.tasks, held]⟩⟩
      exact Option.filter_eq_some_iff.mpr ⟨called, by simpa using start.known_ne_empty known⟩

/-- A message to a task is sent under its identity exactly when the task is known by then. -/
theorem steerOf_iff {now : Normalizer} (tracks : Tracks norm (steps.take index) now)
    {block : ContentBlock} {text : String} (sends : Sends step block task text)
    (found : identity norm steps task = some spawn) :
    (now.steerOf block = some (.subagent spawn (.userMessage text)) ∧
        .subagent spawn (.userMessage text) ∈ now.events step) ↔
      (identity norm (steps.take index) task).isSome := by
  obtain ⟨frame, same, untagged, listed, sent, said⟩ := sends
  have steer : now.steerOf block =
      (identity norm (steps.take index) task).map fun call => .subagent call (.userMessage text) := by
    rw [Normalizer.steerOf, sent, Option.bind_some, tracks.tasks, said]
    cases identity norm (steps.take index) task <;> rfl
  constructor
  · rintro ⟨sending, -⟩
    rw [steer] at sending
    obtain ⟨call, held, -⟩ := Option.map_eq_some_iff.mp sending
    exact Option.isSome_iff_exists.mpr ⟨call, held⟩
  · intro early
    obtain ⟨call, held⟩ := Option.isSome_iff_exists.mp early
    have whole := identity_of_take held
    rw [found] at whole
    cases whole
    have sending : now.steerOf block = some (.subagent spawn (.userMessage text)) := by
      rw [steer, held]
      rfl
    refine ⟨sending, ?_⟩
    simp only [Normalizer.events, Normalizer.normalize, same, Normalizer.assistant, untagged]
    apply List.mem_append_left
    refine List.mem_flatMap.mpr ⟨block, listed, ?_⟩
    apply List.mem_cons_of_mem
    apply List.mem_append_right
    exact Option.mem_toList.mpr sending

/-- A notification of no task, for a call that was never a spawn, settles nothing. -/
theorem events_shell (tracks : Tracks norm (steps.take index) (norm.after (steps.take index)))
    {frame : SystemFrame} (notifies : Notifies step frame)
    (unnamed : ∀ task spawn, identity norm steps task = some spawn → ¬ Names norm steps frame task)
    (called : frame.toolUseId = some tool) (plain : tool ∉ spawnCalls norm steps) :
    (norm.after (steps.take index)).events step = [] := by
  obtain ⟨same, subtype⟩ := notifies
  have unknown : frame.taskId.bind (norm.after (steps.take index)).agentTasks = none := by
    rw [Option.bind_eq_none_iff]
    intro other named
    by_contra held
    obtain ⟨spawn, held⟩ := Option.ne_none_iff_exists'.mp held
    rw [tracks.tasks] at held
    exact unnamed other spawn (identity_of_take held) (.inl named)
  have unspawned : tool ∉ (norm.after (steps.take index)).agentSpawnTools := by
    rw [tracks.spawns]
    rintro (early | ⟨other, held⟩)
    · apply plain
      rw [spawnCalls, List.mem_append, List.mem_flatMap] at early ⊢
      exact early.imp_right fun ⟨earlier, listed, calls⟩ =>
        ⟨earlier, List.mem_of_mem_take listed, calls⟩
    · rw [tracks.tasks] at held
      have whole := identity_of_take held
      exact unnamed other tool whole (.inr ⟨tool, called, known_of_identity whole⟩)
  simp only [Normalizer.events, Normalizer.normalize, same, Normalizer.system, subtype, if_true,
    Normalizer.taskNotification, unknown, Option.none_or, called]
  by_cases blank : tool = ""
  · simp [nonempty, Option.filter, blank]
  · simp [nonempty, Option.filter, blank, unspawned]

/-- Every frame keeps the identities of the tasks exactly when every message and every terminal
notification is recognized. -/
theorem one_identity_iff (fresh : String) (parse : String → Option Json) (sessionId : String)
    (file : Option (List (List UInt8))) (steps : List Step)
    (orderly : Orderly (Normalizer.restoreSpawns fresh parse sessionId file) steps) :
    (∀ index step, steps[index]? = some step →
        KeepsIdentity (Normalizer.restoreSpawns fresh parse sessionId file) steps index step) ↔
      ∀ index step, steps[index]? = some step →
        Recognized (Normalizer.restoreSpawns fresh parse sessionId file) steps index step := by
  have start := fresh_restoreSpawns fresh parse sessionId file
  generalize Normalizer.restoreSpawns fresh parse sessionId file = norm at orderly start ⊢
  have settles : ∀ index step frame status task spawn, Notifies step frame →
      terminalStatus (frame.status.getD "") = some status → identity norm steps task = some spawn →
      ((norm.after (steps.take index)).events step =
          [.subagent spawn (.done status none none none)] ↔
        (norm.after (steps.take index)).settled frame = some spawn) := by
    intro index step frame status task spawn notifies terminal found
    rw [events_notification _ notifies terminal]
    cases (norm.after (steps.take index)).settled frame <;> simp
  constructor
  · intro keeps index step here
    have tracks := start.tracks_after (steps.take index)
    constructor
    · intro block task text sends known
      obtain ⟨spawn, found⟩ := Option.isSome_iff_exists.mp known
      exact (steerOf_iff tracks sends found).mp ((keeps index step here).steers _ _ _ _ sends found)
    · intro frame status task spawn notifies terminal names found
      rw [← settled_iff tracks start orderly frame found,
        ← settles index step frame status task spawn notifies terminal found]
      exact (keeps index step here).settles _ _ _ _ notifies terminal names found
  · intro recognized index step here
    have tracks := start.tracks_after (steps.take index)
    constructor
    · intro task tool spawn tagged known found event member
      have early := orderly.announcedFirst index step task tool here tagged known
      have leads := tracks.spawnOf orderly early found
      obtain ⟨inner, same⟩ := events_tagged _ step tagged event member
      exact ⟨inner, by rw [same, leads]⟩
    · intro block task text spawn sends found
      exact (steerOf_iff tracks sends found).mpr
        ((recognized index step here).steers _ _ _ sends (by simp [found]))
    · intro frame status task spawn notifies terminal names found
      rw [settles index step frame status task spawn notifies terminal found,
        settled_iff tracks start orderly frame found]
      exact (recognized index step here).settles _ _ _ _ notifies terminal names found
    · intro frame tool notifies unnamed called plain
      exact events_shell tracks notifies unnamed called plain

end identity

/-! ## A task that is woken -/

def systemFrame (subtype : String) (toolUseId taskId status subagentType : Option String) : Step where
  frame := .system
    { subtype, model := "", tools := [], cwd := "", sessionId := "", toolUseId, status, taskId,
      subagentType }
  fresh := "m2"
  interrupted := false

/-- A task is spawned and woken by a later call, under which its text arrives. -/
def wokenTask : List Step :=
  [systemFrame "task_started" (some "toolu_spawn") (some "agent") none (some "general"),
    systemFrame "task_started" (some "toolu_send") (some "agent") none (some "general"),
    ⟨.streamEvent ⟨some "toolu_send", "content_block_delta", ⟨"text_delta", "hi", ""⟩⟩, "m2", false⟩]

def noHistory : Normalizer := Normalizer.restoreSpawns "m1" (fun _ => none) "" none

theorem known_wokenTask {steps : List Step}
    (announced : announcements steps = [("agent", "toolu_spawn"), ("agent", "toolu_send")])
    {task tool : String} (known : Known noHistory steps task tool) :
    task = "agent" ∧ (tool = "toolu_spawn" ∨ tool = "toolu_send") := by
  rcases known with listed | restored
  · rw [announced] at listed
    simp only [List.mem_cons, Prod.mk.injEq, List.not_mem_nil, or_false] at listed
    tauto
  · cases restored

theorem orderly_wokenTask (last : Step) (untagged : last.frame.parent = none)
    (silent : announcement last = none) : Orderly noHistory (wokenTask ++ [last]) := by
  have announced : announcements (wokenTask ++ [last]) =
      [("agent", "toolu_spawn"), ("agent", "toolu_send")] := by
    rw [announcements_concat, silent]
    decide
  constructor
  · intro index step task tool here tagged known
    match index with
    | 0 | 1 =>
        cases here
        cases tagged
    | 2 =>
        cases here
        obtain ⟨rfl, -⟩ := known_wokenTask announced known
        cases tagged
        have early : announcements ((wokenTask ++ [last]).take 2) =
            [("agent", "toolu_spawn"), ("agent", "toolu_send")] := rfl
        refine .inl ?_
        rw [early]
        decide
    | 3 =>
        cases here
        rw [untagged] at tagged
        cases tagged
    | index + 4 => cases here
  · intro task other tool left right
    rw [(known_wokenTask announced left).1, (known_wokenTask announced right).1]

def settledById : Step :=
  systemFrame "task_notification" (some "toolu_send") (some "agent") (some "completed") none

def settledByCall : Step :=
  systemFrame "task_notification" (some "toolu_send") none (some "completed") none

theorem one_identity_woken :
    KeepsIdentity noHistory (wokenTask ++ [settledById]) 3 settledById := by
  have orderly := orderly_wokenTask settledById rfl rfl
  refine (one_identity_iff "m1" (fun _ => none) "" none _ orderly).mpr
    (fun index step here => ?_) 3 settledById rfl
  have announced : announcements (wokenTask ++ [settledById]) =
      [("agent", "toolu_spawn"), ("agent", "toolu_send")] := by decide
  constructor
  · rintro block task text ⟨frame, same, -⟩
    match index with
    | 0 | 1 | 2 | 3 =>
        cases here
        cases same
    | index + 4 => cases here
  · intro frame status task spawn notifies terminal names found
    obtain ⟨rfl, -⟩ := known_wokenTask announced (known_of_identity found)
    match index with
    | 0 | 1 =>
        cases here
        obtain ⟨same, subtype⟩ := notifies
        cases same
        exact absurd subtype (by decide)
    | 2 =>
        cases here
        cases notifies.1
    | 3 =>
        cases here
        cases notifies.1
        exact .inl ⟨rfl, by decide⟩
    | index + 4 => cases here

/-- A notification under the call that woke the task does not settle it. -/
theorem not_one_identity :
    ¬ ∀ (fresh : String) (parse : String → Option Json) (sessionId : String)
      (file : Option (List (List UInt8))) (steps : List Step),
      Orderly (Normalizer.restoreSpawns fresh parse sessionId file) steps →
      ∀ index step, steps[index]? = some step →
        KeepsIdentity (Normalizer.restoreSpawns fresh parse sessionId file) steps index step := by
  intro claim
  have orderly := orderly_wokenTask settledByCall rfl rfl
  have keeps := claim "m1" (fun _ => none) "" none _ orderly 3 settledByCall rfl
  have settles := keeps.settles _ .completed "agent" "toolu_spawn" ⟨rfl, rfl⟩ (by decide)
    (.inr ⟨"toolu_send", rfl, .inl (by decide)⟩) (by decide)
  exact absurd settles (by decide)

end Zeron.Harness
