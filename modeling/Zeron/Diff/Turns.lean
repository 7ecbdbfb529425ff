import Zeron.Data.Runs

namespace Zeron.Diff

open Zeron.Data

/-! # Turn snapshots

A turn that starts has the tree of its checkout taken in the background; the task
records it, or removes what is recorded, when it finishes.  Tasks finish in any
order.
-/

/-- A recorded snapshot; `tree` is the object store that holds it. -/
structure TurnSnapshot (tree : Type) where
  root : String
  tree : tree
  takenAt : Int
deriving DecidableEq

inductive TurnStage (tree : Type)
  | resolving
  | snapshotting (root : String)
  | finished (taken : Option (TurnSnapshot tree))
deriving DecidableEq

structure TurnTask (tree : Type) where
  chatId : String
  cwd : String
  stage : TurnStage tree := .resolving
deriving DecidableEq

structure Turns (tree : Type) where
  turnTrees : String → Option (TurnSnapshot tree) := fun _ => none
  /-- One task for every call, in the order of the calls. -/
  tasks : List (TurnTask tree) := []
  /-- The chats that lost a snapshot to a pass and have had none since. -/
  pruned : String → Bool := fun _ => false

inductive TurnAction (tree : Type)
  | noteTurnStart (chatId cwd : String)
  /-- What `checkout_identity` gives: the root, if the folder is in a checkout. -/
  | resolve (task : Nat) (root : Option String)
  /-- What `snapshot_tree` gives. -/
  | snapshot (task : Nat) (taken : Option (tree × Int))
  /-- A pass keeps the snapshots of these chats. -/
  | prune (live : List String)

namespace Turns

variable {tree : Type}

def turnSnapshot (turns : Turns tree) (chatId : String) : Option (TurnSnapshot tree) :=
  turns.turnTrees chatId

def setStage (turns : Turns tree) (task : Nat) (stage : TurnStage tree) : Turns tree :=
  { turns with tasks := turns.tasks.modify task fun held => { held with stage } }

/-- The end of a task: a snapshot is recorded, or what is recorded removed. -/
def finish (turns : Turns tree) (task : Nat) (chatId : String)
    (taken : Option (TurnSnapshot tree)) : Turns tree :=
  { turns.setStage task (.finished taken) with
    turnTrees := Function.update turns.turnTrees chatId taken
    pruned :=
      if taken.isSome then Function.update turns.pruned chatId false else turns.pruned }

/-- What the action makes of a task, if it finishes one. -/
def outcome (turns : Turns tree) : TurnAction tree → Option (Nat × String × Option (TurnSnapshot tree))
  | .noteTurnStart _ _ | .prune _ => none
  | .resolve task root =>
      match turns.tasks[task]?, root with
      | some { chatId, stage := .resolving, .. }, none => some (task, chatId, none)
      | _, _ => none
  | .snapshot task taken =>
      match turns.tasks[task]? with
      | some { chatId, stage := .snapshotting root, .. } =>
          some (task, chatId, taken.map fun (tree, takenAt) => { root, tree, takenAt })
      | _ => none

def step (turns : Turns tree) (action : TurnAction tree) : Option (Turns tree) :=
  match turns.outcome action with
  | some (task, chatId, taken) => some (turns.finish task chatId taken)
  | none =>
      match action with
      | .noteTurnStart chatId cwd => some { turns with tasks := turns.tasks ++ [{ chatId, cwd }] }
      | .resolve task (some root) =>
          match turns.tasks[task]? with
          | some { stage := .resolving, .. } => some (turns.setStage task (.snapshotting root))
          | _ => none
      | .prune live =>
          some { turns with
            turnTrees := fun chatId => if chatId ∈ live then turns.turnTrees chatId else none
            pruned := fun chatId =>
              turns.pruned chatId || decide (chatId ∉ live) && (turns.turnTrees chatId).isSome }
      | _ => none

end Turns

/-- The task of the last call for a chat. -/
def lastCall {tree : Type} (chatId : String) : List (TurnTask tree) → Option (TurnTask tree)
  | [] => none
  | task :: later => (lastCall chatId later).or (if task.chatId = chatId then some task else none)

def TurnStage.isFinished {tree : Type} : TurnStage tree → Bool
  | .finished _ => true
  | _ => false

namespace Turns

variable {tree : Type}

/-- With all its tasks finished, a chat has the snapshot of its last call, or none where that call
took none or a pass has dropped it. -/
def Latest (turns : Turns tree) : Prop :=
  ∀ chatId last, lastCall chatId turns.tasks = some last →
    (∀ task ∈ turns.tasks, task.chatId = chatId → task.stage.isFinished = true) →
    ∃ taken, last.stage = .finished taken ∧ (turns.turnSnapshot chatId = taken ∨
      turns.turnSnapshot chatId = none ∧ turns.pruned chatId = true)

/-- No task finishes after that of the last call, unless there is nothing that it changes. -/
def inOrder (turns : Turns tree) (action : TurnAction tree) : Prop :=
  ∀ number chatId taken, turns.outcome action = some (number, chatId, taken) →
    (∀ last ∈ lastCall chatId turns.tasks, last.stage.isFinished = false) ∨
      taken = none ∧ turns.turnTrees chatId = none

instance [DecidableEq tree] (turns : Turns tree) (action : TurnAction tree) :
    Decidable (turns.inOrder action) :=
  decidable_of_iff (∀ outcome ∈ turns.outcome action,
      (∀ last ∈ lastCall outcome.2.1 turns.tasks, last.stage.isFinished = false) ∨
        outcome.2.2 = none ∧ turns.turnTrees outcome.2.1 = none) <| by
    constructor
    · intro all number chatId taken finishes
      exact all (number, chatId, taken) finishes
    · rintro each ⟨number, chatId, taken⟩ finishes
      exact each number chatId taken finishes

end Turns

variable {tree : Type}

/-! ## The last call -/

theorem lastCall_modify (chatId : String) {tasks : List (TurnTask tree)} {number : Nat}
    {held : TurnTask tree} (stands : tasks[number]? = some held) (stage : TurnStage tree) :
    lastCall chatId (tasks.modify number fun task => { task with stage }) = lastCall chatId tasks ∨
      held.chatId = chatId ∧ lastCall chatId tasks = some held ∧
        lastCall chatId (tasks.modify number fun task => { task with stage }) =
          some { held with stage } := by
  induction tasks generalizing number with
  | nil => cases stands
  | cons task later ih =>
      cases number with
      | zero =>
          obtain rfl : task = held := by simpa using stands
          by_cases here : task.chatId = chatId
          · cases last : lastCall chatId later with
            | none => exact .inr ⟨here, by simp [lastCall, last, here], by simp [lastCall, last, here]⟩
            | some other => exact .inl (by simp [lastCall, last])
          · exact .inl (by simp [lastCall, here])
      | succ number =>
          have stands : later[number]? = some held := by simpa using stands
          rcases ih stands with same | ⟨here, was, now⟩
          · exact .inl (by simp [lastCall, same])
          · exact .inr ⟨here, by simp [lastCall, was], by simp [lastCall, now]⟩

theorem lastCall_append {chatId : String} (tasks : List (TurnTask tree)) (task : TurnTask tree) :
    lastCall chatId (tasks ++ [task]) =
      if task.chatId = chatId then some task else lastCall chatId tasks := by
  induction tasks with
  | nil => simp [lastCall]
  | cons first later ih =>
      simp only [List.cons_append, lastCall, ih]
      split <;> simp

theorem mem_of_lastCall {chatId : String} {tasks : List (TurnTask tree)} {last : TurnTask tree}
    (found : lastCall chatId tasks = some last) : last ∈ tasks ∧ last.chatId = chatId := by
  induction tasks with
  | nil => cases found
  | cons task later ih =>
      rw [lastCall, Option.or_eq_some_iff] at found
      rcases found with inside | ⟨_, here⟩
      · obtain ⟨member, same⟩ := ih inside
        exact ⟨List.mem_cons_of_mem _ member, same⟩
      · obtain ⟨same, equal⟩ := Option.ite_none_right_eq_some.mp here
        cases equal
        exact ⟨List.mem_cons_self, same⟩

/-! ## Runs -/

namespace Turns

/-- What is recorded once the task of the last call has finished. -/
def Recorded (turns : Turns tree) : Prop :=
  ∀ chatId last taken, lastCall chatId turns.tasks = some last → last.stage = .finished taken →
    turns.turnTrees chatId = taken ∨ turns.turnTrees chatId = none ∧ turns.pruned chatId = true

variable {turns after : Turns tree}

/-- The task an action finishes is one that was not. -/
theorem stands_of_outcome {action : TurnAction tree} {number : Nat} {chatId : String}
    {taken : Option (TurnSnapshot tree)}
    (finishes : turns.outcome action = some (number, chatId, taken)) :
    ∃ held, turns.tasks[number]? = some held ∧ held.chatId = chatId ∧
      held.stage.isFinished = false := by
  cases action with
  | noteTurnStart | prune => cases finishes
  | resolve task root =>
      cases stands : turns.tasks[task]? with
      | none => simp [outcome, stands] at finishes
      | some held =>
          obtain ⟨chat, cwd, stage⟩ := held
          cases stage <;> cases root <;> simp [outcome, stands] at finishes
          obtain ⟨rfl, rfl, _⟩ := finishes
          exact ⟨_, stands, rfl, rfl⟩
  | snapshot task result =>
      cases stands : turns.tasks[task]? with
      | none => simp [outcome, stands] at finishes
      | some held =>
          obtain ⟨chat, cwd, stage⟩ := held
          cases stage <;> simp [outcome, stands] at finishes
          obtain ⟨rfl, rfl, _⟩ := finishes
          exact ⟨_, stands, rfl, rfl⟩

theorem Recorded.finish (recorded : turns.Recorded) {number : Nat} {chatId : String}
    {taken : Option (TurnSnapshot tree)} {held : TurnTask tree}
    (stands : turns.tasks[number]? = some held) (own : held.chatId = chatId)
    (late : (∀ last ∈ lastCall chatId turns.tasks, last.stage.isFinished = false) ∨
      taken = none ∧ turns.turnTrees chatId = none) :
    (turns.finish number chatId taken).Recorded := by
  intro other last result found finished
  by_cases here : other = chatId
  · subst here
    rcases lastCall_modify other stands (.finished taken) with same | ⟨_, _, now⟩
    · -- an older call: the last one has not finished, or nothing changes
      have before : lastCall other turns.tasks = some last := same.symm.trans found
      rcases late with unfinished | ⟨rfl, nothing⟩
      · have open_ := unfinished last before
        rw [finished] at open_
        cases open_
      · have was := recorded other last result before finished
        simpa [Turns.finish, nothing] using was
    · have same := now.symm.trans found
      cases same
      cases finished
      exact .inl (Function.update_self ..)
  · have same : lastCall other turns.tasks = some last := by
      rcases lastCall_modify other stands (.finished taken) with same | ⟨mine, _⟩
      · exact same.symm.trans found
      · exact absurd (mine.symm.trans own) here
    have was := recorded other last result same finished
    cases taken <;> simpa [Turns.finish, Function.update_of_ne here] using was

theorem Recorded.prune (recorded : turns.Recorded) (live : List String) :
    ({ turns with
        turnTrees := fun chatId => if chatId ∈ live then turns.turnTrees chatId else none
        pruned := fun chatId =>
          turns.pruned chatId || decide (chatId ∉ live) && (turns.turnTrees chatId).isSome } :
      Turns tree).Recorded := by
  intro chatId last taken found finished
  have was := recorded chatId last taken found finished
  by_cases kept : chatId ∈ live
  · simpa [kept] using was
  · cases held : turns.turnTrees chatId with
    | none => simpa [kept, held] using was
    | some snapshot => exact .inr (by simp [kept, held])

theorem Recorded.step (recorded : turns.Recorded) {action : TurnAction tree}
    (inOrder : turns.inOrder action) (stepped : turns.step action = some after) : after.Recorded := by
  unfold Turns.step at stepped
  cases finishes : turns.outcome action with
  | some outcome =>
      obtain ⟨number, chatId, taken⟩ := outcome
      simp only [finishes] at stepped
      cases stepped
      obtain ⟨held, stands, own, _⟩ := stands_of_outcome finishes
      exact recorded.finish stands own (inOrder number chatId taken finishes)
  | none =>
      simp only [finishes] at stepped
      cases action with
      | noteTurnStart chatId cwd =>
          cases stepped
          intro other last taken found finished
          rw [lastCall_append] at found
          split at found
          · cases found
            cases finished
          · exact recorded other last taken found finished
      | resolve task root =>
          cases root with
          | none => cases stepped
          | some root =>
              simp only at stepped
              split at stepped
              · rename_i stands
                cases stepped
                intro other last taken found finished
                rcases lastCall_modify _ stands (.snapshotting root) with same | ⟨_, _, now⟩
                · exact recorded other last taken (same.symm.trans found) finished
                · cases now.symm.trans found
                  cases finished
              · cases stepped
      | snapshot => cases stepped
      | prune live =>
          cases stepped
          exact recorded.prune live

theorem Recorded.latest (recorded : turns.Recorded) : turns.Latest := by
  intro chatId last found all
  obtain ⟨member, own⟩ := mem_of_lastCall found
  have finished := all last member own
  cases stage : last.stage with
  | finished taken => exact ⟨taken, rfl, recorded chatId last taken found stage⟩
  | resolving | snapshotting => simp [stage, TurnStage.isFinished] at finished

/-- Where tasks finish in the order of their calls, the snapshot is that of the last turn. -/
theorem latest_of_inOrder (turns : Turns tree) (runs : Reaches step inOrder {} turns) :
    turns.Latest := by
  apply Recorded.latest
  apply runs.keeps
  · nofun
  · intro before action after recorded inOrder stepped
    exact recorded.step inOrder stepped

/-- Two turns whose snapshots are taken one after the other. -/
theorem latest_of_inOrder_twice : ∃ turns : Turns Nat,
    turns.turnSnapshot "chat" = some ⟨"root", 2, 20⟩ ∧ turns.Latest := by
  have ran : (runAll step (fun turns action => decide (turns.inOrder action)) ({} : Turns Nat)
      [.noteTurnStart "chat" "folder", .resolve 0 (some "root"), .noteTurnStart "chat" "folder",
        .snapshot 0 (some (1, 10)), .resolve 1 (some "root"), .snapshot 1 (some (2, 20))]).map
      (·.turnSnapshot "chat") = some (some ⟨"root", 2, 20⟩) := by
    decide
  obtain ⟨turns, ran, held⟩ := Option.map_eq_some_iff.mp ran
  exact ⟨turns, held, turns.latest_of_inOrder
    ((reaches_of_runAll ran).mono fun _ _ inOrder => of_decide_eq_true inOrder)⟩

/-- The first of two snapshots is slow, and takes the place of the second. -/
theorem not_latest_of_late : ∃ turns : Turns Nat,
    Reaches step (fun _ _ => True) {} turns ∧ ¬ turns.Latest := by
  have ran : (runAll step (fun _ _ => true) ({} : Turns Nat)
      [.noteTurnStart "chat" "folder", .resolve 0 (some "root"), .noteTurnStart "chat" "folder",
        .resolve 1 (some "root"), .snapshot 1 (some (2, 20)), .snapshot 0 (some (1, 10))]).map
      (fun turns => (turns.turnSnapshot "chat", turns.tasks)) =
        some (some ⟨"root", 1, 10⟩, [⟨"chat", "folder", .finished (some ⟨"root", 1, 10⟩)⟩,
          ⟨"chat", "folder", .finished (some ⟨"root", 2, 20⟩)⟩]) := by
    decide
  obtain ⟨turns, ran, held⟩ := Option.map_eq_some_iff.mp ran
  obtain ⟨snapshot, tasks⟩ := Prod.mk.inj held
  refine ⟨turns, (reaches_of_runAll ran).mono fun _ _ _ => trivial, fun latest => ?_⟩
  obtain ⟨taken, finished, same⟩ := latest "chat" ⟨"chat", "folder", .finished (some ⟨"root", 2, 20⟩)⟩
    (by rw [tasks]; rfl) (by simp [tasks, TurnStage.isFinished])
  cases finished
  simp [snapshot] at same

end Turns

end Zeron.Diff
