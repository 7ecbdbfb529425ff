import Zeron.Diff.Tasks

namespace Zeron.Diff

open Zeron.Data

/-! # Kicks and skipped kicks

A kick that no sync has answered is in the channel, in the hands of the task, or
in the flag of an orphaned entry, where the pass that finds the chats back reads
it.  The flag is of no use once that pass has read it.
-/

namespace Engine

/-- The pass has taken the mark of the entry and reads its flag next. -/
def clearing (engine : Engine) (entry : Nat) : Bool :=
  match engine.pass.map Pass.stage with
  | some (.cleared cleared _ _) => cleared = entry
  | _ => false

/-- The pass has found the flag set and kicks the entry next. -/
def catchingUp (engine : Engine) (entry : Nat) : Bool :=
  match engine.pass.map Pass.stage with
  | some (.catchingUp kicked _ _) => kicked = entry
  | _ => false

/-- Nothing is lost: the idle tasks of tracked checkouts have answered the last kick. -/
def Answered (engine : Engine) : Prop :=
  ∀ id entry, (id, entry) ∈ engine.entries → (engine.arena entry).orphanedSince = none →
    (engine.arena entry).task = .waiting → (engine.arena entry).kicks = 0 →
    engine.clearing entry = false → engine.catchingUp entry = false →
    (engine.arena entry).synced = true

/-- The flag is stored while a pass will still read it, or with a kick on its way. -/
def flagsInTime (engine : Engine) : Action → Prop
  | .task entry => (engine.arena entry).task = .skipping →
      (engine.arena entry).orphanedSince.isSome ∨ engine.clearing entry = true ∨
        engine.catchingUp entry = true ∨ 0 < (engine.arena entry).kicks
  | _ => True

end Engine

/-- Where a kick may be that no sync has answered. -/
def CheckoutEntry.Coming (held : CheckoutEntry) (clearing catchingUp : Bool) : Prop :=
  held.synced = true ∨ 0 < held.kicks ∨ held.task = .debouncing ∨ held.task = .settled ∨
    held.task = .skipping ∨ held.task = .ended ∨ catchingUp = true ∨
    held.skippedWhileOrphaned = true ∧ (held.orphanedSince.isSome ∨ clearing = true)

namespace Engine

def Kept (engine : Engine) : Prop :=
  ∀ entry, (engine.arena entry).Coming (engine.clearing entry) (engine.catchingUp entry)

variable {engine after : Engine} {entry : Nat} {syncer : Syncer}

theorem Kept.update (kept : engine.Kept) (entry : Nat) (change : CheckoutEntry → CheckoutEntry)
    (coming : (engine.arena entry).Coming (engine.clearing entry) (engine.catchingUp entry) →
      (change (engine.arena entry)).Coming (engine.clearing entry) (engine.catchingUp entry)) :
    (engine.update entry change).Kept := by
  intro other
  rw [arena_update]
  split
  · rename_i same
    subst same
    exact coming (kept other)
  · exact kept other

theorem Kept.kick (kept : engine.Kept) (entry : Nat) : (engine.kick entry).Kept :=
  kept.update _ _ fun _ => .inr (.inl (Nat.succ_pos _))

theorem Kept.receive (kept : engine.Kept) :
    (engine.update entry fun held =>
      { held with kicks := held.kicks - 1, task := .debouncing }).Kept :=
  kept.update _ _ fun _ => by simp [CheckoutEntry.Coming]

theorem Kept.taskStep (kept : engine.Kept) (inTime : engine.flagsInTime (.task entry))
    (stepped : engine.taskStep entry = some after) : after.Kept := by
  unfold Engine.taskStep at stepped
  cases task : (engine.arena entry).task <;> simp only [task] at stepped
  case waiting | debouncing =>
    split at stepped
    · cases stepped
    · cases stepped
      exact kept.receive
  case settled =>
    split at stepped
    · cases stepped
      exact kept.update _ _ fun _ => by simp [CheckoutEntry.Coming]
    · cases stepped
      have started := kept.update entry (fun held => { held with task := .syncing, synced := true })
        fun _ => by simp [CheckoutEntry.Coming]
      exact started
  case skipping =>
    cases stepped
    apply kept.update
    intro _
    have stored := inTime task
    simp only [CheckoutEntry.Coming]
    tauto
  case syncing | ended => cases stepped

theorem Kept.mono {other : Engine} (kept : other.Kept) (arena : engine.arena = other.arena)
    (clears : ∀ entry, other.clearing entry = true → engine.clearing entry = true)
    (kicks : ∀ entry, other.catchingUp entry = true → engine.catchingUp entry = true) :
    engine.Kept := by
  intro entry
  have was := kept entry
  have clears := clears entry
  have kicks := kicks entry
  rw [arena]
  unfold CheckoutEntry.Coming at was ⊢
  tauto

theorem Kept.congr {other : Engine} (kept : other.Kept) (arena : engine.arena = other.arena)
    (pass : engine.pass = other.pass) : engine.Kept := by
  apply kept.mono arena <;> intro entry <;> simp [clearing, catchingUp, pass]

/-- A sync ends where its task was at work. -/
theorem Kept.finish (kept : engine.Kept) (sound : engine.Sound) {sync : Sync}
    (running : engine.syncs syncer = some sync) : (engine.finish syncer sync).Kept := by
  cases syncer with
  | discard _ => exact kept.congr rfl rfl
  | task entry =>
      obtain ⟨task, _⟩ := sound.running entry sync running
      have ended := kept.update entry (fun held => { held with task := .waiting })
        fun coming => by
          simp only [CheckoutEntry.Coming, task] at coming ⊢
          simpa using coming
      exact ended.congr rfl rfl

theorem Kept.syncStep (kept : engine.Kept) (sound : engine.Sound)
    {captured : Option DiffSnapshot} {posted : Bool}
    (stepped : engine.syncStep syncer captured posted = some after) : after.Kept := by
  obtain ⟨sync, running, pass, _, _, moves⟩ := syncStep_moves stepped
  cases moves with
  | goesOn stage arena _ => exact kept.congr arena pass
  | starts arena _ =>
      have started := kept.update sync.entry (fun held => { held with synced := true }) fun _ => .inl rfl
      exact started.congr arena pass
  | stores snapshot arena _ =>
      have stored := kept.update sync.entry
        (fun held => { held with checksum := some snapshot.checksum }) fun coming => coming
      exact stored.congr arena pass
  | ends arena _ =>
      refine (kept.finish sound running).congr arena (pass.trans ?_)
      exact (finish_frame engine syncer sync).1.symm
  | kicks arena _ => exact (kept.kick sync.entry).congr arena pass

/-- No pass is at the flag or the kick of an entry. -/
def Idle (engine : Engine) : Prop :=
  ∀ entry, engine.clearing entry = false ∧ engine.catchingUp entry = false

/-- Wherever an idle pass goes on to, it takes nothing with it. -/
theorem Kept.goOn (kept : engine.Kept) (idle : engine.Idle) (same : after.arena = engine.arena) :
    after.Kept := by
  apply kept.mono same
  · intro entry clears
    rw [(idle entry).1] at clears
    cases clears
  · intro entry kicks
    rw [(idle entry).2] at kicks
    cases kicks

/-- The mark is taken where the flag is read next. -/
theorem Kept.takeMark (kept : engine.Kept) (idle : engine.Idle) (entry : Nat)
    (same : after.arena =
      (engine.update entry fun held => { held with orphanedSince := none }).arena)
    (clears : after.clearing entry = true) : after.Kept := by
  intro other
  have was := kept other
  rw [(idle other).1, (idle other).2] at was
  rw [same, arena_update]
  split
  · rename_i here
    subst here
    rw [clears]
    simp only [CheckoutEntry.Coming, Bool.false_eq_true, or_false, false_or, or_true,
      and_true] at was ⊢
    grind
  · unfold CheckoutEntry.Coming at was ⊢
    grind

/-- A flag that is read is the kick the pass makes next. -/
theorem Kept.readFlag (kept : engine.Kept) (entry : Nat)
    (same : after.arena =
      (engine.update entry fun held => { held with skippedWhileOrphaned := false }).arena)
    (only : ∀ other, other ≠ entry →
      engine.clearing other = false ∧ engine.catchingUp other = false)
    (kicks : after.catchingUp entry = true) : after.Kept := by
  intro other
  rw [same, arena_update]
  split
  · rename_i here
    subst here
    rw [kicks]
    simp [CheckoutEntry.Coming]
  · rename_i apart
    have was := kept other
    rw [(only other apart).1, (only other apart).2] at was
    unfold CheckoutEntry.Coming at was ⊢
    grind

/-- Without the flag of its entry, or after its kick, the pass leaves nothing behind. -/
theorem Kept.leave (kept : engine.Kept) (entry : Nat) (same : after.arena = engine.arena)
    (only : ∀ other, other ≠ entry →
      engine.clearing other = false ∧ engine.catchingUp other = false)
    (here : (engine.arena entry).Coming false false) : after.Kept := by
  intro other
  rw [same]
  have coming : (engine.arena other).Coming false false := by
    by_cases own : other = entry
    · rwa [own]
    · have was := kept other
      rwa [(only other own).1, (only other own).2] at was
  unfold CheckoutEntry.Coming at coming ⊢
  grind

theorem Kept.passStep {grace : Nat} {order : List (String × Nat)} (kept : engine.Kept)
    (stepped : engine.passStep grace order = some after) : after.Kept := by
  unfold Engine.passStep at stepped
  cases begun : engine.pass with
  | none => simp [begun] at stepped
  | some pass =>
      obtain ⟨groups, archived, now, stage⟩ := pass
      simp only [begun] at stepped
      have idleAt : (∀ entry left removed, stage ≠ .cleared entry left removed ∧
          stage ≠ .catchingUp entry left removed) → engine.Idle := by
        intro apart entry
        unfold clearing catchingUp
        rw [begun, Option.map_some]
        cases stage <;> simp_all
      cases stage <;> try dsimp only at stepped
      case cleared entry left removed =>
        have only : ∀ other, other ≠ entry →
            engine.clearing other = false ∧ engine.catchingUp other = false := by
          intro other apart
          simp [clearing, catchingUp, begun, Ne.symm apart]
        split at stepped
        · cases stepped
          exact kept.readFlag entry rfl only (by simp [catchingUp])
        · rename_i clear
          cases stepped
          refine kept.leave entry rfl only ?_
          have was := kept entry
          have idle : engine.catchingUp entry = false := by simp [catchingUp, begun]
          rw [idle] at was
          unfold CheckoutEntry.Coming at was ⊢
          grind
      case catchingUp entry left removed =>
        cases stepped
        refine (kept.kick entry).leave entry rfl ?_ (.inr (.inl ?_))
        · intro other apart
          change engine.clearing other = false ∧ engine.catchingUp other = false
          simp [clearing, catchingUp, begun, Ne.symm apart]
        · simp [arena_kick]
      all_goals have idle : engine.Idle := idleAt (by simp)
      case grouped =>
        split at stepped
        · cases stepped
          exact kept.goOn idle rfl
        · cases stepped
      case visiting left removed =>
        cases left with
        | nil =>
            cases stepped
            exact kept.goOn idle rfl
        | cons next left =>
            obtain ⟨checkoutId, entry⟩ := next
            dsimp only at stepped
            split at stepped
            · split at stepped
              · cases stepped
                exact kept.takeMark idle entry rfl (by simp [clearing])
              · cases stepped
                exact kept.goOn idle rfl
            · split at stepped
              · cases stepped
                exact kept.goOn idle rfl
              · split at stepped
                · cases stepped
                  have marked := kept.update entry
                    (fun held => { held with orphanedSince := some now }) fun coming => by
                      unfold CheckoutEntry.Coming at coming ⊢
                      grind
                  exact marked.goOn idle rfl
                · cases stepped
                  exact kept.goOn idle rfl
      case removed | sampled _ | diffsPublished | statusesSampled _ =>
        cases stepped
        exact kept.goOn idle rfl
      case updating left =>
        cases left with
        | nil =>
            cases stepped
            exact kept.goOn idle rfl
        | cons group left =>
            obtain ⟨checkoutId, chats⟩ := group
            dsimp only at stepped
            split at stepped
            · rename_i entry found
              cases stepped
              have joined := kept.update entry (fun held => { held with chats }) fun coming => coming
              exact joined.goOn idle rfl
            · cases stepped
              have joined := kept.update engine.created (fun _ => { checkout := checkoutId, chats })
                fun _ => .inl rfl
              exact joined.goOn idle rfl
      case joining entry left =>
        cases stepped
        exact (kept.kick entry).goOn idle rfl

/-! ## Runs -/

theorem Kept.step {grace : Nat} {action : Action} (kept : engine.Kept) (sound : engine.Sound)
    (inTime : engine.flagsInTime action) (stepped : engine.step grace action = some after) :
    after.Kept := by
  cases action <;> simp only [Engine.step] at stepped
  case kick entry =>
    split at stepped <;> cases stepped
    exact kept.kick entry
  case task entry => exact kept.taskStep inTime stepped
  case timeout entry =>
    unfold Engine.timeout at stepped
    split at stepped <;> cases stepped
    exact kept.update _ _ fun _ => by simp [CheckoutEntry.Coming]
  case close entry =>
    unfold Engine.close at stepped
    dsimp only at stepped
    split at stepped <;> cases stepped
    exact kept.update _ _ fun _ => by simp [CheckoutEntry.Coming]
  case discard number checkoutId =>
    split at stepped
    · split at stepped <;> cases stepped
      exact kept.congr rfl rfl
    · cases stepped
  case sync syncer captured posted => exact kept.syncStep sound stepped
  case reconcile groups archived now =>
    split at stepped <;> cases stepped
    rename_i free
    have none : engine.pass = none := by simpa using free.1
    exact kept.mono rfl (by simp [clearing, none]) (by simp [catchingUp, none])
  case pass order => exact kept.passStep stepped

theorem Kept.answered (kept : engine.Kept) : engine.Answered := by
  intro id entry _ orphaned task kicks clears returns
  have coming := kept entry
  simpa [CheckoutEntry.Coming, orphaned, task, kicks, clears, returns] using coming

/-- Where flags are stored in time, no refresh is lost. -/
theorem answered_of_flagsInTime (engine : Engine) (grace : Nat)
    (runs : Reaches (Engine.step grace) Engine.flagsInTime {} engine) : engine.Answered := by
  have both : engine.Sound ∧ engine.Kept := by
    apply runs.keeps
    · refine ⟨⟨by intros; contradiction, fun _ _ => rfl⟩, fun entry => ?_⟩
      simp [CheckoutEntry.Coming]
    · intro before action after held inTime stepped
      exact ⟨held.1.step stepped, held.2.step held.1 inTime stepped⟩
  exact both.2.answered

instance (engine : Engine) (action : Action) : Decidable (engine.flagsInTime action) := by
  unfold flagsInTime
  split <;> infer_instance

end Engine

/-! ## A skipped kick -/

def plainSnapshot (patch : String) : DiffSnapshot where
  gitStatus := none
  branch := "main"
  headSha := none
  patch
  files := []
  additions := 0
  deletions := 0
  truncated := false
  checksum := patch

/-- A sync that publishes to one chat, from its capture on. -/
def syncOnce (syncer : Syncer) (patch : String) : List Action :=
  List.replicate 10 (.sync syncer (some (plainSnapshot patch)) true)

/-- A checkout with one chat, synced once and then without its chat. -/
def orphaned : List Action :=
  [.reconcile [("checkout", ["chat"])] [] 0, .pass [], .pass [], .pass [], .pass [], .pass [],
    .task 0, .timeout 0, .task 0] ++ syncOnce (.task 0) "patch" ++
  [.reconcile [] [] 1, .pass [("checkout", 0)], .pass [], .pass [], .pass []]

/-- The chat comes back; the pass takes as many steps as it is given. -/
def returned (steps : Nat) : List Action :=
  .reconcile [("checkout", ["chat"])] [] 2 :: .pass [("checkout", 0)] ::
    List.replicate steps (.pass [])

/-- A kick skipped while the chat was away is made up for. -/
theorem answered_of_flagsInTime_returned : ∃ engine : Engine,
    (engine.entries = [("checkout", 0)] ∧ (engine.arena 0).orphanedSince = none ∧
      (engine.arena 0).task = .waiting ∧ (engine.arena 0).kicks = 0) ∧ engine.Answered := by
  have ran : (runAll (Engine.step 120) (fun engine action => decide (engine.flagsInTime action)) {}
      (orphaned ++ [.kick 0, .task 0, .timeout 0, .task 0, .task 0] ++ returned 6 ++
        [.task 0, .timeout 0, .task 0] ++ (syncOnce (.task 0) "patch").take 3)).map (fun engine =>
      decide (engine.entries = [("checkout", 0)] ∧ (engine.arena 0).orphanedSince = none ∧
        (engine.arena 0).task = .waiting ∧ (engine.arena 0).kicks = 0)) = some true := by
    decide
  obtain ⟨engine, ran, held⟩ := Option.map_eq_some_iff.mp ran
  exact ⟨engine, of_decide_eq_true held, engine.answered_of_flagsInTime 120
    ((reaches_of_runAll ran).mono fun _ _ inTime => of_decide_eq_true inTime)⟩

/-- The pass reads the flag after the task has seen the mark and before it stores the flag. -/
theorem not_answered_of_lateFlag : ∃ engine : Engine,
    Reaches (Engine.step 120) (fun _ _ => True) {} engine ∧ engine.pass.isNone ∧
      ¬ engine.Answered := by
  have ran : (runAll (Engine.step 120) (fun _ _ => true) {}
      (orphaned ++ [.kick 0, .task 0, .timeout 0, .task 0] ++ returned 5 ++ [.task 0])).map
      (fun engine => decide (engine.entries = [("checkout", 0)] ∧
        (engine.arena 0).orphanedSince = none ∧ (engine.arena 0).task = .waiting ∧
        (engine.arena 0).kicks = 0 ∧ engine.clearing 0 = false ∧ engine.catchingUp 0 = false ∧
        engine.pass.isNone ∧ (engine.arena 0).synced = false)) = some true := by
    decide
  obtain ⟨engine, ran, held⟩ := Option.map_eq_some_iff.mp ran
  obtain ⟨entries, orphaned, task, kicks, clears, returns, idle, synced⟩ := of_decide_eq_true held
  refine ⟨engine, (reaches_of_runAll ran).mono fun _ _ _ => trivial, idle, fun answered => ?_⟩
  have tracked : ("checkout", 0) ∈ engine.entries := entries ▸ List.mem_cons_self
  rw [answered "checkout" 0 tracked orphaned task kicks clears returns] at synced
  cases synced

end Zeron.Diff
