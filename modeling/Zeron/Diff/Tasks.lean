import Zeron.Diff.Engine

namespace Zeron.Diff

/-! # Tasks and their syncs

What the steps of a sync do to the entries; and a task with a sync of its own is
at work on it.
-/

namespace Engine

section

variable (engine : Engine) (entry other : Nat) (change : CheckoutEntry → CheckoutEntry)
  (syncer : Syncer) (sync : Option Sync)

theorem arena_update : (engine.update entry change).arena other =
    if other = entry then change (engine.arena entry) else engine.arena other :=
  Function.update_apply ..

theorem arena_kick : (engine.kick entry).arena other =
    if other = entry then
      { engine.arena entry with kicks := (engine.arena entry).kicks + 1, synced := false }
    else engine.arena other :=
  Function.update_apply ..

@[simp] theorem setSync_arena : (engine.setSync syncer sync).arena = engine.arena := rfl

end

variable {engine after : Engine} {entry : Nat} {syncer : Syncer}

theorem publishStatus_frame (engine : Engine) (checkoutId : String) (files : List Git.GitFileStatus)
    (complete : Bool) :
    engine.publishStatus checkoutId files complete =
      { engine with statuses := (engine.publishStatus checkoutId files complete).statuses } := by
  unfold Engine.publishStatus
  split <;> rfl

theorem finish_frame (engine : Engine) (syncer : Syncer) (sync : Sync) :
    (engine.finish syncer sync).pass = engine.pass ∧
      (engine.finish syncer sync).entries = engine.entries ∧
      (engine.finish syncer sync).created = engine.created := by
  cases syncer <;> exact ⟨rfl, rfl, rfl⟩

/-- What a step of a sync does to the entries and to itself. -/
inductive Moves (engine : Engine) (syncer : Syncer) (sync : Sync) (after : Engine) : Prop
  | goesOn (stage : SyncStage) (arena : after.arena = engine.arena)
      (syncs : after.syncs = (engine.setSync syncer (some { sync with stage })).syncs)
  | starts
      (arena : after.arena = (engine.update sync.entry fun held => { held with synced := true }).arena)
      (syncs : after.syncs = (engine.setSync syncer (some { sync with stage := .capturing })).syncs)
  | stores (snapshot : DiffSnapshot)
      (arena : after.arena = (engine.update sync.entry fun held =>
        { held with checksum := some snapshot.checksum }).arena)
      (syncs : after.syncs =
        (engine.setSync syncer (some { sync with stage := .checking snapshot })).syncs)
  | ends (arena : after.arena = (engine.finish syncer sync).arena)
      (syncs : after.syncs = (engine.finish syncer sync).syncs)
  | kicks (arena : after.arena = (engine.kick sync.entry).arena)
      (syncs : after.syncs = (engine.setSync syncer none).syncs)

theorem syncStep_moves {captured : Option DiffSnapshot} {posted : Bool}
    (stepped : engine.syncStep syncer captured posted = some after) :
    ∃ sync, engine.syncs syncer = some sync ∧ after.pass = engine.pass ∧
      after.entries = engine.entries ∧ after.created = engine.created ∧
      engine.Moves syncer sync after := by
  unfold Engine.syncStep at stepped
  cases running : engine.syncs syncer with
  | none => simp [running] at stepped
  | some sync =>
      obtain ⟨held, stage⟩ := sync
      simp only [running] at stepped
      refine ⟨⟨held, stage⟩, rfl, ?_⟩
      cases stage <;> try dsimp only at stepped
      case discarding =>
          cases syncer with
          | task entry => simp at stepped
          | discard number =>
              cases free : engine.discardLock with
              | some holder => simp [free] at stepped
              | none =>
                  simp only [free, Option.some.injEq] at stepped
                  cases stepped
                  exact ⟨rfl, rfl, rfl, .starts rfl rfl⟩
      case capturing =>
          cases captured <;> cases stepped <;> exact ⟨rfl, rfl, rfl, .goesOn _ rfl rfl⟩
      case failed =>
          split at stepped
          · cases stepped
            rw [publishStatus_frame]
            obtain ⟨pass, entries, created⟩ := finish_frame { engine with
              statuses := (engine.publishStatus (engine.arena held).checkout [] false).statuses }
              syncer ⟨held, .failed⟩
            cases syncer <;> exact ⟨pass, entries, created, .ends rfl rfl⟩
          · cases stepped
      case captured snapshot =>
          split at stepped
          · cases stepped
            exact ⟨rfl, rfl, rfl, .goesOn _ rfl rfl⟩
          · split at stepped
            · cases stepped
              rw [publishStatus_frame]
              exact ⟨rfl, rfl, rfl, .goesOn _ rfl rfl⟩
            · cases stepped
      case comparing snapshot =>
          split at stepped
          · cases stepped
            obtain ⟨pass, entries, created⟩ := finish_frame engine syncer ⟨held, .comparing snapshot⟩
            exact ⟨pass, entries, created, .ends rfl rfl⟩
          · cases stepped
            exact ⟨rfl, rfl, rfl, .goesOn _ rfl rfl⟩
      case storing snapshot =>
          cases stepped
          exact ⟨rfl, rfl, rfl, .stores snapshot rfl rfl⟩
      case checking snapshot =>
          split at stepped
          · split at stepped
            · cases stepped
              exact ⟨rfl, rfl, rfl, .goesOn _ rfl rfl⟩
            · cases stepped
              obtain ⟨pass, entries, created⟩ := finish_frame engine syncer ⟨held, .checking snapshot⟩
              exact ⟨pass, entries, created, .ends rfl rfl⟩
          · cases stepped
      case sampling snapshot =>
          split at stepped
          · cases stepped
            exact ⟨rfl, rfl, rfl, .goesOn _ rfl rfl⟩
          · cases stepped
      case publishing snapshot live =>
          cases stepped
          exact ⟨rfl, rfl, rfl, .goesOn _ rfl rfl⟩
      case published snapshot =>
          cases stepped
          exact ⟨rfl, rfl, rfl, .goesOn _ rfl rfl⟩
      case posting snapshot left =>
          cases left with
          | nil =>
              cases stepped
              obtain ⟨pass, entries, created⟩ := finish_frame engine syncer ⟨held, .posting snapshot []⟩
              exact ⟨pass, entries, created, .ends rfl rfl⟩
          | cons chat left =>
              cases stepped
              exact ⟨rfl, rfl, rfl, .goesOn _ rfl rfl⟩
      case discarded =>
          cases stepped
          exact ⟨rfl, rfl, rfl, .kicks rfl rfl⟩

/-- What every run keeps of the tasks. -/
structure Sound (engine : Engine) : Prop where
  running : ∀ entry sync, engine.syncs (.task entry) = some sync →
    (engine.arena entry).task = .syncing ∧ sync.entry = entry
  unborn : ∀ entry, engine.created ≤ entry → (engine.arena entry).task = .ended

/-- A change of one entry that keeps its task at work, and its end. -/
theorem Sound.update (sound : engine.Sound) (entry : Nat) (change : CheckoutEntry → CheckoutEntry)
    (busy : (engine.arena entry).task = .syncing → (change (engine.arena entry)).task = .syncing)
    (ended : (engine.arena entry).task = .ended → (change (engine.arena entry)).task = .ended) :
    (engine.update entry change).Sound := by
  constructor
  · intro other sync running
    obtain ⟨task, same⟩ := sound.running other sync running
    refine ⟨?_, same⟩
    rw [arena_update]
    split
    · rename_i here
      subst here
      exact busy task
    · exact task
  · intro other unborn
    have task := sound.unborn other unborn
    rw [arena_update]
    split
    · rename_i here
      subst here
      exact ended task
    · exact task

theorem Sound.kick (sound : engine.Sound) (entry : Nat) : (engine.kick entry).Sound :=
  sound.update entry _ id id

theorem Sound.congr {other : Engine} (sound : other.Sound) (arena : engine.arena = other.arena)
    (syncs : engine.syncs = other.syncs) (created : engine.created = other.created) :
    engine.Sound := by
  refine ⟨fun entry sync running => ?_, fun entry unborn => ?_⟩
  · rw [arena]
    exact sound.running entry sync (syncs ▸ running)
  · rw [arena]
    exact sound.unborn entry (created ▸ unborn)

/-- A sync that goes on stays with its entry. -/
theorem Sound.setSync (sound : engine.Sound) {sync : Sync} (running : engine.syncs syncer = some sync)
    (stage : SyncStage) : (engine.setSync syncer (some { sync with stage })).Sound := by
  refine ⟨fun entry other going => ?_, sound.unborn⟩
  by_cases same : Syncer.task entry = syncer
  · subst same
    obtain ⟨task, here⟩ := sound.running entry sync running
    simp only [Engine.setSync, Function.update_self, Option.some.injEq] at going
    subst going
    exact ⟨task, here⟩
  · simp only [Engine.setSync, Function.update_of_ne same] at going
    exact sound.running entry other going

theorem Sound.taskStep (sound : engine.Sound) (stepped : engine.taskStep entry = some after) :
    after.Sound := by
  unfold Engine.taskStep at stepped
  cases task : (engine.arena entry).task <;> simp only [task] at stepped
  case waiting | debouncing =>
    split at stepped
    · cases stepped
    · cases stepped
      exact sound.update _ _ (by simp [task]) (by simp [task])
  case settled =>
    split at stepped
    · cases stepped
      exact sound.update _ _ (by simp [task]) (by simp [task])
    · cases stepped
      have started := sound.update entry (fun held => { held with task := .syncing, synced := true })
        (fun _ => rfl) (by simp [task])
      refine ⟨fun other sync going => ?_, started.unborn⟩
      by_cases same : other = entry
      · subst same
        simp only [Engine.setSync, Function.update_self, Option.some.injEq] at going
        subst going
        simp [arena_update]
      · have different : Syncer.task other ≠ Syncer.task entry := fun equal =>
          same (Syncer.task.inj equal)
        simp only [Engine.setSync, Function.update_of_ne different] at going
        exact started.running other sync going
  case skipping =>
    cases stepped
    exact sound.update _ _ (by simp [task]) (by simp [task])
  case syncing | ended => cases stepped

theorem Sound.finish (sound : engine.Sound) {sync : Sync}
    (running : engine.syncs syncer = some sync) : (engine.finish syncer sync).Sound := by
  cases syncer with
  | discard number => exact sound.setSync running .discarded
  | task entry =>
      obtain ⟨task, _⟩ := sound.running entry sync running
      constructor
      · intro other going started
        by_cases same : other = entry
        · subst same
          simp [Engine.finish, Engine.setSync, Engine.update] at started
        · have different : Syncer.task other ≠ Syncer.task entry := fun equal =>
            same (Syncer.task.inj equal)
          simp only [Engine.finish, Engine.setSync, Engine.update, Function.update_of_ne different]
            at started
          simpa [Engine.finish, arena_update, same] using sound.running other going started
      · intro other unborn
        have ended := sound.unborn other unborn
        by_cases same : other = entry
        · subst same
          rw [task] at ended
          cases ended
        · simpa [Engine.finish, arena_update, same] using ended

theorem Sound.drop (sound : engine.Sound) (syncer : Syncer) : (engine.setSync syncer none).Sound := by
  refine ⟨fun entry sync going => ?_, sound.unborn⟩
  by_cases same : Syncer.task entry = syncer
  · subst same
    simp [Engine.setSync] at going
  · simp only [Engine.setSync, Function.update_of_ne same] at going
    exact sound.running entry sync going

theorem Sound.syncStep (sound : engine.Sound) {captured : Option DiffSnapshot} {posted : Bool}
    (stepped : engine.syncStep syncer captured posted = some after) : after.Sound := by
  obtain ⟨sync, running, _, _, created, moves⟩ := syncStep_moves stepped
  cases moves with
  | goesOn stage arena syncs => exact (sound.setSync running stage).congr arena syncs created
  | starts arena syncs =>
      have started := sound.update sync.entry (fun held => { held with synced := true }) id id
      exact (started.setSync running .capturing).congr arena syncs created
  | stores snapshot arena syncs =>
      have stored := sound.update sync.entry
        (fun held => { held with checksum := some snapshot.checksum }) id id
      exact (stored.setSync running (.checking snapshot)).congr arena syncs created
  | ends arena syncs =>
      refine (sound.finish running).congr arena syncs (created.trans ?_)
      exact (finish_frame engine syncer sync).2.2.symm
  | kicks arena syncs => exact ((sound.kick sync.entry).drop syncer).congr arena syncs created

theorem Sound.create (sound : engine.Sound) (held : CheckoutEntry) :
    ({ engine.update engine.created fun _ => held with created := engine.created + 1 } :
      Engine).Sound := by
  constructor
  · intro entry sync running
    have going := sound.running entry sync running
    have older : entry ≠ engine.created := by
      rintro rfl
      rw [sound.unborn _ le_rfl] at going
      cases going.1
    simpa [arena_update, older] using going
  · intro entry unborn
    have unborn : engine.created + 1 ≤ entry := unborn
    have younger : entry ≠ engine.created := by omega
    simpa [arena_update, younger] using sound.unborn entry (by omega)

theorem Sound.passStep {grace : Nat} {order : List (String × Nat)} (sound : engine.Sound)
    (stepped : engine.passStep grace order = some after) : after.Sound := by
  unfold Engine.passStep at stepped
  cases begun : engine.pass with
  | none => simp [begun] at stepped
  | some pass =>
      obtain ⟨groups, archived, now, stage⟩ := pass
      simp only [begun] at stepped
      cases stage <;> try dsimp only at stepped
      case grouped =>
        split at stepped
        · cases stepped
          exact sound.congr rfl rfl rfl
        · cases stepped
      case visiting left removed =>
        cases left with
        | nil =>
            cases stepped
            exact sound.congr rfl rfl rfl
        | cons next left =>
            obtain ⟨checkoutId, entry⟩ := next
            dsimp only at stepped
            split at stepped
            · split at stepped
              · cases stepped
                exact (sound.update entry (fun held => { held with orphanedSince := none }) id id).congr
                  rfl rfl rfl
              · cases stepped
                exact sound.congr rfl rfl rfl
            · split at stepped
              · cases stepped
                exact sound.congr rfl rfl rfl
              · split at stepped
                · cases stepped
                  exact (sound.update entry (fun held => { held with orphanedSince := some now })
                    id id).congr rfl rfl rfl
                · cases stepped
                  exact sound.congr rfl rfl rfl
      case cleared entry left removed =>
        split at stepped
        · cases stepped
          exact (sound.update entry (fun held => { held with skippedWhileOrphaned := false })
            id id).congr rfl rfl rfl
        · cases stepped
          exact sound.congr rfl rfl rfl
      case removed | sampled _ | diffsPublished | statusesSampled _ =>
        cases stepped
        exact sound.congr rfl rfl rfl
      case updating left =>
        cases left with
        | nil =>
            cases stepped
            exact sound.congr rfl rfl rfl
        | cons group left =>
            obtain ⟨checkoutId, chats⟩ := group
            dsimp only at stepped
            split at stepped
            · rename_i entry found
              cases stepped
              exact (sound.update entry (fun held => { held with chats }) id id).congr rfl rfl rfl
            · cases stepped
              exact (sound.create { checkout := checkoutId, chats }).congr rfl rfl rfl
      case catchingUp entry left removed | joining entry left =>
        cases stepped
        exact (sound.kick entry).congr rfl rfl rfl

theorem Sound.step {grace : Nat} {action : Action} (sound : engine.Sound)
    (stepped : engine.step grace action = some after) : after.Sound := by
  cases action <;> simp only [Engine.step] at stepped
  case kick entry =>
    split at stepped <;> cases stepped
    exact sound.kick entry
  case task entry => exact sound.taskStep stepped
  case timeout entry =>
    unfold Engine.timeout at stepped
    split at stepped <;> cases stepped
    rename_i debouncing
    exact sound.update _ _ (by simp [debouncing]) (by simp [debouncing])
  case close entry =>
    unfold Engine.close at stepped
    dsimp only at stepped
    split at stepped <;> cases stepped
    rename_i closing
    refine sound.update _ _ (fun busy => ?_) (fun _ => rfl)
    simp [busy] at closing
  case discard number checkoutId =>
    split at stepped
    · rename_i entry unused found
      split at stepped <;> cases stepped
      refine ⟨fun other sync going => ?_, sound.unborn⟩
      have different : Syncer.task other ≠ Syncer.discard number := nofun
      simp only [Engine.setSync, Function.update_of_ne different] at going
      exact sound.running other sync going
    · cases stepped
  case sync syncer captured posted => exact sound.syncStep stepped
  case reconcile groups archived now =>
    split at stepped <;> cases stepped
    exact sound.congr rfl rfl rfl
  case pass order => exact sound.passStep stepped

end Engine

end Zeron.Diff
