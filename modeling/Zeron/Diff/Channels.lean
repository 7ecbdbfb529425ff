import Zeron.Diff.Kicks

namespace Zeron.Diff

open Zeron.Data

/-! # What the channels list

The channels of diffs and of statuses list tracked checkouts only, each once.  A
status goes out under the lock of the entries; a diff goes out after it.
-/

section Rows

variable {row : Type} {idOf : row → String}

/-- A row put in place of one of its id leaves the ids as they are. -/
theorem map_upsert (next : row) (rows : List row) :
    (upsert idOf next rows).map idOf =
      if idOf next ∈ rows.map idOf then rows.map idOf else rows.map idOf ++ [idOf next] := by
  unfold upsert
  cases found : rows.findIdx? (idOf · = idOf next) with
  | none =>
      have absent : idOf next ∉ rows.map idOf := by
        intro member
        obtain ⟨held, inside, same⟩ := List.mem_map.mp member
        have different := List.findIdx?_eq_none_iff.mp found held inside
        simp [same] at different
      simp [absent]
  | some index =>
      obtain ⟨within, same, _⟩ := List.findIdx?_eq_some_iff_getElem.mp found
      have here : idOf rows[index] = idOf next := by simpa using same
      have member : idOf next ∈ rows.map idOf :=
        here ▸ List.mem_map_of_mem (List.getElem_mem within)
      have kept : (rows.set index next).map idOf = rows.map idOf := by
        rw [List.map_set, ← here, ← List.getElem_map idOf (h := by simpa using within),
          List.set_getElem_self]
      simp [member, kept]

theorem perm_sortById (rows : List row) : ((sortById idOf rows).map idOf).Perm (rows.map idOf) :=
  (List.mergeSort_perm rows _).map idOf

theorem mem_upsert {next : row} {rows : List row} {id : String}
    (member : id ∈ (upsert idOf next rows).map idOf) : id ∈ rows.map idOf ∨ id = idOf next := by
  rw [map_upsert] at member
  split at member
  · exact .inl member
  · simpa using member

theorem nodup_upsert {next : row} {rows : List row} (distinct : (rows.map idOf).Nodup) :
    ((upsert idOf next rows).map idOf).Nodup := by
  rw [map_upsert]
  split
  · exact distinct
  · rename_i absent
    exact distinct.append (List.nodup_singleton _) (List.disjoint_singleton.mpr absent)

end Rows

/-- The ids after a modification by `publish_watch_with`. -/
theorem mem_publishDiffs {live : List String} {updated : Option CheckoutDiff}
    {diffs : List CheckoutDiff} {id : String}
    (member : id ∈ (publishDiffs live updated diffs).map (·.checkoutId)) :
    id ∈ diffs.map (·.checkoutId) ∧ id ∈ live ∨ id ∈ updated.map (·.checkoutId) := by
  have kept : ∀ id ∈ (diffs.filter (·.checkoutId ∈ live)).map (·.checkoutId),
      id ∈ diffs.map (·.checkoutId) ∧ id ∈ live := by
    intro id inside
    obtain ⟨held, placed, rfl⟩ := List.mem_map.mp inside
    obtain ⟨old, tracked⟩ := List.mem_filter.mp placed
    exact ⟨List.mem_map_of_mem old, by simpa using tracked⟩
  unfold publishDiffs at member
  have member := (perm_sortById _).mem_iff.mp member
  cases updated with
  | none => exact .inl (kept id member)
  | some next =>
      rcases mem_upsert member with old | new
      · exact .inl (kept id old)
      · exact .inr (by simp [new])

theorem nodup_publishDiffs {live : List String} {updated : Option CheckoutDiff}
    {diffs : List CheckoutDiff} (distinct : (diffs.map (·.checkoutId)).Nodup) :
    ((publishDiffs live updated diffs).map (·.checkoutId)).Nodup := by
  have kept : ((diffs.filter (·.checkoutId ∈ live)).map (·.checkoutId)).Nodup :=
    distinct.sublist (List.filter_sublist.map _)
  unfold publishDiffs
  rw [(perm_sortById _).nodup_iff]
  cases updated with
  | none => exact kept
  | some next => exact nodup_upsert kept

theorem perm_publishStatus (next : CheckoutGitStatus) (statuses : List CheckoutGitStatus) :
    ((publishStatus next statuses).map (·.checkoutId)).Perm
      ((upsert (·.checkoutId) next statuses).map (·.checkoutId)) := by
  unfold publishStatus upsert
  cases statuses.findIdx? (·.checkoutId = next.checkoutId) with
  | some index => exact .refl _
  | none => exact perm_sortById _

/-- The diff goes to the channel next. -/
def SyncStage.publishes : SyncStage → Bool
  | .publishing _ _ => true
  | _ => false

namespace Engine

/-! ## What is listed -/

/-- The pass has dropped entries and has not dropped their diffs yet. -/
def clearsDiffs (engine : Engine) : Bool :=
  match engine.pass.map Pass.stage with
  | some .removed | some (.sampled _) => true
  | _ => false

/-- The pass has dropped entries and has not dropped their statuses yet. -/
def clearsStatuses (engine : Engine) : Bool :=
  match engine.pass.map Pass.stage with
  | some .removed | some (.sampled _) | some .diffsPublished | some (.statusesSampled _) => true
  | _ => false

/-- Outside the publication a pass makes of what it dropped, both channels list tracked
checkouts. -/
structure Listed (engine : Engine) : Prop where
  diffs : engine.clearsDiffs = false →
    ∀ id ∈ engine.diffs.map (·.checkoutId), id ∈ engine.live
  statuses : engine.clearsStatuses = false →
    ∀ id ∈ engine.statuses.map (·.checkoutId), id ∈ engine.live
  distinctDiffs : (engine.diffs.map (·.checkoutId)).Nodup
  distinctStatuses : (engine.statuses.map (·.checkoutId)).Nodup

/-- A diff goes out while its checkout is tracked, or before the pass that dropped it has cleared
the channel. -/
def publishesTracked (engine : Engine) : Action → Prop
  | .sync syncer _ _ => ∀ sync ∈ engine.syncs syncer, sync.stage.publishes = true →
      (engine.arena sync.entry).checkout ∈ engine.live ∨ engine.clearsDiffs = true
  | _ => True

instance (engine : Engine) (action : Action) : Decidable (engine.publishesTracked action) := by
  unfold publishesTracked
  split <;> infer_instance

/-- What a pass has sampled is what is tracked: no one else adds or drops entries. -/
def Sampled (engine : Engine) : Prop :=
  match engine.pass.map Pass.stage with
  | some (.sampled live) | some (.statusesSampled live) => live = engine.live
  | _ => True

variable {engine after : Engine} {syncer : Syncer}

theorem Listed.congr {other : Engine} (listed : other.Listed) (pass : engine.pass = other.pass)
    (entries : engine.entries = other.entries) (diffs : engine.diffs = other.diffs)
    (statuses : engine.statuses = other.statuses) : engine.Listed := by
  obtain ⟨tracked, shown, distinct, different⟩ := listed
  refine ⟨?_, ?_, diffs ▸ distinct, statuses ▸ different⟩
  · simpa only [clearsDiffs, live, pass, entries, diffs] using tracked
  · simpa only [clearsStatuses, live, pass, entries, statuses] using shown

theorem Listed.publishStatus (listed : engine.Listed) (checkoutId : String)
    (files : List Git.GitFileStatus) (complete : Bool) :
    (engine.publishStatus checkoutId files complete).Listed := by
  unfold Engine.publishStatus
  split
  · rename_i tracked
    refine ⟨listed.diffs, fun quiet id member => ?_, listed.distinctDiffs, ?_⟩
    · rcases mem_upsert ((perm_publishStatus _ _).mem_iff.mp member) with old | rfl
      · exact listed.statuses quiet id old
      · exact tracked
    · rw [(perm_publishStatus _ _).nodup_iff]
      exact nodup_upsert listed.distinctStatuses
  · exact listed

theorem finish_channels (engine : Engine) (syncer : Syncer) (sync : Sync) :
    (engine.finish syncer sync).diffs = engine.diffs ∧
      (engine.finish syncer sync).statuses = engine.statuses := by
  cases syncer <;> exact ⟨rfl, rfl⟩

/-- What a step of a sync sends to the channels. -/
inductive Sends (engine : Engine) (sync : Sync) (after : Engine) : Prop
  | nothing (diffs : after.diffs = engine.diffs) (statuses : after.statuses = engine.statuses)
  | status (files : List Git.GitFileStatus) (complete : Bool) (diffs : after.diffs = engine.diffs)
      (statuses : after.statuses =
        (engine.publishStatus (engine.arena sync.entry).checkout files complete).statuses)
  | diff (snapshot : DiffSnapshot) (live : List String) (stage : sync.stage = .publishing snapshot live)
      (diffs : after.diffs =
        publishDiffs live (some (snapshot.diff (engine.arena sync.entry).checkout)) engine.diffs)
      (statuses : after.statuses = engine.statuses)

theorem syncStep_sends {captured : Option DiffSnapshot} {posted : Bool} {sync : Sync}
    (running : engine.syncs syncer = some sync)
    (stepped : engine.syncStep syncer captured posted = some after) : engine.Sends sync after := by
  obtain ⟨entry, stage⟩ := sync
  unfold Engine.syncStep at stepped
  simp only [running] at stepped
  have ended : ∀ sync, engine.Sends ⟨entry, stage⟩ (engine.finish syncer sync) := fun sync =>
    .nothing (finish_channels engine syncer sync).1 (finish_channels engine syncer sync).2
  cases stage <;> try dsimp only at stepped
  case discarding =>
    cases syncer with
    | task entry => simp at stepped
    | discard number =>
        cases free : engine.discardLock with
        | some holder => simp [free] at stepped
        | none =>
            simp only [free, Option.some.injEq] at stepped
            cases stepped
            exact .nothing rfl rfl
  case capturing => cases captured <;> cases stepped <;> exact .nothing rfl rfl
  case failed =>
    split at stepped <;> cases stepped
    obtain ⟨diffs, statuses⟩ := finish_channels
      (engine.publishStatus (engine.arena entry).checkout [] false) syncer ⟨entry, .failed⟩
    refine .status [] false (diffs.trans ?_) statuses
    rw [publishStatus_frame]
  case captured snapshot =>
    split at stepped
    · cases stepped
      exact .nothing rfl rfl
    · rename_i files complete _
      split at stepped <;> cases stepped
      refine .status files complete ?_ rfl
      rw [publishStatus_frame]
      rfl
  case comparing snapshot =>
    split at stepped <;> cases stepped
    · exact ended _
    · exact .nothing rfl rfl
  case checking snapshot =>
    split at stepped
    · split at stepped <;> cases stepped
      · exact .nothing rfl rfl
      · exact ended _
    · cases stepped
  case sampling snapshot =>
    split at stepped <;> cases stepped
    exact .nothing rfl rfl
  case publishing snapshot live =>
    cases stepped
    exact .diff snapshot live rfl rfl rfl
  case posting snapshot left =>
    cases left with
    | nil =>
        cases stepped
        exact ended _
    | cons chat left =>
        cases stepped
        exact .nothing rfl rfl
  case storing _ | published _ | discarded =>
    cases stepped
    exact .nothing rfl rfl

theorem Listed.syncStep {captured : Option DiffSnapshot} {posted : Bool} (listed : engine.Listed)
    (tracked : engine.publishesTracked (.sync syncer captured posted))
    (stepped : engine.syncStep syncer captured posted = some after) : after.Listed := by
  obtain ⟨sync, running, pass, entries, _, _⟩ := syncStep_moves stepped
  have tracked := tracked sync running
  cases syncStep_sends running stepped with
  | nothing diffs statuses => exact listed.congr pass entries diffs statuses
  | status files complete diffs statuses =>
      have published := listed.publishStatus (engine.arena sync.entry).checkout files complete
      rw [publishStatus_frame] at published
      exact published.congr pass entries diffs statuses
  | diff snapshot live stage diffs statuses =>
      have tracked := tracked (by rw [stage]; rfl)
      refine ⟨?_, ?_, ?_, statuses ▸ listed.distinctStatuses⟩
      · simp only [clearsDiffs, Engine.live, pass, entries, diffs]
        intro quiet id member
        rcases mem_publishDiffs member with ⟨old, _⟩ | new
        · exact listed.diffs quiet id old
        · rcases tracked with here | clears
          · simp only [Option.map_some, Option.mem_some_iff] at new
            exact new ▸ here
          · simp only [clearsDiffs] at clears
            simp [clears] at quiet
      · simpa only [clearsStatuses, Engine.live, pass, entries, statuses] using listed.statuses
      · rw [diffs]
        exact nodup_publishDiffs listed.distinctDiffs

/-- A step of a pass that drops nothing and sends nothing. -/
theorem Listed.keeps (listed : engine.Listed) (grown : engine.live ⊆ after.live)
    (diffs : after.diffs = engine.diffs) (statuses : after.statuses = engine.statuses)
    (clears : after.clearsDiffs = false → engine.clearsDiffs = false)
    (hides : after.clearsStatuses = false → engine.clearsStatuses = false) : after.Listed := by
  refine ⟨fun quiet id member => ?_, fun quiet id member => ?_, diffs ▸ listed.distinctDiffs,
    statuses ▸ listed.distinctStatuses⟩
  · exact grown (listed.diffs (clears quiet) id (diffs ▸ member))
  · exact grown (listed.statuses (hides quiet) id (statuses ▸ member))

theorem Listed.passStep {grace : Nat} {order : List (String × Nat)} (listed : engine.Listed)
    (sampled : engine.Sampled) (stepped : engine.passStep grace order = some after) :
    after.Listed ∧ after.Sampled := by
  unfold Engine.passStep at stepped
  cases begun : engine.pass with
  | none => simp [begun] at stepped
  | some pass =>
      obtain ⟨groups, archived, now, stage⟩ := pass
      simp only [begun] at stepped
      cases stage <;> try dsimp only at stepped
      case grouped =>
        split at stepped <;> cases stepped
        exact ⟨listed.keeps (List.Subset.refl _) rfl rfl (by simp [clearsDiffs, begun])
          (by simp [clearsStatuses, begun]), trivial⟩
      case visiting left removed =>
        have quiet : engine.clearsDiffs = false ∧ engine.clearsStatuses = false := by
          simp [clearsDiffs, clearsStatuses, begun]
        cases left with
        | nil =>
            cases stepped
            by_cases none : removed = []
            · subst none
              refine ⟨listed.keeps ?_ rfl rfl (fun _ => quiet.1) (fun _ => quiet.2), trivial⟩
              simp [Engine.live]
            · rw [if_neg none]
              exact ⟨⟨nofun, nofun, listed.distinctDiffs, listed.distinctStatuses⟩, trivial⟩
        | cons next left =>
            obtain ⟨checkoutId, entry⟩ := next
            dsimp only at stepped
            have idle : ∀ stepped : Engine, stepped.entries = engine.entries →
                stepped.diffs = engine.diffs → stepped.statuses = engine.statuses →
                stepped.Listed := fun stepped entries diffs statuses =>
              listed.keeps (by simp [Engine.live, entries]) diffs statuses (fun _ => quiet.1)
                (fun _ => quiet.2)
            split at stepped
            · split at stepped <;> cases stepped <;> exact ⟨idle _ rfl rfl rfl, trivial⟩
            · split at stepped
              · cases stepped
                exact ⟨idle _ rfl rfl rfl, trivial⟩
              · split at stepped <;> cases stepped <;> exact ⟨idle _ rfl rfl rfl, trivial⟩
      case cleared entry left removed =>
        split at stepped <;> cases stepped <;>
          exact ⟨listed.keeps (List.Subset.refl _) rfl rfl (by simp [clearsDiffs, begun])
            (by simp [clearsStatuses, begun]), trivial⟩
      case catchingUp entry left removed | joining entry left =>
        cases stepped
        exact ⟨listed.keeps (List.Subset.refl _) rfl rfl (by simp [clearsDiffs, begun])
          (by simp [clearsStatuses, begun]), trivial⟩
      case removed =>
        cases stepped
        exact ⟨listed.keeps (List.Subset.refl _) rfl rfl nofun nofun, rfl⟩
      case diffsPublished =>
        cases stepped
        exact ⟨listed.keeps (List.Subset.refl _) rfl rfl (by simp [clearsDiffs, begun]) nofun, rfl⟩
      case sampled live =>
        have current : live = engine.live := by simpa [Sampled, begun] using sampled
        cases stepped
        refine ⟨⟨fun _ id member => ?_, nofun, @nodup_publishDiffs live none _ listed.distinctDiffs,
          listed.distinctStatuses⟩, trivial⟩
        rcases @mem_publishDiffs live none _ _ member with ⟨_, tracked⟩ | new
        · exact current ▸ tracked
        · cases new
      case statusesSampled live =>
        have current : live = engine.live := by simpa [Sampled, begun] using sampled
        cases stepped
        refine ⟨⟨fun _ => listed.diffs (by simp [clearsDiffs, begun]), fun _ id member => ?_,
          listed.distinctDiffs, listed.distinctStatuses.sublist (List.filter_sublist.map _)⟩, trivial⟩
        obtain ⟨held, placed, rfl⟩ := List.mem_map.mp member
        exact current ▸ (show held.checkoutId ∈ live by simpa using (List.mem_filter.mp placed).2)
      case updating left =>
        have quiet : engine.clearsDiffs = false ∧ engine.clearsStatuses = false := by
          simp [clearsDiffs, clearsStatuses, begun]
        cases left with
        | nil =>
            cases stepped
            exact ⟨listed.keeps (List.Subset.refl _) rfl rfl (fun _ => quiet.1) (fun _ => quiet.2),
              trivial⟩
        | cons group left =>
            obtain ⟨checkoutId, chats⟩ := group
            dsimp only at stepped
            split at stepped
            · cases stepped
              refine ⟨listed.keeps (List.Subset.refl _) rfl rfl (fun _ => quiet.1) (fun _ => quiet.2), ?_⟩
              split <;> trivial
            · cases stepped
              refine ⟨listed.keeps ?_ rfl rfl (fun _ => quiet.1) (fun _ => quiet.2), trivial⟩
              exact List.subset_cons_self _ _

theorem Sampled.congr {other : Engine} (sampled : other.Sampled) (pass : engine.pass = other.pass)
    (entries : engine.entries = other.entries) : engine.Sampled := by
  simpa only [Sampled, live, pass, entries] using sampled

theorem Listed.step {grace : Nat} {action : Action} (listed : engine.Listed)
    (sampled : engine.Sampled) (tracked : engine.publishesTracked action)
    (stepped : engine.step grace action = some after) : after.Listed ∧ after.Sampled := by
  have arenaOnly : ∀ after : Engine, after.pass = engine.pass → after.entries = engine.entries →
      after.diffs = engine.diffs → after.statuses = engine.statuses → after.Listed ∧ after.Sampled :=
    fun after pass entries diffs statuses =>
      ⟨listed.congr pass entries diffs statuses, sampled.congr pass entries⟩
  cases action <;> simp only [Engine.step] at stepped
  case kick entry =>
    split at stepped <;> cases stepped
    exact arenaOnly _ rfl rfl rfl rfl
  case task entry =>
    unfold Engine.taskStep at stepped
    dsimp only at stepped
    cases task : (engine.arena entry).task <;> simp only [task] at stepped
    case waiting | debouncing | settled =>
      split at stepped <;> cases stepped <;> exact arenaOnly _ rfl rfl rfl rfl
    case skipping =>
      cases stepped
      exact arenaOnly _ rfl rfl rfl rfl
    case syncing | ended => cases stepped
  case timeout entry =>
    unfold Engine.timeout at stepped
    split at stepped <;> cases stepped
    exact arenaOnly _ rfl rfl rfl rfl
  case close entry =>
    unfold Engine.close at stepped
    dsimp only at stepped
    split at stepped <;> cases stepped
    exact arenaOnly _ rfl rfl rfl rfl
  case discard number checkoutId =>
    split at stepped
    · split at stepped <;> cases stepped
      exact arenaOnly _ rfl rfl rfl rfl
    · cases stepped
  case sync syncer captured posted =>
    obtain ⟨_, _, pass, entries, _, _⟩ := syncStep_moves stepped
    exact ⟨listed.syncStep tracked stepped, sampled.congr pass entries⟩
  case reconcile groups archived now =>
    split at stepped <;> cases stepped
    rename_i free
    have none : engine.pass = none := by simpa using free.1
    exact ⟨listed.keeps (List.Subset.refl _) rfl rfl (by simp [clearsDiffs, none])
      (by simp [clearsStatuses, none]), trivial⟩
  case pass order => exact listed.passStep sampled stepped

/-- Where diffs go out for tracked checkouts, only these are listed. -/
theorem listed_of_publishesTracked (engine : Engine) (grace : Nat)
    (runs : Reaches (Engine.step grace) Engine.publishesTracked {} engine) : engine.Listed := by
  have both : engine.Listed ∧ engine.Sampled := by
    apply runs.keeps
    · exact ⟨⟨nofun, nofun, List.nodup_nil, List.nodup_nil⟩, trivial⟩
    · intro before action after held tracked stepped
      exact held.1.step held.2 tracked stepped
  exact both.1

end Engine

/-! ## A checkout dropped in flight -/

/-- A tracked checkout with one chat whose task starts a sync. -/
def tracked : List Action :=
  [.reconcile [("checkout", ["chat"])] [] 0, .pass [], .pass [], .pass [], .pass [], .pass [],
    .task 0, .timeout 0, .task 0]

/-- Its chat is archived, and the pass drops it. -/
def archived : List Action :=
  .reconcile [] ["chat"] 1 :: .pass [("checkout", 0)] :: List.replicate 7 (.pass [])

/-- A capture in flight finds its checkout gone. -/
theorem listed_of_publishesTracked_dropped : ∃ engine : Engine,
    (engine.entries = [] ∧ engine.diffs = []) ∧ engine.Listed := by
  have ran : (runAll (Engine.step 120) (fun engine action => decide (engine.publishesTracked action)) {}
      (tracked ++ syncOnce (.task 0) "patch" ++ [.kick 0, .task 0, .timeout 0, .task 0] ++
        (syncOnce (.task 0) "other patch").take 4 ++ archived ++
        (syncOnce (.task 0) "other patch").take 1)).map (fun engine =>
      decide (engine.entries = [] ∧ engine.diffs = [])) = some true := by
    decide +kernel
  obtain ⟨engine, ran, held⟩ := Option.map_eq_some_iff.mp ran
  exact ⟨engine, of_decide_eq_true held, engine.listed_of_publishesTracked 120
    ((reaches_of_runAll ran).mono fun _ _ tracked => of_decide_eq_true tracked)⟩

/-- The checkout is dropped after the sync has found it tracked: its diff comes back. -/
theorem not_listed_of_dropped : ∃ engine : Engine,
    Reaches (Engine.step 120) (fun _ _ => True) {} engine ∧ engine.pass.isNone ∧
      engine.syncs (.task 0) = none ∧ ¬ engine.Listed := by
  have ran : (runAll (Engine.step 120) (fun _ _ => true) {}
      (tracked ++ (syncOnce (.task 0) "patch").take 5 ++ archived ++
        (syncOnce (.task 0) "patch").take 5)).map (fun engine =>
      decide (engine.pass.isNone ∧ (engine.syncs (.task 0)).isNone ∧ engine.entries = [] ∧
        engine.diffs.map (·.checkoutId) = ["checkout"])) = some true := by
    decide +kernel
  obtain ⟨engine, ran, held⟩ := Option.map_eq_some_iff.mp ran
  obtain ⟨idle, finished, entries, diffs⟩ := of_decide_eq_true held
  refine ⟨engine, (reaches_of_runAll ran).mono fun _ _ _ => trivial, idle,
    Option.isNone_iff_eq_none.mp finished, fun listed => ?_⟩
  have none : engine.pass = none := Option.isNone_iff_eq_none.mp idle
  have shown := listed.diffs (by simp [Engine.clearsDiffs, none]) "checkout" (by simp [diffs])
  simp [Engine.live, entries] at shown

end Zeron.Diff
