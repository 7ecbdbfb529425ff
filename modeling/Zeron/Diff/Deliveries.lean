import Zeron.Diff.Sidecars

namespace Zeron.Diff

/-! # Deliveries

A diff goes out, the chats are read for it, and each is sent its sidecar.
-/

namespace Engine

variable {engine after : Engine} {syncer : Syncer}

/-- The syncs beside one that changes its stage. -/
theorem syncs_setSync (engine : Engine) (syncer other : Syncer) (sync : Option Sync) :
    (engine.setSync syncer sync).syncs other = if other = syncer then sync else engine.syncs other :=
  Function.update_apply ..

/-- Syncs at other stages than these are those there were. -/
theorem Has.of_other {entry held : Nat} {stages : SyncStage → Bool} {before stage : SyncStage}
    (running : engine.syncs syncer = some ⟨held, before⟩) (has : engine.Has entry stages)
    (mine : stages before = true → entry ≠ held) :
    (engine.setSync syncer (some ⟨held, stage⟩)).Has entry stages := by
  obtain ⟨other, sync, going, here, at_⟩ := has
  refine ⟨other, sync, ?_, here, at_⟩
  rw [syncs_setSync]
  split
  · rename_i same
    subst same
    rw [running] at going
    cases going
    exact absurd here.symm (mine at_)
  · exact going

theorem Delivering.born_setSync (delivering : engine.Delivering) {other : Syncer} {entry : Nat}
    {before stage : SyncStage} {sync : Sync} (running : engine.syncs syncer = some ⟨entry, before⟩)
    (going : (engine.setSync syncer (some ⟨entry, stage⟩)).syncs other = some sync) :
    sync.entry < engine.created := by
  rw [syncs_setSync] at going
  split at going
  · cases going
    exact delivering.born syncer ⟨entry, before⟩ running
  · exact delivering.born other sync going

/-- A diff that goes out takes the place of the last publication of its checkout. -/
theorem Delivering.publish (delivering : engine.Delivering) {entry : Nat} {snapshot : DiffSnapshot}
    {live : List String}
    (running : engine.syncs syncer = some ⟨entry, .publishing snapshot live⟩)
    (own : ∀ tracked ∈ engine.entries, tracked.1 = (engine.arena entry).checkout →
      tracked.2 = entry) :
    ({ engine.setSync syncer (some ⟨entry, .published snapshot⟩) with
        publications := Function.update engine.publications (engine.arena entry).checkout
          (some { snapshot, entry, syncer }) } : Engine).Delivering := by
  have others : ∀ other, other ≠ syncer →
      (engine.setSync syncer (some ⟨entry, .published snapshot⟩)).syncs other = engine.syncs other :=
    fun other different => Function.update_of_ne different ..
  constructor
  · exact delivering.named
  · exact delivering.distinct
  · exact fun other sync going => delivering.born_setSync running going
  · intro checkoutId last published recipients
    by_cases here : checkoutId = (engine.arena entry).checkout
    · subst here
      simp only [Function.update_self, Option.some.injEq] at published
      subst published
      exact ⟨Function.update_self .., rfl⟩
    · simp only [Function.update_of_ne here] at published
      obtain ⟨going, checkout⟩ := delivering.unread checkoutId last published recipients
      have different : last.syncer ≠ syncer := by
        rintro same
        rw [same, running] at going
        cases going
      exact ⟨(others _ different).trans going, checkout⟩
  · intro checkoutId last published recipients read chat member
    by_cases here : checkoutId = (engine.arena entry).checkout
    · subst here
      simp only [Function.update_self, Option.some.injEq] at published
      subst published
      cases read
    · simp only [Function.update_of_ne here] at published
      rcases delivering.read checkoutId last published recipients read chat member with
        sent | ⟨left, waiting, going⟩
      · exact .inl sent
      · have different : last.syncer ≠ syncer := by
          rintro same
          rw [same, running] at going
          cases going
        exact .inr ⟨left, waiting, (others _ different).trans going⟩
  · intro other held after going last published by_
    by_cases here : (engine.arena held).checkout = (engine.arena entry).checkout
    · simp only [setSync_arena, here, Function.update_self, Option.some.injEq] at published
      subst published
      rfl
    · simp only [setSync_arena, Function.update_of_ne here] at published
      have different : other ≠ syncer := by
        rintro rfl
        simp only [syncs_setSync, if_true, Option.some.injEq] at going
        cases going
        exact here rfl
      exact delivering.latest other held after (others _ different ▸ going) last published by_
  · intro checkoutId held member checksum
    by_cases here : checkoutId = (engine.arena entry).checkout
    · subst here
      obtain rfl : held = entry := own _ member rfl
      exact .inr ⟨_, Function.update_self .., rfl⟩
    · have elsewhere : held ≠ entry := by
        rintro rfl
        exact here (delivering.named checkoutId held member).1.symm
      rcases delivering.stored checkoutId held member checksum with has | ⟨last, published, own⟩
      · exact .inl (has.of_other running fun _ => elsewhere)
      · exact .inr ⟨last, by simpa only [Function.update_of_ne here] using published, own⟩
  · intro checkoutId held member
    by_cases here : checkoutId = (engine.arena entry).checkout
    · subst here
      obtain rfl : held = entry := own _ member rfl
      refine .inr (.inr fun last published => ?_)
      simp only [Function.update_self, Option.some.injEq] at published
      subst published
      exact ⟨rfl, nofun⟩
    · have elsewhere : held ≠ entry := by
        rintro rfl
        exact here (delivering.named checkoutId held member).1.symm
      rcases delivering.current checkoutId held member with pending | has | now
      · exact .inl pending
      · exact .inr (.inl (has.of_other running fun _ => elsewhere))
      · refine .inr (.inr fun last published => ?_)
        simp only [Function.update_of_ne here] at published
        exact now last published

/-- The chats of the entry are read for its publication. -/
theorem Delivering.address (delivering : engine.Delivering) {entry : Nat} {snapshot : DiffSnapshot}
    (running : engine.syncs syncer = some ⟨entry, .published snapshot⟩) :
    ((engine.address (engine.arena entry).checkout syncer (engine.arena entry).chats).setSync syncer
      (some ⟨entry, .posting snapshot (engine.arena entry).chats⟩)).Delivering := by
  have others : ∀ other, other ≠ syncer →
      ((engine.address (engine.arena entry).checkout syncer (engine.arena entry).chats).setSync syncer
        (some ⟨entry, .posting snapshot (engine.arena entry).chats⟩)).syncs other =
          engine.syncs other :=
    fun other different => Function.update_of_ne different ..
  -- a publication of this syncer is the one whose chats are read now
  have mine : ∀ checkoutId last, engine.publications checkoutId = some last →
      last.syncer = syncer → last.recipients = none →
      checkoutId = (engine.arena entry).checkout ∧ last.entry = entry ∧ last.snapshot = snapshot := by
    intro checkoutId last published by_ recipients
    obtain ⟨going, checkout⟩ := delivering.unread checkoutId last published recipients
    rw [by_, running] at going
    cases going
    exact ⟨checkout.symm, rfl, rfl⟩
  have read : ∀ checkoutId last, (engine.address (engine.arena entry).checkout syncer
      (engine.arena entry).chats).publications checkoutId = some last →
      engine.publications checkoutId = some last ∧
          (checkoutId = (engine.arena entry).checkout → last.syncer ≠ syncer) ∨
        checkoutId = (engine.arena entry).checkout ∧
          last = { snapshot, entry, syncer, recipients := some (engine.arena entry).chats } := by
    intro checkoutId last published
    by_cases here : checkoutId = (engine.arena entry).checkout
    · subst here
      simp only [Engine.address, Function.update_self] at published
      obtain ⟨before, stood, rfl⟩ := Option.map_eq_some_iff.mp published
      by_cases by_ : before.syncer = syncer
      · have recipients := delivering.latest syncer entry snapshot running before stood by_
        obtain ⟨_, own, same⟩ := mine _ before stood by_ recipients
        refine .inr ⟨rfl, ?_⟩
        rw [if_pos by_, ← own, ← same, ← by_]
      · rw [if_neg by_]
        exact .inl ⟨stood, fun _ => by_⟩
    · simp only [Engine.address, Function.update_of_ne here] at published
      exact .inl ⟨published, fun same => absurd same here⟩
  constructor
  · exact delivering.named
  · exact delivering.distinct
  · exact fun other sync going => delivering.born_setSync running going
  · intro checkoutId last published recipients
    rcases read checkoutId last published with ⟨stood, apart⟩ | ⟨_, rfl⟩
    · obtain ⟨going, checkout⟩ := delivering.unread checkoutId last stood recipients
      have different : last.syncer ≠ syncer := fun by_ =>
        apart (mine checkoutId last stood by_ recipients).1 by_
      exact ⟨(others _ different).trans going, checkout⟩
    · cases recipients
  · intro checkoutId last published recipients addressed chat member
    rcases read checkoutId last published with ⟨stood, _⟩ | ⟨_, rfl⟩
    · rcases delivering.read checkoutId last stood recipients addressed chat member with
        sent | ⟨left, waiting, going⟩
      · exact .inl sent
      · have different : last.syncer ≠ syncer := by
          intro by_
          rw [by_, running] at going
          cases going
        exact .inr ⟨left, waiting, (others _ different).trans going⟩
    · cases addressed
      exact .inr ⟨_, member, Function.update_self ..⟩
  · intro other held after going last published by_
    have different : other ≠ syncer := by
      rintro rfl
      simp [syncs_setSync] at going
    rcases read _ last published with ⟨stood, _⟩ | ⟨_, rfl⟩
    · exact delivering.latest other held after (others _ different ▸ going) last stood by_
    · exact absurd by_.symm different
  · intro checkoutId held member checksum
    rcases delivering.stored checkoutId held member checksum with has | ⟨last, published, own⟩
    · exact .inl (has.of_other running (fun never => by cases never))
    · right
      by_cases here : checkoutId = (engine.arena entry).checkout
      · subst here
        refine ⟨_, by simp only [Engine.setSync, Engine.address, Function.update_self, published]; rfl, ?_⟩
        dsimp only
        split <;> exact own
      · refine ⟨last, ?_, own⟩
        simpa only [Engine.setSync, Engine.address, Function.update_of_ne here] using published
  · intro checkoutId held member
    rcases delivering.current checkoutId held member with pending | has | now
    · exact .inl pending
    · exact .inr (.inl (has.of_other running (fun never => by cases never)))
    · refine .inr (.inr fun last published => ?_)
      rcases read checkoutId last published with ⟨stood, _⟩ | ⟨rfl, rfl⟩
      · exact now last stood
      · simp only [Engine.setSync, Engine.address, Function.update_self] at published
        obtain ⟨before, stood, same⟩ := Option.map_eq_some_iff.mp published
        obtain rfl : entry = held := by
          have own := (now before stood).1
          have kept := congrArg Publication.entry same
          rw [← own]
          split at kept <;> exact kept.symm
        refine ⟨rfl, fun recipients addressed => ?_⟩
        cases addressed
        exact List.Subset.refl _

/-- One chat is sent its sidecar. -/
theorem Delivering.post (delivering : engine.Delivering) {entry : Nat} {snapshot : DiffSnapshot}
    {chat : String} {left : List String}
    (running : engine.syncs syncer = some ⟨entry, .posting snapshot (chat :: left)⟩) :
    ({ engine.setSync syncer (some ⟨entry, .posting snapshot left⟩) with
        sent := snapshot.sidecar chat :: engine.sent } : Engine).Delivering := by
  have others : ∀ other, other ≠ syncer →
      (engine.setSync syncer (some ⟨entry, .posting snapshot left⟩)).syncs other = engine.syncs other :=
    fun other different => Function.update_of_ne different ..
  constructor
  · exact delivering.named
  · exact delivering.distinct
  · exact fun other sync going => delivering.born_setSync running going
  · intro checkoutId last published recipients
    obtain ⟨going, checkout⟩ := delivering.unread checkoutId last published recipients
    have different : last.syncer ≠ syncer := by
      intro by_
      rw [by_, running] at going
      cases going
    exact ⟨(others _ different).trans going, checkout⟩
  · intro checkoutId last published recipients addressed other member
    rcases delivering.read checkoutId last published recipients addressed other member with
      sent | ⟨rest, waiting, going⟩
    · exact .inl (List.mem_cons_of_mem _ sent)
    · by_cases by_ : last.syncer = syncer
      · rw [by_, running] at going
        simp only [Option.some.injEq, Sync.mk.injEq, SyncStage.posting.injEq] at going
        obtain ⟨own, same, rfl⟩ := going
        rcases List.mem_cons.mp waiting with rfl | later
        · exact .inl (same ▸ List.mem_cons_self)
        · refine .inr ⟨left, later, ?_⟩
          rw [by_, ← own, ← same]
          exact Function.update_self ..
      · exact .inr ⟨rest, waiting, (others _ by_).trans going⟩
  · intro other held after going last published by_
    have different : other ≠ syncer := by
      rintro rfl
      simp [syncs_setSync] at going
    exact delivering.latest other held after (others _ different ▸ going) last published by_
  · intro checkoutId held member checksum
    rcases delivering.stored checkoutId held member checksum with has | out
    · exact .inl (has.of_other running nofun)
    · exact .inr out
  · intro checkoutId held member
    rcases delivering.current checkoutId held member with pending | has | now
    · exact .inl pending
    · exact .inr (.inl (has.of_other running nofun))
    · exact .inr (.inr now)

theorem Delivering.syncStep {captured : Option DiffSnapshot} {posted : Bool}
    (delivering : engine.Delivering) (sound : engine.Sound)
    (succeeds : engine.succeeds (.sync syncer captured posted))
    (keepsUp : engine.keepsUp (.sync syncer captured posted))
    (stepped : engine.syncStep syncer captured posted = some after) : after.Delivering := by
  unfold Engine.syncStep at stepped
  cases running : engine.syncs syncer with
  | none => simp [running] at stepped
  | some sync =>
      have succeeds := succeeds sync running
      have keepsUp := keepsUp sync running
      obtain ⟨entry, stage⟩ := sync
      simp only [running] at stepped
      cases stage <;> try dsimp only at stepped succeeds keepsUp
      case discarding =>
        cases syncer with
        | task entry => simp at stepped
        | discard number =>
            cases free : engine.discardLock with
            | some holder => simp [free] at stepped
            | none =>
                simp only [free, Option.some.injEq] at stepped
                cases stepped
                have started := delivering.goOn running .capturing rfl rfl (fun never => by cases never) (fun never => by cases never)
                have synced := started.update entry (fun held => { held with synced := true }) rfl rfl
                  rfl .inl
                exact synced.congr rfl rfl rfl rfl rfl rfl rfl
      case capturing =>
        cases captured with
        | none => cases succeeds
        | some snapshot =>
            cases stepped
            exact delivering.goOn running _ rfl rfl (fun never => by cases never) fun _ => rfl
      case failed =>
        split at stepped <;> cases stepped
        rw [publishStatus_frame]
        have ended := delivering.finish sound running rfl (fun never => by cases never) (fun never => by cases never)
        cases syncer <;> exact ended.congr rfl rfl rfl rfl rfl rfl rfl
      case captured snapshot =>
        have compared := delivering.goOn running (.comparing snapshot) rfl rfl (fun never => by cases never) fun _ => rfl
        split at stepped
        · cases stepped
          exact compared
        · split at stepped <;> cases stepped
          rw [publishStatus_frame]
          exact compared.congr rfl rfl rfl rfl rfl rfl rfl
      case comparing snapshot =>
        split at stepped <;> cases stepped
        · rename_i unchanged
          apply delivering.finish sound running rfl (fun never => by cases never)
          intro _ checkoutId member
          obtain ⟨rfl, _⟩ := delivering.named checkoutId entry member
          right
          rcases delivering.stored _ entry member (by rw [unchanged]; rfl) with
            ⟨other, sync, going, here, stage⟩ | ⟨last, published, here⟩
          · -- another sync has stored the checksum and will publish
            refine .inl ⟨other, sync, ?_, going, here, ?_⟩
            · rintro rfl
              rw [going] at running
              cases running
              cases stage
            · cases committed : sync.stage <;>
                simp [committed, SyncStage.committed, SyncStage.unpublished] at stage ⊢
          · refine .inr fun other stands => ?_
            obtain rfl : other = last := Option.some.inj (stands.symm.trans published)
            exact ⟨here, fun recipients addressed =>
              keepsUp member unchanged other published recipients addressed⟩
        · exact delivering.goOn running _ rfl rfl (fun never => by cases never) fun _ => rfl
      case storing snapshot =>
        cases stepped
        have checking := delivering.goOn running (.checking snapshot) rfl rfl (fun never => by cases never) fun _ => rfl
        refine (checking.store entry snapshot.checksum ?_).congr rfl rfl rfl rfl rfl rfl rfl
        exact ⟨syncer, _, Function.update_self .., rfl, rfl⟩
      case checking snapshot =>
        split at stepped
        · split at stepped <;> cases stepped
          · exact delivering.goOn running _ rfl rfl (fun _ => rfl) fun _ => rfl
          · rename_i closed
            have untracked : ∀ checkoutId, (checkoutId, entry) ∉ engine.entries := by
              intro checkoutId member
              apply closed
              rw [(delivering.named checkoutId entry member).1]
              exact List.mem_map_of_mem member
            exact delivering.finish sound running rfl (fun _ => untracked)
              fun _ checkoutId member => absurd member (untracked checkoutId)
        · cases stepped
      case sampling snapshot =>
        split at stepped <;> cases stepped
        exact delivering.goOn running _ rfl rfl (fun _ => rfl) fun _ => rfl
      case publishing snapshot live =>
        cases stepped
        exact (delivering.publish running keepsUp).congr rfl rfl rfl rfl rfl rfl rfl
      case published snapshot =>
        cases stepped
        exact delivering.address running
      case posting snapshot left =>
        cases left with
        | nil =>
            cases stepped
            exact delivering.finish sound running rfl (fun never => by cases never) (fun never => by cases never)
        | cons chat left =>
            cases stepped
            have posted : posted = true := succeeds
            rw [if_pos posted]
            exact delivering.post running
      case discarded =>
        cases stepped
        have dropped := delivering.setSync syncer none
          (fun other going => by rw [running] at going; cases going; rfl) (fun sync going => by simp at going)
          (fun other going stage => by rw [running] at going; cases going; cases stage)
          (fun other going stage => by rw [running] at going; cases going; cases stage)
        exact (dropped.kick entry).congr rfl rfl rfl rfl rfl rfl rfl

end Engine

end Zeron.Diff
