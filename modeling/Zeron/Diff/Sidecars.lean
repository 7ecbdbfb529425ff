import Zeron.Diff.Kicks

namespace Zeron.Diff

open Zeron.Data

/-! # Sidecars of the tracked chats

A publication is sent to the chats its entry has when they are read.  A chat that
joins later is sent one by the sync its kick leads to, if that sync publishes.
-/

/-- A sync that may still publish. -/
def SyncStage.unpublished : SyncStage → Bool
  | .capturing | .captured _ | .comparing _ | .storing _ | .checking _ | .sampling _
  | .publishing _ _ => true
  | _ => false

/-- A sync whose checksum is stored and whose diff is not out. -/
def SyncStage.committed : SyncStage → Bool
  | .checking _ | .sampling _ | .publishing _ _ => true
  | _ => false

/-- A sync with chats to read or to post to. -/
def SyncStage.delivers : SyncStage → Bool
  | .published _ | .posting _ (_ :: _) => true
  | _ => false

/-- Whether what an await of the stage gives is a success. -/
def SyncStage.succeeds (stage : SyncStage) (captured : Option DiffSnapshot) (posted : Bool) : Bool :=
  match stage with
  | .capturing => captured.isSome
  | .posting _ (_ :: _) => posted
  | _ => true

/-- Whether a `sync_entry` is running. -/
def SyncStage.running : SyncStage → Bool
  | .discarding | .discarded => false
  | _ => true

/-- A kick is on its way to a sync. -/
def CheckoutEntry.Pending (held : CheckoutEntry) (clearing catchingUp joining : Bool) : Prop :=
  0 < held.kicks ∨ held.task = .debouncing ∨ held.task = .settled ∨ held.task = .skipping ∨
    catchingUp = true ∨ joining = true ∨
    held.skippedWhileOrphaned = true ∧ (held.orphanedSince.isSome ∨ clearing = true)

namespace Engine

/-- The pass has given the entry a new chat and kicks it next. -/
def joining (engine : Engine) (entry : Nat) : Bool :=
  match engine.pass.map Pass.stage with
  | some (.joining joined _) => joined = entry
  | _ => false

def Pending (engine : Engine) (entry : Nat) : Prop :=
  (engine.arena entry).Pending (engine.clearing entry) (engine.catchingUp entry)
    (engine.joining entry)

/-- A sync of the entry at some stage. -/
def Has (engine : Engine) (entry : Nat) (stages : SyncStage → Bool) : Prop :=
  ∃ syncer sync, engine.syncs syncer = some sync ∧ sync.entry = entry ∧ stages sync.stage = true

/-- The last publication is the entry's, and was read for the chats it has. -/
def Current (engine : Engine) (checkoutId : String) (entry : Nat) : Prop :=
  ∀ last, engine.publications checkoutId = some last → last.entry = entry ∧
    ∀ recipients, last.recipients = some recipients → (engine.arena entry).chats ⊆ recipients

/-- With nothing queued or running, every chat of a tracked checkout has been sent the patch and
the files of its last publication. -/
def Served (engine : Engine) : Prop :=
  ∀ checkoutId entry, (checkoutId, entry) ∈ engine.entries →
    (engine.arena entry).orphanedSince = none → (engine.arena entry).task = .waiting →
    (engine.arena entry).kicks = 0 → engine.pass = none →
    (∀ syncer sync, engine.syncs syncer = some sync → sync.stage.running = false) →
    ∀ last, engine.publications checkoutId = some last → ∀ chat ∈ (engine.arena entry).chats,
      ∃ sidecar ∈ engine.sent, sidecar.chatId = chat ∧ sidecar.patch = last.snapshot.patch ∧
        sidecar.files = last.snapshot.files

/-- What every run keeps of entries, publications and sidecars. -/
structure Delivering (engine : Engine) : Prop where
  named : ∀ checkoutId entry, (checkoutId, entry) ∈ engine.entries →
    (engine.arena entry).checkout = checkoutId ∧ entry < engine.created
  distinct : (engine.entries.map Prod.fst).Nodup
  born : ∀ syncer sync, engine.syncs syncer = some sync → sync.entry < engine.created
  unread : ∀ checkoutId last, engine.publications checkoutId = some last →
    last.recipients = none → engine.syncs last.syncer = some ⟨last.entry, .published last.snapshot⟩ ∧
      (engine.arena last.entry).checkout = checkoutId
  read : ∀ checkoutId last, engine.publications checkoutId = some last →
    ∀ recipients, last.recipients = some recipients → ∀ chat ∈ recipients,
      last.snapshot.sidecar chat ∈ engine.sent ∨ ∃ left, chat ∈ left ∧
        engine.syncs last.syncer = some ⟨last.entry, .posting last.snapshot left⟩
  latest : ∀ syncer entry snapshot, engine.syncs syncer = some ⟨entry, .published snapshot⟩ →
    ∀ last, engine.publications (engine.arena entry).checkout = some last →
      last.syncer = syncer → last.recipients = none
  stored : ∀ checkoutId entry, (checkoutId, entry) ∈ engine.entries →
    (engine.arena entry).checksum.isSome → engine.Has entry SyncStage.committed ∨
      ∃ last, engine.publications checkoutId = some last ∧ last.entry = entry
  current : ∀ checkoutId entry, (checkoutId, entry) ∈ engine.entries →
    engine.Pending entry ∨ engine.Has entry SyncStage.unpublished ∨ engine.Current checkoutId entry

/-! ## The condition -/

/-- Captures and posts succeed. -/
def succeeds (engine : Engine) : Action → Prop
  | .sync syncer captured posted => ∀ sync ∈ engine.syncs syncer,
      sync.stage.succeeds captured posted = true
  | _ => True

/-- A sync that finds the checksum unchanged does so with no chat that has joined since the last
publication read the chats; and it publishes only while its entry is the tracked one. -/
def keepsUpAt (engine : Engine) (sync : Sync) : Prop :=
  let held := engine.arena sync.entry
  match sync.stage with
  | .comparing snapshot => (held.checkout, sync.entry) ∈ engine.entries →
      held.checksum = some snapshot.checksum →
      ∀ last ∈ engine.publications held.checkout, ∀ recipients ∈ last.recipients,
        held.chats ⊆ recipients
  | .publishing _ _ => ∀ tracked ∈ engine.entries, tracked.1 = held.checkout →
      tracked.2 = sync.entry
  | _ => True

def keepsUp (engine : Engine) : Action → Prop
  | .sync syncer _ _ => ∀ sync ∈ engine.syncs syncer, engine.keepsUpAt sync
  | _ => True

instance (engine : Engine) : (action : Action) → Decidable (engine.succeeds action)
  | .sync syncer captured posted => inferInstanceAs
      (Decidable (∀ sync ∈ engine.syncs syncer, sync.stage.succeeds captured posted = true))
  | .kick _ | .task _ | .timeout _ | .close _ | .discard _ _ | .reconcile _ _ _ | .pass _ =>
      .isTrue trivial

instance (engine : Engine) (sync : Sync) : Decidable (engine.keepsUpAt sync) := by
  unfold keepsUpAt
  dsimp only
  split <;> infer_instance

instance (engine : Engine) : (action : Action) → Decidable (engine.keepsUp action)
  | .sync syncer _ _ => inferInstanceAs
      (Decidable (∀ sync ∈ engine.syncs syncer, engine.keepsUpAt sync))
  | .kick _ | .task _ | .timeout _ | .close _ | .discard _ _ | .reconcile _ _ _ | .pass _ =>
      .isTrue trivial

variable {engine after : Engine} {syncer : Syncer}

/-- Where every kick and every sync has come to rest, the chats have been served. -/
theorem Delivering.served (delivering : engine.Delivering) : engine.Served := by
  intro checkoutId entry tracked orphaned task kicks idle quiet last published chat member
  have resting : ∀ syncer sync, engine.syncs syncer = some sync →
      sync.stage = .discarding ∨ sync.stage = .discarded := by
    intro syncer sync going
    have still := quiet syncer sync going
    cases stage : sync.stage <;> simp [stage, SyncStage.running] at still ⊢
  have current : engine.Current checkoutId entry := by
    rcases delivering.current checkoutId entry tracked with pending | ⟨syncer, sync, going, _, stage⟩ | now
    · simp [Pending, CheckoutEntry.Pending, clearing, catchingUp, joining, orphaned, task, kicks,
        idle] at pending
    · rcases resting syncer sync going with rest | rest <;>
        simp [rest, SyncStage.unpublished] at stage
    · exact now
  obtain ⟨_, read⟩ := current last published
  cases recipients : last.recipients with
  | none =>
      obtain ⟨going, _⟩ := delivering.unread checkoutId last published recipients
      rcases resting _ _ going with rest | rest <;> cases rest
  | some chats =>
      rcases delivering.read checkoutId last published chats recipients chat
        (read chats recipients member) with sent | ⟨left, _, going⟩
      · exact ⟨_, sent, rfl, rfl, rfl⟩
      · rcases resting _ _ going with rest | rest <;> cases rest

/-! ## Steps that neither run a sync nor add an entry -/

theorem Delivering.frame (delivering : engine.Delivering)
    (entries : after.entries.Sublist engine.entries) (created : after.created = engine.created)
    (syncs : after.syncs = engine.syncs) (publications : after.publications = engine.publications)
    (sent : after.sent = engine.sent)
    (held : ∀ entry, (after.arena entry).checkout = (engine.arena entry).checkout ∧
      (after.arena entry).checksum = (engine.arena entry).checksum)
    (tracked : ∀ checkoutId entry, (checkoutId, entry) ∈ after.entries →
      (engine.Pending entry → after.Pending entry ∨ engine.Has entry SyncStage.unpublished) ∧
        ((after.arena entry).chats ⊆ (engine.arena entry).chats ∨ after.Pending entry)) :
    after.Delivering := by
  have has : ∀ entry stages, engine.Has entry stages → after.Has entry stages := by
    intro entry stages has
    simpa only [Has, syncs] using has
  constructor
  · intro checkoutId entry member
    rw [(held entry).1, created]
    exact delivering.named checkoutId entry (entries.subset member)
  · exact delivering.distinct.sublist (entries.map _)
  · rw [syncs, created]
    exact delivering.born
  · rw [syncs, publications]
    intro checkoutId last published recipients
    rw [(held last.entry).1]
    exact delivering.unread checkoutId last published recipients
  · rw [syncs, publications, sent]
    exact delivering.read
  · rw [syncs, publications]
    intro syncer entry snapshot going
    rw [(held entry).1]
    exact delivering.latest syncer entry snapshot going
  · intro checkoutId entry member checksum
    rw [(held entry).2] at checksum
    rcases delivering.stored checkoutId entry (entries.subset member) checksum with going | out
    · exact .inl (has entry _ going)
    · exact .inr (publications ▸ out)
  · intro checkoutId entry member
    obtain ⟨pending, chats⟩ := tracked checkoutId entry member
    rcases delivering.current checkoutId entry (entries.subset member) with was | going | now
    · rcases pending was with still | going
      · exact .inl still
      · exact .inr (.inl (has entry _ going))
    · exact .inr (.inl (has entry _ going))
    · rcases chats with fewer | joined
      · refine .inr (.inr fun last published => ?_)
        obtain ⟨own, read⟩ := now last (publications ▸ published)
        exact ⟨own, fun recipients addressed => List.Subset.trans fewer (read recipients addressed)⟩
      · exact .inl joined

theorem Delivering.congr (delivering : engine.Delivering) (entries : after.entries = engine.entries)
    (created : after.created = engine.created) (syncs : after.syncs = engine.syncs)
    (publications : after.publications = engine.publications) (sent : after.sent = engine.sent)
    (arena : after.arena = engine.arena) (pass : after.pass = engine.pass) : after.Delivering := by
  refine delivering.frame (entries ▸ List.Sublist.refl _) created syncs publications sent
    (fun entry => by simp [arena]) fun checkoutId entry _ =>
      ⟨fun pending => .inl ?_, .inl (by simp [arena])⟩
  simpa only [Pending, clearing, catchingUp, joining, arena, pass] using pending

/-- A change of one entry under which a kick stays on its way. -/
theorem Delivering.update (delivering : engine.Delivering) (entry : Nat)
    (change : CheckoutEntry → CheckoutEntry)
    (checkout : (change (engine.arena entry)).checkout = (engine.arena entry).checkout)
    (checksum : (change (engine.arena entry)).checksum = (engine.arena entry).checksum)
    (chats : (change (engine.arena entry)).chats = (engine.arena entry).chats)
    (pending : engine.Pending entry → (change (engine.arena entry)).Pending (engine.clearing entry)
        (engine.catchingUp entry) (engine.joining entry) ∨ engine.Has entry SyncStage.unpublished) :
    (engine.update entry change).Delivering := by
  refine @Delivering.frame _ (engine.update entry change) delivering (List.Sublist.refl _) rfl rfl rfl
    rfl ?_ ?_
  · intro other
    rw [arena_update]
    split
    · rename_i same
      subst same
      exact ⟨checkout, checksum⟩
    · exact ⟨rfl, rfl⟩
  · intro checkoutId other _
    unfold Pending
    rw [arena_update]
    split
    · rename_i same
      subst same
      exact ⟨pending, .inl (chats ▸ List.Subset.refl _)⟩
    · exact ⟨.inl, .inl (List.Subset.refl _)⟩

theorem Delivering.kick (delivering : engine.Delivering) (entry : Nat) :
    (engine.kick entry).Delivering :=
  delivering.update entry _ rfl rfl rfl fun _ => .inl (.inl (Nat.succ_pos _))

/-! ## Steps of a sync without a delivery -/

/-- A sync whose stage changes outside its deliveries. -/
theorem Delivering.setSync (delivering : engine.Delivering) (syncer : Syncer) (next : Option Sync)
    (was : ∀ sync, engine.syncs syncer = some sync → sync.stage.delivers = false)
    (is : ∀ sync ∈ next, sync.stage.delivers = false ∧ sync.entry < engine.created)
    (committed : ∀ sync, engine.syncs syncer = some sync → sync.stage.committed = true →
      (∃ goes ∈ next, goes.entry = sync.entry ∧ goes.stage.committed = true) ∨
        ∀ checkoutId, (checkoutId, sync.entry) ∉ engine.entries)
    (unpublished : ∀ sync, engine.syncs syncer = some sync → sync.stage.unpublished = true →
      (∃ goes ∈ next, goes.entry = sync.entry ∧ goes.stage.unpublished = true) ∨
        ∀ checkoutId, (checkoutId, sync.entry) ∈ engine.entries → engine.Pending sync.entry ∨
          (∃ other going, other ≠ syncer ∧ engine.syncs other = some going ∧
            going.entry = sync.entry ∧ going.stage.unpublished = true) ∨
          engine.Current checkoutId sync.entry) :
    (engine.setSync syncer next).Delivering := by
  have delivers : ∀ other entry stage, engine.syncs other = some ⟨entry, stage⟩ →
      stage.delivers = true → (engine.setSync syncer next).syncs other = some ⟨entry, stage⟩ := by
    intro other entry stage going delivers
    by_cases same : other = syncer
    · subst same
      have still := was _ going
      simp [delivers] at still
    · rw [← going]
      exact Function.update_of_ne same ..
  have stays : ∀ entry (stages : SyncStage → Bool), engine.Has entry stages →
      (∀ sync, engine.syncs syncer = some sync → sync.entry = entry → stages sync.stage = true →
        (∃ goes ∈ next, goes.entry = sync.entry ∧ stages goes.stage = true)) →
      (engine.setSync syncer next).Has entry stages := by
    rintro entry stages ⟨other, sync, going, here, stage⟩ follows
    by_cases same : other = syncer
    · subst same
      obtain ⟨goes, new, there, later⟩ := follows sync going here stage
      exact ⟨other, goes, by simpa [Engine.setSync] using new, there.trans here, later⟩
    · exact ⟨other, sync, by rw [← going]; exact Function.update_of_ne same .., here, stage⟩
  constructor
  · exact delivering.named
  · exact delivering.distinct
  · intro other sync going
    by_cases same : other = syncer
    · subst same
      exact (is sync (by simpa [Engine.setSync] using going)).2
    · exact delivering.born other sync (by rw [← going]; exact (Function.update_of_ne same ..).symm)
  · intro checkoutId last published recipients
    obtain ⟨going, checkout⟩ := delivering.unread checkoutId last published recipients
    exact ⟨delivers _ _ _ going rfl, checkout⟩
  · intro checkoutId last published recipients read chat member
    rcases delivering.read checkoutId last published recipients read chat member with
      sent | ⟨left, waiting, going⟩
    · exact .inl sent
    · refine .inr ⟨left, waiting, delivers _ _ _ going ?_⟩
      cases left with
      | nil => cases waiting
      | cons _ _ => rfl
  · intro other entry snapshot going
    by_cases same : other = syncer
    · subst same
      have quiet := (is ⟨entry, .published snapshot⟩ (by simpa [Engine.setSync] using going)).1
      cases quiet
    · exact delivering.latest other entry snapshot
        (by rw [← going]; exact (Function.update_of_ne same ..).symm)
  · intro checkoutId entry member checksum
    rcases delivering.stored checkoutId entry member checksum with has | out
    · left
      apply stays entry _ has
      intro sync going here stage
      rcases committed sync going stage with follows | untracked
      · exact follows
      · exact absurd (here ▸ member) (untracked checkoutId)
    · exact .inr out
  · intro checkoutId entry member
    rcases delivering.current checkoutId entry member with pending | has | now
    · exact .inl pending
    · by_cases mine : ∃ sync, engine.syncs syncer = some sync ∧ sync.entry = entry ∧
        sync.stage.unpublished = true
      · obtain ⟨sync, going, rfl, stage⟩ := mine
        rcases unpublished sync going stage with ⟨goes, new, here, later⟩ | rest
        · exact .inr (.inl ⟨syncer, goes, by simpa [Engine.setSync] using new, here, later⟩)
        · rcases rest checkoutId member with pending | ⟨other, sync', different, running, here, later⟩ | now
          · exact .inl pending
          · exact .inr (.inl ⟨other, sync', by rw [← running]; exact Function.update_of_ne different ..,
              here, later⟩)
          · exact .inr (.inr now)
      · right
        left
        apply stays entry _ has
        intro sync going here stage
        exact absurd ⟨sync, going, here, stage⟩ mine
    · exact .inr (.inr now)

theorem Delivering.goOn (delivering : engine.Delivering) {sync : Sync}
    (running : engine.syncs syncer = some sync) (stage : SyncStage)
    (was : sync.stage.delivers = false) (is : stage.delivers = false)
    (committed : sync.stage.committed = true → stage.committed = true)
    (unpublished : sync.stage.unpublished = true → stage.unpublished = true) :
    (engine.setSync syncer (some { sync with stage })).Delivering := by
  have only : ∀ other, engine.syncs syncer = some other → other = sync := fun other going =>
    Option.some.inj (going.symm.trans running)
  apply delivering.setSync
  · intro other going
    rw [only other going]
    exact was
  · rintro _ ⟨⟩
    exact ⟨is, delivering.born syncer sync running⟩
  · intro other going before
    rw [only other going] at before ⊢
    exact .inl ⟨_, rfl, rfl, committed before⟩
  · intro other going before
    rw [only other going] at before ⊢
    exact .inl ⟨_, rfl, rfl, unpublished before⟩

/-- The end of a sync that owes nothing to a tracked entry. -/
theorem Delivering.finish (delivering : engine.Delivering) (sound : engine.Sound) {sync : Sync}
    (running : engine.syncs syncer = some sync) (was : sync.stage.delivers = false)
    (committed : sync.stage.committed = true → ∀ checkoutId,
      (checkoutId, sync.entry) ∉ engine.entries)
    (unpublished : sync.stage.unpublished = true → ∀ checkoutId,
      (checkoutId, sync.entry) ∈ engine.entries → engine.Pending sync.entry ∨
        (∃ other going, other ≠ syncer ∧ engine.syncs other = some going ∧
          going.entry = sync.entry ∧ going.stage.unpublished = true) ∨
        engine.Current checkoutId sync.entry) :
    (engine.finish syncer sync).Delivering := by
  have only : ∀ other, engine.syncs syncer = some other → other = sync := fun other going =>
    Option.some.inj (going.symm.trans running)
  have ended : ∀ next : Option Sync, (∀ goes ∈ next, goes.stage.delivers = false ∧
      goes.entry < engine.created) → (engine.setSync syncer next).Delivering := by
    intro next is
    apply delivering.setSync syncer next _ is
    · intro other going before
      rw [only other going] at before ⊢
      exact .inr (committed before)
    · intro other going before
      rw [only other going] at before ⊢
      exact .inr (unpublished before)
    · intro other going
      rw [only other going]
      exact was
  cases syncer with
  | discard number =>
      apply ended
      rintro _ ⟨⟩
      exact ⟨rfl, delivering.born _ sync running⟩
  | task entry =>
      obtain ⟨task, _⟩ := sound.running entry sync running
      refine (ended none (by intros; contradiction)).update entry (fun held => { held with task := .waiting }) rfl rfl rfl
        fun pending => .inl ?_
      simp only [Pending, CheckoutEntry.Pending, setSync_arena, task] at pending ⊢
      simpa using pending

/-- The checksum of an entry, set by a sync that has its diff to send. -/
theorem Delivering.store (delivering : engine.Delivering) (entry : Nat) (checksum : String)
    (has : engine.Has entry SyncStage.committed) :
    (engine.update entry fun held => { held with checksum := some checksum }).Delivering := by
  have arena : ∀ other, ((engine.update entry fun held =>
      { held with checksum := some checksum }).arena other).checkout = (engine.arena other).checkout := by
    intro other
    rw [arena_update]
    split
    · rename_i same
      rw [same]
    · rfl
  constructor
  · intro checkoutId other member
    rw [arena]
    exact delivering.named checkoutId other member
  · exact delivering.distinct
  · exact delivering.born
  · intro checkoutId last published recipients
    rw [arena]
    exact delivering.unread checkoutId last published recipients
  · exact delivering.read
  · intro syncer other snapshot going
    rw [arena]
    exact delivering.latest syncer other snapshot going
  · intro checkoutId other member some
    by_cases same : other = entry
    · exact .inl (same ▸ has)
    · rw [arena_update, if_neg same] at some
      exact delivering.stored checkoutId other member some
  · intro checkoutId other member
    have was := delivering.current checkoutId other member
    unfold Pending Current at was ⊢
    rw [arena_update]
    split
    · rename_i same
      subst same
      exact was
    · exact was

end Engine

end Zeron.Diff
