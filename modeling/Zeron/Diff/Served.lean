import Zeron.Diff.Channels
import Zeron.Diff.Deliveries

namespace Zeron.Diff

open Zeron.Data

/-! # Every tracked chat is served

A pass that brings a chat in kicks its entry; the sync that answers publishes only
what differs from the last checksum.
-/

namespace Engine

variable {engine after : Engine} {syncer : Syncer}

theorem Delivering.taskStep (delivering : engine.Delivering) (sound : engine.Sound) {entry : Nat}
    (inTime : engine.flagsInTime (.task entry)) (stepped : engine.taskStep entry = some after) : after.Delivering := by
  unfold Engine.taskStep at stepped
  cases task : (engine.arena entry).task <;> simp only [task] at stepped
  case waiting | debouncing =>
    split at stepped <;> cases stepped
    exact delivering.update entry (fun held => { held with kicks := held.kicks - 1, task := .debouncing })
      rfl rfl rfl fun _ => .inl (by simp [CheckoutEntry.Pending])
  case settled =>
    split at stepped <;> cases stepped
    · exact delivering.update entry (fun held => { held with task := .skipping }) rfl rfl rfl
        fun _ => .inl (by simp [CheckoutEntry.Pending])
    · -- the kick goes over to the sync
      have idle : engine.syncs (.task entry) = none := by
        cases going : engine.syncs (.task entry) with
        | none => rfl
        | some sync =>
            have busy := (sound.running entry sync going).1
            rw [task] at busy
            cases busy
      have tracks : entry < engine.created := by
        by_contra unborn
        have ended := sound.unborn entry (Nat.le_of_not_lt unborn)
        rw [task] at ended
        cases ended
      have started := delivering.setSync (.task entry) (some ⟨entry, .capturing⟩)
        (fun sync going => by rw [idle] at going; cases going)
        (by rintro _ ⟨⟩; exact ⟨rfl, tracks⟩)
        (fun sync going => by rw [idle] at going; cases going)
        (fun sync going => by rw [idle] at going; cases going)
      refine started.update entry (fun held => { held with task := .syncing, synced := true })
        rfl rfl rfl fun _ => .inr ⟨_, _, Function.update_self .., rfl, rfl⟩
  case skipping =>
    cases stepped
    refine delivering.update entry (fun held =>
      { held with task := .waiting, skippedWhileOrphaned := true }) rfl rfl rfl fun _ => .inl ?_
    have stored := inTime task
    simp only [CheckoutEntry.Pending]
    tauto
  case syncing | ended => cases stepped

/-- A new entry, with its first kick to come. -/
theorem Delivering.create (delivering : engine.Delivering) {checkoutId : String} {chats : List String}
    {pass : Pass} {left : List (String × List String)}
    (fresh : engine.entries.lookup checkoutId = none)
    (joins : pass.stage = .joining engine.created left) (quiet : ∀ entry,
      engine.clearing entry = false ∧ engine.catchingUp entry = false ∧ engine.joining entry = false) :
    ({ engine.update engine.created fun _ => { checkout := checkoutId, chats } with
        entries := (checkoutId, engine.created) :: engine.entries
        created := engine.created + 1
        pass := some pass } : Engine).Delivering := by
  have older : ∀ entry, entry < engine.created → (engine.update engine.created fun _ =>
      { checkout := checkoutId, chats }).arena entry = engine.arena entry := by
    intro entry before
    rw [arena_update, if_neg (Nat.ne_of_lt before)]
  have absent : checkoutId ∉ engine.entries.map Prod.fst := by
    intro member
    obtain ⟨tracked, inside, rfl⟩ := List.mem_map.mp member
    have different := List.lookup_eq_none_iff.mp fresh tracked inside
    simp at different
  constructor
  · intro other entry member
    rcases List.mem_cons.mp member with here | before
    · cases here
      exact ⟨by simp [arena_update], Nat.lt_succ_self _⟩
    · obtain ⟨named, born⟩ := delivering.named other entry before
      exact ⟨by rw [older entry born]; exact named, Nat.lt_succ_of_lt born⟩
  · exact List.nodup_cons.mpr ⟨absent, delivering.distinct⟩
  · exact fun syncer sync going => Nat.lt_succ_of_lt (delivering.born syncer sync going)
  · intro other last published recipients
    obtain ⟨going, checkout⟩ := delivering.unread other last published recipients
    exact ⟨going, by rw [older _ (delivering.born _ _ going)]; exact checkout⟩
  · exact delivering.read
  · intro syncer entry snapshot going last published
    rw [older entry (delivering.born _ _ going)] at published
    exact delivering.latest syncer entry snapshot going last published
  · intro other entry member checksum
    rcases List.mem_cons.mp member with here | before
    · cases here
      simp [arena_update] at checksum
    · rw [older entry (delivering.named other entry before).2] at checksum
      exact delivering.stored other entry before checksum
  · intro other entry member
    rcases List.mem_cons.mp member with here | before
    · cases here
      left
      simp [Pending, CheckoutEntry.Pending, joining, joins]
    · have born := (delivering.named other entry before).2
      obtain ⟨clears, returns, joined⟩ := quiet entry
      rcases delivering.current other entry before with pending | has | now
      · left
        have younger : engine.created ≠ entry := Nat.ne_of_gt born
        simp only [Pending, older entry born, clears, returns, joined] at pending ⊢
        simpa [clearing, catchingUp, joining, joins, younger] using pending
      · exact .inr (.inl has)
      · refine .inr (.inr fun last published => ?_)
        rw [older entry born]
        exact now last published

/-- An entry given its chats of the pass. -/
theorem Delivering.rejoin (delivering : engine.Delivering) {entry : Nat} {chats : List String}
    {pass : Pass} {left : List (String × List String)}
    (stage : pass.stage = if chats.any (· ∉ (engine.arena entry).chats) then
      .joining entry left else .updating left) (quiet : ∀ entry,
      engine.clearing entry = false ∧ engine.catchingUp entry = false ∧ engine.joining entry = false) :
    ({ engine.update entry fun held => { held with chats } with pass := some pass } :
      Engine).Delivering := by
  refine @Delivering.frame _ { engine.update entry fun held => { held with chats } with
    pass := some pass } delivering (.refl _) rfl rfl rfl rfl ?_ ?_
  · intro other
    rw [show ({ engine.update entry fun held => { held with chats } with pass := some pass } :
      Engine).arena = (engine.update entry fun held => { held with chats }).arena from rfl, arena_update]
    split
    · rename_i same
      subst same
      exact ⟨rfl, rfl⟩
    · exact ⟨rfl, rfl⟩
  · intro checkoutId other _
    obtain ⟨clears, returns, joined⟩ := quiet other
    unfold Pending
    rw [show ({ engine.update entry fun held => { held with chats } with pass := some pass } :
      Engine).arena = (engine.update entry fun held => { held with chats }).arena from rfl, arena_update]
    constructor
    · intro pending
      left
      rw [clears, returns, joined] at pending
      by_cases same : other = entry
      · subst same
        simp only [CheckoutEntry.Pending, if_true] at pending ⊢
        tauto
      · simp only [CheckoutEntry.Pending, if_neg same] at pending ⊢
        tauto
    · by_cases same : other = entry
      · subst same
        by_cases new : chats.any (· ∉ (engine.arena other).chats) = true
        · right
          rw [if_pos new] at stage
          simp [CheckoutEntry.Pending, joining, stage]
        · refine .inl fun chat member => ?_
          by_contra absent
          rw [if_pos rfl] at member
          exact new (List.any_eq_true.mpr ⟨chat, member, by simpa using absent⟩)
      · left
        rw [if_neg same]
        exact List.Subset.refl _

/-- What a change of an entry leaves of every entry. -/
theorem update_keeps (engine : Engine) (entry : Nat) (change : CheckoutEntry → CheckoutEntry)
    (checkout : (change (engine.arena entry)).checkout = (engine.arena entry).checkout)
    (checksum : (change (engine.arena entry)).checksum = (engine.arena entry).checksum)
    (chats : (change (engine.arena entry)).chats = (engine.arena entry).chats) (other : Nat) :
    ((engine.update entry change).arena other).checkout = (engine.arena other).checkout ∧
      ((engine.update entry change).arena other).checksum = (engine.arena other).checksum ∧
      ((engine.update entry change).arena other).chats = (engine.arena other).chats := by
  rw [arena_update]
  split
  · rename_i same
    subst same
    exact ⟨checkout, checksum, chats⟩
  · exact ⟨rfl, rfl, rfl⟩

theorem Delivering.passStep {grace : Nat} {order : List (String × Nat)}
    (delivering : engine.Delivering) (stepped : engine.passStep grace order = some after) :
    after.Delivering := by
  unfold Engine.passStep at stepped
  cases begun : engine.pass with
  | none => simp [begun] at stepped
  | some pass =>
      obtain ⟨groups, archived, now, stage⟩ := pass
      simp only [begun] at stepped
      -- a step that leaves the entries as they are, but for one it may kick or mark
      have goesOn : ∀ stepped : Engine, stepped.entries.Sublist engine.entries →
          stepped.created = engine.created → stepped.syncs = engine.syncs →
          stepped.publications = engine.publications → stepped.sent = engine.sent →
          (∀ entry, (stepped.arena entry).checkout = (engine.arena entry).checkout ∧
            (stepped.arena entry).checksum = (engine.arena entry).checksum ∧
            (stepped.arena entry).chats = (engine.arena entry).chats) →
          (∀ entry, engine.Pending entry → stepped.Pending entry) → stepped.Delivering := by
        intro stepped entries created syncs publications sent held pending
        refine delivering.frame entries created syncs publications sent
          (fun entry => ⟨(held entry).1, (held entry).2.1⟩) fun _ entry _ =>
            ⟨fun was => .inl (pending entry was), .inl ?_⟩
        rw [(held entry).2.2]
        exact List.Subset.refl _
      have same : ∀ entry, (engine.arena entry).checkout = (engine.arena entry).checkout ∧
          (engine.arena entry).checksum = (engine.arena entry).checksum ∧
          (engine.arena entry).chats = (engine.arena entry).chats := fun _ => ⟨rfl, rfl, rfl⟩
      cases stage <;> try dsimp only at stepped
      case grouped =>
        split at stepped <;> cases stepped
        exact goesOn _ (.refl _) rfl rfl rfl rfl same
          (fun _ => by simp [Pending, clearing, catchingUp, joining, begun])
      case visiting left removed =>
        cases left with
        | nil =>
            cases stepped
            refine goesOn _ List.filter_sublist rfl rfl rfl rfl same fun entry pending => ?_
            simp only [Pending, clearing, catchingUp, joining, begun] at pending
            by_cases none : removed = []
            · simpa [Pending, clearing, catchingUp, joining, none] using pending
            · simpa [Pending, clearing, catchingUp, joining, none] using pending
        | cons next left =>
            obtain ⟨checkoutId, entry⟩ := next
            dsimp only at stepped
            split at stepped
            · split at stepped <;> cases stepped
              · -- the mark is taken: the flag is read next
                refine goesOn _ (.refl _) rfl rfl rfl rfl
                  (engine.update_keeps entry (fun held => { held with orphanedSince := none })
                    rfl rfl rfl) fun other pending => ?_
                by_cases here : other = entry
                · subst here
                  simp [Pending, CheckoutEntry.Pending, arena_update, clearing, catchingUp, joining,
                    begun] at pending ⊢
                  tauto
                · simpa [Pending, arena_update, clearing, catchingUp, joining, begun, here,
                    Ne.symm here] using pending
              · exact goesOn _ (.refl _) rfl rfl rfl rfl same
                  (fun _ => by simp [Pending, clearing, catchingUp, joining, begun])
            · split at stepped
              · cases stepped
                exact goesOn _ (.refl _) rfl rfl rfl rfl same
                  (fun _ => by simp [Pending, clearing, catchingUp, joining, begun])
              · split at stepped <;> cases stepped
                · refine goesOn _ (.refl _) rfl rfl rfl rfl
                    (engine.update_keeps entry (fun held => { held with orphanedSince := some now })
                      rfl rfl rfl) fun other pending => ?_
                  by_cases here : other = entry
                  · subst here
                    simp [Pending, CheckoutEntry.Pending, arena_update, clearing, catchingUp,
                      joining, begun] at pending ⊢
                    tauto
                  · simpa [Pending, arena_update, clearing, catchingUp, joining, begun, here]
                      using pending
                · exact goesOn _ (.refl _) rfl rfl rfl rfl same
                    (fun _ => by simp [Pending, clearing, catchingUp, joining, begun])
      case cleared entry left removed =>
        split at stepped <;> cases stepped
        · refine goesOn _ (.refl _) rfl rfl rfl rfl
            (engine.update_keeps entry (fun held => { held with skippedWhileOrphaned := false })
              rfl rfl rfl) fun other pending => ?_
          by_cases here : other = entry
          · subst here
            simp [Pending, CheckoutEntry.Pending, catchingUp]
          · simpa [Pending, arena_update, clearing, catchingUp, joining, begun, here,
              Ne.symm here] using pending
        · rename_i clear
          refine goesOn _ (.refl _) rfl rfl rfl rfl same fun other pending => ?_
          by_cases here : other = entry
          · subst here
            simp [Pending, CheckoutEntry.Pending, clearing, catchingUp, joining, begun, clear]
              at pending ⊢
            tauto
          · simpa [Pending, clearing, catchingUp, joining, begun, Ne.symm here] using pending
      case catchingUp entry left removed | joining entry left =>
        cases stepped
        refine goesOn _ (.refl _) rfl rfl rfl rfl (engine.update_keeps entry
          (fun held => { held with kicks := held.kicks + 1, synced := false }) rfl rfl rfl)
          fun other pending => ?_
        by_cases here : other = entry
        · subst here
          simp [Pending, CheckoutEntry.Pending, arena_kick]
        · simpa [Pending, arena_kick, clearing, catchingUp, joining, begun, here, Ne.symm here]
            using pending
      case removed | sampled _ | diffsPublished | statusesSampled _ =>
        cases stepped
        exact goesOn _ (.refl _) rfl rfl rfl rfl same
          (fun _ => by simp [Pending, clearing, catchingUp, joining, begun])
      case updating left =>
        have quiet : ∀ entry, engine.clearing entry = false ∧ engine.catchingUp entry = false ∧
            engine.joining entry = false := by
          simp [clearing, catchingUp, joining, begun]
        cases left with
        | nil =>
            cases stepped
            exact goesOn _ (.refl _) rfl rfl rfl rfl same
              (fun _ => by simp [Pending, clearing, catchingUp, joining, begun])
        | cons group left =>
            obtain ⟨checkoutId, chats⟩ := group
            dsimp only at stepped
            split at stepped
            · cases stepped
              exact delivering.rejoin rfl quiet
            · rename_i fresh
              cases stepped
              exact delivering.create fresh rfl quiet

theorem Delivering.step {grace : Nat} {action : Action} (delivering : engine.Delivering)
    (sound : engine.Sound) (succeeds : engine.succeeds action) (inTime : engine.flagsInTime action)
    (keepsUp : engine.keepsUp action) (stepped : engine.step grace action = some after) :
    after.Delivering := by
  cases action <;> simp only [Engine.step] at stepped
  case kick entry =>
    split at stepped <;> cases stepped
    exact delivering.kick entry
  case task entry => exact delivering.taskStep sound inTime stepped
  case timeout entry =>
    unfold Engine.timeout at stepped
    split at stepped <;> cases stepped
    exact delivering.update entry (fun held => { held with task := .settled }) rfl rfl rfl
      fun _ => .inl (by simp [CheckoutEntry.Pending])
  case close entry =>
    unfold Engine.close at stepped
    dsimp only at stepped
    split at stepped <;> cases stepped
    rename_i closing
    refine @Delivering.frame _ (engine.update entry fun held => { held with task := .ended })
      delivering (.refl _) rfl rfl rfl rfl (fun other => ?_) fun checkoutId other member => ?_
    · have kept := engine.update_keeps entry (fun held => { held with task := .ended }) rfl rfl rfl other
      exact ⟨kept.1, kept.2.1⟩
    · have different : other ≠ entry := by
        rintro rfl
        exact closing.1 (List.mem_map_of_mem (f := Prod.snd) member)
      unfold Pending
      rw [arena_update, if_neg different]
      exact ⟨.inl, .inl (List.Subset.refl _)⟩
  case discard number checkoutId =>
    split at stepped
    · rename_i entry unused found
      split at stepped <;> cases stepped
      obtain ⟨front, back, split, _⟩ := List.lookup_eq_some_iff.mp found
      have tracked : (checkoutId, entry) ∈ engine.entries :=
        split ▸ List.mem_append_right _ List.mem_cons_self
      exact delivering.setSync (.discard number) (some ⟨entry, .discarding⟩)
        (fun sync going => by rw [unused] at going; cases going)
        (by rintro _ ⟨⟩; exact ⟨rfl, (delivering.named checkoutId entry tracked).2⟩)
        (fun sync going => by rw [unused] at going; cases going)
        (fun sync going => by rw [unused] at going; cases going)
    · cases stepped
  case sync syncer captured posted => exact delivering.syncStep sound succeeds keepsUp stepped
  case reconcile groups archived now =>
    split at stepped <;> cases stepped
    rename_i free
    have none : engine.pass = none := by simpa using free.1
    refine @Delivering.frame _ { engine with pass := some ⟨groups, archived, now, .grouped⟩ }
      delivering (.refl _) rfl rfl rfl rfl (fun _ => ⟨rfl, rfl⟩) fun _ entry _ =>
        ⟨fun pending => .inl ?_, .inl (List.Subset.refl _)⟩
    simpa [Pending, clearing, catchingUp, joining, none] using pending
  case pass order => exact delivering.passStep stepped

/-- With captures and posts that succeed, syncs that keep up with the chats serve them all. -/
theorem served_of_keepsUp (engine : Engine) (grace : Nat)
    (runs : Reaches (Engine.step grace) (fun engine action => engine.succeeds action ∧
      engine.flagsInTime action ∧ engine.keepsUp action) {} engine) : engine.Served := by
  have both : engine.Sound ∧ engine.Delivering := by
    apply runs.keeps
    · refine ⟨⟨?_, fun _ _ => rfl⟩, ⟨?_, List.nodup_nil, ?_, ?_, ?_, ?_, ?_, ?_⟩⟩ <;>
        intros <;> contradiction
    · intro before action after held permitted stepped
      exact ⟨held.1.step stepped, held.2.step held.1 permitted.1 permitted.2.1 permitted.2.2 stepped⟩
  exact both.2.served

end Engine

/-! ## A chat that joins -/

/-- Captures and posts succeed, flags are stored in time, and syncs keep up with the chats. -/
def Engine.inStep (engine : Engine) (action : Action) : Bool :=
  decide (engine.succeeds action ∧ engine.flagsInTime action ∧ engine.keepsUp action)

/-- A chat joins the tracked checkout. -/
def joined : List Action :=
  .reconcile [("checkout", ["chat", "other"])] [] 1 :: .pass [("checkout", 0)] ::
    List.replicate 5 (.pass []) ++ [.task 0, .timeout 0, .task 0]

/-- Nothing is queued or running, and two chats have the last of two publications. -/
def Engine.restsWithTwo (engine : Engine) : Bool :=
  decide (engine.entries = [("checkout", 0)] ∧ (engine.arena 0).chats = ["chat", "other"] ∧
    (engine.arena 0).orphanedSince = none ∧ (engine.arena 0).task = .waiting ∧
    (engine.arena 0).kicks = 0 ∧ engine.pass.isNone ∧ (engine.publications "checkout").isSome)

/-- The tree has changed when a chat joins. -/
theorem served_of_keepsUp_changed : ∃ engine : Engine, engine.restsWithTwo = true ∧ engine.Served := by
  have ran : (runAll (Engine.step 120) Engine.inStep {} (tracked ++ syncOnce (.task 0) "patch" ++
      joined ++ syncOnce (.task 0) "other patch" ++ (syncOnce (.task 0) "other patch").take 1)).map
      Engine.restsWithTwo = some true := by
    decide
  obtain ⟨engine, ran, held⟩ := Option.map_eq_some_iff.mp ran
  exact ⟨engine, held, engine.served_of_keepsUp 120
    ((reaches_of_runAll ran).mono fun _ _ inStep => of_decide_eq_true inStep)⟩

/-- A chat joins, and the sync that answers finds the tree as it was. -/
def joinedUnchanged : List Action :=
  tracked ++ syncOnce (.task 0) "patch" ++ joined ++ (syncOnce (.task 0) "patch").take 3

theorem quiet_joinedUnchanged (syncer : Syncer) :
    (runAll (Engine.step 120) (fun engine action => decide (engine.succeeds action)) {}
      joinedUnchanged).map (fun engine => (engine.syncs syncer).isNone) = some true := by
  cases syncer with
  | discard number => rfl
  | task entry => cases entry <;> rfl

/-- A chat joins a checkout whose tree does not change: it is sent nothing. -/
theorem not_served_of_unchanged : ∃ engine : Engine,
    Reaches (Engine.step 120) (fun engine action => engine.succeeds action) {} engine ∧
      ¬ engine.Served := by
  have ran : (runAll (Engine.step 120) (fun engine action => decide (engine.succeeds action)) {}
      joinedUnchanged).map (fun engine => decide (engine.restsWithTwo = true ∧
        engine.sent.map (·.chatId) = ["chat"])) = some true := by
    decide
  obtain ⟨engine, ran, held⟩ := Option.map_eq_some_iff.mp ran
  obtain ⟨rests, sent⟩ := of_decide_eq_true held
  obtain ⟨entries, chats, orphaned, task, kicks, idle, published⟩ := of_decide_eq_true rests
  refine ⟨engine, (reaches_of_runAll ran).mono fun _ _ succeeds => of_decide_eq_true succeeds,
    fun served => ?_⟩
  obtain ⟨last, published⟩ := Option.isSome_iff_exists.mp published
  have quiet : ∀ syncer sync, engine.syncs syncer = some sync → sync.stage.running = false := by
    intro syncer sync going
    have none := quiet_joinedUnchanged syncer
    rw [ran] at none
    simp [going] at none
  obtain ⟨sidecar, member, chat, _⟩ := served "checkout" 0 (entries ▸ List.mem_cons_self) orphaned task
    kicks (Option.isNone_iff_eq_none.mp idle) quiet last published "other" (by simp [chats])
  have listed : "other" ∈ engine.sent.map (·.chatId) := List.mem_map.mpr ⟨sidecar, member, chat⟩
  simp [sent] at listed

end Zeron.Diff
