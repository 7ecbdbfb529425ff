import Zeron.Data.Runs

namespace Zeron.Chat

open Zeron.Data

/-! # Coalesced snapshots

Tasks change a chat's document, raise its cursor and count the change; one flush at a time
writes the document with a cursor that was sampled before it was exported.  Every load,
store and document operation is one step, and the steps of the tasks come in any order.
-/

variable {change : Type}

/-- Where a task stands in a call. -/
inductive Caller (change : Type) where
  | idle
  /-- The document holds the row; `applied` is still to run. -/
  | imported (changes : List change) (cursor : Nat)
  /-- `applied` has raised the cursor. -/
  | raised (changes : List change)
  /-- The document changed; `dirty` is still to run. -/
  | changed (changes : List change)
  /-- `is_clean` has loaded `saved`. -/
  | asking (saved : Nat)

/-- What a task has put into the document and not yet counted. -/
def Caller.changes : Caller change → List change
  | .imported changes _ | .raised changes | .changed changes => changes
  | .idle | .asking _ => []

/-- Where `flush_sync` stands. -/
inductive Flush (change : Type) where
  | idle
  | locked
  | counted (generation : Nat)
  | sampled (generation cursor : Nat)
  | exported (generation cursor : Nat) (bytes : List change)
  | written (generation : Nat)

structure ChatPersistence (change : Type) where
  /-- The changes that the document holds, and so those that its export holds. -/
  doc : List change
  cursor : Nat
  generation : Nat
  saved : Nat
  callers : Nat → Caller change
  /-- The task that holds the write lock. -/
  flush : Flush change
  /-- Every snapshot written, the latest first. -/
  saves : List (List change × Nat)
  /-- The rows whose `applied` raised the cursor, and to what; nothing holds them. -/
  applies : List (Nat × List change)
  /-- What each call of `dirty` counted, the first first; nothing holds it. -/
  dirtied : List (List change)

inductive PersistAction (change : Type) where
  /-- `import_with`; a malformed row has no changes. -/
  | importRow (caller : Nat) (changes : List change) (cursor : Nat)
  /-- `persist_with_cursor` is called for an acknowledgement. -/
  | acknowledge (caller cursor : Nat)
  /-- A local commit, or what the document's subscription sees of an import. -/
  | commit (caller : Nat) (changes : List change)
  | fetchMax (caller : Nat)
  | fetchAdd (caller : Nat)
  | askSaved (caller : Nat)
  | askGeneration (caller : Nat)
  | lock
  | loadGeneration
  | loadCursor
  | exportSnapshot
  | save
  | storeSaved
  /-- The document is gone, or the export or the save failed. -/
  | giveUp

namespace ChatPersistence

def new (doc : List change) (cursor : Nat) : ChatPersistence change where
  doc := doc
  cursor := cursor
  generation := 0
  saved := 0
  callers _ := .idle
  flush := .idle
  saves := []
  applies := []
  dirtied := []

/-- What the last snapshot written holds. -/
def lastSaved (p : ChatPersistence change) : List change := (p.saves.head?.map Prod.fst).getD []

def moveTo (p : ChatPersistence change) (caller : Nat) (next : Caller change) :
    ChatPersistence change := { p with callers := Function.update p.callers caller next }

/-- `cursor.fetch_max`. -/
def fetchMax (p : ChatPersistence change) (changes : List change) (cursor : Nat) :
    ChatPersistence change :=
  { p with
    cursor := max p.cursor cursor
    applies := if p.cursor < cursor then (cursor, changes) :: p.applies else p.applies }

/-- `generation.fetch_add(1)`. -/
def fetchAdd (p : ChatPersistence change) (changes : List change) : ChatPersistence change :=
  { p with generation := p.generation + 1, dirtied := p.dirtied ++ [changes] }

def step (p : ChatPersistence change) : PersistAction change → Option (ChatPersistence change)
  | .importRow caller changes cursor =>
      match p.callers caller with
      | .idle => some (moveTo { p with doc := p.doc ++ changes } caller (.imported changes cursor))
      | _ => none
  | .acknowledge caller cursor =>
      match p.callers caller with
      | .idle => some (p.moveTo caller (.imported [] cursor))
      | _ => none
  | .commit caller changes =>
      match p.callers caller with
      | .idle => some (moveTo { p with doc := p.doc ++ changes } caller (.changed changes))
      | _ => none
  | .fetchMax caller =>
      match p.callers caller with
      | .imported changes cursor => some ((p.fetchMax changes cursor).moveTo caller (.raised changes))
      | _ => none
  | .fetchAdd caller =>
      match p.callers caller with
      | .raised changes | .changed changes => some ((p.fetchAdd changes).moveTo caller .idle)
      | _ => none
  | .askSaved caller =>
      match p.callers caller with
      | .idle => some (p.moveTo caller (.asking p.saved))
      | _ => none
  | .askGeneration caller =>
      match p.callers caller with
      | .asking _ => some (p.moveTo caller .idle)
      | _ => none
  | .lock =>
      match p.flush with
      | .idle => some { p with flush := .locked }
      | _ => none
  | .loadGeneration =>
      match p.flush with
      | .locked =>
          if p.generation = p.saved then some { p with flush := .idle }
          else some { p with flush := .counted p.generation }
      | _ => none
  | .loadCursor =>
      match p.flush with
      | .counted generation => some { p with flush := .sampled generation p.cursor }
      | _ => none
  | .exportSnapshot =>
      match p.flush with
      | .sampled generation cursor => some { p with flush := .exported generation cursor p.doc }
      | _ => none
  | .save =>
      match p.flush with
      | .exported generation cursor bytes =>
          some { p with flush := .written generation, saves := (bytes, cursor) :: p.saves }
      | _ => none
  | .storeSaved =>
      match p.flush with
      | .written generation => some { p with saved := generation, flush := .idle }
      | _ => none
  | .giveUp =>
      match p.flush with
      | .written _ => none
      | _ => some { p with flush := .idle }

/-- Any task may go on at any time. -/
def Any (_ : ChatPersistence change) (_ : PersistAction change) : Prop := True

/-- What `is_clean` returns when it loads the generation now. -/
def isClean (p : ChatPersistence change) (caller : Nat) : Bool :=
  match p.callers caller with
  | .asking saved => saved == p.generation
  | _ => false

/-! ## What holds throughout -/

/-- A snapshot with a cursor that it can vouch for. -/
structure Covers (p : ChatPersistence change) (bytes : List change) (cursor : Nat) : Prop where
  reached : cursor ≤ p.cursor
  rows : ∀ row ∈ p.applies, row.1 ≤ cursor → row.2 ⊆ bytes

/-- A snapshot holds what the first calls of `dirty` counted. -/
def Holds (p : ChatPersistence change) (generation : Nat) (bytes : List change) : Prop :=
  ∀ changes ∈ p.dirtied.take generation, changes ⊆ bytes

structure Counted (p : ChatPersistence change) (generation : Nat) : Prop where
  saved : p.saved ≤ generation
  reached : generation ≤ p.generation

def FlushHonest (p : ChatPersistence change) : Flush change → Prop
  | .idle | .locked => True
  | .counted generation => p.Counted generation
  | .sampled generation cursor => p.Counted generation ∧ cursor ≤ p.cursor
  | .exported generation cursor bytes =>
      p.Counted generation ∧ p.Covers bytes cursor ∧ p.Holds generation bytes
  | .written generation => p.Counted generation ∧ p.Holds generation p.lastSaved

structure Honest (p : ChatPersistence change) : Prop where
  applied : ∀ row ∈ p.applies, row.1 ≤ p.cursor ∧ row.2 ⊆ p.doc
  begun : ∀ caller, (p.callers caller).changes ⊆ p.doc
  asking : ∀ caller saved, p.callers caller = .asking saved → saved ≤ p.saved
  generation : p.generation = p.dirtied.length
  dirtied : ∀ changes ∈ p.dirtied, changes ⊆ p.doc
  flush : p.FlushHonest p.flush
  saves : ∀ save ∈ p.saves, p.Covers save.1 save.2
  saved : p.saved ≤ p.generation
  last : p.Holds p.saved p.lastSaved

theorem honest_new (doc : List change) (cursor : Nat) : Honest (new doc cursor) where
  applied := by simp [new]
  begun := by simp [new, Caller.changes]
  asking := by simp [new]
  generation := rfl
  dirtied := by simp [new]
  flush := trivial
  saves := by simp [new]
  saved := Nat.le_refl _
  last := by simp [new, Holds]

/-- The steps of the tasks: the document and the counters only grow. -/
structure Onward (before after : ChatPersistence change) : Prop where
  doc : before.doc ⊆ after.doc
  cursor : before.cursor ≤ after.cursor
  applies : ∀ row ∈ after.applies, row ∈ before.applies ∨
    before.cursor < row.1 ∧ row.1 ≤ after.cursor ∧ row.2 ⊆ after.doc
  dirtied : ∃ more, after.dirtied = before.dirtied ++ more ∧ (∀ changes ∈ more, changes ⊆ after.doc) ∧
    after.generation = before.generation + more.length
  flush : after.flush = before.flush
  saves : after.saves = before.saves
  saved : after.saved = before.saved

section Onward

variable {before after : ChatPersistence change}

theorem Onward.covers (onward : Onward before after) {bytes : List change} {cursor : Nat}
    (covers : before.Covers bytes cursor) : after.Covers bytes cursor := by
  refine ⟨covers.reached.trans onward.cursor, ?_⟩
  intro row inside below
  rcases onward.applies row inside with old | ⟨beyond, _, _⟩
  · exact covers.rows row old below
  · have reached := covers.reached
    omega

theorem Onward.counted (onward : Onward before after) {generation : Nat}
    (counted : before.Counted generation) : after.Counted generation := by
  obtain ⟨more, _, _, grown⟩ := onward.dirtied
  have reached := counted.reached
  exact ⟨onward.saved ▸ counted.saved, by omega⟩

theorem Onward.take (onward : Onward before after) (honest : Honest before) {generation : Nat}
    (reached : generation ≤ before.generation) :
    after.dirtied.take generation = before.dirtied.take generation := by
  obtain ⟨more, shape, _, _⟩ := onward.dirtied
  rw [shape, List.take_append_of_le_length]
  exact honest.generation ▸ reached

theorem Onward.holds (onward : Onward before after) (honest : Honest before) {generation : Nat}
    (reached : generation ≤ before.generation) {bytes : List change}
    (holds : before.Holds generation bytes) : after.Holds generation bytes := by
  intro changes inside
  rw [onward.take honest reached] at inside
  exact holds changes inside

theorem Onward.lastSaved (onward : Onward before after) : after.lastSaved = before.lastSaved := by
  rw [ChatPersistence.lastSaved, onward.saves]
  rfl

/-- A step of a task keeps everything; its own place is given. -/
theorem Honest.onward (honest : Honest before) (onward : Onward before after)
    (begun : ∀ caller, (after.callers caller).changes ⊆ after.doc)
    (asking : ∀ caller saved, after.callers caller = .asking saved → saved ≤ after.saved) :
    Honest after where
  applied := by
    intro row inside
    rcases onward.applies row inside with old | ⟨_, reached, held⟩
    · have kept := honest.applied row old
      exact ⟨kept.1.trans onward.cursor, List.Subset.trans kept.2 onward.doc⟩
    · exact ⟨reached, held⟩
  begun := begun
  asking := asking
  generation := by
    obtain ⟨more, shape, _, grown⟩ := onward.dirtied
    rw [grown, shape, List.length_append, honest.generation]
  dirtied := by
    obtain ⟨more, shape, held, _⟩ := onward.dirtied
    intro changes inside
    rw [shape] at inside
    rcases List.mem_append.mp inside with old | new
    · exact List.Subset.trans (honest.dirtied changes old) onward.doc
    · exact held changes new
  flush := by
    have flush := honest.flush
    rw [onward.flush]
    cases here : before.flush with
    | idle => trivial
    | locked => trivial
    | counted generation =>
        rw [here] at flush
        exact onward.counted flush
    | sampled generation cursor =>
        rw [here] at flush
        exact ⟨onward.counted flush.1, flush.2.trans onward.cursor⟩
    | exported generation cursor bytes =>
        rw [here] at flush
        obtain ⟨counted, covers, holds⟩ := flush
        exact ⟨onward.counted counted, onward.covers covers, onward.holds honest counted.reached holds⟩
    | written generation =>
        rw [here] at flush
        obtain ⟨counted, holds⟩ := flush
        refine ⟨onward.counted counted, ?_⟩
        rw [onward.lastSaved]
        exact onward.holds honest counted.reached holds
  saves := by
    intro save inside
    rw [onward.saves] at inside
    exact onward.covers (honest.saves save inside)
  saved := by
    obtain ⟨more, _, _, grown⟩ := onward.dirtied
    have bound := honest.saved
    rw [onward.saved]
    omega
  last := by
    rw [onward.saved, onward.lastSaved]
    exact onward.holds honest honest.saved honest.last

/-- A step of one task, which goes on to `next`. -/
theorem Honest.moves (honest : Honest before) (onward : Onward before after) {caller : Nat}
    {next : Caller change} (callers : after.callers = Function.update before.callers caller next)
    (begun : next.changes ⊆ after.doc) (asking : ∀ saved, next = .asking saved → saved ≤ before.saved) :
    Honest after := by
  apply honest.onward onward
  · intro other
    rw [callers]
    by_cases same : other = caller
    · rw [same, Function.update_self]
      exact begun
    · rw [Function.update_of_ne same]
      exact List.Subset.trans (honest.begun other) onward.doc
  · intro other saved isAsking
    rw [callers] at isAsking
    rw [onward.saved]
    by_cases same : other = caller
    · rw [same, Function.update_self] at isAsking
      exact asking saved isAsking
    · rw [Function.update_of_ne same] at isAsking
      exact honest.asking other saved isAsking

end Onward

/-! ## The steps of the tasks -/

variable {p after : ChatPersistence change}

/-- The document grows, and a task has something to count. -/
theorem Honest.write (honest : Honest p) {changes : List change} (caller : Nat) {next : Caller change}
    (own : next.changes = changes) (quiet : ∀ saved, next ≠ .asking saved) :
    Honest (moveTo { p with doc := p.doc ++ changes } caller next) := by
  have onward : Onward p (moveTo { p with doc := p.doc ++ changes } caller next) := by
    refine ⟨List.subset_append_left _ _, Nat.le_refl _, fun _ inside => .inl inside, ⟨[], ?_⟩, rfl, rfl, rfl⟩
    exact ⟨(List.append_nil _).symm, by simp, rfl⟩
  apply honest.moves onward rfl
  · rw [own]
    exact List.subset_append_right _ _
  · intro saved same
    exact absurd same (quiet saved)

/-- A task goes on without touching anything. -/
theorem Honest.turn (honest : Honest p) (caller : Nat) {next : Caller change}
    (own : next.changes = []) (asking : ∀ saved, next = .asking saved → saved ≤ p.saved) :
    Honest (p.moveTo caller next) := by
  have onward : Onward p (p.moveTo caller next) := by
    refine ⟨List.Subset.refl _, Nat.le_refl _, fun _ inside => .inl inside, ⟨[], ?_⟩, rfl, rfl, rfl⟩
    exact ⟨(List.append_nil _).symm, by simp, rfl⟩
  apply honest.moves onward rfl _ asking
  rw [own]
  exact List.nil_subset _

theorem Honest.fetchMax (honest : Honest p) {caller cursor : Nat} {changes : List change}
    (here : p.callers caller = .imported changes cursor) :
    Honest ((p.fetchMax changes cursor).moveTo caller (.raised changes)) := by
  have begun : changes ⊆ p.doc := by
    have own := honest.begun caller
    rw [here] at own
    exact own
  have onward : Onward p ((p.fetchMax changes cursor).moveTo caller (.raised changes)) := by
    refine ⟨List.Subset.refl _, Nat.le_max_left _ _, ?_, ⟨[], ?_⟩, rfl, rfl, rfl⟩
    · intro row inside
      change row ∈ (if p.cursor < cursor then (cursor, changes) :: p.applies else p.applies) at inside
      split at inside
      · rename_i raises
        rcases List.mem_cons.mp inside with rfl | old
        · exact .inr ⟨raises, Nat.le_max_right _ _, begun⟩
        · exact .inl old
      · exact .inl inside
    · exact ⟨(List.append_nil _).symm, by simp, rfl⟩
  exact honest.moves onward rfl begun (by simp)

theorem Honest.fetchAdd (honest : Honest p) {caller : Nat} {changes : List change}
    (begun : changes ⊆ p.doc) : Honest ((p.fetchAdd changes).moveTo caller .idle) := by
  have onward : Onward p ((p.fetchAdd changes).moveTo caller .idle) := by
    refine ⟨List.Subset.refl _, Nat.le_refl _, fun _ inside => .inl inside, ⟨[changes], ?_⟩, rfl, rfl, rfl⟩
    refine ⟨rfl, ?_, rfl⟩
    intro other inside
    rw [List.mem_singleton.mp inside]
    exact begun
  exact honest.moves onward rfl (List.nil_subset _) (by simp)

/-! ## The steps of the flush -/

/-- The flush goes on and has written nothing. -/
theorem Honest.flushes (honest : Honest p) {next : Flush change} (flush : p.FlushHonest next) :
    Honest { p with flush := next } :=
  { honest with
    flush := by
      cases next with
      | idle => trivial
      | locked => trivial
      | counted generation => exact ⟨flush.saved, flush.reached⟩
      | sampled generation cursor => exact ⟨⟨flush.1.saved, flush.1.reached⟩, flush.2⟩
      | exported generation cursor bytes =>
          obtain ⟨counted, covers, holds⟩ := flush
          exact ⟨⟨counted.saved, counted.reached⟩, ⟨covers.reached, covers.rows⟩, holds⟩
      | written generation => exact ⟨⟨flush.1.saved, flush.1.reached⟩, flush.2⟩
    saves := fun save inside => ⟨(honest.saves save inside).reached, (honest.saves save inside).rows⟩ }

/-- What was exported holds all that the last snapshot had to hold. -/
theorem Honest.save (honest : Honest p) {generation cursor : Nat} {bytes : List change}
    (here : p.flush = .exported generation cursor bytes) :
    Honest { p with flush := .written generation, saves := (bytes, cursor) :: p.saves } := by
  have flush := honest.flush
  rw [here] at flush
  obtain ⟨counted, covers, holds⟩ := flush
  constructor
  · exact honest.applied
  · exact honest.begun
  · exact honest.asking
  · exact honest.generation
  · exact honest.dirtied
  · exact ⟨⟨counted.saved, counted.reached⟩, holds⟩
  · intro save inside
    rcases List.mem_cons.mp inside with rfl | old
    · exact ⟨covers.reached, covers.rows⟩
    · exact ⟨(honest.saves save old).reached, (honest.saves save old).rows⟩
  · exact honest.saved
  · intro changes inside
    apply holds
    change changes ∈ p.dirtied.take p.saved at inside
    rw [← min_eq_left counted.saved, ← List.take_take] at inside
    exact List.mem_of_mem_take inside

theorem Honest.storeSaved (honest : Honest p) {generation : Nat} (here : p.flush = .written generation) :
    Honest { p with saved := generation, flush := .idle } := by
  have flush := honest.flush
  rw [here] at flush
  obtain ⟨counted, holds⟩ := flush
  constructor
  · exact honest.applied
  · exact honest.begun
  · intro caller saved isAsking
    exact (honest.asking caller saved isAsking).trans counted.saved
  · exact honest.generation
  · exact honest.dirtied
  · trivial
  · exact fun save inside => ⟨(honest.saves save inside).reached, (honest.saves save inside).rows⟩
  · exact counted.reached
  · exact holds

/-! ## Runs -/

theorem Honest.step {action : PersistAction change} (honest : Honest p)
    (stepped : p.step action = some after) : Honest after := by
  unfold ChatPersistence.step at stepped
  cases action with
  | importRow caller changes cursor =>
      dsimp only at stepped
      split at stepped <;> cases stepped
      exact honest.write caller rfl (by simp)
  | acknowledge caller cursor =>
      dsimp only at stepped
      split at stepped <;> cases stepped
      exact honest.turn caller rfl (by simp)
  | commit caller changes =>
      dsimp only at stepped
      split at stepped <;> cases stepped
      exact honest.write caller rfl (by simp)
  | fetchMax caller =>
      dsimp only at stepped
      split at stepped <;> cases stepped
      rename_i here
      exact honest.fetchMax here
  | fetchAdd caller =>
      dsimp only at stepped
      have own := honest.begun caller
      split at stepped <;> cases stepped
      · rename_i here
        rw [here] at own
        exact honest.fetchAdd own
      · rename_i here
        rw [here] at own
        exact honest.fetchAdd own
  | askSaved caller =>
      dsimp only at stepped
      split at stepped <;> cases stepped
      apply honest.turn caller rfl
      intro saved same
      cases same
      exact Nat.le_refl _
  | askGeneration caller =>
      dsimp only at stepped
      split at stepped <;> cases stepped
      exact honest.turn caller rfl (by simp)
  | lock =>
      dsimp only at stepped
      split at stepped <;> cases stepped
      exact honest.flushes trivial
  | loadGeneration =>
      dsimp only at stepped
      split at stepped
      · split at stepped <;> cases stepped
        · exact honest.flushes trivial
        · exact honest.flushes ⟨honest.saved, Nat.le_refl _⟩
      · cases stepped
  | loadCursor =>
      dsimp only at stepped
      have flush := honest.flush
      split at stepped <;> cases stepped
      rename_i here
      rw [here] at flush
      exact honest.flushes ⟨flush, Nat.le_refl _⟩
  | exportSnapshot =>
      dsimp only at stepped
      have flush := honest.flush
      split at stepped <;> cases stepped
      rename_i here
      rw [here] at flush
      apply honest.flushes
      refine ⟨flush.1, ⟨flush.2, ?_⟩, ?_⟩
      · exact fun row inside _ => (honest.applied row inside).2
      · exact fun changes inside => honest.dirtied changes (List.mem_of_mem_take inside)
  | save =>
      dsimp only at stepped
      split at stepped <;> cases stepped
      rename_i here
      exact honest.save here
  | storeSaved =>
      dsimp only at stepped
      split at stepped <;> cases stepped
      rename_i here
      exact honest.storeSaved here
  | giveUp =>
      dsimp only at stepped
      split at stepped <;> cases stepped
      exact honest.flushes trivial

/-- In every order of the tasks' steps a snapshot holds each row whose `applied` raised the
cursor to at most the snapshot's own, and when `is_clean` answers yes the last snapshot
holds everything that `dirty` has counted. -/
theorem snapshots_vouch {doc : List change} {cursor : Nat}
    (runs : Reaches step Any (new doc cursor) p) :
    (∀ save ∈ p.saves, ∀ row ∈ p.applies, row.1 ≤ save.2 → row.2 ⊆ save.1) ∧
    ∀ caller, p.isClean caller = true → ∀ changes ∈ p.dirtied, changes ⊆ p.lastSaved := by
  have honest : Honest p := runs.keeps (honest_new doc cursor)
    fun _ _ _ honest _ stepped => honest.step stepped
  constructor
  · exact fun save inside => (honest.saves save inside).rows
  · intro caller clean changes inside
    unfold isClean at clean
    split at clean
    · rename_i saved isAsking
      have early := honest.asking caller saved isAsking
      have count := honest.generation
      rw [eq_of_beq clean] at early
      apply honest.last
      rw [List.take_of_length_le (by omega)]
      exact inside
    · cases clean

/-- A row is imported and applied, and a flush runs to its end before `is_clean` asks. -/
def flushOfRow : List (PersistAction Nat) :=
  [.importRow 0 [7] 5, .fetchMax 0, .lock, .fetchAdd 0, .loadGeneration, .loadCursor,
    .exportSnapshot, .save, .storeSaved, .askSaved 1]

theorem snapshots_vouch_flush :
    ((runAll step (fun _ _ => true) (new [] 0) flushOfRow).map fun p =>
        (p.saves, p.applies, p.dirtied, p.isClean 1)) =
      some ([([7], 5)], [(5, [7])], [[7]], true) ∧
    ∀ p, runAll step (fun _ _ => true) (new [] 0) flushOfRow = some p →
      (∀ save ∈ p.saves, ∀ row ∈ p.applies, row.1 ≤ save.2 → row.2 ⊆ save.1) ∧
      ∀ changes ∈ p.dirtied, changes ⊆ p.lastSaved := by
  have ends : ((runAll step (fun _ _ => true) (new [] 0) flushOfRow).map fun p =>
      (p.saves, p.applies, p.dirtied, p.isClean 1)) =
      some ([([7], 5)], [(5, [7])], [[7]], true) := by decide
  refine ⟨ends, ?_⟩
  intro p ran
  rw [ran, Option.map_some, Option.some.injEq] at ends
  have vouched := snapshots_vouch ((reaches_of_runAll ran).mono fun _ _ _ => trivial)
  exact ⟨vouched.1, vouched.2 1 (congrArg (fun seen => seen.2.2.2) ends)⟩

end ChatPersistence

end Zeron.Chat
