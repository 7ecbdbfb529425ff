import Zeron.Data.Runs
import Zeron.FsWatch.Gaps

namespace Zeron.FsWatch

open Zeron.Data

/-! # The hub

Registrations change at any time.  Each change is noted in a batch, which one worker
applies, or the thread that could not start a worker.
-/

/-- Where a thread stands; `seen` is the generation a worker last looked at. -/
inductive Stage
  | scheduling
  | spawning
  | unspawned
  | starting
  | sleeping (seen : Nat)
  /-- Waits to apply; only a worker has a generation to come back to. -/
  | awaiting (seen : Option Nat)
  | applying (seen : Option Nat) (wanted : Roots)
  | checking (seen : Nat)
  | finished

def Stage.isFinished : Stage → Bool
  | .finished => true
  | _ => false

structure Hub where
  regs : List Registration := []
  nextId : Nat := 0
  os : OsState := {}
  /-- The thread whose pass holds the lock of the OS watches. -/
  holder : Option Nat := none
  generation : Nat := 0
  worker : Bool := false
  /-- One thread for every call and every worker. -/
  threads : List Stage := []

inductive HubAction
  | watch (path : Path) (recursive : Bool)
  | drop (id : Nat)
  | apply
  | schedule (thread : Nat)
  | spawn (thread : Nat) (started : Bool)
  | release (thread : Nat)
  /-- `late`: the batch has waited for as long as it may. -/
  | look (thread : Nat) (late : Bool)
  | enter (thread : Nat)
  | reconcile (thread : Nat) (answers : Answers)
  | check (thread : Nat)

namespace Hub

def setStage (hub : Hub) (thread : Nat) (stage : Stage) : Hub :=
  { hub with threads := hub.threads.set thread stage }

def addThread (hub : Hub) (stage : Stage) : Hub := { hub with threads := hub.threads ++ [stage] }

/-- The end of a pass: the watches and the flags of the registrations. -/
def settle (hub : Hub) (thread : Nat) (seen : Option Nat) (os : OsState) : Hub :=
  { hub.setStage thread (seen.elim .finished .checking) with
    os
    regs := hub.regs.map (·.attach os.installed)
    holder := none }

def step (backend : Backend) (hub : Hub) : HubAction → Option Hub
  | .watch path recursive =>
      let id := hub.nextId + 1
      some ({ hub with nextId := id, regs := { id, path, recursive } :: hub.regs }.addThread
        .scheduling)
  | .drop id =>
      if hub.regs.any (·.id = id) then
        some ({ hub with regs := hub.regs.filter (·.id ≠ id) }.addThread .scheduling)
      else none
  | .apply => some (hub.addThread (.awaiting none))
  | .schedule thread =>
      match hub.threads[thread]? with
      | some .scheduling =>
          if hub.worker then
            some ({ hub with generation := hub.generation + 1 }.setStage thread .finished)
          else
            some ({ hub with generation := hub.generation + 1, worker := true }.setStage thread
              .spawning)
      | _ => none
  | .spawn thread started =>
      match hub.threads[thread]? with
      | some .spawning =>
          if started then some ((hub.setStage thread .finished).addThread .starting)
          else some (hub.setStage thread .unspawned)
      | _ => none
  | .release thread =>
      match hub.threads[thread]? with
      | some .unspawned => some ({ hub with worker := false }.setStage thread (.awaiting none))
      | _ => none
  | .look thread late =>
      match hub.threads[thread]? with
      | some .starting => some (hub.setStage thread (.sleeping hub.generation))
      | some (.sleeping seen) =>
          if hub.generation = seen || late then
            some (hub.setStage thread (.awaiting (some hub.generation)))
          else some (hub.setStage thread (.sleeping hub.generation))
      | _ => none
  | .enter thread =>
      match hub.threads[thread]? with
      | some (.awaiting seen) =>
          if hub.holder.isSome then none
          else some ({ hub with holder := some thread }.setStage thread (.applying seen (wantedOf hub.regs)))
      | _ => none
  | .reconcile thread answers =>
      match hub.threads[thread]? with
      | some (.applying seen wanted) =>
          (reconcileOs backend answers hub.os wanted).map fun passing =>
            hub.settle thread seen passing.os
      | _ => none
  | .check thread =>
      match hub.threads[thread]? with
      | some (.checking seen) =>
          if hub.generation = seen then some ({ hub with worker := false }.setStage thread .finished)
          else some (hub.setStage thread .starting)
      | _ => none

/-- No worker is pending or applying, and no call is in progress. -/
def Quiet (hub : Hub) : Prop := hub.worker = false ∧ ∀ stage ∈ hub.threads, stage.isFinished = true

/-- The installed roots are the right cover, and the registrations know. -/
structure Settled (hub : Hub) : Prop where
  cover : hub.os.installed.same (minimalCover (wantedOf hub.regs) hub.os.failed) = true
  flat : ∀ root ∈ hub.os.installed.rows, ∀ row ∈ hub.os.installed.rows, above root row.1 = false
  covered : ∀ reg ∈ hub.regs, reg.path ∉ hub.os.failed →
    isCovered reg.path hub.os.installed = true ∧ (reg.recursive = true →
      ∃ root ∈ hub.os.installed.rows, root.2 = true ∧ root.1 <+: reg.path)
  attached : ∀ reg ∈ hub.regs, reg.attached = isCovered reg.path hub.os.installed

end Hub

/-! ## What is wanted -/

theorem Roots.mem_want {roots : Roots} {path : Path} {recursive : Bool} {row : Path × Bool} :
    row ∈ (roots.want path recursive).rows ↔
      row.1 ≠ path ∧ row ∈ roots.rows ∨
        row.1 = path ∧ (row.2 = true ↔ recursive = true ∨ (path, true) ∈ roots.rows) := by
  have any : (roots.rows.any fun row => row.1 = path && row.2) = true ↔ (path, true) ∈ roots.rows := by
    rw [List.any_eq_true]
    constructor
    · rintro ⟨⟨found, mode⟩, inside, same⟩
      simp only [Bool.and_eq_true, decide_eq_true_eq] at same
      obtain ⟨rfl, rfl⟩ := same
      exact inside
    · intro inside
      exact ⟨_, inside, by simp⟩
  obtain ⟨found, mode⟩ := row
  rw [want, mem_insert, Prod.mk.injEq, ← any, ← Bool.or_eq_true, ← Bool.eq_iff_iff]
  tauto

theorem wantedOf_concat (regs : List Registration) (reg : Registration) :
    wantedOf (regs ++ [reg]) = (wantedOf regs).want reg.path reg.recursive := by
  unfold wantedOf
  rw [List.foldl_append]
  rfl

/-- A path is wanted where it is registered, recursively where one registration is. -/
theorem mem_wantedOf {regs : List Registration} {row : Path × Bool} :
    row ∈ (wantedOf regs).rows ↔ (∃ reg ∈ regs, reg.path = row.1) ∧
      (row.2 = true ↔ ∃ reg ∈ regs, reg.path = row.1 ∧ reg.recursive = true) := by
  induction regs using List.reverseRecOn generalizing row with
  | nil => simp [wantedOf]
  | append_singleton regs reg ih =>
      rw [wantedOf_concat, Roots.mem_want, ih, ih]
      simp only [List.mem_append, List.mem_singleton, or_and_right, exists_or, exists_eq_left,
        true_iff]
      by_cases same : row.1 = reg.path
      · have deep : (∃ other ∈ regs, other.path = reg.path ∧ other.recursive = true) →
            ∃ other ∈ regs, other.path = reg.path := by
          rintro ⟨other, member, path, _⟩
          exact ⟨other, member, path⟩
        simp only [same, ne_eq, not_true_eq_false, false_and, true_and, false_or,
          and_iff_right_of_imp deep, @or_comm (reg.recursive = true)]
        exact (or_iff_right_of_imp And.right).symm
      · simp only [same, Ne.symm same, ne_eq, not_false_eq_true, true_and, false_and, or_false]

theorem wantedOf_attach (regs : List Registration) (installed : Roots) :
    wantedOf (regs.map (·.attach installed)) = wantedOf regs := by
  unfold wantedOf
  rw [List.foldl_map]
  rfl

/-! ## Who will apply -/

namespace Stage

/-- Whether a thread answers for the flag of the worker. -/
def owns : Stage → Bool
  | .spawning | .unspawned | .starting | .sleeping _ | .awaiting (some _) | .applying (some _) _
  | .checking _ => true
  | _ => false

/-- Whether a thread will yet read the registrations, at this generation. -/
def reads (generation : Nat) : Stage → Bool
  | .applying seen _ => seen.any (· ≠ generation)
  | .checking seen => seen ≠ generation
  | .finished => false
  | _ => true

/-- The generation a worker has seen. -/
def seen : Stage → Option Nat
  | .sleeping seen | .checking seen => some seen
  | .awaiting seen | .applying seen _ => seen
  | _ => none

/-- After a new change every owner reads again. -/
theorem reads_of_owns {stage : Stage} {generation : Nat} (owns : stage.owns = true)
    (old : ∀ seen, stage.seen = some seen → seen ≤ generation) :
    stage.reads (generation + 1) = true := by
  cases stage with
  | applying seen wanted =>
      cases seen with
      | none => cases owns
      | some seen =>
          have bound := old seen rfl
          simp [reads]
          omega
  | checking seen =>
      have bound := old seen rfl
      simp [reads]
      omega
  | finished => cases owns
  | _ => rfl

end Stage

namespace Hub

variable {backend : Backend}

/-- Some thread will yet read the registrations. -/
def Pending (hub : Hub) : Prop := ∃ stage ∈ hub.threads, stage.reads hub.generation = true

/-- The watches are what the registrations ask for. -/
def Clean (hub : Hub) : Prop :=
  (∀ row, row ∈ hub.os.installed.rows ↔
    row ∈ (minimalCover (wantedOf hub.regs) hub.os.failed).rows) ∧
  ∀ reg ∈ hub.regs, reg.attached = isCovered reg.path hub.os.installed

/-- What is wanted of a pass under way is what is registered, or somebody will read again. -/
structure Inv (hub : Hub) : Prop where
  seen : ∀ stage ∈ hub.threads, ∀ seen, stage.seen = some seen → seen ≤ hub.generation
  owner : hub.worker = true → ∃ stage ∈ hub.threads, stage.owns = true
  holder : ∀ thread seen wanted, hub.threads[thread]? = some (.applying seen wanted) →
    hub.holder = some thread
  reading : hub.Pending ∨ (∀ seen wanted, .applying seen wanted ∈ hub.threads →
      wanted = wantedOf hub.regs) ∧
    (hub.Clean ∨ ∃ seen wanted, .applying seen wanted ∈ hub.threads)

theorem inv_init : ({} : Hub).Inv where
  seen := nofun
  owner := nofun
  holder := nofun
  reading := .inr ⟨nofun, .inl ⟨fun row => by simp [wantedOf, minimalCover, Roots.keep], nofun⟩⟩

/-! ## Threads that move -/

theorem mem_set_of_ne {stages : List Stage} {thread : Nat} {old new stage : Stage}
    (held : stages[thread]? = some old) (member : stage ∈ stages) (different : stage ≠ old) :
    stage ∈ stages.set thread new := by
  obtain ⟨place, found⟩ := List.mem_iff_getElem?.mp member
  refine List.mem_iff_getElem?.mpr ⟨place, ?_⟩
  rw [List.getElem?_set_ne fun same => ?_, found]
  subst same
  exact different (Option.some.inj (found.symm.trans held))

theorem mem_set_self {stages : List Stage} {thread : Nat} {old : Stage} (new : Stage)
    (held : stages[thread]? = some old) : new ∈ stages.set thread new :=
  List.mem_set (List.getElem?_eq_some_iff.mp held).1 new

/-- A new thread changes nothing for the others. -/
theorem Inv.add {hub after : Hub} {stage : Stage} (inv : hub.Inv)
    (threads : after.threads = hub.threads ++ [stage]) (generation : after.generation = hub.generation)
    (worker : after.worker = hub.worker) (held : after.holder = hub.holder)
    (fresh : stage.seen = none) (reads : stage.reads hub.generation = true)
    (rests : ∀ seen wanted, stage ≠ .applying seen wanted) : after.Inv where
  seen other member := by
    rw [threads] at member
    rw [generation]
    rcases List.mem_append.mp member with before | new
    · exact inv.seen other before
    · rw [List.mem_singleton.mp new, fresh]
      nofun
  owner flag := by
    obtain ⟨other, member, owns⟩ := inv.owner (worker ▸ flag)
    exact ⟨other, threads ▸ List.mem_append_left _ member, owns⟩
  holder thread seen wanted found := by
    rw [threads] at found
    rw [held]
    rcases List.mem_append.mp (List.mem_of_getElem? found) with _ | new
    · by_cases inside : thread < hub.threads.length
      · exact inv.holder thread seen wanted (List.getElem?_append_left inside ▸ found)
      · rw [List.getElem?_append_right (Nat.le_of_not_lt inside)] at found
        exact absurd (List.mem_singleton.mp (List.mem_of_getElem? found)).symm (rests seen wanted)
    · exact absurd (List.mem_singleton.mp new).symm (rests seen wanted)
  reading := .inl ⟨stage, threads ▸ List.mem_append_right _ List.mem_cons_self, generation ▸ reads⟩

/-- What the move of one thread keeps of the places of the others. -/
theorem Inv.move {hub after : Hub} {thread : Nat} {old new : Stage} (inv : hub.Inv)
    (held : hub.threads[thread]? = some old) (threads : after.threads = hub.threads.set thread new)
    (grown : hub.generation ≤ after.generation)
    (seen : ∀ seen, new.seen = some seen → seen ≤ after.generation)
    (owner : after.worker = true → ∃ stage ∈ after.threads, stage.owns = true)
    (holder : (∃ seen wanted, old = .applying seen wanted) ∨ after.holder = hub.holder ∨
      hub.holder = none)
    (takes : ∀ seen wanted, new = .applying seen wanted → after.holder = some thread)
    (reading : after.Pending ∨ (∀ seen wanted, .applying seen wanted ∈ after.threads →
      wanted = wantedOf after.regs) ∧
        (after.Clean ∨ ∃ seen wanted, .applying seen wanted ∈ after.threads)) : after.Inv where
  seen stage member number found := by
    rw [threads] at member
    rcases List.mem_or_eq_of_mem_set member with before | rfl
    · exact (inv.seen stage before number found).trans grown
    · exact seen number found
  owner := owner
  holder place number wanted found := by
    rw [threads] at found
    by_cases same : thread = place
    · subst same
      rw [List.getElem?_set_self (List.getElem?_eq_some_iff.mp held).1] at found
      exact takes number wanted (Option.some.inj found)
    · rw [List.getElem?_set_ne same] at found
      have holds := inv.holder place number wanted found
      rcases holder with ⟨_, _, rfl⟩ | kept | free
      · exact absurd (Option.some.inj ((inv.holder thread _ _ held).symm.trans holds)) same
      · rw [kept, holds]
      · rw [free] at holds
        cases holds
  reading := reading

/-- An owner that moves on as one is still there. -/
theorem Inv.owner_set {hub : Hub} {thread : Nat} {old : Stage} (new : Stage) (inv : hub.Inv)
    (held : hub.threads[thread]? = some old) (owns : old.owns = true → new.owns = true)
    (flag : hub.worker = true) : ∃ stage ∈ hub.threads.set thread new, stage.owns = true := by
  obtain ⟨stage, member, owner⟩ := inv.owner flag
  by_cases same : stage = old
  · exact ⟨new, mem_set_self new held, owns (same ▸ owner)⟩
  · exact ⟨stage, mem_set_of_ne held member same, owner⟩

/-- A pass under way is the only one. -/
theorem Inv.alone {hub : Hub} {thread : Nat} {seen : Option Nat} {wanted : Roots} {new : Stage}
    (inv : hub.Inv) (held : hub.threads[thread]? = some (.applying seen wanted))
    (ends : ∀ seen wanted, new ≠ .applying seen wanted) (number : Option Nat) (other : Roots) :
    .applying number other ∉ hub.threads.set thread new := by
  intro member
  obtain ⟨place, found⟩ := List.mem_iff_getElem?.mp member
  by_cases same : thread = place
  · subst same
    rw [List.getElem?_set_self (List.getElem?_eq_some_iff.mp held).1] at found
    exact ends number other (Option.some.inj found)
  · rw [List.getElem?_set_ne same] at found
    have holds := (inv.holder thread _ _ held).symm.trans (inv.holder place _ _ found)
    exact same (Option.some.inj holds)

theorem inv_schedule {hub after : Hub} {thread : Nat} (inv : hub.Inv)
    (taken : hub.step backend (.schedule thread) = some after) : after.Inv := by
  unfold step at taken
  dsimp only at taken
  split at taken
  · rename_i held
    split at taken
    · rename_i flag
      obtain rfl := Option.some.inj taken
      have owners := inv.owner_set .finished held (fun owns => by cases owns) flag
      refine inv.move held rfl (Nat.le_succ _) nofun (fun _ => owners) (.inr (.inl rfl)) nofun (.inl ?_)
      obtain ⟨stage, member, owns⟩ := inv.owner flag
      refine ⟨stage, mem_set_of_ne held member fun same => ?_,
        Stage.reads_of_owns owns (inv.seen stage member)⟩
      rw [same] at owns
      cases owns
    · obtain rfl := Option.some.inj taken
      have spawning := mem_set_self .spawning held
      exact inv.move held rfl (Nat.le_succ _) nofun (fun _ => ⟨_, spawning, rfl⟩) (.inr (.inl rfl))
        nofun (.inl ⟨_, spawning, rfl⟩)
  · cases taken

theorem inv_spawn {hub after : Hub} {thread : Nat} {started : Bool} (inv : hub.Inv)
    (taken : hub.step backend (.spawn thread started) = some after) : after.Inv := by
  unfold step at taken
  dsimp only at taken
  split at taken
  · rename_i held
    split at taken
    · obtain rfl := Option.some.inj taken
      have inside := (List.getElem?_eq_some_iff.mp held).1
      have added : (hub.addThread .starting).Inv := inv.add rfl rfl rfl rfl rfl rfl nofun
      have held : (hub.addThread .starting).threads[thread]? = some .spawning :=
        (List.getElem?_append_left inside).trans held
      have starting : .starting ∈ hub.threads.set thread .finished ++ [.starting] :=
        List.mem_append_right _ List.mem_cons_self
      exact added.move held (List.set_append_left _ _ inside).symm le_rfl nofun
        (fun _ => ⟨_, starting, rfl⟩) (.inr (.inl rfl)) nofun (.inl ⟨_, starting, rfl⟩)
    · obtain rfl := Option.some.inj taken
      have unspawned := mem_set_self .unspawned held
      exact inv.move held rfl le_rfl nofun (fun _ => ⟨_, unspawned, rfl⟩) (.inr (.inl rfl)) nofun
        (.inl ⟨_, unspawned, rfl⟩)
  · cases taken

theorem inv_release {hub after : Hub} {thread : Nat} (inv : hub.Inv)
    (taken : hub.step backend (.release thread) = some after) : after.Inv := by
  unfold step at taken
  dsimp only at taken
  split at taken
  · rename_i held
    obtain rfl := Option.some.inj taken
    exact inv.move held rfl le_rfl nofun nofun (.inr (.inl rfl)) nofun
      (.inl ⟨_, mem_set_self (.awaiting none) held, rfl⟩)
  · cases taken

theorem inv_look {hub after : Hub} {thread : Nat} {late : Bool} (inv : hub.Inv)
    (taken : hub.step backend (.look thread late) = some after) : after.Inv := by
  -- wherever it goes on, it has seen the generation of now and will yet apply
  have goes : ∀ {old new : Stage}, hub.threads[thread]? = some old → new.owns = true →
      new.reads hub.generation = true → (∀ seen, new.seen = some seen → seen = hub.generation) →
      (∀ seen wanted, new ≠ .applying seen wanted) → (hub.setStage thread new).Inv := by
    intro old new held owns reads seen rests
    have member := mem_set_self new held
    exact inv.move held rfl le_rfl (fun number found => (seen number found).le)
      (fun _ => ⟨new, member, owns⟩) (.inr (.inl rfl))
      (fun number wanted same => absurd same (rests number wanted)) (.inl ⟨new, member, reads⟩)
  unfold step at taken
  dsimp only at taken
  split at taken
  · rename_i held
    obtain rfl := Option.some.inj taken
    exact goes held rfl rfl (fun _ found => (Option.some.inj found).symm) nofun
  · rename_i held
    split at taken
    · obtain rfl := Option.some.inj taken
      exact goes held rfl rfl (fun _ found => (Option.some.inj found).symm) nofun
    · obtain rfl := Option.some.inj taken
      exact goes held rfl rfl (fun _ found => (Option.some.inj found).symm) nofun
  · cases taken

theorem inv_check {hub after : Hub} {thread : Nat} (inv : hub.Inv)
    (taken : hub.step backend (.check thread) = some after) : after.Inv := by
  unfold step at taken
  dsimp only at taken
  split at taken
  · rename_i seen held
    split at taken
    · rename_i same
      obtain rfl := Option.some.inj taken
      refine inv.move held rfl le_rfl nofun nofun (.inr (.inl rfl)) nofun ?_
      -- nothing has changed since this worker read the registrations
      rcases inv.reading with ⟨stage, member, reads⟩ | ⟨wants, rest⟩
      · refine .inl ⟨stage, mem_set_of_ne held member fun equal => ?_, reads⟩
        rw [equal] at reads
        simp [Stage.reads, same] at reads
      · refine .inr ⟨fun number wanted member => ?_, rest.imp id ?_⟩
        · rcases List.mem_or_eq_of_mem_set member with before | new
          · exact wants number wanted before
          · cases new
        · rintro ⟨number, wanted, member⟩
          exact ⟨number, wanted, mem_set_of_ne held member nofun⟩
    · obtain rfl := Option.some.inj taken
      have starting := mem_set_self .starting held
      exact inv.move held rfl le_rfl nofun (fun _ => ⟨_, starting, rfl⟩) (.inr (.inl rfl)) nofun
        (.inl ⟨_, starting, rfl⟩)
  · cases taken

theorem inv_enter {hub after : Hub} {thread : Nat} (inv : hub.Inv)
    (taken : hub.step backend (.enter thread) = some after) : after.Inv := by
  unfold step at taken
  dsimp only at taken
  split at taken
  · rename_i seen held
    split at taken
    · cases taken
    · rename_i free
      have free : hub.holder = none := by simpa using free
      obtain rfl := Option.some.inj taken
      have applying := mem_set_self (.applying seen (wantedOf hub.regs)) held
      refine inv.move held rfl le_rfl ?_ ?_ (.inr (.inr free)) (fun _ _ _ => rfl)
        (.inr ⟨fun number wanted member => ?_, .inr ⟨seen, _, applying⟩⟩)
      · exact inv.seen (.awaiting seen) (List.mem_of_getElem? held)
      · refine inv.owner_set _ held fun owns => ?_
        cases seen <;> exact owns
      · rcases List.mem_or_eq_of_mem_set member with before | new
        · obtain ⟨place, found⟩ := List.mem_iff_getElem?.mp before
          have holds := inv.holder place number wanted found
          rw [free] at holds
          cases holds
        · cases new
          rfl
  · cases taken

theorem inv_reconcile {hub after : Hub} {thread : Nat} {answers : Answers} (inv : hub.Inv)
    (taken : hub.step backend (.reconcile thread answers) = some after) : after.Inv := by
  unfold step at taken
  dsimp only at taken
  split at taken
  · rename_i seen wanted held
    obtain ⟨passing, ran, rfl⟩ := Option.map_eq_some_iff.mp taken
    have checks := mem_set_self (seen.elim .finished .checking) held
    have bound := inv.seen _ (List.mem_of_getElem? held)
    refine inv.move held rfl le_rfl ?_ ?_ (.inl ⟨seen, wanted, rfl⟩) ?_ ?_
    · cases seen with
      | none => nofun
      | some seen => exact bound
    · refine inv.owner_set _ held fun owns => ?_
      cases seen <;> exact owns
    · cases seen <;> nofun
    · rcases inv.reading with ⟨stage, member, reads⟩ | ⟨wants, _⟩
      · refine .inl ?_
        by_cases same : stage = .applying seen wanted
        · subst same
          cases seen with
          | none => cases reads
          | some seen => exact ⟨_, checks, reads⟩
        · exact ⟨stage, mem_set_of_ne held member same, reads⟩
      · obtain rfl := wants seen wanted (List.mem_of_getElem? held)
        have passed := Passing.passed_of_rounds ran
        refine .inr ⟨fun number wanted member => ?_, .inl ⟨fun row => ?_, fun reg member => ?_⟩⟩
        · exact absurd member (inv.alone held (by cases seen <;> nofun) number wanted)
        · exact (passed.installed row).trans (by rw [settle, wantedOf_attach])
        · obtain ⟨old, _, rfl⟩ := List.mem_map.mp member
          rfl
  · cases taken

theorem inv_step {hub after : Hub} {action : HubAction} (inv : hub.Inv)
    (taken : hub.step backend action = some after) : after.Inv := by
  cases action with
  | watch path recursive =>
      obtain rfl := Option.some.inj taken
      exact inv.add rfl rfl rfl rfl rfl rfl nofun
  | drop id =>
      obtain ⟨_, stepped⟩ := Option.ite_none_right_eq_some.mp taken
      obtain rfl := Option.some.inj stepped
      exact inv.add rfl rfl rfl rfl rfl rfl nofun
  | apply =>
      obtain rfl := Option.some.inj taken
      exact inv.add rfl rfl rfl rfl rfl rfl nofun
  | schedule thread => exact inv_schedule inv taken
  | spawn thread started => exact inv_spawn inv taken
  | release thread => exact inv_release inv taken
  | look thread late => exact inv_look inv taken
  | enter thread => exact inv_enter inv taken
  | reconcile thread answers => exact inv_reconcile inv taken
  | check thread => exact inv_check inv taken

theorem inv_of_reaches {hub : Hub} (runs : Reaches (step backend) (fun _ _ => True) {} hub) :
    hub.Inv :=
  runs.keeps inv_init fun _ _ _ inv _ taken => inv_step inv taken

/-! ## Rest -/

theorem clean_of_quiet {hub : Hub} (inv : hub.Inv) (quiet : hub.Quiet) : hub.Clean := by
  rcases inv.reading with ⟨stage, member, reads⟩ | ⟨_, clean | ⟨seen, wanted, member⟩⟩
  · have finished := quiet.2 stage member
    cases stage with
    | finished => cases reads
    | _ => cases finished
  · exact clean
  · cases quiet.2 _ member

theorem settled_of_clean {hub : Hub} (clean : hub.Clean) : hub.Settled := by
  obtain ⟨installed, attached⟩ := clean
  refine ⟨Roots.same_iff.mpr installed, fun root inside row other => ?_, fun reg member stands => ?_,
    attached⟩
  · exact minimalCover_flat ((installed root).mp inside) ((installed row).mp other)
  · have wants : (reg.path, (hub.regs.any fun other => other.path = reg.path && other.recursive)) ∈
        (wantedOf hub.regs).rows := by
      refine mem_wantedOf.mpr ⟨⟨reg, member, rfl⟩, ?_⟩
      simp [List.any_eq_true]
    rcases minimalCover_covers wants stands with cover | ⟨root, cover, lies⟩
    · have held := (installed _).mpr cover
      refine ⟨isCovered_iff.mpr ⟨_, held, by simp [rootCovers]⟩, fun recursive => ?_⟩
      refine ⟨_, held, List.any_eq_true.mpr ⟨reg, member, ?_⟩, List.prefix_rfl⟩
      simp [recursive]
    · have held := (installed root).mpr cover
      obtain ⟨deep, _, begins⟩ := above_iff.mp lies
      exact ⟨isCovered_iff.mpr ⟨root, held, rootCovers_of_above lies⟩, fun _ =>
        ⟨root, held, deep, begins⟩⟩

/-- At rest the watches are the right cover, and a pass always ends. -/
theorem settled_of_quiet (backend : Backend) :
    (∀ hub : Hub, Reaches (step backend) (fun _ _ => True) {} hub → hub.Quiet → hub.Settled) ∧
      ∀ answers os wanted, ∃ passing, reconcileOs backend answers os wanted = some passing :=
  ⟨fun _ runs quiet => settled_of_clean (clean_of_quiet (inv_of_reaches runs) quiet),
    reconcileOs_ends backend⟩

/-- A tree is registered while the pass of another directory runs, and cannot be watched; a third
registration goes, and no worker can be started for it. -/
def busy : List HubAction :=
  [.watch nested.path false, .schedule 0, .spawn 0 true, .look 1 false, .look 1 false, .enter 1,
    .watch outer.path true, .schedule 2, .reconcile 1 exhausted, .check 1,
    .look 1 false, .watch ["/", "other"] false, .schedule 3, .look 1 true, .enter 1,
    .reconcile 1 exhausted, .check 1, .drop 3, .schedule 4, .spawn 4 false, .release 4, .enter 4,
    .reconcile 4 exhausted]

theorem settled_of_quiet_busy : ∃ hub : Hub, hub.regs.length = 2 ∧ hub.os.failed = [outer.path] ∧
    hub.Settled := by
  have ran : (runAll (step watchers) (fun _ _ => true) {} busy).map (fun hub =>
      (hub.worker, hub.threads.all Stage.isFinished, hub.regs.length, hub.os.failed)) =
        some (false, true, 2, [outer.path]) := by decide
  obtain ⟨hub, ran, facts⟩ := Option.map_eq_some_iff.mp ran
  simp only [Prod.mk.injEq, List.all_eq_true] at facts
  obtain ⟨worker, finished, regs, failed⟩ := facts
  exact ⟨hub, regs, failed, (settled_of_quiet watchers).1 hub
    ((reaches_of_runAll ran).mono fun _ _ _ => trivial) ⟨worker, finished⟩⟩

end Hub

end Zeron.FsWatch
