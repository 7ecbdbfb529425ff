import Zeron.Data.Runs
import Zeron.Data.Splits

namespace Zeron.Room

open Zeron.Data

/-! # Cold replays of a session room

A cold start counts itself in `replayAttempts`, syncs, replays the log, sets the count back
and syncs again.  A death of the instance undoes the writes that are not synced yet.  The
cold start that finds the count at its limit drops the log.
-/

def replayCrashLimit : Nat := 3

/-- The sync a cold start waits for, with the number of the write it waits for. -/
inductive ColdStart where
  | counting (mark : Nat)
  | saving (mark : Nat)
deriving DecidableEq, Repr

/-- The cold start waits to replay, and the write of its count is `bound` or one before. -/
def ColdStart.counts (bound : Nat) : ColdStart → Bool
  | .counting mark => mark ≤ bound
  | .saving _ => false

structure ReplayRoom where
  /-- A live document is cached. -/
  doc : Bool := false
  /-- The `replayAttempts` that survives a death. -/
  durable : Nat := 0
  /-- What was written to it since, the oldest first. -/
  unsynced : List Nat := []
  /-- How many writes are durable. -/
  synced : Nat := 0
  starts : List ColdStart := []
  /-- Replays begun since the last one that completed. -/
  replays : Nat := 0
  /-- `replays` where the log was dropped. -/
  drops : List Nat := []
deriving DecidableEq, Repr

/-- How the replay between the two syncs ends. -/
inductive Replay where
  | completes
  | throws
  | dies
deriving DecidableEq, Repr

inductive ReplayAction where
  | ensureDoc
  /-- The oldest write becomes durable. -/
  | commit
  | resume (index : Nat) (replay : Replay)
  /-- The document is released, or found to be freed. -/
  | release
  | die
deriving DecidableEq, Repr

namespace ReplayRoom

/-- `getMeta("replayAttempts")`. -/
def attempts (room : ReplayRoom) : Nat := room.unsynced.getLast?.getD room.durable

def written (room : ReplayRoom) : Nat := room.synced + room.unsynced.length

/-- `setMeta("replayAttempts", value)`. -/
def setAttempts (room : ReplayRoom) (value : Nat) : ReplayRoom :=
  { room with unsynced := room.unsynced ++ [value] }

/-- The automatic drop leaves the count alone. -/
def dropLog (room : ReplayRoom) : ReplayRoom := { room with drops := room.replays :: room.drops }

/-- `ensureDoc` up to its first await. -/
def ensureDoc (room : ReplayRoom) : ReplayRoom :=
  if room.doc then room
  else
    let checked := if room.attempts ≥ replayCrashLimit then room.dropLog else room
    let counted := checked.setAttempts (room.attempts + 1)
    { counted with starts := counted.starts ++ [.counting counted.written] }

def die (room : ReplayRoom) : ReplayRoom :=
  { room with doc := false, unsynced := [], starts := [] }

def resume (room : ReplayRoom) (index : Nat) (replay : Replay) : Option ReplayRoom :=
  let left := { room with starts := room.starts.eraseIdx index }
  match room.starts[index]? with
  | none => none
  | some (.counting mark) =>
      if mark ≤ room.synced then
        match replay with
        | .completes =>
            let saved := { left.setAttempts 0 with replays := 0 }
            some { saved with starts := saved.starts ++ [.saving saved.written] }
        | .throws => some { left with replays := room.replays + 1 }
        | .dies => some { room.die with replays := room.replays + 1 }
      else none
  | some (.saving mark) => if mark ≤ room.synced then some { left with doc := true } else none

def step (room : ReplayRoom) : ReplayAction → Option ReplayRoom
  | .ensureDoc => some room.ensureDoc
  | .commit =>
      match room.unsynced with
      | [] => none
      | value :: rest =>
          some { room with durable := value, unsynced := rest, synced := room.synced + 1 }
  | .resume index replay => room.resume index replay
  | .release => some { room with doc := false }
  | .die => some room.die

/-- The log was only dropped after as many replays as the limit that did not complete. -/
def Honest (room : ReplayRoom) : Prop := ∀ replays ∈ room.drops, replayCrashLimit ≤ replays


/-- The cold starts that wait to replay and are counted by the writes up to `bound`. -/
def waiting (starts : List ColdStart) (bound : Nat) : Nat := starts.countP (ColdStart.counts bound)

/-- A cold start does not find the limit reached while others wait to replay; and a death does
not undo the reset of a replay that completed, nor leaves the count of one that never began. -/
def careful (room : ReplayRoom) : ReplayAction → Bool
  | .ensureDoc => room.doc || room.attempts < replayCrashLimit || waiting room.starts room.written = 0
  | .resume _ .dies => waiting room.starts room.synced ≤ 1 && 0 ∉ room.unsynced
  | .die => waiting room.starts room.synced = 0 && 0 ∉ room.unsynced
  | _ => true

/-! ## Every durable count is accounted for -/

/-- A count that no reset follows is covered by the replays begun and the cold starts that
wait to begin theirs. -/
structure Counted (room : ReplayRoom) : Prop where
  covered : ∀ before value after, room.durable :: room.unsynced = before ++ value :: after →
    0 ∉ after → value ≤ room.replays + waiting room.starts (room.synced + before.length)
  honest : room.Honest

variable {room after : ReplayRoom} {index mark : Nat} {start : ColdStart}

theorem Counted.attempts_le (counted : room.Counted) :
    room.attempts ≤ room.replays + waiting room.starts room.written := by
  unfold attempts written
  rcases List.eq_nil_or_concat room.unsynced with none | ⟨earlier, last, some⟩
  · have covered := counted.covered [] room.durable [] (by rw [none]; rfl) List.not_mem_nil
    simpa [none] using covered
  · rw [List.concat_eq_append] at some
    have covered := counted.covered (room.durable :: earlier) last [] (by rw [some]; rfl)
      List.not_mem_nil
    simpa [some] using covered

/-- Unless a reset is unsynced, the durable count is covered by what is synced. -/
theorem Counted.durable_le (counted : room.Counted) (noReset : 0 ∉ room.unsynced) :
    room.durable ≤ room.replays + waiting room.starts room.synced :=
  counted.covered [] room.durable room.unsynced rfl noReset

theorem waiting_concat (starts : List ColdStart) (start : ColdStart) (bound : Nat) :
    waiting (starts ++ [start]) bound =
      waiting starts bound + if start.counts bound then 1 else 0 := by
  rw [waiting, List.countP_append]
  cases counts : start.counts bound <;> simp [waiting, counts]

/-- Without one of the cold starts. -/
theorem waiting_eraseIdx {starts : List ColdStart} (found : starts[index]? = some start)
    (bound : Nat) : waiting starts bound =
      waiting (starts.eraseIdx index) bound + if start.counts bound then 1 else 0 := by
  obtain ⟨inside, rfl⟩ := List.getElem?_eq_some_iff.mp found
  have same := (List.getElem_cons_eraseIdx_perm inside).countP_eq (ColdStart.counts bound)
  rw [List.countP_cons] at same
  exact same.symm

theorem waiting_mono (starts : List ColdStart) {bound later : Nat} (before : bound ≤ later) :
    waiting starts bound ≤ waiting starts later := by
  apply List.countP_mono_left
  intro start _ counts
  cases start with
  | saving _ => cases counts
  | counting mark =>
      simp only [ColdStart.counts, decide_eq_true_eq] at counts ⊢
      omega

theorem Counted.dropped (counted : room.Counted) (reached : room.attempts ≥ replayCrashLimit)
    (alone : waiting room.starts room.written = 0) : room.dropLog.Counted where
  covered := counted.covered
  honest := by
    intro replays member
    rcases List.mem_cons.mp member with rfl | earlier
    · have attempts := counted.attempts_le
      rw [alone] at attempts
      exact reached.trans attempts
    · exact counted.honest replays earlier

/-- A cold start adds one to the count and waits to replay. -/
theorem Counted.count (counted : room.Counted) :
    Counted { room.setAttempts (room.attempts + 1) with
      starts := room.starts ++ [.counting (room.setAttempts (room.attempts + 1)).written] } where
  covered := by
    intro before value rest split noReset
    change room.durable :: room.unsynced ++ [room.attempts + 1] = _ at split
    change value ≤ room.replays + waiting (room.starts ++ [_]) (room.synced + before.length)
    rw [waiting_concat]
    rcases split_concat split with ⟨rfl, rfl, -⟩ | ⟨earlier, rfl, shorter⟩
    · have attempts := counted.attempts_le
      have wider := waiting_mono room.starts
        (show room.written ≤ room.synced + (room.durable :: room.unsynced).length by
          rw [written, List.length_cons]
          omega)
      rw [if_pos (by simp [ColdStart.counts, written, setAttempts])]
      omega
    · have covered := counted.covered before value earlier shorter fun reset =>
        noReset (List.mem_append_left _ reset)
      omega
  honest := counted.honest

theorem Counted.ensureDoc (counted : room.Counted)
    (careful : room.careful .ensureDoc = true) : room.ensureDoc.Counted := by
  unfold ReplayRoom.ensureDoc
  split
  · exact counted
  · rename_i cold
    dsimp only
    split
    · rename_i reached
      have alone : waiting room.starts room.written = 0 := by
        simpa [ReplayRoom.careful, cold, Nat.not_lt.mpr reached] using careful
      exact (counted.dropped reached alone).count
    · exact counted.count

theorem Counted.commit {value : Nat} {rest : List Nat} (counted : room.Counted)
    (oldest : room.unsynced = value :: rest) :
    Counted { room with durable := value, unsynced := rest, synced := room.synced + 1 } where
  covered := by
    intro before other later split noReset
    have covered := counted.covered (room.durable :: before) other later
      (by rw [oldest, List.cons_append, ← split]) noReset
    rw [List.length_cons] at covered
    have shift : room.synced + (before.length + 1) = room.synced + 1 + before.length := by omega
    rwa [shift] at covered
  honest := counted.honest

/-- After a death only the durable count is left. -/
theorem Counted.died {replays : Nat} (counted : room.Counted) (durable : room.durable ≤ replays) :
    Counted { room.die with replays } where
  covered := by
    intro before value later split _
    cases before with
    | nil =>
        cases split
        exact durable.trans (Nat.le_add_right _ _)
    | cons _ _ =>
        cases List.append_eq_nil_iff.mp (List.cons.inj split).2.symm
        contradiction
  honest := counted.honest

/-- A replay that completes resets the count. -/
theorem Counted.reset (counted : room.Counted) (starts : List ColdStart) :
    Counted { room.setAttempts 0 with replays := 0, starts } where
  covered := by
    intro before value rest split noReset
    change room.durable :: room.unsynced ++ [0] = _ at split
    rcases split_concat split with ⟨-, rfl, -⟩ | ⟨earlier, rfl, -⟩
    · exact Nat.zero_le _
    · exact absurd (List.mem_append_right _ (List.mem_singleton_self 0)) noReset
  honest := counted.honest

/-- A replay that begins and does not complete covers its count itself. -/
theorem Counted.fail (counted : room.Counted) (found : room.starts[index]? = some (.counting mark))
    (synced : mark ≤ room.synced) :
    Counted { room with starts := room.starts.eraseIdx index, replays := room.replays + 1 } where
  covered := by
    intro before value rest split noReset
    have covered := counted.covered before value rest split noReset
    rw [waiting_eraseIdx found] at covered
    split at covered
    · change value ≤ room.replays + 1 + waiting (room.starts.eraseIdx index) _
      dsimp only
      omega
    · rename_i uncounted
      exact absurd (by simp only [ColdStart.counts, decide_eq_true_eq]; omega) uncounted
  honest := counted.honest

theorem Counted.saved (counted : room.Counted)
    (found : room.starts[index]? = some (.saving mark)) :
    Counted { room with starts := room.starts.eraseIdx index, doc := true } where
  covered := by
    intro before value rest split noReset
    have covered := counted.covered before value rest split noReset
    rwa [waiting_eraseIdx found, if_neg (by simp [ColdStart.counts])] at covered
  honest := counted.honest

theorem Counted.resume {replay : Replay} (counted : room.Counted)
    (careful : room.careful (.resume index replay) = true)
    (resumed : room.resume index replay = some after) : after.Counted := by
  unfold ReplayRoom.resume at resumed
  cases found : room.starts[index]? with
  | none => simp [found] at resumed
  | some start =>
      cases start with
      | counting mark =>
          simp only [found] at resumed
          split at resumed
          · rename_i synced
            cases replay with
            | completes =>
                cases resumed
                exact counted.reset _
            | throws =>
                cases resumed
                exact counted.fail found synced
            | dies =>
                cases resumed
                simp only [ReplayRoom.careful, Bool.and_eq_true, decide_eq_true_eq] at careful
                have durable := counted.durable_le careful.2
                exact counted.died (by omega)
          · cases resumed
      | saving mark =>
          simp only [found] at resumed
          split at resumed
          · cases resumed
            exact counted.saved found
          · cases resumed

theorem Counted.step {action : ReplayAction} (counted : room.Counted)
    (careful : room.careful action = true) (stepped : room.step action = some after) :
    after.Counted := by
  cases action with
  | ensureDoc =>
      cases stepped
      exact counted.ensureDoc careful
  | commit =>
      unfold ReplayRoom.step at stepped
      cases oldest : room.unsynced with
      | nil => simp [oldest] at stepped
      | cons value rest =>
          simp only [oldest, Option.some.injEq] at stepped
          subst stepped
          exact counted.commit oldest
  | resume index replay => exact counted.resume careful stepped
  | release =>
      cases stepped
      exact ⟨counted.covered, counted.honest⟩
  | die =>
      cases stepped
      simp only [ReplayRoom.careful, Bool.and_eq_true, decide_eq_true_eq] at careful
      have durable := counted.durable_le careful.2
      rw [careful.1] at durable
      exact counted.died durable

theorem counted_new : Counted {} where
  covered := by
    intro before value rest split _
    cases before with
    | nil =>
        cases split
        exact Nat.zero_le _
    | cons _ _ =>
        cases List.append_eq_nil_iff.mp (List.cons.inj split).2.symm
        contradiction
  honest := fun _ member => absurd member List.not_mem_nil

/-- While no cold start finds the limit reached beside waiting ones, and deaths neither undo a
reset nor strand a count, the log is only dropped after replays that did not complete. -/
theorem drops_honest (run : Reaches step (fun room action => room.careful action = true) {} room) :
    room.Honest := by
  have counted : room.Counted := by
    apply run.keeps counted_new
    intro before action after counted careful stepped
    exact counted.step careful stepped
  exact counted.honest

/-- A room that dies in three replays drops its log, and a replay of the empty one completes. -/
theorem drops_honest_wedged : ∃ room : ReplayRoom,
    (room.drops = [3] ∧ room.doc = true) ∧ room.Honest := by
  have ran : (runAll step careful {}
      ([ReplayAction.ensureDoc, .commit, .resume 0 .dies, .ensureDoc, .commit, .resume 0 .dies,
        .ensureDoc, .commit, .resume 0 .dies, .ensureDoc, .commit, .resume 0 .completes, .commit,
        .resume 0 .completes])).map (fun room => (room.drops, room.doc)) = some ([3], true) := by
    decide
  obtain ⟨room, reached, same⟩ := Option.map_eq_some_iff.mp ran
  exact ⟨room, Prod.mk.inj same, drops_honest (reaches_of_runAll reached)⟩

/-- The fourth of four cold starts drops the log while the others wait to replay. -/
theorem not_drops_honest : ¬ ∀ room : ReplayRoom,
    Reaches step (fun _ _ => True) {} room → room.Honest := by
  intro always
  have ran : (runAll step (fun _ _ => true) {} (List.replicate 4 .ensureDoc)).map drops =
      some [0] := by
    decide
  obtain ⟨room, reached, dropped⟩ := Option.map_eq_some_iff.mp ran
  have honest := always room ((reaches_of_runAll reached).mono fun _ _ _ => trivial)
  have limit := honest 0 (by rw [dropped]; exact List.mem_singleton_self 0)
  exact absurd limit (by decide)

end ReplayRoom

end Zeron.Room
