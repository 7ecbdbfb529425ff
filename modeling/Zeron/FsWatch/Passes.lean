import Zeron.FsWatch.Reconcile

namespace Zeron.FsWatch

/-! # What a pass comes to

Only the first round takes roots down; what one round puts up stays.  The rounds
end, at the latest, when every wanted path has failed.
-/

namespace Passing

variable {backend : Backend} {answers : Answers}

theorem install_installed (shared : Bool) (attempt : Attempt) (os : OsState) (touched : Bool)
    (path : Path) : (install shared attempt os touched path).1.installed = os.installed ∧
      (install shared attempt os touched path).1.failed = os.failed ∧
      ((install shared attempt os touched path).2.2 = true ↔ attempt = .accepted) ∧
      (attempt = .accepted → (install shared attempt os touched path).2.1 = true) ∧
      (touched = true → (install shared attempt os touched path).2.1 = true) := by
  cases attempt <;> cases shared <;> cases touched <;> simp [install]

/-! ## Taking down -/

theorem takeDown_spec (passing : Passing) (path : Path) :
    (passing.takeDown path).os.installed = passing.os.installed.remove path ∧
      (passing.takeDown path).os.failed = passing.os.failed ∧
      (passing.takeDown path).bridge = passing.bridge ∧
      (passing.takeDown path).bridgeTried = passing.bridgeTried ∧
      (passing.touched = true → (passing.takeDown path).touched = true) ∧
      (passing.takeDown path).moments = passing.moments ++ [passing.os.installed.remove path] := by
  unfold takeDown
  dsimp only
  split
  · exact ⟨rfl, rfl, rfl, rfl, fun _ => rfl, rfl⟩
  · refine ⟨rfl, rfl, rfl, rfl, fun touched => ?_, rfl⟩
    rw [touched, Bool.true_or]

/-- What some removals leave of a state. -/
structure TookDown (paths : List Path) (before after : Passing) : Prop where
  installed : ∀ row, row ∈ after.os.installed.rows ↔
    row ∈ before.os.installed.rows ∧ row.1 ∉ paths
  failed : after.os.failed = before.os.failed
  bridge : after.bridge = before.bridge
  tried : after.bridgeTried = before.bridgeTried
  touched : before.touched = true → after.touched = true
  moments : ∃ more, after.moments = before.moments ++ more ∧
    (∀ moment ∈ more, ∀ row ∈ after.os.installed.rows, row ∈ moment.rows) ∧
    (paths ≠ [] → after.os.installed ∈ more)

theorem takeDown_foldl (paths : List Path) (before : Passing) :
    TookDown paths before (paths.foldl takeDown before) := by
  induction paths generalizing before with
  | nil => exact ⟨by simp, rfl, rfl, rfl, id, [], by simp, nofun, by simp⟩
  | cons path rest ih =>
      obtain ⟨installed, failed, bridge, tried, touches, moments⟩ := takeDown_spec before path
      obtain ⟨rows, laterFailed, laterBridge, laterTried, laterTouches, more, extended, kept, last⟩ :=
        ih (before.takeDown path)
      rw [installed] at rows
      refine ⟨fun row => ?_, laterFailed.trans failed, laterBridge.trans bridge,
        laterTried.trans tried, fun touched => laterTouches (touches touched),
        before.os.installed.remove path :: more, ?_, ?_, ?_⟩
      · rw [List.foldl_cons, rows row, Roots.mem_remove, List.mem_cons]
        tauto
      · rw [List.foldl_cons, extended, moments, List.append_assoc]
        rfl
      · intro moment member row inside
        rcases List.mem_cons.mp member with rfl | later
        · exact ((rows row).mp inside).1
        · exact kept moment later row inside
      · intro _
        by_cases none : rest = []
        · subst none
          exact List.mem_cons.mpr (.inl installed)
        · exact List.mem_cons_of_mem _ (last none)

/-! ## Putting up -/

/-- What putting up some rows leaves of a state. -/
structure PutUp (answers : Answers) (rows : List (Path × Bool)) (before : Passing × Bool)
    (after : Passing × Bool) : Prop where
  installed : ∀ row, row ∈ after.1.os.installed.rows ↔ row ∈ before.1.os.installed.rows ∨
    row ∈ rows ∧ answers.attempt row.1 = .accepted
  failed : ∀ path, path ∈ after.1.os.failed ↔ path ∈ before.1.os.failed ∨
    ∃ row ∈ rows, row.1 = path ∧ row ∉ before.1.os.installed.rows ∧
      answers.attempt row.1 ≠ .accepted
  flag : after.2 = true ↔ before.2 = true ∨ ∃ row ∈ rows, row ∉ before.1.os.installed.rows ∧
    answers.attempt row.1 ≠ .accepted
  bridge : after.1.bridge = before.1.bridge
  tried : after.1.bridgeTried = before.1.bridgeTried
  touched : before.1.touched = true ∨ (∃ row ∈ after.1.os.installed.rows,
    row ∉ before.1.os.installed.rows) → after.1.touched = true
  moments : ∃ more, after.1.moments = before.1.moments ++ more ∧
    ∀ moment ∈ more, ∀ row ∈ before.1.os.installed.rows, row ∈ moment.rows

theorem putUp_spec (backend : Backend) (answers : Answers) (round : Passing × Bool) (row : Path × Bool)
    (alone : ∀ held ∈ round.1.os.installed.rows, held.1 = row.1 → held = row) :
    PutUp answers [row] round (putUp backend answers round row) := by
  obtain ⟨passing, flag⟩ := round
  unfold putUp
  dsimp only at alone ⊢
  split
  · rename_i stands
    refine ⟨fun other => ?_, fun path => ?_, ?_, rfl, rfl, ?_, [], by simp, nofun⟩
    · simp only [List.mem_singleton]
      constructor
      · exact .inl
      · rintro (held | ⟨rfl, _⟩)
        · exact held
        · exact stands
    · simp only [List.mem_singleton]
      constructor
      · exact .inl
      · rintro (failed | ⟨_, rfl, _, absent, _⟩)
        · exact failed
        · exact absurd stands absent
    · simp [stands]
    · rintro (touched | ⟨other, held, absent⟩)
      · exact touched
      · exact absurd held absent
  · rename_i absent
    obtain ⟨installed, failed, ok, touches, keeps⟩ := install_installed backend.shared
      (answers.attempt row.1) passing.os passing.touched row.1
    generalize install backend.shared (answers.attempt row.1) passing.os passing.touched row.1 =
      result at installed failed ok touches keeps
    obtain ⟨os, touched, went⟩ := result
    dsimp only at installed failed ok touches keeps ⊢
    cases went with
    | true =>
        have accepted : answers.attempt row.1 = .accepted := ok.mp rfl
        have rows : ∀ other, other ∈ (os.installed.insert row.1 row.2).rows ↔
            other ∈ passing.os.installed.rows ∨ other = row := by
          intro other
          rw [Roots.mem_insert, installed]
          constructor
          · rintro (new | ⟨held, _⟩)
            · exact .inr new
            · exact .inl held
          · rintro (held | new)
            · by_cases same : other.1 = row.1
              · exact .inl (alone other held same)
              · exact .inr ⟨held, same⟩
            · exact .inl new
        refine ⟨fun other => ?_, fun path => ?_, ?_, rfl, rfl, fun _ => touches accepted,
          [os.installed.insert row.1 row.2], rfl, ?_⟩
        · simp only [if_true, rows, List.mem_singleton]
          constructor
          · rintro (held | rfl)
            · exact .inl held
            · exact .inr ⟨rfl, accepted⟩
          · rintro (held | ⟨rfl, _⟩)
            · exact .inl held
            · exact .inr rfl
        · simp [failed, accepted]
        · simp [accepted]
        · intro moment member other held
          rw [List.mem_singleton.mp member]
          exact (rows other).mpr (.inl held)
    | false =>
        have refused : answers.attempt row.1 ≠ .accepted := fun accepted => by
          have went := ok.mpr accepted
          cases went
        refine ⟨fun other => ?_, fun path => ?_, ?_, rfl, rfl, ?_, [], by simp, nofun⟩
        · simp only [Bool.false_eq_true, if_false, installed, List.mem_singleton]
          constructor
          · exact .inl
          · rintro (held | ⟨rfl, accepted⟩)
            · exact held
            · exact absurd accepted refused
        · simp only [Bool.false_eq_true, if_false, failed, List.mem_cons]
          constructor
          · rintro (rfl | before)
            · exact .inr ⟨row, .inl rfl, rfl, absent, refused⟩
            · exact .inl before
          · rintro (before | ⟨other, one | none, rfl, _, _⟩)
            · exact .inr before
            · exact .inl (one ▸ rfl)
            · cases none
        · simp [absent, refused]
        · rintro (before | ⟨other, held, new⟩)
          · exact keeps before
          · simp only [Bool.false_eq_true, if_false, installed] at held
            exact absurd held new

theorem PutUp.cons {first : Path × Bool} {rest : List (Path × Bool)}
    {before middle after : Passing × Bool} (one : PutUp answers [first] before middle)
    (later : PutUp answers rest middle after) (other : ∀ row ∈ rest, row ≠ first) :
    PutUp answers (first :: rest) before after := by
  have held : ∀ row ∈ rest, (row ∈ middle.1.os.installed.rows ↔ row ∈ before.1.os.installed.rows) := by
    intro row inside
    rw [one.installed row, List.mem_singleton]
    exact or_iff_left fun new => other row inside new.1
  obtain ⟨moreOne, extendedOne, keptOne⟩ := one.moments
  obtain ⟨moreLater, extendedLater, keptLater⟩ := later.moments
  refine ⟨fun row => ?_, fun path => ?_, ?_, later.bridge.trans one.bridge,
    later.tried.trans one.tried, ?_, moreOne ++ moreLater, ?_, ?_⟩
  · rw [later.installed row, one.installed row, List.mem_singleton, List.mem_cons, or_assoc,
      or_and_right]
  · rw [later.failed path, one.failed path]
    constructor
    · rintro ((stands | ⟨row, inside, rfl, absent, refused⟩) | ⟨row, inside, rfl, absent, refused⟩)
      · exact .inl stands
      · exact .inr ⟨row, List.mem_cons.mpr (.inl (List.mem_singleton.mp inside)), rfl, absent, refused⟩
      · exact .inr ⟨row, List.mem_cons_of_mem _ inside, rfl, mt (held row inside).mpr absent, refused⟩
    · rintro (stands | ⟨row, inside, rfl, absent, refused⟩)
      · exact .inl (.inl stands)
      · rcases List.mem_cons.mp inside with rfl | inside
        · exact .inl (.inr ⟨row, List.mem_cons_self, rfl, absent, refused⟩)
        · exact .inr ⟨row, inside, rfl, mt (held row inside).mp absent, refused⟩
  · rw [later.flag, one.flag]
    constructor
    · rintro ((flag | ⟨row, inside, absent, refused⟩) | ⟨row, inside, absent, refused⟩)
      · exact .inl flag
      · exact .inr ⟨row, List.mem_cons.mpr (.inl (List.mem_singleton.mp inside)), absent, refused⟩
      · exact .inr ⟨row, List.mem_cons_of_mem _ inside, mt (held row inside).mpr absent, refused⟩
    · rintro (flag | ⟨row, inside, absent, refused⟩)
      · exact .inl (.inl flag)
      · rcases List.mem_cons.mp inside with rfl | inside
        · exact .inl (.inr ⟨row, List.mem_cons_self, absent, refused⟩)
        · exact .inr ⟨row, inside, mt (held row inside).mp absent, refused⟩
  · rintro (touched | ⟨row, stands, absent⟩)
    · exact later.touched (.inl (one.touched (.inl touched)))
    · by_cases between : row ∈ middle.1.os.installed.rows
      · exact later.touched (.inl (one.touched (.inr ⟨row, between, absent⟩)))
      · exact later.touched (.inr ⟨row, stands, between⟩)
  · rw [extendedLater, extendedOne, List.append_assoc]
  · intro moment member row stands
    rcases List.mem_append.mp member with inside | inside
    · exact keptOne moment inside row stands
    · exact keptLater moment inside row ((one.installed row).mpr (.inl stands))

theorem putUp_foldl (backend : Backend) (answers : Answers) (rows : List (Path × Bool)) (distinct : (rows.map Prod.fst).Nodup)
    (round : Passing × Bool) (alone : ∀ row ∈ rows, ∀ held ∈ round.1.os.installed.rows,
      held.1 = row.1 → held = row) :
    PutUp answers rows round (rows.foldl (putUp backend answers) round) := by
  induction rows generalizing round with
  | nil => exact ⟨by simp, by simp, by simp, rfl, rfl, by simp, [], by simp, nofun⟩
  | cons first rest ih =>
      obtain ⟨fresh, distinct⟩ := List.nodup_cons.mp distinct
      have other : ∀ row ∈ rest, row ≠ first := fun row inside same =>
        fresh (same ▸ List.mem_map_of_mem inside)
      have one := putUp_spec backend answers round first
        (alone first List.mem_cons_self)
      rw [List.foldl_cons]
      generalize putUp backend answers round first = middle at one ⊢
      have later := ih distinct middle fun row inside held stands same => by
        rcases (one.installed held).mp stands with before | ⟨new, _⟩
        · exact alone row (List.mem_cons_of_mem _ inside) held before same
        · rw [List.mem_singleton.mp new] at same
          exact absurd (same ▸ List.mem_map_of_mem inside) fresh
      exact one.cons later other

/-! ## A round -/

/-- What a round leaves of a state. -/
structure Rounded (backend : Backend) (answers : Answers) (desired : Roots) (before after : Passing) :
    Prop where
  installed : ∀ row, row ∈ after.os.installed.rows ↔
    row ∈ desired.rows ∧ (row ∈ before.os.installed.rows ∨ answers.attempt row.1 = .accepted)
  failed : ∀ path, path ∈ after.os.failed ↔ path ∈ before.os.failed ∨
    ∃ row ∈ desired.rows, row.1 = path ∧ row ∉ before.os.installed.rows ∧
      answers.attempt row.1 ≠ .accepted
  bridge : after.bridge =
    if backend.restartsOnChange && !before.bridgeTried then
      openBridge backend answers before.os.installed desired
    else before.bridge
  tried : backend.restartsOnChange = true → after.bridgeTried = true
  touched : before.touched = true ∨
    (∃ row ∈ after.os.installed.rows, row ∉ before.os.installed.rows) → after.touched = true
  moments : ∃ more, after.moments = before.moments ++ more ∧
    (∀ moment ∈ more, ∀ row ∈ before.os.installed.rows, row ∈ desired.rows → row ∈ moment.rows) ∧
    ((∃ row ∈ before.os.installed.rows, row ∉ desired.rows) →
      ∃ moment ∈ more, ∀ row ∈ moment.rows, row ∈ before.os.installed.rows ∧ row ∈ desired.rows)

theorem mem_stale {installed desired : Roots} {row : Path × Bool} (inside : row ∈ installed.rows) :
    row.1 ∈ stale installed desired ↔ row ∉ desired.rows := by
  unfold stale
  constructor
  · intro member
    obtain ⟨other, listed, same⟩ := List.mem_map.mp member
    obtain ⟨stands, out⟩ := List.mem_filter.mp listed
    have equal : other = row := List.inj_on_of_nodup_map installed.distinct stands inside same
    subst equal
    simpa using out
  · intro out
    exact List.mem_map_of_mem (List.mem_filter.mpr ⟨inside, by simpa using out⟩)

theorem round_spec (backend : Backend) (answers : Answers) (desired : Roots) (before : Passing) :
    Rounded backend answers desired before (round backend answers desired before).1 ∧
      ((round backend answers desired before).2 = true ↔ ∃ row ∈ desired.rows,
        row ∉ before.os.installed.rows ∧ answers.attempt row.1 ≠ .accepted) := by
  obtain ⟨start, started⟩ : ∃ start : Passing, start =
      if backend.restartsOnChange && !before.bridgeTried then
        { before with
          bridgeTried := true
          bridge := openBridge backend answers before.os.installed desired }
      else before := ⟨_, rfl⟩
  have same : start.os = before.os ∧ start.touched = before.touched ∧
      start.moments = before.moments := by
    rw [started]
    split <;> exact ⟨rfl, rfl, rfl⟩
  obtain ⟨os, touched, moments⟩ := same
  have down := takeDown_foldl (stale before.os.installed desired) start
  obtain ⟨lower, lowered⟩ : ∃ lower : Passing, lower =
      (stale before.os.installed desired).foldl takeDown start := ⟨_, rfl⟩
  rw [← lowered] at down
  have stays : ∀ row, row ∈ lower.os.installed.rows ↔
      row ∈ before.os.installed.rows ∧ row ∈ desired.rows := by
    intro row
    rw [down.installed row, os]
    refine and_congr_right fun inside => ?_
    rw [mem_stale inside, not_not]
  have up := putUp_foldl backend answers desired.rows desired.distinct
    (lower, false) fun row inside held stands same =>
      List.inj_on_of_nodup_map desired.distinct ((stays held).mp stands).2 inside same
  have whole : round backend answers desired before =
      desired.rows.foldl (putUp backend answers) (lower, false) := by
    rw [lowered, ← os, started]
    rfl
  rw [← whole] at up
  have absent : ∀ row ∈ desired.rows,
      (row ∉ lower.os.installed.rows ↔ row ∉ before.os.installed.rows) := by
    intro row inside
    rw [stays row]
    exact not_congr (and_iff_left inside)
  obtain ⟨moreDown, extendedDown, keptDown, last⟩ := down.moments
  obtain ⟨moreUp, extendedUp, keptUp⟩ := up.moments
  refine ⟨⟨fun row => ?_, fun path => ?_, ?_, fun restarts => ?_, ?_, moreDown ++ moreUp, ?_, ?_, ?_⟩, ?_⟩
  · rw [up.installed row, stays row]
    tauto
  · rw [up.failed path, down.failed, os]
    refine or_congr_right (exists_congr fun row => and_congr_right fun inside => ?_)
    rw [absent row inside]
  · rw [up.bridge, down.bridge, started]
    split <;> rfl
  · rw [up.tried, down.tried, started]
    cases tried : before.bridgeTried <;> simp [restarts, tried]
  · rintro (before | ⟨row, stands, new⟩)
    · exact up.touched (.inl (down.touched (touched.trans before)))
    · exact up.touched (.inr ⟨row, stands, fun held => new ((stays row).mp held).1⟩)
  · rw [extendedUp, extendedDown, moments, List.append_assoc]
  · intro moment member row held inside
    have lowest := (stays row).mpr ⟨held, inside⟩
    rcases List.mem_append.mp member with early | late
    · exact keptDown moment early row lowest
    · exact keptUp moment late row lowest
  · rintro ⟨row, held, out⟩
    refine ⟨lower.os.installed, List.mem_append_left _ (last ?_), fun row => (stays row).mp⟩
    exact List.ne_nil_of_mem ((mem_stale held).mpr out)
  · rw [up.flag]
    simp only [Bool.false_eq_true, false_or]
    exact exists_congr fun row => and_congr_right fun inside => and_congr_left' (absent row inside)

/-! ## The rounds of a pass -/

/-- The installed roots that the cover still has. -/
def survivors (wanted : Roots) (os : OsState) : Roots :=
  os.installed.keep (· ∈ (minimalCover wanted os.failed).rows)

theorem mem_survivors {wanted : Roots} {os : OsState} {row : Path × Bool} :
    row ∈ (survivors wanted os).rows ↔
      row ∈ os.installed.rows ∧ row ∈ (minimalCover wanted os.failed).rows := by
  rw [survivors, Roots.mem_keep, decide_eq_true_eq]

/-- What the rounds leave of a state. -/
structure Passed (backend : Backend) (answers : Answers) (wanted : Roots) (start after : Passing) :
    Prop where
  installed : ∀ row, row ∈ after.os.installed.rows ↔
    row ∈ (minimalCover wanted after.os.failed).rows
  grown : start.os.failed ⊆ after.os.failed
  fails : ∀ path ∈ after.os.failed, path ∈ start.os.failed ∨ ∃ row ∈ wanted.rows, row.1 = path ∧
    row ∉ (survivors wanted start.os).rows ∧ answers.attempt path ≠ .accepted
  stands : ∀ row ∈ after.os.installed.rows,
    row ∈ (survivors wanted start.os).rows ∨ answers.attempt row.1 = .accepted
  kept : ∀ row ∈ (survivors wanted start.os).rows, row ∈ after.os.installed.rows
  touched : start.touched = true ∨ (∃ row ∈ after.os.installed.rows,
    row ∉ (survivors wanted start.os).rows) → after.touched = true
  bridge : after = start ∨ after.bridge =
    if backend.restartsOnChange && !start.bridgeTried then
      openBridge backend answers start.os.installed (minimalCover wanted start.os.failed)
    else start.bridge
  moments : ∃ more, after.moments = start.moments ++ more ∧
    (∀ moment ∈ more, ∀ row ∈ (survivors wanted start.os).rows, row ∈ moment.rows) ∧
    ((∃ row ∈ start.os.installed.rows, row ∉ (survivors wanted start.os).rows) →
      ∃ moment ∈ more, ∀ row ∈ moment.rows, row ∈ (survivors wanted start.os).rows)

/-- What one round puts up or leaves up survives every later one. -/
theorem Rounded.survives {wanted : Roots} {before after : Passing}
    (round : Rounded backend answers (minimalCover wanted before.os.failed) before after)
    {row : Path × Bool} (stands : row ∈ after.os.installed.rows) :
    row ∈ (survivors wanted after.os).rows := by
  obtain ⟨desired, held⟩ := (round.installed row).mp stands
  refine mem_survivors.mpr ⟨stands, ?_⟩
  have grown : before.os.failed ⊆ after.os.failed := fun path failed =>
    (round.failed path).mpr (.inl failed)
  refine minimalCover_mono desired grown fun failed => ?_
  rcases (round.failed row.1).mp failed with early | ⟨other, inside, same, absent, refused⟩
  · exact (minimalCover_wanted desired).2 early
  · have equal : other = row :=
      List.inj_on_of_nodup_map (minimalCover wanted before.os.failed).distinct inside desired same
    subst equal
    rcases held with up | accepted
    · exact absent up
    · exact refused accepted

theorem Rounded.survivors_subset {wanted : Roots} {before after : Passing}
    (round : Rounded backend answers (minimalCover wanted before.os.failed) before after)
    {row : Path × Bool} (survives : row ∈ (survivors wanted before.os).rows) :
    row ∈ (survivors wanted after.os).rows := by
  obtain ⟨held, desired⟩ := mem_survivors.mp survives
  exact round.survives ((round.installed row).mpr ⟨desired, .inl held⟩)

theorem Rounded.fails {wanted : Roots} {before after : Passing}
    (round : Rounded backend answers (minimalCover wanted before.os.failed) before after)
    {path : Path} (failed : path ∈ after.os.failed) : path ∈ before.os.failed ∨
      ∃ row ∈ wanted.rows, row.1 = path ∧ row ∉ (survivors wanted before.os).rows ∧
        answers.attempt path ≠ .accepted := by
  rcases (round.failed path).mp failed with early | ⟨row, inside, rfl, absent, refused⟩
  · exact .inl early
  · exact .inr ⟨row, (minimalCover_wanted inside).1, rfl,
      fun survives => absent (mem_survivors.mp survives).1, refused⟩

theorem passed_of_same {wanted : Roots} {start : Passing}
    (same : (minimalCover wanted start.os.failed).same start.os.installed = true) :
    Passed backend answers wanted start start := by
  have equal := Roots.same_iff.mp same
  have all : ∀ row, row ∈ start.os.installed.rows ↔ row ∈ (survivors wanted start.os).rows := by
    intro row
    rw [mem_survivors, equal row, and_self]
  refine ⟨fun row => (equal row).symm, fun _ failed => failed, fun _ failed => .inl failed,
    fun row held => .inl ((all row).mp held), fun row => (all row).mpr, ?_, .inl rfl, [], by simp,
    nofun, ?_⟩
  · rintro (touched | ⟨row, held, out⟩)
    · exact touched
    · exact absurd ((all row).mp held) out
  · rintro ⟨row, held, out⟩
    exact absurd ((all row).mp held) out

theorem Rounded.settled {wanted : Roots} {before after : Passing}
    (round : Rounded backend answers (minimalCover wanted before.os.failed) before after)
    (well : ∀ row ∈ (minimalCover wanted before.os.failed).rows,
      row ∈ before.os.installed.rows ∨ answers.attempt row.1 = .accepted) :
    (minimalCover wanted after.os.failed).same after.os.installed = true := by
  have failed : ∀ path, path ∈ after.os.failed ↔ path ∈ before.os.failed := by
    intro path
    rw [round.failed path]
    refine or_iff_left ?_
    rintro ⟨row, inside, _, absent, refused⟩
    exact (well row inside).elim absent refused
  refine Roots.same_iff.mpr fun row => ?_
  have unchanged : row ∈ (minimalCover wanted after.os.failed).rows ↔
      row ∈ (minimalCover wanted before.os.failed).rows := by
    simp only [mem_minimalCover, failed]
  rw [round.installed row, unchanged]
  constructor
  · intro inside
    exact ⟨inside, well row inside⟩
  · exact And.left

/-- A round and the rounds after it. -/
theorem Passed.afterRound {wanted : Roots} {start middle after : Passing}
    (round : Rounded backend answers (minimalCover wanted start.os.failed) start middle)
    (later : Passed backend answers wanted middle after) :
    Passed backend answers wanted start after := by
  obtain ⟨moreRound, extendedRound, keptRound, lowest⟩ := round.moments
  obtain ⟨moreLater, extendedLater, keptLater, _⟩ := later.moments
  refine ⟨later.installed, fun path failed => ?_, fun path failed => ?_, fun row stands => ?_,
    fun row survives => later.kept row (round.survivors_subset survives), ?_, .inr ?_,
    moreRound ++ moreLater, ?_, ?_, ?_⟩
  · exact later.grown ((round.failed path).mpr (.inl failed))
  · rcases later.fails path failed with early | ⟨row, wants, same, out, refused⟩
    · exact round.fails early
    · exact .inr ⟨row, wants, same, fun survives => out (round.survivors_subset survives), refused⟩
  · rcases later.stands row stands with survives | accepted
    · have held := (mem_survivors.mp survives).1
      obtain ⟨desired, up | accepted⟩ := (round.installed row).mp held
      · exact .inl (mem_survivors.mpr ⟨up, desired⟩)
      · exact .inr accepted
    · exact .inr accepted
  · rintro (touched | ⟨row, stands, out⟩)
    · exact later.touched (.inl (round.touched (.inl touched)))
    · by_cases survives : row ∈ (survivors wanted middle.os).rows
      · have held := (mem_survivors.mp survives).1
        have desired := ((round.installed row).mp held).1
        exact later.touched (.inl (round.touched (.inr ⟨row, held, fun up =>
          out (mem_survivors.mpr ⟨up, desired⟩)⟩)))
      · exact later.touched (.inr ⟨row, stands, survives⟩)
  · have bridge : after.bridge = middle.bridge := by
      rcases later.bridge with rfl | bridge
      · rfl
      · rw [bridge]
        cases restarts : backend.restartsOnChange with
        | false => rfl
        | true => simp [round.tried restarts]
    rw [bridge, round.bridge]
  · rw [extendedLater, extendedRound, List.append_assoc]
  · intro moment member row survives
    rcases List.mem_append.mp member with early | late
    · obtain ⟨held, desired⟩ := mem_survivors.mp survives
      exact keptRound moment early row held desired
    · exact keptLater moment late row (round.survivors_subset survives)
  · rintro ⟨row, held, out⟩
    obtain ⟨moment, member, low⟩ := lowest ⟨row, held, fun desired =>
      out (mem_survivors.mpr ⟨held, desired⟩)⟩
    exact ⟨moment, List.mem_append_left _ member, fun row inside => mem_survivors.mpr (low row inside)⟩

theorem passed_of_rounds {wanted : Roots} {fuel : Nat} {start after : Passing}
    (ran : rounds backend answers wanted fuel start = some after) :
    Passed backend answers wanted start after := by
  induction fuel generalizing start with
  | zero => cases ran
  | succ fuel ih =>
      unfold rounds at ran
      dsimp only at ran
      split at ran
      · rename_i same
        obtain rfl := Option.some.inj ran
        exact passed_of_same same
      · obtain ⟨round, flag⟩ :=
          round_spec backend answers (minimalCover wanted start.os.failed) start
        split at ran
        · rename_i passing result
          rw [result] at round flag
          obtain rfl := Option.some.inj ran
          refine .afterRound round (passed_of_same (round.settled fun row inside => ?_))
          by_contra fails
          obtain ⟨absent, refused⟩ := not_or.mp fails
          exact Bool.false_ne_true (flag.mpr ⟨row, inside, absent, refused⟩)
        · rename_i passing result
          rw [result] at round
          exact .afterRound round (ih ran)

/-- The wanted paths that have not failed. -/
def alive (wanted : Roots) (failed : List Path) : List (Path × Bool) :=
  wanted.rows.filter (·.1 ∉ failed)

theorem alive_lt {wanted : Roots} {before after : List Path} (grown : before ⊆ after)
    {row : Path × Bool} (wants : row ∈ wanted.rows) (stood : row.1 ∉ before) (fails : row.1 ∈ after) :
    (alive wanted after).length < (alive wanted before).length := by
  have narrowed : alive wanted after = (alive wanted before).filter (·.1 ∉ after) := by
    unfold alive
    rw [List.filter_filter]
    refine List.filter_congr fun row _ => ?_
    by_cases failed : row.1 ∈ before
    · simp [failed, grown failed]
    · simp [failed]
  rw [narrowed, List.length_filter_lt_length_iff_exists]
  exact ⟨row, List.mem_filter.mpr ⟨wants, by simpa using stood⟩, by simpa using fails⟩

/-- The rounds end: each that fails leaves fewer paths that have not failed. -/
theorem rounds_end {wanted : Roots} {fuel : Nat} {start : Passing}
    (enough : (alive wanted start.os.failed).length < fuel) :
    ∃ after, rounds backend answers wanted fuel start = some after := by
  induction fuel generalizing start with
  | zero => exact absurd enough (Nat.not_lt_zero _)
  | succ fuel ih =>
      unfold rounds
      dsimp only
      split
      · exact ⟨start, rfl⟩
      · obtain ⟨round, flag⟩ :=
          round_spec backend answers (minimalCover wanted start.os.failed) start
        split
        · exact ⟨_, rfl⟩
        · rename_i passing result
          rw [result] at round flag
          obtain ⟨row, inside, absent, refused⟩ := flag.mp rfl
          obtain ⟨wants, stood⟩ := minimalCover_wanted inside
          apply ih
          have fewer : (alive wanted passing.os.failed).length < _ := alive_lt (fun path failed => (round.failed path).mpr (.inl failed)) wants stood
            ((round.failed row.1).mpr (.inr ⟨row, inside, rfl, absent, refused⟩))
          omega

end Passing

end Zeron.FsWatch
