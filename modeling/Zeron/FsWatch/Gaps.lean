import Zeron.FsWatch.Passes

namespace Zeron.FsWatch

open Passing

variable {backend : Backend} {answers : Answers}

/-! # Gaps in what a registration sees

A pass sends a rescan to a registration whose covering roots it changed.  It looks at
these before and after only: a root that was taken down for one above it, and put back
when that one failed, is the same at both ends.
-/

theorem climb_prefix {path ancestor found : Path} {fuel : Nat}
    (climbed : climb path fuel ancestor = some found) : found <+: path ∧ found <+: ancestor := by
  induction fuel generalizing ancestor with
  | zero =>
      unfold climb at climbed
      split at climbed
      · rename_i begins
        obtain rfl := Option.some.inj climbed
        exact ⟨begins, List.prefix_rfl⟩
      · cases climbed
  | succ fuel ih =>
      unfold climb at climbed
      split at climbed
      · rename_i begins
        obtain rfl := Option.some.inj climbed
        exact ⟨begins, List.prefix_rfl⟩
      · obtain ⟨parent, higher, rest⟩ := Option.bind_eq_some_iff.mp climbed
        obtain ⟨begins, within⟩ := ih rest
        unfold Path.parent at higher
        split at higher
        · cases higher
        · obtain rfl := Option.some.inj higher
          exact ⟨begins, within.trans (List.dropLast_prefix ancestor)⟩

theorem climbs_prefix {paths : List Path} {first found : Path}
    (climbed : paths.foldlM (fun ancestor path => climb path ancestor.length ancestor) first =
      some found) : found <+: first ∧ ∀ path ∈ paths, found <+: path := by
  induction paths generalizing first with
  | nil =>
      obtain rfl := Option.some.inj climbed
      exact ⟨List.prefix_rfl, nofun⟩
  | cons path rest ih =>
      rw [List.foldlM_cons] at climbed
      obtain ⟨middle, one, later⟩ := Option.bind_eq_some_iff.mp climbed
      obtain ⟨within, begins⟩ := ih later
      obtain ⟨onPath, onFirst⟩ := climb_prefix one
      refine ⟨within.trans onFirst, fun other member => ?_⟩
      rcases List.mem_cons.mp member with rfl | inside
      · exact within.trans onPath
      · exact begins other inside

/-- A common ancestor is above every path. -/
theorem commonAncestor_prefix {paths : List Path} {found path : Path}
    (ancestor : commonAncestor paths = some found) (member : path ∈ paths) : found <+: path := by
  cases paths with
  | nil => cases member
  | cons first rest =>
      obtain ⟨onFirst, begins⟩ := climbs_prefix ancestor
      rcases List.mem_cons.mp member with rfl | inside
      · exact onFirst
      · exact begins path inside

/-- A bridge is above every path that survives. -/
theorem openBridge_prefix {installed desired : Roots} {found : Path} {row : Path × Bool}
    (opened : openBridge backend answers installed desired = some found)
    (held : row ∈ installed.rows) (stays : row ∈ desired.rows) : found <+: row.1 := by
  unfold openBridge at opened
  split at opened
  · obtain ⟨ancestor, _⟩ := Option.filter_eq_some_iff.mp opened
    exact commonAncestor_prefix ancestor
      (List.mem_map_of_mem (Roots.mem_keep.mpr ⟨held, decide_eq_true stays⟩))
  · cases opened

/-! ## No silent gap -/

/-- Whether the bridge of a pass is above a path. -/
def Passing.Bridges (passing : Passing) (path : Path) : Prop :=
  ∃ ancestor, passing.bridge = some ancestor ∧ ancestor <+: path

/-- Whoever is covered first, or was left without a root or a stream, is sent a rescan. -/
def NoSilentGap (backend : Backend) (before : Roots) (passing : Passing) (reg : Registration) :
    Prop :=
  isCovered reg.path passing.os.installed = true →
    (reg.attached = false ∨ isCovered reg.path before = false →
      rescans backend before passing reg = true) ∧
    (isCovered reg.path before = true →
      (∃ moment ∈ passing.moments, isCovered reg.path moment = false) ∨
        (backend.restartsOnChange = true ∧ passing.touched = true ∧ ¬ passing.Bridges reg.path) →
      rescans backend before passing reg = true)

/-- The roots that a pass begins with and does not take down. -/
def standing (os : OsState) (wanted : Roots) : Roots :=
  survivors wanted { os with failed := os.failed.filter (· ∈ wanted.rows.map Prod.fst) }

/-- The wanted paths that have failed, and those that would. -/
def failing (answers : Answers) (os : OsState) (wanted : Roots) : List Path :=
  os.failed.filter (· ∈ wanted.rows.map Prod.fst) ++
    (wanted.rows.filter fun row =>
      row ∉ (standing os wanted).rows ∧ answers.attempt row.1 ≠ .accepted).map Prod.fst

/-- Every root above an attached registration is taken down, the roots above it are the
same when the failing paths are left out, and no rescan is due for want of a bridge. -/
def PutBack (backend : Backend) (answers : Answers) (os : OsState) (wanted : Roots)
    (reg : Registration) : Prop :=
  reg.attached = true ∧ isCovered reg.path os.installed = true ∧
    isCovered reg.path (standing os wanted) = false ∧
    coveringRoots reg.path os.installed =
      coveringRoots reg.path (minimalCover wanted (failing answers os wanted)) ∧
    ¬ (backend.restartsOnChange = true ∧ openBridge backend answers os.installed
      (minimalCover wanted (os.failed.filter (· ∈ wanted.rows.map Prod.fst))) = none)

theorem reconcileOs_ends (backend : Backend) (answers : Answers) (os : OsState) (wanted : Roots) :
    ∃ passing, reconcileOs backend answers os wanted = some passing := by
  refine rounds_end (Nat.lt_succ_of_le ?_)
  exact List.length_filter_le _ _

/-- A cover does not change when paths outside it fail as well. -/
theorem mem_minimalCover_of_grown {wanted : Roots} {failed more : List Path}
    (grown : failed ⊆ more) (stands : ∀ row ∈ (minimalCover wanted failed).rows, row.1 ∉ more)
    (row : Path × Bool) :
    row ∈ (minimalCover wanted more).rows ↔ row ∈ (minimalCover wanted failed).rows := by
  constructor
  · intro inside
    obtain ⟨wants, out⟩ := minimalCover_wanted inside
    rcases minimalCover_covers wants fun failed => out (grown failed) with cover | ⟨root, cover, lies⟩
    · exact cover
    · have higher := minimalCover_mono cover grown (stands root cover)
      rw [minimalCover_flat higher inside] at lies
      cases lies
  · intro inside
    exact minimalCover_mono inside grown (stands row inside)

theorem coveringRoots_congr {left right : Roots} (same : ∀ row, row ∈ left.rows ↔ row ∈ right.rows)
    (path : Path) : coveringRoots path left = coveringRoots path right := by
  ext root
  rw [mem_coveringRoots, mem_coveringRoots, same root]

theorem isCovered_iff_coveringRoots {path : Path} {installed : Roots} :
    isCovered path installed = true ↔ (coveringRoots path installed).Nonempty := by
  rw [isCovered_iff]
  exact exists_congr fun root => mem_coveringRoots.symm

/-- The roots at the end of a pass are the cover of what does not fail. -/
theorem installed_iff {os : OsState} {wanted : Roots} {passing : Passing}
    (ran : reconcileOs backend answers os wanted = some passing) (row : Path × Bool) :
    row ∈ passing.os.installed.rows ↔
      row ∈ (minimalCover wanted (failing answers os wanted)).rows := by
  have passed := passed_of_rounds ran
  rw [passed.installed row]
  refine (mem_minimalCover_of_grown (fun path failed => ?_) (fun row inside => ?_) row).symm
  · unfold failing
    refine List.mem_append.mpr ?_
    rcases passed.fails path failed with early | ⟨row, wants, rfl, out, refused⟩
    · exact .inl early
    · refine .inr (List.mem_map_of_mem (List.mem_filter.mpr ⟨wants, decide_eq_true ⟨out, refused⟩⟩))
  · intro fails
    rcases List.mem_append.mp fails with early | late
    · exact (minimalCover_wanted inside).2 (passed.grown early)
    · obtain ⟨other, listed, same⟩ := List.mem_map.mp late
      obtain ⟨wants, bad⟩ := List.mem_filter.mp listed
      obtain ⟨out, refused⟩ := of_decide_eq_true bad
      have equal : other = row := List.inj_on_of_nodup_map wanted.distinct wants
        (minimalCover_wanted inside).1 same
      subst equal
      exact (passed.stands other ((passed.installed other).mpr inside)).elim out refused

theorem standing_installed {os : OsState} {wanted : Roots} {path : Path}
    (covers : isCovered path (standing os wanted) = true) : isCovered path os.installed = true := by
  obtain ⟨root, stands, above⟩ := isCovered_iff.mp covers
  exact isCovered_iff.mpr ⟨root, (mem_survivors.mp stands).1, above⟩

/-- The bridge of a pass that changes something is opened before its first change. -/
theorem bridge_eq {os : OsState} {wanted : Roots} {passing : Passing}
    (ran : reconcileOs backend answers os wanted = some passing)
    (restarts : backend.restartsOnChange = true) (touched : passing.touched = true) :
    passing.bridge = openBridge backend answers os.installed
      (minimalCover wanted (os.failed.filter (· ∈ wanted.rows.map Prod.fst))) := by
  rcases (passed_of_rounds ran).bridge with rfl | bridge
  · cases touched
  · rw [bridge, restarts]
    rfl

/-- A root that stands throughout is under the bridge, when there is one. -/
theorem bridges_of_standing {os : OsState} {wanted : Roots} {passing : Passing} {path : Path}
    (ran : reconcileOs backend answers os wanted = some passing)
    (restarts : backend.restartsOnChange = true) (touched : passing.touched = true)
    (covers : isCovered path (standing os wanted) = true) :
    passing.bridge = none ∨ passing.Bridges path := by
  cases bridge : passing.bridge with
  | none => exact .inl rfl
  | some ancestor =>
      obtain ⟨root, stands, covering⟩ := isCovered_iff.mp covers
      obtain ⟨held, stays⟩ := mem_survivors.mp stands
      rw [bridge_eq ran restarts touched] at bridge
      have begins := openBridge_prefix bridge held stays
      refine .inr ⟨ancestor, bridge_eq ran restarts touched ▸ bridge, begins.trans ?_⟩
      unfold rootCovers at covering
      simp only [Bool.or_eq_true, decide_eq_true_eq, Bool.and_eq_true, List.isPrefixOf_iff_prefix]
        at covering
      rcases covering with same | ⟨_, begins⟩
      · rw [same]
      · exact begins

/-- A root that is taken down and put back touches the watcher. -/
theorem touched_of_not_standing {os : OsState} {wanted : Roots} {passing : Passing} {path : Path}
    (ran : reconcileOs backend answers os wanted = some passing)
    (after : isCovered path passing.os.installed = true)
    (covers : isCovered path (standing os wanted) = false) : passing.touched = true := by
  obtain ⟨root, held, above⟩ := isCovered_iff.mp after
  refine (passed_of_rounds ran).touched (.inr ⟨root, held, fun stands => ?_⟩)
  have covered : isCovered path (standing os wanted) = true := isCovered_iff.mpr ⟨root, stands, above⟩
  rw [covers] at covered
  cases covered

/-- Some moment of a pass has no more than what stands throughout. -/
theorem moment_of_not_standing {os : OsState} {wanted : Roots} {passing : Passing} {path : Path}
    (ran : reconcileOs backend answers os wanted = some passing)
    (before : isCovered path os.installed = true)
    (covers : isCovered path (standing os wanted) = false) :
    ∃ moment ∈ passing.moments, isCovered path moment = false := by
  obtain ⟨more, extended, _, lowest⟩ := (passed_of_rounds ran).moments
  obtain ⟨root, held, above⟩ := isCovered_iff.mp before
  obtain ⟨moment, member, low⟩ := lowest ⟨root, held, fun stands => by
    have covered : isCovered path (standing os wanted) = true :=
      isCovered_iff.mpr ⟨root, stands, above⟩
    rw [covers] at covered
    cases covered⟩
  refine ⟨moment, extended ▸ List.mem_append_right _ member, ?_⟩
  by_contra covered
  obtain ⟨other, inside, covering⟩ := isCovered_iff.mp (Bool.eq_true_of_not_eq_false covered)
  have stood : isCovered path (standing os wanted) = true :=
    isCovered_iff.mpr ⟨other, low other inside, covering⟩
  rw [covers] at stood
  cases stood

/-- Every moment of a pass has what stands throughout. -/
theorem moments_of_standing {os : OsState} {wanted : Roots} {passing : Passing} {path : Path}
    (ran : reconcileOs backend answers os wanted = some passing)
    (covers : isCovered path (standing os wanted) = true) {moment : Roots}
    (member : moment ∈ passing.moments) : isCovered path moment = true := by
  obtain ⟨more, extended, kept, _⟩ := (passed_of_rounds ran).moments
  obtain ⟨root, stands, above⟩ := isCovered_iff.mp covers
  have moments : passing.moments = os.installed :: more := extended
  rw [moments] at member
  rcases List.mem_cons.mp member with first | later
  · rw [first]
    exact standing_installed covers
  · exact isCovered_iff.mpr ⟨root, kept moment later root stands, above⟩

/-- Nobody is left without a root or a stream unheard, but by a root that was put back. -/
theorem noSilentGap_iff (backend : Backend) (answers : Answers) (os : OsState)
    (regs : List Registration) (reg : Registration) :
    ∃ passing, reconcileOs backend answers os (wantedOf regs) = some passing ∧
      (NoSilentGap backend os.installed passing reg ↔
        ¬ PutBack backend answers os (wantedOf regs) reg) := by
  obtain ⟨passing, ran⟩ := reconcileOs_ends backend answers os (wantedOf regs)
  refine ⟨passing, ran, ?_⟩
  have roots := coveringRoots_congr (installed_iff ran) reg.path
  constructor
  · rintro safe ⟨attached, before, fell, same, unbridged⟩
    rw [← roots] at same
    have after : isCovered reg.path passing.os.installed = true := by
      rw [isCovered_iff_coveringRoots, ← same, ← isCovered_iff_coveringRoots]
      exact before
    have sent := (safe after).2 before (.inl (moment_of_not_standing ran before fell))
    have touched := touched_of_not_standing ran after fell
    unfold rescans Passing.gap at sent
    simp [attached, same, after, before, touched] at sent
    exact unbridged ⟨sent.1, bridge_eq ran sent.1 touched ▸ sent.2⟩
  · intro safe after
    cases attached : reg.attached with
    | false =>
        have sent : rescans backend os.installed passing reg = true := by
          simp [rescans, after, attached]
        exact ⟨fun _ => sent, fun _ _ => sent⟩
    | true =>
        by_cases same : coveringRoots reg.path os.installed = coveringRoots reg.path passing.os.installed
        · have before : isCovered reg.path os.installed = true := by
            rw [isCovered_iff_coveringRoots, same, ← isCovered_iff_coveringRoots]
            exact after
          have due : passing.gap backend = true → rescans backend os.installed passing reg = true := by
            intro gap
            simp [rescans, after, before, gap]
          constructor
          · rintro (loose | uncovered)
            · cases loose
            · rw [before] at uncovered
              cases uncovered
          · rintro - gone
            apply due
            cases covers : isCovered reg.path (standing os (wantedOf regs)) with
            | true =>
                -- what stands throughout is without a stream only where no bridge was opened
                rcases gone with ⟨moment, member, uncovered⟩ | ⟨restarts, touched, unbridged⟩
                · rw [moments_of_standing ran covers member] at uncovered
                  cases uncovered
                · have bridge := (bridges_of_standing ran restarts touched covers).resolve_right unbridged
                  simp [Passing.gap, restarts, touched, bridge]
            | false =>
                have touched := touched_of_not_standing ran after covers
                by_contra silent
                refine safe ⟨attached, before, covers, roots ▸ same, ?_⟩
                rintro ⟨restarts, bridge⟩
                rw [← bridge_eq ran restarts touched] at bridge
                simp [Passing.gap, restarts, touched, bridge] at silent
        · have sent : rescans backend os.installed passing reg = true := by
            simp [rescans, after, same]
          exact ⟨fun _ => sent, fun _ _ => sent⟩

/-- A directory that is watched alone, and one above it that cannot be watched. -/
def nested : Registration := { id := 1, path := ["/", "tree", ".git"], recursive := false }

def outer : Registration := { id := 2, path := ["/", "tree"], recursive := true }

/-- One watcher for each root; there is no handle left for a whole tree. -/
def watchers : Backend := { restartsOnChange := false, shared := false }

def exhausted : Answers where
  attempt path := if path = outer.path then .refused else .accepted

/-- The nested directory is watched at both ends of a pass, not within it, and nobody is told. -/
theorem not_noSilentGap_of_putBack : ∃ first second,
    reconcileOs watchers exhausted {} (wantedOf [nested]) = some first ∧
      reconcileOs watchers exhausted first.os (wantedOf [nested, outer]) = some second ∧
      ¬ NoSilentGap watchers first.os.installed second (nested.attach first.os.installed) := by
  have ran : ((reconcileOs watchers exhausted {} (wantedOf [nested])).bind fun first =>
      (reconcileOs watchers exhausted first.os (wantedOf [nested, outer])).map fun second =>
        (first, second)).any (fun passes =>
          isCovered nested.path passes.1.os.installed &&
          isCovered nested.path passes.2.os.installed &&
          passes.2.moments.any (fun moment => !isCovered nested.path moment) &&
          !rescans watchers passes.1.os.installed passes.2
            (nested.attach passes.1.os.installed)) = true := by decide
  obtain ⟨⟨first, second⟩, both, facts⟩ := (Option.any_eq_true _ _).mp ran
  obtain ⟨_, one, mapped⟩ := Option.bind_eq_some_iff.mp both
  obtain ⟨_, two, pair⟩ := Option.map_eq_some_iff.mp mapped
  obtain ⟨rfl, rfl⟩ := Prod.mk.inj pair
  simp only [Bool.and_eq_true, Bool.not_eq_true', List.any_eq_true] at facts
  obtain ⟨⟨⟨before, after⟩, moment, member, uncovered⟩, silent⟩ := facts
  refine ⟨_, _, one, two, fun safe => ?_⟩
  have sent := (safe after).2 before (.inl ⟨moment, member, uncovered⟩)
  rw [silent] at sent
  cases sent

end Zeron.FsWatch
