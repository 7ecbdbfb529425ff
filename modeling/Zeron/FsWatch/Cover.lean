import Mathlib

namespace Zeron.FsWatch

/-! # Covers of the wanted paths

A path is the list of its components.  A map from paths to whether they are watched
recursively is a list of rows with distinct paths; its order is that of a hash map,
which nothing may depend on.
-/

abbrev Path := List String

instance : LawfulBEq Path := inferInstance

instance : LawfulBEq (Path × Bool) := inferInstance

/-- `Path::parent`: the root and the empty path have none. -/
def Path.parent (path : Path) : Option Path :=
  if path = [] ∨ path = ["/"] then none else some path.dropLast

structure Roots where
  rows : List (Path × Bool) := []
  distinct : (rows.map Prod.fst).Nodup := by simp

namespace Roots

def keep (roots : Roots) (which : Path × Bool → Bool) : Roots where
  rows := roots.rows.filter which
  distinct := roots.distinct.sublist (List.filter_sublist.map _)

def remove (roots : Roots) (path : Path) : Roots := roots.keep (·.1 ≠ path)

def insert (roots : Roots) (path : Path) (recursive : Bool) : Roots where
  rows := (path, recursive) :: (roots.remove path).rows
  distinct := by
    refine List.nodup_cons.mpr ⟨fun member => ?_, (roots.remove path).distinct⟩
    obtain ⟨row, inside, same⟩ := List.mem_map.mp member
    have different := (List.mem_filter.mp inside).2
    simp at different
    exact different same

/-- `*entry(path).or_default() |= recursive`. -/
def want (roots : Roots) (path : Path) (recursive : Bool) : Roots :=
  roots.insert path (recursive || roots.rows.any fun row => row.1 = path && row.2)

/-- Whether two maps are equal. -/
def same (left right : Roots) : Bool :=
  left.rows.all (· ∈ right.rows) && right.rows.all (· ∈ left.rows)

theorem same_iff {left right : Roots} :
    left.same right = true ↔ ∀ row, row ∈ left.rows ↔ row ∈ right.rows := by
  simp only [same, Bool.and_eq_true, List.all_eq_true, decide_eq_true_eq]
  constructor
  · rintro ⟨into, back⟩ row
    exact ⟨into row, back row⟩
  · intro equal
    exact ⟨fun row => (equal row).mp, fun row => (equal row).mpr⟩

@[simp] theorem mem_keep {roots : Roots} {which : Path × Bool → Bool} {row : Path × Bool} :
    row ∈ (roots.keep which).rows ↔ row ∈ roots.rows ∧ which row = true := List.mem_filter

theorem mem_remove {roots : Roots} {path : Path} {row : Path × Bool} :
    row ∈ (roots.remove path).rows ↔ row ∈ roots.rows ∧ row.1 ≠ path := by
  simp [remove]

theorem mem_insert {roots : Roots} {path : Path} {recursive : Bool} {row : Path × Bool} :
    row ∈ (roots.insert path recursive).rows ↔
      row = (path, recursive) ∨ row ∈ roots.rows ∧ row.1 ≠ path := by
  rw [insert, List.mem_cons, mem_remove]

/-- A path has one mode. -/
theorem mode_unique {roots : Roots} {path : Path} {first second : Bool}
    (one : (path, first) ∈ roots.rows) (other : (path, second) ∈ roots.rows) : first = second :=
  (Prod.mk.inj (List.inj_on_of_nodup_map roots.distinct one other rfl)).2

end Roots

def rootCovers (root : Path × Bool) (path : Path) : Bool :=
  path = root.1 || root.2 && root.1.isPrefixOf path

def isCovered (path : Path) (installed : Roots) : Bool := installed.rows.any (rootCovers · path)

def coveringRoots (path : Path) (installed : Roots) : Finset (Path × Bool) :=
  (installed.rows.filter (rootCovers · path)).toFinset

/-- A recursive root that lies above the path. -/
def above (root : Path × Bool) (path : Path) : Bool :=
  root.2 && root.1 ≠ path && root.1.isPrefixOf path

/-- The wanted paths that have not failed and lie under no other recursive one of these. -/
def minimalCover (wanted : Roots) (failed : List Path) : Roots :=
  let candidates := wanted.keep (·.1 ∉ failed)
  candidates.keep fun row => !candidates.rows.any (above · row.1)

theorem isCovered_iff {path : Path} {installed : Roots} :
    isCovered path installed = true ↔ ∃ root ∈ installed.rows, rootCovers root path = true :=
  List.any_eq_true

theorem mem_coveringRoots {path : Path} {installed : Roots} {root : Path × Bool} :
    root ∈ coveringRoots path installed ↔ root ∈ installed.rows ∧ rootCovers root path = true := by
  simp [coveringRoots]

theorem above_iff {root : Path × Bool} {path : Path} :
    above root path = true ↔ root.2 = true ∧ root.1 ≠ path ∧ root.1 <+: path := by
  simp [above, and_assoc]

theorem mem_minimalCover {wanted : Roots} {failed : List Path} {row : Path × Bool} :
    row ∈ (minimalCover wanted failed).rows ↔ (row ∈ wanted.rows ∧ row.1 ∉ failed) ∧
      ∀ root ∈ wanted.rows, root.1 ∉ failed → above root row.1 = false := by
  simp only [minimalCover, Roots.mem_keep, decide_eq_true_eq, Bool.not_eq_true', List.any_eq_false,
    Bool.not_eq_true, and_imp]

theorem minimalCover_wanted {wanted : Roots} {failed : List Path} {row : Path × Bool}
    (member : row ∈ (minimalCover wanted failed).rows) : row ∈ wanted.rows ∧ row.1 ∉ failed :=
  (mem_minimalCover.mp member).1

/-- No root of a cover lies under another recursive one. -/
theorem minimalCover_flat {wanted : Roots} {failed : List Path} {root row : Path × Bool}
    (one : root ∈ (minimalCover wanted failed).rows) (other : row ∈ (minimalCover wanted failed).rows) :
    above root row.1 = false := by
  obtain ⟨member, stands⟩ := minimalCover_wanted one
  exact (mem_minimalCover.mp other).2 root member stands

/-- What is in a cover stays in it while it does not fail itself. -/
theorem minimalCover_mono {wanted : Roots} {failed more : List Path} {row : Path × Bool}
    (member : row ∈ (minimalCover wanted failed).rows) (grown : failed ⊆ more) (stands : row.1 ∉ more) :
    row ∈ (minimalCover wanted more).rows := by
  obtain ⟨⟨wants, _⟩, flat⟩ := mem_minimalCover.mp member
  exact mem_minimalCover.mpr ⟨⟨wants, stands⟩, fun root inside alive =>
    flat root inside fun failed => alive (grown failed)⟩

/-- Every wanted path that has not failed is covered, recursively where it is to be. -/
theorem minimalCover_covers {wanted : Roots} {failed : List Path} {row : Path × Bool}
    (member : row ∈ wanted.rows) (stands : row.1 ∉ failed) :
    row ∈ (minimalCover wanted failed).rows ∨
      ∃ root ∈ (minimalCover wanted failed).rows, above root row.1 = true := by
  -- by induction on the length of the path: the shortest candidate above it is in the cover
  induction length : row.1.length using Nat.strong_induction_on generalizing row with
  | h size ih =>
      by_cases flat : ∀ root ∈ wanted.rows, root.1 ∉ failed → above root row.1 = false
      · exact .inl (mem_minimalCover.mpr ⟨⟨member, stands⟩, flat⟩)
      · push Not at flat
        obtain ⟨root, inside, alive, lies⟩ := flat
        have lies : above root row.1 = true := by simpa using lies
        obtain ⟨recursive, different, begins⟩ := above_iff.mp lies
        have shorter : root.1.length < row.1.length := by
          refine Nat.lt_of_le_of_ne begins.length_le fun same => ?_
          exact different (begins.eq_of_length same)
        rcases ih root.1.length (length ▸ shorter) inside alive rfl with cover | ⟨top, cover, higher⟩
        · exact .inr ⟨root, cover, lies⟩
        · obtain ⟨deep, _, before⟩ := above_iff.mp higher
          refine .inr ⟨top, cover, above_iff.mpr ⟨deep, fun same => ?_, before.trans begins⟩⟩
          have longer := (before.length_le).trans_lt shorter
          rw [same] at longer
          exact Nat.lt_irrefl _ longer

theorem rootCovers_of_above {root : Path × Bool} {path : Path} (lies : above root path = true) :
    rootCovers root path = true := by
  obtain ⟨recursive, _, begins⟩ := above_iff.mp lies
  simp [rootCovers, recursive, begins]

end Zeron.FsWatch
