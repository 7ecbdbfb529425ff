import Mathlib

namespace Zeron.Data

/-! # Lists ranked by a key

Entries carry a key of their own, and a list of them is kept in key order, ties broken
by the entry's name.  A key strictly between two neighbours puts its entry between
them, so an edit by position and an edit by key agree.
-/

namespace Ranked

variable {ι : Type u} {κ : Type v} [LinearOrder ι] [LinearOrder κ]

def Before (a b : ι × κ) : Prop := a.2 < b.2 ∨ a.2 = b.2 ∧ a.1 ≤ b.1

instance : DecidableRel (Before : ι × κ → ι × κ → Prop) :=
  fun a b => inferInstanceAs (Decidable (a.2 < b.2 ∨ a.2 = b.2 ∧ a.1 ≤ b.1))

instance : Std.Total (Before : ι × κ → ι × κ → Prop) where
  total a b := by
    unfold Before
    rcases lt_trichotomy a.2 b.2 with first | same | last
    · exact .inl (.inl first)
    · rcases le_total a.1 b.1 with low | high
      · exact .inl (.inr ⟨same, low⟩)
      · exact .inr (.inr ⟨same.symm, high⟩)
    · exact .inr (.inl last)

instance : IsTrans (ι × κ) Before where
  trans a b c ab bc := by
    unfold Before at *
    rcases ab with first | ⟨same, low⟩
    · rcases bc with second | ⟨equal, _⟩
      · exact .inl (first.trans second)
      · exact .inl (equal ▸ first)
    · rcases bc with second | ⟨equal, high⟩
      · exact .inl (same ▸ second)
      · exact .inr ⟨same.trans equal, low.trans high⟩

instance : Std.Antisymm (Before : ι × κ → ι × κ → Prop) where
  antisymm a b ab ba := by
    unfold Before at *
    rcases ab with first | ⟨same, low⟩
    · rcases ba with second | ⟨equal, _⟩
      · exact absurd first second.asymm
      · exact absurd equal first.ne'
    · rcases ba with second | ⟨_, high⟩
      · exact absurd same second.ne'
      · exact Prod.ext (le_antisymm low high) same

/-- A ranked list is determined by its entries. -/
theorem eq_of_same_members {left right : List (ι × κ)} (leftRanked : left.Pairwise Before)
    (rightRanked : right.Pairwise Before) (leftNodup : left.Nodup) (rightNodup : right.Nodup)
    (same : ∀ entry, entry ∈ left ↔ entry ∈ right) : left = right :=
  List.Perm.eq_of_pairwise' leftRanked rightRanked
    ((List.perm_ext_iff_of_nodup leftNodup rightNodup).mpr same)

theorem key_le {a b : ι × κ} (before : Before a b) : a.2 ≤ b.2 := by
  rcases before with first | ⟨same, _⟩
  · exact first.le
  · exact same.le

/-- An entry whose key lies strictly between its neighbours' keeps the list ranked. -/
theorem pairwise_insertIdx {entries : List (ι × κ)} {index : Nat} {entry : ι × κ}
    (ranked : entries.Pairwise Before) (inside : index ≤ entries.length)
    (above : ∀ position, position + 1 = index → ∀ left, entries[position]? = some left →
      left.2 < entry.2)
    (below : ∀ right, entries[index]? = some right → entry.2 < right.2) :
    (entries.insertIdx index entry).Pairwise Before := by
  induction entries generalizing index with
  | nil =>
      have zero : index = 0 := Nat.le_zero.mp inside
      subst zero
      exact List.pairwise_singleton _ _
  | cons first rest ih =>
      obtain ⟨ahead, restRanked⟩ := List.pairwise_cons.mp ranked
      cases index with
      | zero =>
          have smaller := below first rfl
          refine List.pairwise_cons.mpr ⟨fun other member => ?_, ranked⟩
          rcases List.mem_cons.mp member with rfl | later
          · exact .inl smaller
          · exact .inl (smaller.trans_le (key_le (ahead other later)))
      | succ index =>
          rw [List.insertIdx_succ_cons]
          have short : index ≤ rest.length := Nat.le_of_succ_le_succ inside
          have tail := ih restRanked short
            (fun position isHere left found => above (position + 1) (by omega) left found)
            (fun right found => below right found)
          refine List.pairwise_cons.mpr ⟨fun other member => ?_, tail⟩
          rcases (List.mem_insertIdx short).mp member with rfl | held
          · -- The entry lands behind its left neighbour, and that is not before `first`.
            cases index with
            | zero => exact .inl (above 0 rfl first rfl)
            | succ position =>
                have inRest : position < rest.length := short
                have neighbour := above (position + 1) rfl rest[position]
                  (by simp [List.getElem?_eq_getElem inRest])
                exact .inl ((key_le (ahead _ (List.getElem_mem inRest))).trans_lt neighbour)
          · exact ahead other held

end Ranked

end Zeron.Data
