import Mathlib

namespace Zeron.Data

/-! # Patches applied in key order

A patch says of its own key whether it is there, and may clear one other key.  Patches
of distinct keys are applied in the order of their keys, so the patch of a key is
overruled by a patch behind it that clears the key, and overrules one before it.
-/

variable {κ ρ : Type} [LinearOrder κ] {key : ρ → κ} {states : ρ → Bool} {clears : ρ → Option κ}

/-- Whether `k` is there after a patch, from whether it was before. -/
def patched (key : ρ → κ) (states : ρ → Bool) (clears : ρ → Option κ) (k : κ) (held : Prop)
    (patch : ρ) : Prop :=
  if key patch = k then states patch = true else held ∧ clears patch ≠ some k

/-- What patches in key order say of `k`. -/
structure Upheld (key : ρ → κ) (states : ρ → Bool) (clears : ρ → Option κ) (k : κ) (held : Prop)
    (patches : List ρ) : Prop where
  kept : ∀ patch ∈ patches, k < key patch → clears patch ≠ some k
  said : (∃ patch ∈ patches, key patch = k ∧ states patch = true) ∨
    (∀ patch ∈ patches, key patch ≠ k ∧ clears patch ≠ some k) ∧ held

variable {k : κ} {held : Prop} {patches : List ρ} {last : ρ}

/-- The last patch decides about its own key. -/
theorem upheld_concat_own (before : ∀ patch ∈ patches, key patch < key last)
    (own : key last = k) :
    Upheld key states clears k held (patches ++ [last]) ↔ states last = true := by
  have other : ∀ patch ∈ patches, key patch ≠ k := by
    intro patch member same
    exact absurd (before patch member) (by simp [own, same])
  constructor
  · intro upheld
    rcases upheld.said with ⟨patch, member, same, stated⟩ | ⟨silent, -⟩
    · rcases List.mem_append.mp member with earlier | final
      · exact absurd same (other patch earlier)
      · cases List.mem_singleton.mp final
        exact stated
    · exact absurd own (silent last (by simp)).1
  · intro stated
    refine ⟨?_, .inl ⟨last, by simp, own, stated⟩⟩
    intro patch member behind
    rcases List.mem_append.mp member with earlier | final
    · exact absurd (behind.trans (before patch earlier)) (by simp [own])
    · cases List.mem_singleton.mp final
      exact absurd behind (by simp [own])

/-- About any other key the last patch only says that it is cleared. -/
theorem upheld_concat_other (before : ∀ patch ∈ patches, key patch < key last)
    (other : key last ≠ k) :
    Upheld key states clears k held (patches ++ [last]) ↔
      Upheld key states clears k held patches ∧ clears last ≠ some k := by
  constructor
  · intro upheld
    have kept : ∀ patch ∈ patches, k < key patch → clears patch ≠ some k :=
      fun patch member => upheld.kept patch (List.mem_append_left _ member)
    rcases upheld.said with ⟨patch, member, same, stated⟩ | ⟨silent, holds⟩
    · rcases List.mem_append.mp member with earlier | final
      · have behind : k < key last := same ▸ before patch earlier
        exact ⟨⟨kept, .inl ⟨patch, earlier, same, stated⟩⟩, upheld.kept last (by simp) behind⟩
      · exact absurd (List.mem_singleton.mp final ▸ same) other
    · refine ⟨⟨kept, .inr ⟨?_, holds⟩⟩, (silent last (by simp)).2⟩
      exact fun patch member => silent patch (List.mem_append_left _ member)
  · rintro ⟨upheld, spared⟩
    constructor
    · intro patch member behind
      rcases List.mem_append.mp member with earlier | final
      · exact upheld.kept patch earlier behind
      · cases List.mem_singleton.mp final
        exact spared
    · rcases upheld.said with ⟨patch, member, same, stated⟩ | ⟨silent, holds⟩
      · exact .inl ⟨patch, List.mem_append_left _ member, same, stated⟩
      · refine .inr ⟨?_, holds⟩
        intro patch member
        rcases List.mem_append.mp member with earlier | final
        · exact silent patch earlier
        · cases List.mem_singleton.mp final
          exact ⟨other, spared⟩

theorem foldl_patched (k : κ) (held : Prop) {patches : List ρ}
    (sorted : patches.Pairwise fun a b => key a < key b) :
    patches.foldl (patched key states clears k) held ↔
      Upheld key states clears k held patches := by
  induction patches using List.reverseRecOn with
  | nil =>
      constructor
      · intro kept
        exact ⟨by simp, .inr ⟨by simp, kept⟩⟩
      · intro upheld
        rcases upheld.said with ⟨patch, member, -⟩ | ⟨-, kept⟩
        · cases member
        · exact kept
  | append_singleton patches last ih =>
      obtain ⟨sortedInit, -, beforeLast⟩ := List.pairwise_append.mp sorted
      have before : ∀ patch ∈ patches, key patch < key last :=
        fun patch member => beforeLast patch member last (List.mem_singleton_self last)
      rw [List.foldl_append, List.foldl_cons, List.foldl_nil, patched]
      by_cases own : key last = k
      · rw [if_pos own, upheld_concat_own before own]
      · rw [if_neg own, ih sortedInit, upheld_concat_other before own]

end Zeron.Data
