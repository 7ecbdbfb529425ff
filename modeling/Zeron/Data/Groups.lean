import Mathlib.Data.List.Basic

namespace Zeron.Data

/-! # Groups of equal keys

A list sorted stably by key, and each run of equal keys merged into one element:
every key ends with the merge of its own elements in their first order.
-/

section Sorting

variable {α κ : Type} [LE κ] [DecidableLE κ] [Std.IsLinearOrder κ]

def keyLe (key : α → κ) (first second : α) : Bool := decide (key first ≤ key second)

variable {key : α → κ}

theorem keyLe_trans (first second third : α) (low : keyLe key first second = true)
    (high : keyLe key second third = true) : keyLe key first third = true := by
  simp only [keyLe, decide_eq_true_eq] at low high ⊢
  exact Std.le_trans low high

theorem keyLe_total (first second : α) :
    (keyLe key first second || keyLe key second first) = true := by
  simp only [keyLe, Bool.or_eq_true, decide_eq_true_eq]
  exact Std.le_total

theorem mergeSort_pairwise (elements : List α) :
    (elements.mergeSort (keyLe key)).Pairwise fun first second => key first ≤ key second := by
  have sorted : (elements.mergeSort (keyLe key)).Pairwise
      fun first second => keyLe key first second = true :=
    List.pairwise_mergeSort keyLe_trans keyLe_total elements
  exact sorted.imp fun le => of_decide_eq_true le

/-- Elements of one key keep their order. -/
theorem filter_mergeSort [DecidableEq κ] (elements : List α) (wanted : κ) :
    (elements.mergeSort (keyLe key)).filter (key · = wanted) =
      elements.filter (key · = wanted) := by
  have equal : (elements.filter (key · = wanted)).Pairwise
      fun first second => keyLe key first second = true := by
    apply List.pairwise_of_forall_mem_list
    intro first member second other
    have here : key first = wanted := by simpa using (List.mem_filter.mp member).2
    have there : key second = wanted := by simpa using (List.mem_filter.mp other).2
    simp only [keyLe, here, there, decide_eq_true_eq]
    exact Std.le_refl wanted
  have kept := (List.sublist_mergeSort keyLe_trans keyLe_total equal List.filter_sublist).filter
    (key · = wanted)
  simp only [List.filter_filter, Bool.and_self] at kept
  apply (kept.eq_of_length _).symm
  exact ((List.mergeSort_perm elements _).filter _).length_eq.symm

end Sorting

section Merging

variable {α κ : Type} [DecidableEq κ] (key : α → κ) (merge : α → α → α)

/-- Each element merged into its predecessor where both have one key. -/
def mergeRuns (previous : α) : List α → List α
  | [] => [previous]
  | element :: rest =>
      if key previous = key element then mergeRuns (merge previous element) rest
      else previous :: mergeRuns element rest

/-- The merge of all elements of a key. -/
def mergeGroup : List α → List α
  | [] => []
  | first :: rest => [rest.foldl merge first]

variable {key merge}

theorem filter_mergeRuns [LE κ] [Std.IsLinearOrder κ]
    (keeps : ∀ previous element, key (merge previous element) = key previous)
    (wanted : κ) {previous : α} {elements : List α}
    (sorted : (previous :: elements).Pairwise fun first second => key first ≤ key second) :
    (mergeRuns key merge previous elements).filter (key · = wanted) =
      mergeGroup merge ((previous :: elements).filter (key · = wanted)) := by
  induction elements generalizing previous with
  | nil =>
      by_cases here : key previous = wanted <;> simp [mergeRuns, mergeGroup, here]
  | cons element rest ih =>
      rw [mergeRuns]
      obtain ⟨first, later⟩ := List.pairwise_cons.mp sorted
      split
      · rename_i same
        have sortedMerge : (merge previous element :: rest).Pairwise
            fun first second => key first ≤ key second := by
          refine List.pairwise_cons.mpr ⟨fun other member => ?_, later.tail⟩
          rw [keeps]
          exact first other (List.mem_cons_of_mem _ member)
        rw [ih sortedMerge]
        by_cases here : key previous = wanted
        · have there : key element = wanted := same ▸ here
          simp [keeps, here, there, mergeGroup]
        · have there : key element ≠ wanted := fun found => here (same.trans found)
          simp [keeps, here, there]
      · rename_i different
        rw [List.filter_cons, ih later]
        by_cases here : key previous = wanted
        · -- every later key is strictly beyond the wanted one
          have gone : (element :: rest).filter (key · = wanted) = [] := by
            apply List.filter_eq_nil_iff.mpr
            intro other member
            have low : key element ≤ key other := by
              rcases List.mem_cons.mp member with rfl | inside
              · exact Std.le_refl _
              · exact (List.pairwise_cons.mp later).1 other inside
            intro found
            have found : key other = wanted := by simpa using found
            apply different
            apply Std.le_antisymm (first element List.mem_cons_self)
            rw [here, ← found]
            exact low
          simp [here, gone, mergeGroup]
        · simp [here]

end Merging

end Zeron.Data
