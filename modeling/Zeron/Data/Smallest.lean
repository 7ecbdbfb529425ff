import Mathlib

namespace Zeron.Data

/-! # The smallest elements of a stream

A buffer is sorted and cut to its first elements whenever it has too many of them.  What
is cut never belongs to the smallest elements of the whole stream, so the buffer has them
at the end, in whatever order the stream came.
-/

variable {α : Type} {le : α → α → Bool} {limit : Nat}

/-- A total order by a Boolean comparison. -/
structure Orders (le : α → α → Bool) : Prop where
  trans : ∀ a b c, le a b = true → le b c = true → le a c = true
  total : ∀ a b, (le a b || le b a) = true

/-- Different elements of a list are ordered one way only. -/
structure Strict (le : α → α → Bool) (elements : List α) : Prop where
  distinct : elements.Nodup
  antisymm : ∀ a ∈ elements, ∀ b ∈ elements, le a b = true → le b a = true → a = b

theorem Strict.subperm {elements fewer : List α} (strict : Strict le elements)
    (subperm : fewer.Subperm elements) : Strict le fewer := by
  constructor
  · obtain ⟨middle, perm, sublist⟩ := subperm
    exact perm.nodup_iff.mp (strict.distinct.sublist sublist)
  · intro a first b second
    exact strict.antisymm a (subperm.subset first) b (subperm.subset second)

def smallest (le : α → α → Bool) (limit : Nat) (elements : List α) : List α :=
  (elements.mergeSort le).take limit

theorem smallest_perm {elements other : List α} (orders : Orders le) (strict : Strict le elements)
    (perm : elements.Perm other) : smallest le limit elements = smallest le limit other := by
  have same : elements.mergeSort le = other.mergeSort le := by
    apply List.Perm.eq_of_pairwise _ (List.pairwise_mergeSort orders.trans orders.total _)
      (List.pairwise_mergeSort orders.trans orders.total _)
    · exact ((List.mergeSort_perm _ _).trans perm).trans (List.mergeSort_perm _ _).symm
    · intro a b first second
      rw [List.mem_mergeSort] at first second
      exact strict.antisymm a first b (perm.mem_iff.mpr second)
  rw [smallest, same, smallest]

/-- An element above as many others as are kept is not kept. -/
theorem smallest_cons {kept elements : List α} {element : α} (orders : Orders le)
    (distinct : kept.Nodup) (among : kept ⊆ elements) (enough : limit ≤ kept.length)
    (above : ∀ other ∈ kept, le element other = false) :
    smallest le limit (element :: elements) = smallest le limit elements := by
  obtain ⟨below, rest, sorted, without, -⟩ :=
    List.mergeSort_cons orders.trans orders.total element elements
  have ordered := List.pairwise_mergeSort orders.trans orders.total (element :: elements)
  rw [sorted] at ordered
  have first : kept ⊆ below := by
    intro other member
    have position : other ∈ below ++ rest := by
      rw [← without, List.mem_mergeSort]
      exact among member
    rcases List.mem_append.mp position with before | after
    · exact before
    · have higher := (List.pairwise_cons.mp (List.pairwise_append.mp ordered).2.1).1 other after
      rw [above other member] at higher
      cases higher
  have fits : limit ≤ below.length := enough.trans (distinct.subperm first).length_le
  rw [smallest, smallest, sorted, without, List.take_append_of_le_length fits,
    List.take_append_of_le_length fits]

/-- What a cut leaves out does not matter for what comes later. -/
theorem smallest_smallest_append {elements later : List α} (orders : Orders le)
    (strict : Strict le (elements ++ later)) :
    smallest le limit (smallest le limit elements ++ later) =
      smallest le limit (elements ++ later) := by
  let sorted := elements.mergeSort le
  have perm : sorted.Perm elements := List.mergeSort_perm _ _
  have ordered : sorted.Pairwise fun a b => le a b = true :=
    List.pairwise_mergeSort orders.trans orders.total _
  have split : sorted.take limit ++ sorted.drop limit = sorted := List.take_append_drop _ _
  have strictSorted : Strict le (sorted ++ later) := strict.subperm (perm.append_right _).subperm
  have same : smallest le limit elements = sorted.take limit := rfl
  rw [same]
  rcases Nat.lt_or_ge sorted.length limit with short | long
  · rw [List.take_of_length_le short.le]
    exact smallest_perm orders strictSorted (perm.append_right _)
  · have enough : limit ≤ (sorted.take limit).length := by
      rw [List.length_take]
      omega
    have distinct : (sorted.take limit ++ sorted.drop limit).Nodup := by
      rw [split]
      exact (strictSorted.subperm (List.sublist_append_left _ _).subperm).distinct
    rw [← split] at ordered
    have above : ∀ element ∈ sorted.drop limit, ∀ other ∈ sorted.take limit,
        le element other = false := by
      intro element cut other kept
      by_contra higher
      rw [Bool.not_eq_false] at higher
      have lower := (List.pairwise_append.mp ordered).2.2 other kept element cut
      have equal := strictSorted.antisymm element
        (List.mem_append_left _ (List.mem_of_mem_drop cut)) other
        (List.mem_append_left _ (List.mem_of_mem_take kept)) higher lower
      exact (List.nodup_append.mp distinct).2.2 other kept element cut equal.symm
    have absorbed : ∀ cut : List α, cut ⊆ sorted.drop limit →
        smallest le limit (cut ++ (sorted.take limit ++ later)) =
          smallest le limit (sorted.take limit ++ later) := by
      intro cut
      induction cut with
      | nil => exact fun _ => rfl
      | cons element cut ih =>
          intro inside
          rw [List.cons_subset] at inside
          rw [List.cons_append, ← ih inside.2]
          apply smallest_cons orders (List.nodup_append.mp distinct).1 _ enough
            (above element inside.1)
          intro other kept
          exact List.mem_append_right _ (List.mem_append_left _ kept)
    rw [← absorbed (sorted.drop limit) (List.Subset.refl _)]
    have whole : (sorted.drop limit ++ (sorted.take limit ++ later)).Perm (sorted ++ later) := by
      rw [← List.append_assoc]
      apply List.Perm.append_right
      exact List.perm_append_comm.trans (List.Perm.of_eq split)
    rw [smallest_perm orders (strictSorted.subperm whole.subperm) whole]
    exact smallest_perm orders strictSorted (perm.append_right _)

/-- A buffer that is cut whenever it has more than `limit` elements. -/
def keepSmallest (le : α → α → Bool) (limit : Nat) (buffer : List α) (element : α) : List α :=
  if limit < (buffer ++ [element]).length then smallest le limit (buffer ++ [element])
  else buffer ++ [element]

theorem smallest_keepSmallest {buffer later : List α} {element : α} (orders : Orders le)
    (strict : Strict le (buffer ++ element :: later)) :
    smallest le limit (keepSmallest le limit buffer element ++ later) =
      smallest le limit (buffer ++ element :: later) := by
  rw [List.append_cons] at strict ⊢
  unfold keepSmallest
  split
  · exact smallest_smallest_append orders strict
  · rfl

theorem smallest_subperm (elements : List α) :
    (smallest le limit elements).Subperm elements :=
  (List.take_sublist _ _).subperm.trans (List.mergeSort_perm _ _).subperm

theorem keepSmallest_subperm (buffer : List α) (element : α) :
    (keepSmallest le limit buffer element).Subperm (buffer ++ [element]) := by
  unfold keepSmallest
  split
  · exact smallest_subperm _
  · exact List.Subperm.refl _

theorem length_keepSmallest {buffer : List α} {element : α} :
    (keepSmallest le limit buffer element).length ≤ limit := by
  unfold keepSmallest
  split
  · exact List.length_take_le _ _
  · omega

theorem keepSmallest_ne_nil {buffer : List α} {element : α} (positive : 0 < limit) :
    keepSmallest le limit buffer element ≠ [] := by
  unfold keepSmallest
  split
  next long =>
      apply List.ne_nil_of_length_pos
      rw [smallest, List.length_take, List.length_mergeSort]
      omega
  · simp

/-- The buffer after a stream has the stream's smallest elements. -/
theorem mergeSort_foldl_keepSmallest {stream buffer : List α} (orders : Orders le)
    (strict : Strict le (buffer ++ stream)) (fits : buffer.length ≤ limit) :
    (stream.foldl (keepSmallest le limit) buffer).mergeSort le =
      smallest le limit (buffer ++ stream) := by
  induction stream generalizing buffer with
  | nil =>
      rw [List.foldl_nil, List.append_nil, smallest, List.take_of_length_le]
      rw [List.length_mergeSort]
      exact fits
  | cons element stream ih =>
      have fewer : (keepSmallest le limit buffer element ++ stream).Subperm
          (buffer ++ element :: stream) := by
        rw [List.append_cons]
        exact (List.subperm_append_right stream).mpr (keepSmallest_subperm buffer element)
      rw [List.foldl_cons, ih (strict.subperm fewer) length_keepSmallest,
        smallest_keepSmallest orders strict]

end Zeron.Data
