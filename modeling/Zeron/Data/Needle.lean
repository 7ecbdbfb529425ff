import Mathlib.Data.List.Infix

namespace Zeron.Data

/-! # The first occurrence of a needle

A list is cut at the first place the needle stands.  Which place that is depends only on what
comes up to its end, and stays the first when symbols before it are dropped.
-/

variable {α : Type} [DecidableEq α] {needle text front back before after : List α}

/-- What comes before the first occurrence, and what after. -/
def cutFirst (needle : List α) : List α → Option (List α × List α)
  | [] => if needle = [] then some ([], []) else none
  | symbol :: rest =>
      if needle.isPrefixOf (symbol :: rest) then
        some ([], (symbol :: rest).drop needle.length)
      else (cutFirst needle rest).map fun cut => (symbol :: cut.1, cut.2)

/-- Every occurrence replaced, from the left; `skip` symbols belong to the last one. -/
def replaceFrom (needle new : List α) (skip : Nat) : List α → List α
  | [] => []
  | symbol :: rest =>
      if 0 < skip then replaceFrom needle new (skip - 1) rest
      else if needle.isPrefixOf (symbol :: rest) then
        new ++ replaceFrom needle new (needle.length - 1) rest
      else symbol :: replaceFrom needle new 0 rest

theorem cutFirst_nil : cutFirst needle [] = if needle = [] then some ([], []) else none := rfl

theorem cutFirst_cons (symbol : α) (rest : List α) :
    cutFirst needle (symbol :: rest) =
      if needle.isPrefixOf (symbol :: rest) then
        some ([], (symbol :: rest).drop needle.length)
      else (cutFirst needle rest).map fun cut => (symbol :: cut.1, cut.2) :=
  rfl

theorem cutFirst_eq_some (found : cutFirst needle text = some (before, after)) :
    text = before ++ needle ++ after := by
  induction text generalizing before with
  | nil =>
      rw [cutFirst_nil] at found
      split at found
      · cases found
        simp_all
      · cases found
  | cons symbol rest ih =>
      rw [cutFirst_cons] at found
      split at found
      · rename_i here
        cases found
        obtain ⟨tail, same⟩ := List.isPrefixOf_iff_prefix.mp here
        rw [← same]
        simp
      · obtain ⟨⟨early, late⟩, later, same⟩ := Option.map_eq_some_iff.mp found
        cases same
        rw [ih later]
        rfl

theorem cutFirst_isSome (inside : needle <:+: text) : (cutFirst needle text).isSome = true := by
  induction text with
  | nil => simp [cutFirst_nil, List.infix_nil.mp inside]
  | cons symbol rest ih =>
      rw [cutFirst_cons]
      split
      · rfl
      · rename_i elsewhere
        rcases List.infix_cons_iff.mp inside with here | later
        · exact absurd (List.isPrefixOf_iff_prefix.mpr here) elsewhere
        · simpa using ih later

theorem cutFirst_eq_none : cutFirst needle text = none ↔ ¬ needle <:+: text := by
  constructor
  · intro absent inside
    have found := cutFirst_isSome inside
    rw [absent] at found
    cases found
  · intro outside
    cases found : cutFirst needle text with
    | none => rfl
    | some cut => exact absurd ⟨cut.1, cut.2, (cutFirst_eq_some found).symm⟩ outside

/-- Symbols before the occurrence can be dropped. -/
theorem cutFirst_of_append (found : cutFirst needle (front ++ back) = some (front ++ before, after)) :
    cutFirst needle back = some (before, after) := by
  induction front with
  | nil => exact found
  | cons symbol rest ih =>
      rw [List.cons_append, cutFirst_cons] at found
      split at found
      · cases found
      · obtain ⟨⟨early, late⟩, later, same⟩ := Option.map_eq_some_iff.mp found
        cases same
        exact ih later

/-- What comes after the occurrence does not matter. -/
theorem cutFirst_replace_after (found : cutFirst needle (before ++ needle ++ after) = some (before, after))
    (other : List α) : cutFirst needle (before ++ needle ++ other) = some (before, other) := by
  induction before with
  | nil =>
      cases needle with
      | nil => cases other <;> simp [cutFirst_nil, cutFirst_cons]
      | cons first rest => simp [cutFirst_cons]
  | cons symbol rest ih =>
      simp only [List.cons_append, cutFirst_cons] at found ⊢
      split at found
      · cases found
      · rename_i elsewhere
        have still : ¬ needle.isPrefixOf (symbol :: (rest ++ needle ++ other)) = true := by
          intro here
          apply elsewhere
          rw [List.isPrefixOf_iff_prefix] at here ⊢
          have short : needle.length ≤ (symbol :: (rest ++ needle)).length := by
            simp only [List.length_cons, List.length_append]
            omega
          have whole : needle <+: symbol :: (rest ++ needle) :=
            List.prefix_of_prefix_length_le here (List.prefix_append _ other) short
          exact whole.trans (List.prefix_append _ after)
        obtain ⟨⟨early, late⟩, later, same⟩ := Option.map_eq_some_iff.mp found
        cases same
        rw [if_neg still, ih later]
        rfl

/-- The part before the first occurrence has none. -/
theorem cutFirst_before (some : needle ≠ []) (found : cutFirst needle text = .some (before, after)) :
    ¬ needle <:+: before := by
  induction text generalizing before with
  | nil => simp [cutFirst_nil, some] at found
  | cons symbol rest ih =>
      rw [cutFirst_cons] at found
      split at found
      · cases found
        exact fun inside => some (List.infix_nil.mp inside)
      · rename_i elsewhere
        obtain ⟨⟨early, late⟩, later, same⟩ := Option.map_eq_some_iff.mp found
        cases same
        intro inside
        rcases List.infix_cons_iff.mp inside with here | within
        · apply elsewhere
          rw [List.isPrefixOf_iff_prefix, cutFirst_eq_some later, List.append_assoc,
            ← List.cons_append]
          exact here.trans (List.prefix_append _ _)
        · exact ih later within

end Zeron.Data
