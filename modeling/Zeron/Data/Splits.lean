import Mathlib

namespace Zeron.Data

/-! # Lists around one of their elements -/

variable {α : Type} {values before after : List α} {value last : α} {index : Nat}

theorem exists_append_of_getElem? (read : values[index]? = some value) :
    ∃ before after, values = before ++ value :: after ∧ before.length = index := by
  obtain ⟨inside, rfl⟩ := List.getElem?_eq_some_iff.mp read
  refine ⟨values.take index, values.drop (index + 1), ?_, List.length_take_of_le inside.le⟩
  rw [List.getElem_cons_drop, List.take_append_drop]

/-- An element of a list with one more at its end is the new one or one of before. -/
theorem split_concat (split : values ++ [last] = before ++ value :: after) :
    (before = values ∧ value = last ∧ after = []) ∨
      ∃ earlier, after = earlier ++ [last] ∧ values = before ++ value :: earlier := by
  rcases List.eq_nil_or_concat after with rfl | ⟨earlier, final, rfl⟩
  · obtain ⟨rfl, same⟩ := List.append_inj' split rfl
    exact .inl ⟨rfl, (List.singleton_inj.mp same).symm, rfl⟩
  · rw [List.concat_eq_append, ← List.cons_append, ← List.append_assoc] at split
    obtain ⟨same, final⟩ := List.append_inj' split rfl
    rw [List.concat_eq_append, List.singleton_inj.mp final]
    exact .inr ⟨earlier, rfl, same⟩

end Zeron.Data
