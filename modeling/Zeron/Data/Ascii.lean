import Mathlib

namespace Zeron.Data

/-! # Letters and digits

They are among the first 128 characters, so a table of those settles what holds of all of them.
-/

theorem ascii_of_alphanum {c : Char} (written : c.isAlphanum = true) : c.toNat < 128 := by
  simp only [Char.isAlphanum, Char.isAlpha, Char.isUpper, Char.isLower, Char.isDigit,
    Bool.or_eq_true, Bool.and_eq_true, decide_eq_true_eq, UInt32.le_iff_toNat_le] at written
  change ((_ ≤ c.toNat ∧ c.toNat ≤ 90) ∨ (_ ≤ c.toNat ∧ c.toNat ≤ 122)) ∨
    (_ ≤ c.toNat ∧ c.toNat ≤ 57) at written
  omega

/-- What holds of every letter and digit of a table of the first 128 characters. -/
theorem forall_alphanum {holds : Char → Bool}
    (table : ∀ code < 128, (Char.ofNat code).isAlphanum → holds (Char.ofNat code) = true)
    {c : Char} (written : c.isAlphanum = true) : holds c = true := by
  have held := table c.toNat (ascii_of_alphanum written)
  rw [Char.ofNat_toNat] at held
  exact held written

end Zeron.Data
