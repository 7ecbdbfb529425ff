import Mathlib

namespace Zeron.Data

/-! # UTF-16 text in JSON

A text is its 16-bit units.  Written as JSON in UTF-8 a pair of surrogates takes four
bytes, and a surrogate without its other half is escaped.
-/

abbrev Units := List UInt16

def isHigh (unit : UInt16) : Bool := decide (0xD800 ≤ unit.toNat ∧ unit.toNat ≤ 0xDBFF)

def isLow (unit : UInt16) : Bool := decide (0xDC00 ≤ unit.toNat ∧ unit.toNat ≤ 0xDFFF)

/-- The bytes of a unit that is not half of a pair. -/
def unitBytes (unit : UInt16) : Nat :=
  let code := unit.toNat
  if code = 0x22 ∨ code = 0x5C then 2
  else if code = 0x8 ∨ code = 0x9 ∨ code = 0xA ∨ code = 0xC ∨ code = 0xD then 2
  else if code < 0x20 then 6
  else if code < 0x80 then 1
  else if code < 0x800 then 2
  else if isHigh unit || isLow unit then 6
  else 3

/-- The bytes between the quotes. -/
def escapedBytes : Units → Nat
  | [] => 0
  | [unit] => unitBytes unit
  | unit :: next :: rest =>
      if isHigh unit && isLow next then 4 + escapedBytes rest
      else unitBytes unit + escapedBytes (next :: rest)

/-- A cut between the halves of a pair. -/
def cutsPair (front back : Units) : Bool := front.getLast?.any isHigh && back.head?.any isLow

variable {front back : Units} {unit next : UInt16}

theorem isHigh_of_isLow (low : isLow unit = true) : isHigh unit = false := by
  rw [isLow, decide_eq_true_eq] at low
  rw [isHigh, decide_eq_false_iff_not]
  omega

theorem unitBytes_surrogate (surrogate : (isHigh unit || isLow unit) = true) :
    unitBytes unit = 6 := by
  have bound : 0xD800 ≤ unit.toNat := by
    rw [Bool.or_eq_true, isHigh, isLow, decide_eq_true_eq, decide_eq_true_eq] at surrogate
    omega
  unfold unitBytes
  dsimp only
  rw [if_neg (by omega), if_neg (by omega), if_neg (by omega), if_neg (by omega),
    if_neg (by omega), if_pos surrogate]

theorem escapedBytes_pair (pair : (isHigh unit && isLow next) = true) (rest : Units) :
    escapedBytes (unit :: next :: rest) = 4 + escapedBytes rest := by
  rw [escapedBytes, if_pos pair]

theorem escapedBytes_cons (apart : (isHigh unit && back.head?.any isLow) = false) :
    escapedBytes (unit :: back) = unitBytes unit + escapedBytes back := by
  cases back with
  | nil => rfl
  | cons next rest =>
      rw [escapedBytes, if_neg]
      rw [Bool.not_eq_true]
      exact apart

theorem escapedBytes_append (whole : cutsPair front back = false) :
    escapedBytes (front ++ back) = escapedBytes front + escapedBytes back := by
  induction front using escapedBytes.induct with
  | case1 => rw [List.nil_append, escapedBytes, Nat.zero_add]
  | case2 unit => exact escapedBytes_cons whole
  | case3 unit next rest pair ih =>
      rw [List.cons_append, List.cons_append, escapedBytes_pair pair, escapedBytes_pair pair, ih]
      · omega
      · cases rest with
        | nil => rfl
        | cons first rest =>
            rw [cutsPair, List.getLast?_cons_cons, List.getLast?_cons_cons] at whole
            exact whole
  | case4 unit next rest apart ih =>
      rw [cutsPair, List.getLast?_cons_cons] at whole
      have here : (isHigh unit && (next :: rest).head?.any isLow) = false := by
        rw [← Bool.not_eq_true]
        exact apart
      have there : (isHigh unit && (next :: rest ++ back).head?.any isLow) = false := here
      rw [escapedBytes_cons here, List.cons_append, escapedBytes_cons there, ih whole]
      omega

/-- A cut through a pair leaves two halves to escape. -/
theorem escapedBytes_append_le (front back : Units) :
    escapedBytes (front ++ back) ≤ escapedBytes front + escapedBytes back := by
  by_cases cuts : cutsPair front back = true
  · rcases List.eq_nil_or_concat front with rfl | ⟨front, unit, rfl⟩
    · cases cuts
    · cases back with
      | nil => simp
      | cons next back =>
          rw [List.concat_eq_append] at cuts ⊢
          rw [cutsPair, List.getLast?_concat, List.head?_cons, Option.any_some, Option.any_some,
            Bool.and_eq_true] at cuts
          obtain ⟨high, low⟩ := cuts
          have halves : unitBytes unit = 6 ∧ unitBytes next = 6 :=
            ⟨unitBytes_surrogate (by rw [high]; rfl), unitBytes_surrogate (by rw [low, Bool.or_true])⟩
          have single : ∀ rest : Units, cutsPair front (unit :: rest) = false := by
            intro rest
            rw [cutsPair, List.head?_cons, Option.any_some, Bool.and_eq_false_iff]
            right
            rw [← Bool.not_eq_true]
            intro alsoLow
            rw [isHigh_of_isLow alsoLow] at high
            cases high
          have after : escapedBytes (next :: back) = 6 + escapedBytes back := by
            rw [escapedBytes_cons, halves.2]
            rw [isHigh_of_isLow low, Bool.false_and]
          rw [List.append_assoc, List.singleton_append, escapedBytes_append (single _),
            escapedBytes_append (single []), escapedBytes_pair (by rw [high, low]; rfl), after,
            escapedBytes, halves.1]
          omega
  · rw [Bool.not_eq_true] at cuts
    exact (escapedBytes_append cuts).le

theorem escapedBytes_flatten_le (pieces : List Units) :
    escapedBytes pieces.flatten ≤ (pieces.map escapedBytes).sum := by
  induction pieces with
  | nil => exact Nat.le_refl 0
  | cons piece pieces ih =>
      have cut := escapedBytes_append_le piece pieces.flatten
      rw [List.flatten_cons, List.map_cons, List.sum_cons]
      omega

end Zeron.Data
