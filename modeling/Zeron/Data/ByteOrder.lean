import Mathlib

namespace Zeron.Data

/-! # UTF-8 texts and their bytes

Text is read back from its bytes, and texts compare by their bytes just as they do by
their characters.
-/

/-- The bytes of a text. -/
def utf8 (text : String) : List UInt8 := text.toUTF8.data.toList

/-- The text the bytes are, if they are one. -/
def fromUtf8 (bytes : List UInt8) : Option String := String.fromUTF8? ⟨bytes.toArray⟩

theorem fromUtf8_eq_some {bytes : List UInt8} {text : String} :
    fromUtf8 bytes = some text ↔ bytes = utf8 text := by
  unfold fromUtf8 String.fromUTF8? utf8
  constructor
  · intro read
    split at read
    · cases read
      simp [String.toUTF8, String.fromUTF8]
    · cases read
  · intro same
    subst same
    have whole : (⟨text.toUTF8.data.toList.toArray⟩ : ByteArray) = text.toUTF8 := by simp
    rw [dif_pos]
    · simp [String.fromUTF8, String.toUTF8]
    · rw [whole]
      exact text.isValidUTF8

theorem utf8_eq_flatMap (text : String) : utf8 text = text.toList.flatMap String.utf8EncodeChar := by
  rw [utf8, String.toUTF8_eq_toByteArray, ← String.utf8Encode_toList, List.utf8Encode,
    List.data_toByteArray]

/-- Two byte strings that part at a byte, the first below. -/
def PartsBelow (left right : List UInt8) : Prop :=
  ∃ front a b lefts rights, left = front ++ a :: lefts ∧ right = front ++ b :: rights ∧ a < b

theorem PartsBelow.head {a b : UInt8} (less : a < b) (lefts rights : List UInt8) :
    PartsBelow (a :: lefts) (b :: rights) :=
  ⟨[], a, b, lefts, rights, rfl, rfl, less⟩

theorem PartsBelow.tail {left right : List UInt8} (below : PartsBelow left right) (byte : UInt8) :
    PartsBelow (byte :: left) (byte :: right) := by
  obtain ⟨front, a, b, lefts, rights, rfl, rfl, less⟩ := below
  exact ⟨byte :: front, a, b, lefts, rights, rfl, rfl, less⟩

theorem PartsBelow.append_lt {left right : List UInt8} (below : PartsBelow left right)
    (lefts rights : List UInt8) : left ++ lefts < right ++ rights := by
  obtain ⟨front, a, b, as, bs, rfl, rfl, less⟩ := below
  rw [List.append_assoc, List.append_assoc]
  apply List.append_left_lt
  exact List.cons_lt_cons_iff.mpr (.inl less)

theorem ofNat_lt {a b : Nat} (less : a < b) (fits : b < 256) : UInt8.ofNat a < UInt8.ofNat b := by
  rw [UInt8.lt_iff_toNat_lt, UInt8.toNat_ofNat', UInt8.toNat_ofNat']
  omega

/-- A lead byte and the six-bit digits after it. -/
def encoded (lead : Nat) (digits : List Nat) : List UInt8 :=
  UInt8.ofNat lead :: digits.map fun digit => UInt8.ofNat (digit + 0x80)

theorem encoded_lead {a b : Nat} (less : a < b) (fits : b < 256) (lefts rights : List Nat) :
    PartsBelow (encoded a lefts) (encoded b rights) :=
  .head (ofNat_lt less fits) _ _

/-- Under one lead byte the digits decide. -/
theorem encoded_digits {lefts rights : List Nat} (lead : Nat) (less : lefts < rights)
    (same : lefts.length = rights.length) (fits : ∀ digit ∈ rights, digit < 64) :
    PartsBelow (encoded lead lefts) (encoded lead rights) := by
  apply PartsBelow.tail
  induction lefts generalizing rights with
  | nil =>
      cases rights with
      | nil => exact absurd less (lt_irrefl _)
      | cons => cases same
  | cons a lefts ih =>
      cases rights with
      | nil => cases same
      | cons b rights =>
          rw [List.map_cons, List.map_cons]
          have small := fits b List.mem_cons_self
          rcases List.cons_lt_cons_iff.mp less with first | ⟨rfl, rest⟩
          · exact .head (ofNat_lt (by omega) (by omega)) _ _
          · exact (ih rest (Nat.succ.inj same) fun digit later =>
              fits digit (List.mem_cons_of_mem _ later)).tail _

/-- The four lengths of an encoding. -/
theorem utf8EncodeChar_cases (c : Char) :
    (c.toNat ≤ 0x7f ∧ String.utf8EncodeChar c = encoded c.toNat []) ∨
    (0x7f < c.toNat ∧ c.toNat ≤ 0x7ff ∧
      String.utf8EncodeChar c = encoded (c.toNat / 64 + 0xc0) [c.toNat % 64]) ∨
    (0x7ff < c.toNat ∧ c.toNat ≤ 0xffff ∧
      String.utf8EncodeChar c =
        encoded (c.toNat / 4096 + 0xe0) [c.toNat / 64 % 64, c.toNat % 64]) ∨
    (0xffff < c.toNat ∧ c.toNat < 0x110000 ∧
      String.utf8EncodeChar c = encoded (c.toNat / 262144 + 0xf0)
        [c.toNat / 4096 % 64, c.toNat / 64 % 64, c.toNat % 64]) := by
  have bound : c.toNat < 0x110000 := by
    rcases c.valid with low | ⟨_, high⟩
    · exact low.trans (by decide)
    · exact high
  have isValue : c.val.toNat = c.toNat := rfl
  unfold String.utf8EncodeChar
  rw [isValue]
  dsimp only
  split
  · exact .inl ⟨by assumption, rfl⟩
  · split
    · refine .inr (.inl ⟨by omega, by assumption, ?_⟩)
      rw [Nat.mod_eq_of_lt (by omega : c.toNat / 64 < 0x20)]
      rfl
    · split
      · refine .inr (.inr (.inl ⟨by omega, by assumption, ?_⟩))
        rw [Nat.mod_eq_of_lt (by omega : c.toNat / 4096 < 0x10)]
        rfl
      · refine .inr (.inr (.inr ⟨by omega, bound, ?_⟩))
        rw [Nat.mod_eq_of_lt (by omega : c.toNat / 262144 < 0x08)]
        rfl

/-- A lead byte below, or the same one and digits below. -/
theorem encoded_below {a b : Nat} {lefts rights : List Nat}
    (below : a < b ∨ a = b ∧ lefts < rights) (lead : b < 256) (same : lefts.length = rights.length)
    (fits : ∀ digit ∈ rights, digit < 64) : PartsBelow (encoded a lefts) (encoded b rights) := by
  rcases below with less | ⟨rfl, less⟩
  · exact encoded_lead less lead lefts rights
  · exact encoded_digits a less same fits

/-- A smaller character has a smaller encoding: the lead byte grows with the length, so
only encodings of one length come down to their digits. -/
theorem partsBelow_utf8EncodeChar {c d : Char} (less : c < d) :
    PartsBelow (String.utf8EncodeChar c) (String.utf8EncodeChar d) := by
  have values : c.toNat < d.toNat := less
  rcases utf8EncodeChar_cases d with ⟨high, isRight⟩ | ⟨low, high, isRight⟩ | ⟨low, high, isRight⟩ |
    ⟨low, high, isRight⟩
  all_goals
    rw [isRight]
    rcases utf8EncodeChar_cases c with ⟨top, isLeft⟩ | ⟨bottom, top, isLeft⟩ | ⟨bottom, top, isLeft⟩ |
      ⟨bottom, top, isLeft⟩
  all_goals
    first
    | omega
    | rw [isLeft]
  · exact encoded_lead values (by omega) _ _
  · exact encoded_lead (by omega) (by omega) _ _
  · refine encoded_below ?_ (by omega) rfl (by simp; omega)
    simp only [List.cons_lt_cons_iff, List.not_lt_nil, and_false, or_false]
    omega
  · exact encoded_lead (by omega) (by omega) _ _
  · exact encoded_lead (by omega) (by omega) _ _
  · refine encoded_below ?_ (by omega) rfl (by simp; omega)
    simp only [List.cons_lt_cons_iff, List.not_lt_nil, and_false, or_false]
    omega
  · exact encoded_lead (by omega) (by omega) _ _
  · exact encoded_lead (by omega) (by omega) _ _
  · exact encoded_lead (by omega) (by omega) _ _
  · refine encoded_below ?_ (by omega) rfl (by simp; omega)
    simp only [List.cons_lt_cons_iff, List.not_lt_nil, and_false, or_false]
    omega

theorem append_lt_append_iff {α : Type} [LT α] [Std.Irrefl (α := α) (· < ·)] (front : List α)
    {left right : List α} : front ++ left < front ++ right ↔ left < right := by
  induction front with
  | nil => rfl
  | cons first front ih => rw [List.cons_append, List.cons_append, List.cons_lt_cons_self, ih]

theorem flatMap_lt_iff (left right : List Char) :
    left.flatMap String.utf8EncodeChar < right.flatMap String.utf8EncodeChar ↔ left < right := by
  induction left generalizing right with
  | nil =>
      cases right with
      | nil => simp
      | cons d rights =>
          rcases utf8EncodeChar_cases d with ⟨_, isRight⟩ | ⟨_, _, isRight⟩ | ⟨_, _, isRight⟩ |
            ⟨_, _, isRight⟩ <;> simp [isRight, encoded]
  | cons c lefts ih =>
      cases right with
      | nil => simp
      | cons d rights =>
          rw [List.flatMap_cons, List.flatMap_cons, List.cons_lt_cons_iff]
          rcases lt_trichotomy c d with less | rfl | more
          · simp [less, (partsBelow_utf8EncodeChar less).append_lt]
          · rw [append_lt_append_iff, ih]
            simp
          · have above := (partsBelow_utf8EncodeChar more).append_lt
              (rights.flatMap String.utf8EncodeChar) (lefts.flatMap String.utf8EncodeChar)
            simp only [List.lt_asymm above, not_lt_of_gt more, ne_of_gt more, false_and, or_self]

/-- Byte order is the order of the texts. -/
theorem utf8_lt_iff (left right : String) : utf8 left < utf8 right ↔ left < right := by
  rw [utf8_eq_flatMap, utf8_eq_flatMap, flatMap_lt_iff, String.lt_iff]

end Zeron.Data
