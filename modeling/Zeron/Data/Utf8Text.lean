import Zeron.Data.ByteOrder
import Zeron.Data.Utf8

namespace Zeron.Data.Utf8

/-! # UTF-8 bytes read as characters

Every chunk is one character, U+FFFD where it breaks off.  The bytes of a text are read as the text.
-/

/-- The character of a whole sequence. -/
def charOf (sequence : ByteString) : Char :=
  ((fromUtf8 sequence).bind fun text => text.toList.head?).getD '\uFFFD'

/-- The text a decoder that replaces what it cannot read makes of the bytes. -/
def decodeLossy (bytes : ByteString) : List Char :=
  (chunks bytes).map fun chunk => if chunk.1 then charOf chunk.2 else '\uFFFD'

/-! ## The bytes of a character are one chunk -/

theorem fitting_digit {range : UInt8 × UInt8} {ranges : List (UInt8 × UInt8)} {digit : Nat}
    {bytes : ByteString} (small : digit < 64) (low : range.1.toNat ≤ digit + 0x80)
    (high : digit + 0x80 ≤ range.2.toNat) :
    fitting (range :: ranges) (UInt8.ofNat (digit + 0x80) :: bytes) = fitting ranges bytes + 1 := by
  have code : (UInt8.ofNat (digit + 0x80)).toNat = digit + 0x80 := by
    rw [UInt8.toNat_ofNat', Nat.mod_eq_of_lt (by omega)]
  rw [fitting, if_pos]
  rw [UInt8.le_iff_toNat_le, UInt8.le_iff_toNat_le, code]
  exact ⟨low, high⟩

theorem continuations_two : ∀ lead < 32, 2 ≤ lead →
    continuations (UInt8.ofNat (lead + 0xC0)) = some [(0x80, 0xBF)] := by decide

theorem continuations_three : ∀ lead < 16, continuations (UInt8.ofNat (lead + 0xE0)) =
    some [(if lead = 0 then 0xA0 else 0x80, if lead = 13 then 0x9F else 0xBF), (0x80, 0xBF)] := by
  decide

theorem continuations_four : ∀ lead < 5, continuations (UInt8.ofNat (lead + 0xF0)) =
    some [(if lead = 0 then 0x90 else 0x80, if lead = 4 then 0x8F else 0xBF), (0x80, 0xBF),
      (0x80, 0xBF)] := by
  decide

theorem fitting_nil (bytes : ByteString) : fitting [] bytes = 0 := by
  cases bytes <;> rfl

/-- A character's first byte, and what has to follow it. -/
theorem chunk_utf8EncodeChar (c : Char) (rest : ByteString) :
    ∃ lead others, String.utf8EncodeChar c = lead :: others ∧
      chunk lead (others ++ rest) = (true, others.length + 1) := by
  have scalar : c.toNat < 0xD800 ∨ 0xDFFF < c.toNat := by
    rcases c.valid with low | ⟨high, _⟩
    · exact .inl low
    · exact .inr high
  have fits : ∀ {lead : UInt8} {others : ByteString} {ranges : List (UInt8 × UInt8)},
      continuations lead = some ranges → fitting ranges (others ++ rest) = ranges.length →
      ranges.length = others.length → chunk lead (others ++ rest) = (true, others.length + 1) := by
    intro lead others ranges continued fitted same
    rw [chunk, continued]
    dsimp only
    rw [fitted, decide_eq_true rfl, same]
  rcases utf8EncodeChar_cases c with ⟨small, same⟩ | ⟨low, high, same⟩ | ⟨low, high, same⟩ |
    ⟨low, high, same⟩
  · have table : ∀ code < 128, continuations (UInt8.ofNat code) = some [] := by decide
    exact ⟨_, _, same, fits (table _ (by omega)) (fitting_nil _) rfl⟩
  · refine ⟨_, _, same, fits (continuations_two _ (by omega) (by omega)) ?_ rfl⟩
    change fitting _ (UInt8.ofNat (c.toNat % 64 + 0x80) :: rest) = _
    rw [fitting_digit (by omega) (by simp) (by simp; omega), fitting_nil]
    rfl
  · refine ⟨_, _, same, fits (continuations_three _ (by omega)) ?_ rfl⟩
    change fitting _ (UInt8.ofNat (c.toNat / 64 % 64 + 0x80) ::
      UInt8.ofNat (c.toNat % 64 + 0x80) :: rest) = _
    rw [fitting_digit (by omega), fitting_digit (by omega) (by simp) (by simp; omega), fitting_nil]
    · rfl
    · dsimp only
      split
      · simp
        omega
      · simp
    · dsimp only
      split
      · simp
        omega
      · simp
        omega
  · refine ⟨_, _, same, fits (continuations_four _ (by omega)) ?_ rfl⟩
    change fitting _ (UInt8.ofNat (c.toNat / 4096 % 64 + 0x80) ::
      UInt8.ofNat (c.toNat / 64 % 64 + 0x80) :: UInt8.ofNat (c.toNat % 64 + 0x80) :: rest) = _
    rw [fitting_digit (by omega), fitting_digit (by omega) (by simp) (by simp; omega),
      fitting_digit (by omega) (by simp) (by simp; omega), fitting_nil]
    · rfl
    · dsimp only
      split
      · simp
        omega
      · simp
    · dsimp only
      split
      · simp
        omega
      · simp
        omega

theorem chunks_utf8EncodeChar (c : Char) (rest : ByteString) :
    chunks (String.utf8EncodeChar c ++ rest) = (true, String.utf8EncodeChar c) :: chunks rest := by
  obtain ⟨lead, others, same, whole⟩ := chunk_utf8EncodeChar c rest
  rw [same, List.cons_append, chunks_cons, whole]
  simp

theorem chunks_utf8 (text : List Char) :
    chunks (text.flatMap String.utf8EncodeChar) =
      text.map fun c => (true, String.utf8EncodeChar c) := by
  induction text with
  | nil => rfl
  | cons c text ih => rw [List.flatMap_cons, chunks_utf8EncodeChar, ih, List.map_cons]

theorem valid_utf8 (text : String) : valid (utf8 text) = true := by
  rw [valid, utf8_eq_flatMap, chunks_utf8, List.all_map]
  exact List.all_eq_true.mpr fun _ _ => rfl

theorem charOf_utf8EncodeChar (c : Char) : charOf (String.utf8EncodeChar c) = c := by
  have bytes : String.utf8EncodeChar c = utf8 (String.ofList [c]) := by
    rw [utf8_eq_flatMap, String.toList_ofList, List.flatMap_cons, List.flatMap_nil, List.append_nil]
  rw [charOf, bytes, fromUtf8_eq_some.mpr rfl, Option.bind_some, String.toList_ofList]
  rfl

theorem decodeLossy_utf8 (text : String) : decodeLossy (utf8 text) = text.toList := by
  rw [decodeLossy, utf8_eq_flatMap, chunks_utf8, List.map_map]
  conv_rhs => rw [← List.map_id text.toList]
  apply List.map_congr_left
  intro c _
  exact charOf_utf8EncodeChar c

end Zeron.Data.Utf8
