import Mathlib

namespace Zeron.Data

/-! # Byte strings read as UTF-8

A byte string is cut into chunks: the well-formed sequences, and between them the
longest prefixes of one that break off.  A lossy reading replaces each of the
latter by U+FFFD.
-/

abbrev ByteString := List UInt8

namespace Utf8

/-- The ranges of the bytes that follow a lead byte. -/
def continuations (lead : UInt8) : Option (List (UInt8 × UInt8)) :=
  if lead < 0x80 then some []
  else if 0xC2 ≤ lead ∧ lead ≤ 0xDF then some [(0x80, 0xBF)]
  else if lead = 0xE0 then some [(0xA0, 0xBF), (0x80, 0xBF)]
  else if lead = 0xED then some [(0x80, 0x9F), (0x80, 0xBF)]
  else if 0xE1 ≤ lead ∧ lead ≤ 0xEF then some [(0x80, 0xBF), (0x80, 0xBF)]
  else if lead = 0xF0 then some [(0x90, 0xBF), (0x80, 0xBF), (0x80, 0xBF)]
  else if lead = 0xF4 then some [(0x80, 0x8F), (0x80, 0xBF), (0x80, 0xBF)]
  else if 0xF1 ≤ lead ∧ lead ≤ 0xF3 then some [(0x80, 0xBF), (0x80, 0xBF), (0x80, 0xBF)]
  else none

/-- How many of the following bytes fit their ranges. -/
def fitting : List (UInt8 × UInt8) → ByteString → Nat
  | range :: ranges, byte :: bytes =>
      if range.1 ≤ byte ∧ byte ≤ range.2 then fitting ranges bytes + 1 else 0
  | _, _ => 0

/-- Whether the string begins with a whole sequence, and the length of the chunk it begins with. -/
def chunk (lead : UInt8) (rest : ByteString) : Bool × Nat :=
  match continuations lead with
  | none => (false, 1)
  | some ranges => (decide (fitting ranges rest = ranges.length), fitting ranges rest + 1)

def chunksFrom : Nat → ByteString → List (Bool × ByteString)
  | fuel + 1, lead :: rest =>
      ((chunk lead rest).1, (lead :: rest).take (chunk lead rest).2) ::
        chunksFrom fuel ((lead :: rest).drop (chunk lead rest).2)
  | _, _ => []

def chunks (bytes : ByteString) : List (Bool × ByteString) := chunksFrom bytes.length bytes

/-- `str::from_utf8` succeeds. -/
def valid (bytes : ByteString) : Bool := (chunks bytes).all Prod.fst

/-- U+FFFD. -/
def replacement : ByteString := [0xEF, 0xBF, 0xBD]

/-- `String::from_utf8_lossy`. -/
def lossy (bytes : ByteString) : ByteString :=
  (chunks bytes).flatMap fun chunk => if chunk.1 then chunk.2 else replacement

/-- `str::is_char_boundary` inside a string. -/
def boundary (text : ByteString) (index : Nat) : Bool :=
  match text[index]? with
  | some byte => !(decide (0x80 ≤ byte) && decide (byte ≤ 0xBF))
  | none => decide (index = text.length)

/-- The characters with the Unicode property White_Space. -/
def whitespace : List ByteString :=
  [[0x09], [0x0A], [0x0B], [0x0C], [0x0D], [0x20], [0xC2, 0x85], [0xC2, 0xA0],
    [0xE1, 0x9A, 0x80], [0xE2, 0x80, 0x80], [0xE2, 0x80, 0x81], [0xE2, 0x80, 0x82],
    [0xE2, 0x80, 0x83], [0xE2, 0x80, 0x84], [0xE2, 0x80, 0x85], [0xE2, 0x80, 0x86],
    [0xE2, 0x80, 0x87], [0xE2, 0x80, 0x88], [0xE2, 0x80, 0x89], [0xE2, 0x80, 0x8A],
    [0xE2, 0x80, 0xA8], [0xE2, 0x80, 0xA9], [0xE2, 0x80, 0xAF], [0xE2, 0x81, 0x9F],
    [0xE3, 0x80, 0x80]]

def leadingSpace (text : ByteString) : Option ByteString := whitespace.find? (·.isPrefixOf text)

def trimStartFrom : Nat → ByteString → ByteString
  | fuel + 1, text =>
      match leadingSpace text with
      | some space => trimStartFrom fuel (text.drop space.length)
      | none => text
  | 0, text => text

/-- `str::trim_start`. -/
def trimStart (text : ByteString) : ByteString := trimStartFrom text.length text

/-! ## Chunks -/

theorem fitting_le (ranges : List (UInt8 × UInt8)) (bytes : ByteString) :
    fitting ranges bytes ≤ bytes.length := by
  induction ranges generalizing bytes with
  | nil => simp [fitting]
  | cons range ranges ih =>
      cases bytes with
      | nil => simp [fitting]
      | cons byte bytes =>
          unfold fitting
          split
          · exact Nat.succ_le_succ (ih bytes)
          · exact Nat.zero_le _

theorem chunk_pos (lead : UInt8) (rest : ByteString) : 0 < (chunk lead rest).2 := by
  unfold chunk
  split
  · exact Nat.one_pos
  · exact Nat.succ_pos _

/-- The fuel never runs out before the bytes do. -/
theorem flatMap_chunksFrom {fuel : Nat} {bytes : ByteString} (enough : bytes.length ≤ fuel) :
    (chunksFrom fuel bytes).flatMap Prod.snd = bytes := by
  induction fuel generalizing bytes with
  | zero =>
      rw [List.eq_nil_of_length_eq_zero (Nat.le_zero.mp enough)]
      rfl
  | succ fuel ih =>
      cases bytes with
      | nil => rfl
      | cons lead rest =>
          have size := chunk_pos lead rest
          have shorter : ((lead :: rest).drop (chunk lead rest).2).length ≤ fuel := by
            simp only [List.length_drop, List.length_cons] at enough ⊢
            omega
          unfold chunksFrom
          rw [List.flatMap_cons, ih shorter]
          exact List.take_append_drop _ _

theorem lossy_of_valid {bytes : ByteString} (well : valid bytes = true) : lossy bytes = bytes := by
  have whole := List.all_eq_true.mp well
  have joined : (chunks bytes).flatMap Prod.snd = bytes := flatMap_chunksFrom (Nat.le_refl _)
  rw [lossy]
  conv_rhs => rw [← joined]
  apply List.flatMap_congr
  intro chunk member
  rw [if_pos (whole chunk member)]

theorem chunks_cons_ascii {byte : UInt8} (ascii : byte < 0x80) (rest : ByteString) :
    chunks (byte :: rest) = (true, [byte]) :: chunks rest := by
  have single : chunk byte rest = (true, 1) := by
    simp [chunk, continuations, ascii, fitting]
  simp [chunks, chunksFrom, single]

theorem lossy_cons_ascii {byte : UInt8} (ascii : byte < 0x80) (rest : ByteString) :
    lossy (byte :: rest) = byte :: lossy rest := by
  simp [lossy, chunks_cons_ascii ascii]

theorem valid_cons_ascii {byte : UInt8} (ascii : byte < 0x80) (rest : ByteString) :
    valid (byte :: rest) = valid rest := by
  simp [valid, chunks_cons_ascii ascii]

theorem chunksFrom_eq {fuel more : Nat} {bytes : ByteString} (enough : bytes.length ≤ fuel)
    (larger : fuel ≤ more) : chunksFrom more bytes = chunksFrom fuel bytes := by
  induction fuel generalizing more bytes with
  | zero =>
      rw [List.eq_nil_of_length_eq_zero (Nat.le_zero.mp enough)]
      cases more <;> rfl
  | succ fuel ih =>
      cases bytes with
      | nil => cases more <;> rfl
      | cons lead rest =>
          obtain ⟨more, rfl⟩ : ∃ n, more = n + 1 := ⟨more - 1, by omega⟩
          have size := chunk_pos lead rest
          have shorter : ((lead :: rest).drop (chunk lead rest).2).length ≤ fuel := by
            simp only [List.length_drop, List.length_cons] at enough ⊢
            omega
          unfold chunksFrom
          rw [ih shorter (Nat.le_of_succ_le_succ larger)]

theorem chunks_cons (lead : UInt8) (rest : ByteString) :
    chunks (lead :: rest) = ((chunk lead rest).1, (lead :: rest).take (chunk lead rest).2) ::
      chunks ((lead :: rest).drop (chunk lead rest).2) := by
  have size := chunk_pos lead rest
  have shorter : ((lead :: rest).drop (chunk lead rest).2).length ≤ rest.length := by
    simp only [List.length_drop, List.length_cons]
    omega
  conv_lhs => unfold chunks
  rw [List.length_cons]
  unfold chunksFrom
  rw [chunksFrom_eq (Nat.le_refl _) shorter]
  rfl

theorem continuations_high {lead : UInt8} {ranges : List (UInt8 × UInt8)}
    (follow : continuations lead = some ranges) : ∀ range ∈ ranges, 0x80 ≤ range.1 := by
  unfold continuations at follow
  intro range member
  repeat' split at follow
  all_goals
    first
    | cases follow
      fin_cases member <;> decide
    | cases follow

/-- A chunk never reaches past an ASCII byte. -/
theorem fitting_stops {ranges : List (UInt8 × UInt8)} (high : ∀ range ∈ ranges, 0x80 ≤ range.1)
    {byte : UInt8} (ascii : byte < 0x80) (front rest : ByteString) :
    fitting ranges (front ++ byte :: rest) ≤ front.length := by
  induction front generalizing ranges with
  | nil =>
      cases ranges with
      | nil => simp [fitting]
      | cons range ranges =>
          have low := high range List.mem_cons_self
          have outside : ¬ (range.1 ≤ byte ∧ byte ≤ range.2) := by
            rintro ⟨above, _⟩
            exact absurd (UInt8.le_trans low above) (UInt8.not_le.mpr ascii)
          simp [fitting, outside]
  | cons first front ih =>
      cases ranges with
      | nil => simp [fitting]
      | cons range ranges =>
          simp only [List.cons_append, fitting]
          split
          · have inner := ih fun other member => high other (List.mem_cons_of_mem _ member)
            simp only [List.length_cons]
            omega
          · exact Nat.zero_le _

theorem valid_after_ascii {byte : UInt8} (ascii : byte < 0x80) {front rest : ByteString}
    (well : valid (front ++ byte :: rest) = true) : valid rest = true := by
  induction size : front.length using Nat.strong_induction_on generalizing front with
  | _ size ih =>
      cases front with
      | nil => rwa [List.nil_append, valid_cons_ascii ascii] at well
      | cons lead front =>
          rw [List.cons_append, valid, chunks_cons, List.all_cons, Bool.and_eq_true] at well
          obtain ⟨whole, later⟩ := well
          have within : (chunk lead (front ++ byte :: rest)).2 ≤ front.length + 1 := by
            unfold chunk at whole ⊢
            split
            · exact Nat.succ_le_succ (Nat.zero_le _)
            · rename_i ranges follow
              exact Nat.succ_le_succ
                (fitting_stops (continuations_high follow) ascii front rest)
          have positive := chunk_pos lead (front ++ byte :: rest)
          rw [← List.cons_append, List.drop_append_of_le_length (by simpa using within)] at later
          refine ih _ ?_ later rfl
          simp only [List.length_drop, List.length_cons] at size ⊢
          omega

/-! ## Leading white space -/

theorem length_pos_of_leadingSpace {text space : ByteString}
    (leads : leadingSpace text = some space) : 0 < space.length ∧ space.length ≤ text.length := by
  have member := List.mem_of_find?_eq_some leads
  have starts := List.find?_some leads
  have nonempty : ∀ space ∈ whitespace, 0 < space.length := by decide
  constructor
  · exact nonempty space member
  · exact (List.isPrefixOf_iff_prefix.mp starts).length_le

theorem trimStart_of_none {text : ByteString} (plain : leadingSpace text = none) :
    trimStart text = text := by
  unfold trimStart
  cases text.length with
  | zero => rfl
  | succ fuel => simp [trimStartFrom, plain]

theorem leadingSpace_trimStart (text : ByteString) : leadingSpace (trimStart text) = none := by
  have trimmed : ∀ fuel text, text.length ≤ fuel → leadingSpace (trimStartFrom fuel text) = none := by
    intro fuel
    induction fuel with
    | zero =>
        intro text enough
        rw [List.eq_nil_of_length_eq_zero (Nat.le_zero.mp enough)]
        decide
    | succ fuel ih =>
        intro text enough
        unfold trimStartFrom
        cases leads : leadingSpace text with
        | none => exact leads
        | some space =>
            have sizes := length_pos_of_leadingSpace leads
            apply ih
            rw [List.length_drop]
            omega
  exact trimmed _ text (Nat.le_refl _)

theorem trimStart_space (text : ByteString) : trimStart (0x20 :: text) = trimStart text := by
  have leads : leadingSpace (0x20 :: text) = some [0x20] := by
    simp [leadingSpace, whitespace, List.isPrefixOf]
  simp [trimStart, trimStartFrom, leads]

end Utf8

end Zeron.Data
