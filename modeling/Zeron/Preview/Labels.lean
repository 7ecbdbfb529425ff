import Mathlib

namespace Zeron.Preview

/-! # Labels of preview hostnames

A preview is reached as `device.service.localhost`.  Labels are cut from names
people chose, and numbered when they are taken.
-/

def labelChar (c : Char) : Bool := c.isLower || c.isDigit || c == '-'

/-- One label of a hostname; a label of these characters has one byte each. -/
def validLabel (label : List Char) : Bool :=
  !label.isEmpty && decide (label.length ≤ 63) && label.head? != some '-' &&
    label.getLast? != some '-' && label.all labelChar

def validHostname (host : String) : Bool :=
  match host.toList.splitOn '.' with
  | [device, service, suffix] =>
      suffix == "localhost".toList && validLabel device && validLabel service
  | _ => false

def trimEnd (text : List Char) : List Char := (text.reverse.dropWhile (· == '-')).reverse

def slugStep (result : List Char) (c : Char) : List Char :=
  if c.isAlphanum then result ++ [c.toLower]
  else if result.getLast? != some '-' && !result.isEmpty then result ++ ['-']
  else result

def slugLoop : List Char → List Char → List Char
  | result, [] => result
  | result, c :: rest =>
      let result := slugStep result c
      if 48 ≤ result.length then result else slugLoop result rest

def slug (value : String) : String :=
  let result := trimEnd ((slugLoop [] value.toList).dropWhile (· == '-'))
  if result.isEmpty then "project" else String.ofList result

def numbered (base : List Char) (index : Nat) : String :=
  String.ofList (base.take 48 ++ '-' :: Nat.toDigits 10 index)

def allocateFrom (base : List Char) (used : List String) : Nat → Nat → Option String
  | 0, _ => none
  | fuel + 1, index =>
      if numbered base index ∈ used then allocateFrom base used fuel (index + 1)
      else some (numbered base index)

/-- The first free label of a base.  The counter is an `i32`: past its last
value the search has no label to return. -/
def allocate (base : String) (used : List String) : Option String :=
  let base := trimEnd (base.toList.take 58)
  if String.ofList base ∈ used then allocateFrom base used (2 ^ 31 - 2) 2
  else some (String.ofList base)

/-! ## What the three produce -/

/-- Text that can open a label: cut anywhere and trimmed, it is one. -/
structure Stem (text : List Char) : Prop where
  nonempty : text ≠ []
  head : text.head? ≠ some '-'
  chars : ∀ c ∈ text, labelChar c = true

theorem validLabel_iff {label : List Char} :
    validLabel label = true ↔
      Stem label ∧ label.length ≤ 63 ∧ label.getLast? ≠ some '-' := by
  simp only [validLabel, Bool.and_eq_true, Bool.not_eq_true', List.isEmpty_eq_false_iff, bne_iff_ne,
    decide_eq_true_eq, List.all_eq_true]
  constructor
  · rintro ⟨⟨⟨⟨some, short⟩, head⟩, last⟩, chars⟩
    exact ⟨⟨some, head, chars⟩, short, last⟩
  · rintro ⟨⟨some, head, chars⟩, short, last⟩
    exact ⟨⟨⟨⟨some, short⟩, head⟩, last⟩, chars⟩

theorem Stem.take {text : List Char} (stem : Stem text) {count : Nat} (some : 0 < count) :
    Stem (text.take count) := by
  refine ⟨?_, ?_, fun c member => stem.chars c (List.mem_of_mem_take member)⟩
  · simp [stem.nonempty, some.ne']
  · rw [List.head?_take, if_neg some.ne']
    exact stem.head

theorem Stem.append {text rest : List Char} (stem : Stem text)
    (chars : ∀ c ∈ rest, labelChar c = true) : Stem (text ++ rest) := by
  refine ⟨by simp [stem.nonempty], ?_, ?_⟩
  · rw [List.head?_append_of_ne_nil _ stem.nonempty]
    exact stem.head
  · intro c member
    rcases List.mem_append.mp member with left | right
    · exact stem.chars c left
    · exact chars c right

theorem trimEnd_begins (text : List Char) : trimEnd text <+: text := by
  have suffix := List.dropWhile_suffix (fun c : Char => c == '-') (l := text.reverse)
  simpa [trimEnd] using List.reverse_prefix.mpr suffix

theorem trimEnd_getLast? (text : List Char) : (trimEnd text).getLast? ≠ some '-' := by
  intro last
  rw [trimEnd, List.getLast?_reverse] at last
  have kept := List.head?_dropWhile_not (fun c : Char => c == '-') text.reverse
  rw [last] at kept
  simp at kept

theorem Stem.trimEnd {text : List Char} (stem : Stem text) : Stem (trimEnd text) := by
  obtain ⟨dropped, split⟩ := trimEnd_begins text
  have kept : Preview.trimEnd text ≠ [] := by
    intro gone
    cases text with
    | nil => exact stem.nonempty rfl
    | cons first rest =>
        have plain : first ≠ '-' := fun dash => stem.head (by simp [dash])
        have all : ∀ c ∈ (first :: rest).reverse, (c == '-') = true := by
          simpa [Preview.trimEnd] using gone
        exact plain (by simpa using all first (by simp))
  refine ⟨kept, ?_, ?_⟩
  · have head := stem.head
    rw [← split, List.head?_append_of_ne_nil _ kept] at head
    exact head
  · intro c member
    exact stem.chars c (split ▸ List.mem_append_left _ member)

theorem isAlphanum_toLower {c : Char} (plain : c.isAlphanum = true) :
    c.toLower.isLower = true ∨ c.toLower.isDigit = true := by
  rcases Bool.or_eq_true_iff.mp plain with alpha | digit
  · exact .inl ((Char.isLower_toLower_eq_isAlpha c).trans alpha)
  · have lowerless : ¬ c.isUpper = true := by
      simp only [Char.isDigit, Char.isUpper, Bool.and_eq_true, decide_eq_true_eq] at digit ⊢
      rintro ⟨above, -⟩
      exact absurd (UInt32.le_trans above digit.2) (by decide)
    exact .inr ((Char.toLower_eq_of_not_isUpper lowerless).symm ▸ digit)

theorem labelChar_toLower {c : Char} (plain : c.isAlphanum = true) : labelChar c.toLower = true := by
  rcases isAlphanum_toLower plain with lower | digit
  · simp [labelChar, lower]
  · simp [labelChar, digit]

theorem toLower_ne_dash {c : Char} (plain : c.isAlphanum = true) : c.toLower ≠ '-' := by
  intro dash
  rcases isAlphanum_toLower plain with lower | digit
  · exact absurd (dash ▸ lower) (by decide)
  · exact absurd (dash ▸ digit) (by decide)

/-- What the loop of `slug` has built: nothing yet, or text that opens a label. -/
def Slugged (result : List Char) : Prop := result = [] ∨ Stem result

theorem Slugged.step {result : List Char} (slugged : Slugged result) (c : Char) :
    Slugged (slugStep result c) := by
  unfold slugStep
  split
  · rename_i plain
    have char := labelChar_toLower plain
    rcases slugged with empty | stem
    · subst empty
      refine .inr ⟨by simp, by simpa using toLower_ne_dash plain, by simpa using char⟩
    · exact .inr (stem.append (by simpa using char))
  · split
    · rename_i fits
      rcases slugged with empty | stem
      · simp [empty] at fits
      · exact .inr (stem.append (by simp [labelChar]))
    · exact slugged

theorem length_slugStep (result : List Char) (c : Char) :
    (slugStep result c).length ≤ result.length + 1 := by
  unfold slugStep
  split
  · simp
  · split <;> simp

theorem slugLoop_spec {rest result : List Char} (slugged : Slugged result)
    (short : result.length < 48) :
    Slugged (slugLoop result rest) ∧ (slugLoop result rest).length ≤ 48 := by
  induction rest generalizing result with
  | nil => exact ⟨slugged, by simpa [slugLoop] using short.le⟩
  | cons c rest ih =>
      have next := slugged.step c
      have bound := length_slugStep result c
      simp only [slugLoop]
      split
      · exact ⟨next, by omega⟩
      · exact ih next (by omega)

theorem slug_valid (value : String) : validLabel (slug value).toList = true := by
  obtain ⟨slugged, short⟩ := @slugLoop_spec value.toList [] (.inl rfl) (by decide)
  rcases slugged with empty | stem
  · have project : slug value = "project" := by
      unfold slug
      rw [empty]
      rfl
    rw [project]
    decide
  · have whole : (slugLoop [] value.toList).dropWhile (· == '-') = slugLoop [] value.toList := by
      cases slugging : slugLoop [] value.toList with
      | nil => rfl
      | cons first rest =>
          have plain : first ≠ '-' := fun dash => (slugging ▸ stem).head (by simp [dash])
          simp [plain]
    have trimmed := stem.trimEnd
    have text : (slug value).toList = trimEnd (slugLoop [] value.toList) := by
      simp [slug, whole, trimmed.nonempty]
    have cut := (trimEnd_begins (slugLoop [] value.toList)).length_le
    rw [text, validLabel_iff]
    exact ⟨trimmed, by omega, trimEnd_getLast? _⟩

theorem numbered_spec {base : List Char} (stem : Stem base) {index : Nat} (bound : index < 2 ^ 31) :
    validLabel (numbered base index).toList = true := by
  have digits : (Nat.toDigits 10 index).length ≤ 10 :=
    (Nat.length_toDigits_le_iff (by decide) (by decide)).mpr (by omega)
  have ten : ∀ c ∈ Nat.toDigits 10 index, c.isDigit = true := fun c member =>
    Nat.isDigit_of_mem_toDigits (by decide) (by decide) member
  have cut : (base.take 48).length ≤ 48 := List.length_take_le ..
  rw [validLabel_iff, numbered, String.toList_ofList]
  refine ⟨(stem.take (by decide)).append ?_, ?_, ?_⟩
  · intro c member
    rcases List.mem_cons.mp member with dash | digit
    · simp [dash, labelChar]
    · simp [labelChar, ten c digit]
  · simp only [List.length_append, List.length_cons]
    omega
  · intro last
    rw [List.getLast?_append_of_ne_nil _ (by simp), List.getLast?_cons,
      List.getLast?_eq_some_getLast Nat.toDigits_ne_nil] at last
    have digit := ten _ (List.getLast_mem Nat.toDigits_ne_nil)
    rw [Option.getD_some, Option.some_inj] at last
    exact absurd (last ▸ digit) (by decide)

theorem allocateFrom_spec {base : List Char} (stem : Stem base) {used : List String}
    {fuel index : Nat} {label : String} (bound : index + fuel ≤ 2 ^ 31)
    (found : allocateFrom base used fuel index = some label) :
    validLabel label.toList = true ∧ label ∉ used := by
  induction fuel generalizing index with
  | zero => simp [allocateFrom] at found
  | succ fuel ih =>
      simp only [allocateFrom] at found
      split at found
      · exact ih (by omega) found
      · rename_i free
        cases found
        exact ⟨numbered_spec stem (by omega), free⟩

/-- A label handed out is well formed and was free. -/
theorem allocate_spec {base : String} (stem : Stem base.toList) {used : List String}
    {label : String} (found : allocate base used = some label) :
    validLabel label.toList = true ∧ label ∉ used := by
  have trimmed := (stem.take (by decide : 0 < 58)).trimEnd
  simp only [allocate] at found
  split at found
  · exact allocateFrom_spec trimmed (by decide) found
  · rename_i free
    cases found
    rw [String.toList_ofList]
    have short := (trimEnd_begins (base.toList.take 58)).length_le
    have cut : (base.toList.take 58).length ≤ 58 := List.length_take_le ..
    exact ⟨validLabel_iff.mpr ⟨trimmed, by omega, trimEnd_getLast? _⟩, free⟩

end Zeron.Preview
