import Mathlib.Data.List.DropRight

namespace Zeron.Data

/-! # Trimmed lists

Blank symbols are dropped at both ends.  What is left is the part between two blank ends that
begins and ends with no blank symbol; there is only one such part.
-/

variable {α : Type} {blank : α → Bool} {text front middle back : List α}

def trimBy (blank : α → Bool) (text : List α) : List α := (text.dropWhile blank).rdropWhile blank

/-- Neither the first nor the last symbol is blank. -/
structure Tight (blank : α → Bool) (text : List α) : Prop where
  first : ∀ symbol ∈ text.head?, blank symbol = false
  last : ∀ symbol ∈ text.getLast?, blank symbol = false

theorem tight_of_ends {opening closing : α} (opens : text.head? = some opening)
    (openInk : blank opening = false) (closes : text.getLast? = some closing)
    (closeInk : blank closing = false) : Tight blank text := by
  constructor
  · intro symbol leads
    rw [opens] at leads
    cases leads
    exact openInk
  · intro symbol ends
    rw [closes] at ends
    cases ends
    exact closeInk

theorem dropWhile_of_first (first : ∀ symbol ∈ text.head?, blank symbol = false) :
    text.dropWhile blank = text := by
  cases text with
  | nil => rfl
  | cons symbol rest => exact List.dropWhile_cons_of_neg (by simp [first symbol rfl])

theorem rdropWhile_of_last (last : ∀ symbol ∈ text.getLast?, blank symbol = false) :
    text.rdropWhile blank = text := by
  rw [List.rdropWhile, dropWhile_of_first (by rwa [List.head?_reverse]), List.reverse_reverse]

theorem trimBy_of_tight (tight : Tight blank text) : trimBy blank text = text := by
  rw [trimBy, dropWhile_of_first tight.first, rdropWhile_of_last tight.last]

theorem trimBy_tight (blank : α → Bool) (text : List α) : Tight blank (trimBy blank text) := by
  constructor
  · intro symbol first
    have kept : trimBy blank text <+: text.dropWhile blank := List.rdropWhile_prefix _ _
    obtain ⟨rest, same⟩ := kept
    have leads : (text.dropWhile blank).head? = some symbol := by
      rw [← same, List.head?_append, first]
      rfl
    have unblank := List.head?_dropWhile_not blank text
    rw [leads] at unblank
    exact unblank
  · intro symbol last
    have leads : ((text.dropWhile blank).reverse.dropWhile blank).head? = some symbol := by
      rw [← List.getLast?_reverse]
      exact last
    have unblank := List.head?_dropWhile_not blank (text.dropWhile blank).reverse
    rw [leads] at unblank
    exact unblank

theorem trimBy_split (blank : α → Bool) (text : List α) :
    ∃ front back, text = front ++ trimBy blank text ++ back ∧
      (∀ symbol ∈ front, blank symbol = true) ∧ ∀ symbol ∈ back, blank symbol = true := by
  refine ⟨text.takeWhile blank, text.dropWhile blank |>.rtakeWhile blank, ?_, ?_, ?_⟩
  · rw [trimBy, List.append_assoc, List.rdropWhile_append_rtakeWhile, List.takeWhile_append_dropWhile]
  · exact fun symbol => List.mem_takeWhile_imp
  · exact fun symbol => List.mem_rtakeWhile_imp

/-- The part between two blank ends. -/
theorem trimBy_of_split (tight : Tight blank middle)
    (blankFront : ∀ symbol ∈ front, blank symbol = true)
    (blankBack : ∀ symbol ∈ back, blank symbol = true) :
    trimBy blank (front ++ middle ++ back) = middle := by
  rw [trimBy, List.append_assoc, List.dropWhile_append_of_pos blankFront]
  have blankEnd : ∀ symbol ∈ back.reverse, blank symbol = true := by simpa using blankBack
  cases middle with
  | nil =>
      rw [List.nil_append, List.dropWhile_eq_nil_iff.mpr blankBack]
      rfl
  | cons symbol rest =>
      have kept : (symbol :: rest ++ back).dropWhile blank = symbol :: rest ++ back :=
        List.dropWhile_cons_of_neg (by simp [tight.first symbol rfl])
      rw [kept, List.rdropWhile, List.reverse_append, List.dropWhile_append_of_pos blankEnd]
      exact rdropWhile_of_last tight.last

theorem trimBy_eq_nil : trimBy blank text = [] ↔ ∀ symbol ∈ text, blank symbol = true := by
  constructor
  · intro empty
    obtain ⟨front, back, same, blankFront, blankBack⟩ := trimBy_split blank text
    rw [empty, List.append_nil] at same
    intro symbol member
    rw [same] at member
    rcases List.mem_append.mp member with inFront | inBack
    · exact blankFront symbol inFront
    · exact blankBack symbol inBack
  · intro allBlank
    rw [trimBy, List.dropWhile_eq_nil_iff.mpr allBlank]
    rfl

theorem trimBy_trimBy (text : List α) : trimBy blank (trimBy blank text) = trimBy blank text :=
  trimBy_of_tight (trimBy_tight blank text)

theorem trimBy_isInside (blank : α → Bool) (text : List α) : trimBy blank text <:+: text := by
  obtain ⟨front, back, same, -, -⟩ := trimBy_split blank text
  exact ⟨front, back, same.symm⟩

/-- A blank end can be put back or left out. -/
theorem trimBy_append_front (blankFront : ∀ symbol ∈ front, blank symbol = true) :
    trimBy blank (front ++ text) = trimBy blank text := by
  rw [trimBy, List.dropWhile_append_of_pos blankFront]
  rfl

/-- Only what follows a tight part is trimmed. -/
theorem trimBy_append_of_tight (tight : Tight blank text) (some : text ≠ []) (rest : List α) :
    trimBy blank (text ++ rest) = text ++ rest.rdropWhile blank := by
  have split : text ++ rest = [] ++ (text ++ rest.rdropWhile blank) ++ rest.rtakeWhile blank := by
    rw [List.nil_append, List.append_assoc, List.rdropWhile_append_rtakeWhile]
  rw [split]
  apply trimBy_of_split _ (by simp) fun symbol => List.mem_rtakeWhile_imp
  obtain ⟨symbol, others, rfl⟩ := List.exists_cons_of_ne_nil some
  refine ⟨fun first leads => tight.first first (by simpa using leads), fun last ends => ?_⟩
  rw [List.getLast?_append] at ends
  cases kept : (rest.rdropWhile blank).getLast? with
  | none =>
      rw [kept] at ends
      exact tight.last last ends
  | some final =>
      rw [kept] at ends
      cases ends
      have unblank := List.head?_dropWhile_not blank rest.reverse
      rw [← List.getLast?_reverse, show (rest.reverse.dropWhile blank).reverse.getLast? = _ from kept]
        at unblank
      exact unblank

theorem trimBy_head? {symbol : α} (ink : blank symbol = false) (rest : List α) :
    (trimBy blank (symbol :: rest)).head? = some symbol := by
  obtain ⟨front, back, same, blankFront, blankBack⟩ := trimBy_split blank (symbol :: rest)
  have unblank : ∀ {part : List α}, (∀ other ∈ part, blank other = true) → part.head? ≠ some symbol := by
    intro part allBlank leads
    have contrary := allBlank symbol (List.mem_of_mem_head? leads)
    rw [ink] at contrary
    cases contrary
  have leads := congrArg List.head? same
  rw [List.append_assoc, List.head?_append, List.head?_append, List.head?_cons] at leads
  cases first : front.head? with
  | some other =>
      rw [first] at leads
      cases leads
      exact absurd first (unblank blankFront)
  | none =>
      cases kept : (trimBy blank (symbol :: rest)).head? with
      | some other =>
          rw [first, kept] at leads
          exact leads.symm
      | none =>
          rw [first, kept] at leads
          exact absurd leads.symm (unblank blankBack)

/-! ## Symbols that are not blank -/

def ink (blank : α → Bool) (text : List α) : Nat := text.countP fun symbol => !blank symbol

theorem ink_append (text other : List α) : ink blank (text ++ other) = ink blank text + ink blank other :=
  List.countP_append

theorem ink_eq_zero : ink blank text = 0 ↔ ∀ symbol ∈ text, blank symbol = true := by
  simp [ink, List.countP_eq_zero]

theorem ink_trimBy (blank : α → Bool) (text : List α) :
    ink blank (trimBy blank text) = ink blank text := by
  obtain ⟨front, back, same, blankFront, blankBack⟩ := trimBy_split blank text
  conv_rhs => rw [same]
  rw [ink_append, ink_append, ink_eq_zero.mpr blankFront, ink_eq_zero.mpr blankBack]
  omega

end Zeron.Data
