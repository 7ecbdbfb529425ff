import Zeron.Markdown.Content

namespace Zeron.Markdown

/-! # Tight and loose items

A loose item holds a paragraph, a tight one bare inline events.  Both merge the runs of the content,
but only the paragraph is searched for URLs.
-/

variable (isAlphanumeric : Char → Bool)

/-- What follows the bare inline events of a container: the end of it, a rule or a block. -/
def endsParagraph : Cursor → Bool
  | [] => true
  | (event, _) :: _ =>
      match event with
      | .finish | .rule => true
      | event => opensBlock event

/-- No stretch of equally styled text outside links and code has a URL for the search to find, but
for a bare scheme that ends it. -/
def Quiet (runs : List InlineRun) : Prop :=
  ∀ run ∈ mergeRuns runs, run.linkable = true → Settled isAlphanumeric run.text

theorem blockSequence_ends {tail : Cursor} (ends : endsParagraph tail = true)
    {acc : List InlineRun} (some : acc ≠ []) :
    ∃ more, (blockSequence isAlphanumeric tail acc).1 = .paragraph (mergeRuns acc) :: more := by
  have flushed : flushParagraph acc = [.paragraph (mergeRuns acc)] := if_neg some
  rcases tail with - | ⟨⟨event, range⟩, rest⟩
  · exact ⟨[], flushed⟩
  · rw [blockSequence, inlineFuel]
    cases event with
    | finish => exact ⟨[], flushed⟩
    | rule =>
        rw [parseBlockSequenceFor_rule, flushed]
        exact ⟨_, rfl⟩
    | start tag =>
        have opening : opensBlock (.start tag) = true := ends
        rw [parseBlockSequenceFor_block _ opening, flushed]
        exact ⟨_, rfl⟩
    | _ => cases ends

theorem parseBlockSequence_content (content : Content)
    (some : content.runs isAlphanumeric {} ≠ []) {tail : Cursor} (ends : endsParagraph tail = true) :
    ∃ more, (parseBlockSequence isAlphanumeric (content.events ++ tail)).1 =
      .paragraph (mergeRuns (content.runs isAlphanumeric {})) :: more := by
  have read := blockSequence_content isAlphanumeric content tail []
  rw [List.nil_append] at read
  change ∃ more, (blockSequence isAlphanumeric (content.events ++ tail) []).1 = _ :: more
  rw [read]
  exact blockSequence_ends isAlphanumeric ends some

/-- Inline content means the same in a tight item as in a loose one exactly where no URL is left to
be found in it. -/
theorem tight_eq_loose_iff (content : Content) (some : content.runs isAlphanumeric {} ≠ [])
    {tail : Cursor} (ends : endsParagraph tail = true) (range : Nat × Nat) (rest : Cursor) :
    (∃ more, (parseBlockSequence isAlphanumeric (content.events ++ tail)).1 =
        .paragraph (parseInlineContainer isAlphanumeric
          (content.events ++ (.finish, range) :: rest) {}).1 :: more) ↔
      Quiet isAlphanumeric (content.runs isAlphanumeric {}) := by
  obtain ⟨more, tight⟩ := parseBlockSequence_content isAlphanumeric content some ends
  have written := written_mergeRuns (written_runs isAlphanumeric content {})
  rw [tight, parseInlineContainer_content, Quiet, ← autolinkRuns_eq_self_iff _ written]
  constructor
  · intro same
    obtain ⟨_, equal⟩ := same
    rw [List.cons.injEq, Block.paragraph.injEq] at equal
    exact equal.1.symm
  · intro same
    rw [same]
    exact ⟨more, rfl⟩

/-- A URL in one item. -/
def linkedItem : Content := .leaf (.text "see https://x.dev".toList) (0, 17) rfl .nil

theorem linked_item_differs :
    ¬ ∃ more, (parseBlockSequence Char.isAlphanum (linkedItem.events ++ [(.finish, (17, 17))])).1 =
      .paragraph (parseInlineContainer Char.isAlphanum
        (linkedItem.events ++ [(.finish, (17, 17))]) {}).1 :: more := by
  intro same
  obtain ⟨more, equal⟩ := same
  have tight : (parseBlockSequence Char.isAlphanum
      (linkedItem.events ++ [(.finish, (17, 17))])).1 =
        [.paragraph [⟨"see https://x.dev".toList, {}⟩]] := rfl
  have loose : (parseInlineContainer Char.isAlphanum
      (linkedItem.events ++ [(.finish, (17, 17))]) {}).1 =
        [⟨"see ".toList, {}⟩,
          ⟨"https://x.dev".toList, { link := some "https://x.dev".toList }⟩] := by decide
  rw [tight, loose, List.cons.injEq, Block.paragraph.injEq] at equal
  exact absurd equal.1 (by decide)

theorem tight_eq_loose_iff_at_linked_item :
    (∃ more, (parseBlockSequence Char.isAlphanum (linkedItem.events ++ [])).1 =
        .paragraph (parseInlineContainer Char.isAlphanum
          (linkedItem.events ++ [(.finish, (17, 17))]) {}).1 :: more) ↔
      Quiet Char.isAlphanum (linkedItem.runs Char.isAlphanum {}) :=
  tight_eq_loose_iff Char.isAlphanum linkedItem (by decide) rfl (17, 17) []

end Zeron.Markdown
