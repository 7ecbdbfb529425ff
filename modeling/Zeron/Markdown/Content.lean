import Zeron.Markdown.Blocks
import Zeron.Markdown.Runs

namespace Zeron.Markdown

/-! # Inline content

Balanced inline events are the events of a forest.  What the parser of the source pushes for them is
computed from the forest, and whatever follows the events is left to be read.
-/

/-- An event that is inline content by itself. -/
def isLeaf : Event → Bool
  | .start _ | .finish | .rule => false
  | _ => true

/-- A tag around inline content. -/
def isSpan : Tag → Bool
  | .emphasis | .strong | .strikethrough | .link _ | .image _ _ => true
  | _ => false

inductive Content where
  | nil
  | leaf (event : Event) (range : Nat × Nat) (inline : isLeaf event = true) (next : Content)
  | span (tag : Tag) (opened closed : Nat × Nat) (inline : isSpan tag = true)
      (inner next : Content)

namespace Content

def events : Content → Cursor
  | nil => []
  | leaf event range _ next => (event, range) :: next.events
  | span tag opened closed _ inner next =>
      (.start tag, opened) :: (inner.events ++ (.finish, closed) :: next.events)

/-- The text a leaf stands for. -/
def leafText : Event → Text
  | .text text | .code text | .html text | .inlineHtml text => text
  | .softBreak => [' ']
  | .hardBreak => ['\n']
  | .taskListMarker done => if done then "[x] ".toList else "[ ] ".toList
  | .footnoteReference label => '[' :: label ++ [']']
  | _ => []

def text : Content → Text
  | nil => []
  | leaf event _ _ next => leafText event ++ next.text
  | span _ _ _ _ inner next => inner.text ++ next.text

def leafStyle (style : InlineStyle) (range : Nat × Nat) : Event → InlineStyle
  | .code _ => { style with code := true }
  | .taskListMarker done => { style with task := some ⟨done, range⟩ }
  | _ => style

/-- The runs of a span whose content has the runs `inner`. -/
def spanRuns (style : InlineStyle) (inner : List InlineRun) : Tag → List InlineRun
  | .image destUrl title =>
      [⟨textOf inner, { style with
        image := some ⟨destUrl, textOf inner, title, style.link⟩
        link := some destUrl }⟩]
  | _ => inner

section

variable (isAlphanumeric : Char → Bool)

/-- The runs the events push in a style. -/
def runs : Content → InlineStyle → List InlineRun
  | nil, _ => []
  | leaf event range _ next, style =>
      textRun (leafText event) (leafStyle style range event) ++ next.runs style
  | span tag _ _ _ inner next, style =>
      spanRuns style (autolinkRuns isAlphanumeric (mergeRuns (inner.runs (tag.styled style)))) tag ++
        next.runs style

end

end Content

variable (isAlphanumeric : Char → Bool)

theorem ne_finish_of_isLeaf {event : Event} (inline : isLeaf event = true) : event ≠ .finish := by
  rintro rfl
  cases inline

theorem opensBlock_of_isLeaf {event : Event} (inline : isLeaf event = true) :
    event ≠ .rule ∧ opensBlock event = false := by
  cases event with
  | start tag => cases inline
  | rule => cases inline
  | _ => exact ⟨by intro; contradiction, rfl⟩

theorem opensBlock_of_isSpan {tag : Tag} (inline : isSpan tag = true) :
    opensBlock (.start tag) = false := by
  cases tag <;> first | rfl | cases inline

theorem parseInlineEvent_leaf {event : Event} (inline : isLeaf event = true) (range : Nat × Nat)
    (rest : Cursor) (style : InlineStyle) :
    parseInlineEvent isAlphanumeric ((event, range) :: rest) style =
      (textRun (Content.leafText event) (Content.leafStyle style range event), rest) := by
  cases event with
  | start tag => cases inline
  | finish => cases inline
  | rule => cases inline
  | _ => rfl

/-- A span is read to the end of its content. -/
theorem parseInlineEvent_span {tag : Tag} (inline : isSpan tag = true) (range : Nat × Nat)
    (rest : Cursor) (style : InlineStyle) :
    parseInlineEvent isAlphanumeric ((.start tag, range) :: rest) style =
      let read := parseInlineContainer isAlphanumeric rest (tag.styled style)
      (Content.spanRuns style read.1 tag, read.2) := by
  cases tag with
  | image destUrl title => exact parseInlineEvent_image isAlphanumeric destUrl title
  | emphasis | strong | strikethrough | link destUrl =>
      exact parseInlineEvent_start isAlphanumeric (by intros; exact Tag.noConfusion)
  | _ => cases inline

theorem inlineLoop_content (content : Content) (tail : Cursor) (style : InlineStyle) :
    inlineLoop isAlphanumeric (content.events ++ tail) style =
      (content.runs isAlphanumeric style ++ (inlineLoop isAlphanumeric tail style).1,
        (inlineLoop isAlphanumeric tail style).2) := by
  induction content generalizing tail style with
  | nil => rfl
  | leaf event range inline next ih =>
      rw [Content.events, List.cons_append, inlineLoop_event _ (ne_finish_of_isLeaf inline),
        parseInlineEvent_leaf _ inline]
      dsimp only
      rw [ih, Content.runs, List.append_assoc]
  | span tag opened closed inline inner next innerIh nextIh =>
      have whole : (Content.span tag opened closed inline inner next).events ++ tail =
          (.start tag, opened) :: (inner.events ++ (.finish, closed) :: (next.events ++ tail)) := by
        rw [Content.events, List.cons_append, List.append_assoc, List.cons_append]
      rw [whole, inlineLoop_event _ Event.noConfusion, parseInlineEvent_span _ inline,
        parseInlineContainer_eq, innerIh, inlineLoop_finish, List.append_nil]
      dsimp only [closeRuns]
      rw [nextIh, Content.runs, List.append_assoc]

/-- A container of inline content ends with its `End`. -/
theorem parseInlineContainer_content (content : Content) (range : Nat × Nat) (rest : Cursor)
    (style : InlineStyle) :
    parseInlineContainer isAlphanumeric (content.events ++ (.finish, range) :: rest) style =
      (autolinkRuns isAlphanumeric (mergeRuns (content.runs isAlphanumeric style)), rest) := by
  rw [parseInlineContainer_eq, inlineLoop_content, inlineLoop_finish, List.append_nil]
  rfl

/-- Bare inline content is collected for the paragraph. -/
theorem blockSequence_content (content : Content) (tail : Cursor) (acc : List InlineRun) :
    blockSequence isAlphanumeric (content.events ++ tail) acc =
      blockSequence isAlphanumeric tail (acc ++ content.runs isAlphanumeric {}) := by
  induction content generalizing tail acc with
  | nil => rw [Content.runs, List.append_nil]; rfl
  | leaf event range inline next ih =>
      obtain ⟨unruled, bare⟩ := opensBlock_of_isLeaf inline
      rw [Content.events, List.cons_append,
        blockSequence_inline _ (ne_finish_of_isLeaf inline) unruled bare,
        parseInlineEvent_leaf _ inline]
      dsimp only
      rw [ih, Content.runs, List.append_assoc]
  | span tag opened closed inline inner next innerIh nextIh =>
      have whole : (Content.span tag opened closed inline inner next).events ++ tail =
          (.start tag, opened) :: (inner.events ++ (.finish, closed) :: (next.events ++ tail)) := by
        rw [Content.events, List.cons_append, List.append_assoc, List.cons_append]
      rw [whole, blockSequence_inline _ Event.noConfusion Event.noConfusion
        (opensBlock_of_isSpan inline), parseInlineEvent_span _ inline,
        parseInlineContainer_content]
      dsimp only
      rw [nextIh, Content.runs, List.append_assoc]

/-! ## What is written is read -/

theorem textOf_mergeInto (last : InlineRun) (runs : List InlineRun) :
    textOf (mergeInto last runs) = last.text ++ textOf runs := by
  induction runs generalizing last with
  | nil => rfl
  | cons run rest ih =>
      rw [mergeInto]
      split
      · rw [ih]
        exact List.append_assoc _ _ _
      · exact congrArg (last.text ++ ·) (ih run)

theorem textOf_mergeRuns (runs : List InlineRun) : textOf (mergeRuns runs) = textOf runs := by
  cases runs with
  | nil => rfl
  | cons run rest => exact textOf_mergeInto run rest

theorem textOf_spanRuns (style : InlineStyle) (inner : List InlineRun) (tag : Tag) :
    textOf (Content.spanRuns style inner tag) = textOf inner := by
  cases tag with
  | image destUrl title => exact List.append_nil _
  | _ => rfl

/-- Whatever the nesting, and however its parts are merged and linked, the content has its text. -/
theorem textOf_runs (content : Content) (style : InlineStyle) :
    textOf (content.runs isAlphanumeric style) = content.text := by
  induction content generalizing style with
  | nil => rfl
  | leaf event range inline next ih =>
      rw [Content.runs, textOf_append, textOf_textRun, ih, Content.text]
  | span tag opened closed inline inner next innerIh nextIh =>
      rw [Content.runs, textOf_append, textOf_spanRuns, textOf_autolinkRuns, textOf_mergeRuns,
        innerIh, nextIh, Content.text]

/-- A container of inline content is read to exactly its text. -/
theorem textOf_parseInlineContainer (content : Content) (range : Nat × Nat) (rest : Cursor)
    (style : InlineStyle) :
    textOf (parseInlineContainer isAlphanumeric (content.events ++ (.finish, range) :: rest)
      style).1 = content.text := by
  rw [parseInlineContainer_content, textOf_autolinkRuns, textOf_mergeRuns, textOf_runs]

/-! ## No run is empty -/

theorem written_mergeInto {last : InlineRun} {runs : List InlineRun} (written : Written (last :: runs)) :
    Written (mergeInto last runs) := by
  induction runs generalizing last with
  | nil => exact written
  | cons run rest ih =>
      have first := written last List.mem_cons_self
      rw [mergeInto]
      split
      · apply ih
        intro other member linkable
        rcases List.mem_cons.mp member with rfl | later
        · intro empty
          exact first linkable (List.append_eq_nil_iff.mp empty).1
        · exact written other (List.mem_cons_of_mem _ (List.mem_cons_of_mem _ later)) linkable
      · have others := ih fun other member => written other (List.mem_cons_of_mem _ member)
        intro other member
        rcases List.mem_cons.mp member with rfl | later
        · exact first
        · exact others other later

theorem written_mergeRuns {runs : List InlineRun} (written : Written runs) :
    Written (mergeRuns runs) := by
  cases runs with
  | nil => exact written
  | cons run rest => exact written_mergeInto written

theorem written_autolinkRuns {runs : List InlineRun} :
    Written (autolinkRuns isAlphanumeric runs) := by
  intro part member linkable
  obtain ⟨run, _, among⟩ := List.mem_flatMap.mp member
  change part ∈ linkRun isAlphanumeric run at among
  cases kept : run.linkable with
  | true =>
      rw [linkRun_of_linkable _ kept] at among
      exact (pieces_settled _ _ _ part among).1
  | false =>
      rw [linkRun_of_not_linkable _ kept] at among
      rw [List.mem_singleton.mp among, kept] at linkable
      cases linkable

theorem written_textRun (text : Text) (style : InlineStyle) : Written (textRun text style) := by
  intro run member _
  unfold textRun at member
  split at member
  · cases member
  · next some =>
      rw [List.mem_singleton.mp member]
      exact some

theorem written_runs (content : Content) (style : InlineStyle) :
    Written (content.runs isAlphanumeric style) := by
  have both : ∀ {front back : List InlineRun}, Written front → Written back →
      Written (front ++ back) := by
    intro front back before after run member
    rcases List.mem_append.mp member with early | late
    · exact before run early
    · exact after run late
  induction content generalizing style with
  | nil =>
      intro run member
      cases member
  | leaf event range inline next ih => exact both (written_textRun _ _) (ih style)
  | span tag opened closed inline inner next _ nextIh =>
      refine both ?_ (nextIh style)
      cases tag with
      | image destUrl title =>
          intro run member linkable
          rw [List.mem_singleton.mp member] at linkable
          cases linkable
      | _ => exact written_autolinkRuns isAlphanumeric

end Zeron.Markdown
