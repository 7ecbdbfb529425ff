import Zeron.Markdown.Tree

namespace Zeron.Markdown

/-! # Inline content without fuel

Every step takes an event, so twice the events left are enough fuel, and the loops obey the
equations of the source.
-/

variable (isAlphanumeric : Char → Bool) {event : Event} {range : Nat × Nat} {cur rest : Cursor}
  {style : InlineStyle} {tag : Tag} {fuel : Nat}

theorem inlineEvents_event (running : event ≠ .finish) :
    inlineEvents isAlphanumeric (fuel + 1) ((event, range) :: rest) style =
      let read := parseInlineEventFor isAlphanumeric fuel ((event, range) :: rest) style
      (read.1 ++ (inlineEvents isAlphanumeric fuel read.2 style).1,
        (inlineEvents isAlphanumeric fuel read.2 style).2) := by
  cases event <;> first | rfl | exact absurd rfl running

/-- A step with fuel takes an event. -/
theorem inline_shrinks (fuel : Nat) :
    (∀ cur style, (inlineEvents isAlphanumeric fuel cur style).2.length ≤ cur.length) ∧
      ∀ cur style, (parseInlineEventFor isAlphanumeric fuel cur style).2.length ≤
        cur.length - min fuel 1 := by
  induction fuel with
  | zero => exact ⟨fun _ _ => Nat.le_refl _, fun _ _ => Nat.le_refl _⟩
  | succ fuel ih =>
      refine ⟨fun cur style => ?_, fun cur style => ?_⟩
      · rcases cur with - | ⟨⟨event, range⟩, rest⟩
        · exact Nat.le_refl _
        · by_cases ended : event = .finish
          · rw [ended]
            exact Nat.le_succ _
          · rw [inlineEvents_event _ ended]
            exact (ih.1 _ style).trans ((ih.2 _ style).trans (Nat.sub_le _ _))
      · rw [Nat.min_eq_right (Nat.succ_pos fuel)]
        rcases cur with - | ⟨⟨event, range⟩, rest⟩
        · exact Nat.le_refl _
        · cases event with
          | start tag => cases tag <;> exact ih.1 rest _
          | _ => exact Nat.le_refl _

theorem inline_succ (fuel : Nat) :
    (∀ cur style, 2 * cur.length + 1 ≤ fuel →
        inlineEvents isAlphanumeric (fuel + 1) cur style = inlineEvents isAlphanumeric fuel cur style) ∧
      ∀ cur style, 2 * cur.length ≤ fuel →
        parseInlineEventFor isAlphanumeric (fuel + 1) cur style =
          parseInlineEventFor isAlphanumeric fuel cur style := by
  induction fuel with
  | zero =>
      refine ⟨fun cur style enough => by omega, fun cur style enough => ?_⟩
      rcases cur with - | ⟨head, rest⟩
      · rfl
      · rw [List.length_cons] at enough
        omega
  | succ fuel ih =>
      refine ⟨fun cur style enough => ?_, fun cur style enough => ?_⟩
      · rcases cur with - | ⟨⟨event, range⟩, rest⟩
        · rfl
        · by_cases ended : event = .finish
          · rw [ended]
            rfl
          · have taken := (inline_shrinks isAlphanumeric fuel).2 ((event, range) :: rest) style
            rw [List.length_cons] at enough taken
            rw [inlineEvents_event _ ended, inlineEvents_event _ ended,
              ih.2 _ style (by rw [List.length_cons]; omega)]
            dsimp only
            rw [ih.1 _ style (by omega)]
      · rcases cur with - | ⟨⟨event, range⟩, rest⟩
        · rfl
        · rw [List.length_cons] at enough
          cases event with
          | start tag =>
              cases tag <;> simp only [parseInlineEventFor] <;> rw [ih.1 rest _ (by omega)]
          | _ => rfl

theorem inlineEvents_enough (enough : inlineFuel cur ≤ fuel) :
    inlineEvents isAlphanumeric fuel cur style =
      inlineEvents isAlphanumeric (inlineFuel cur) cur style := by
  induction fuel, enough using Nat.le_induction with
  | base => rfl
  | succ fuel enough ih => rw [(inline_succ isAlphanumeric fuel).1 cur style enough, ih]

theorem parseInlineEventFor_enough (enough : 2 * cur.length ≤ fuel) :
    parseInlineEventFor isAlphanumeric fuel cur style = parseInlineEvent isAlphanumeric cur style := by
  have more : ∀ {fuel : Nat}, 2 * cur.length ≤ fuel →
      parseInlineEventFor isAlphanumeric fuel cur style =
        parseInlineEventFor isAlphanumeric (2 * cur.length) cur style := by
    intro fuel enough
    induction fuel, enough using Nat.le_induction with
    | base => rfl
    | succ fuel enough ih => rw [(inline_succ isAlphanumeric fuel).2 cur style enough, ih]
  rw [more enough]
  exact (more (Nat.le_succ _)).symm

/-- The loop of `parse_inline_container`. -/
def inlineLoop (cur : Cursor) (style : InlineStyle) : List InlineRun × Cursor :=
  inlineEvents isAlphanumeric (inlineFuel cur) cur style

theorem parseInlineContainer_eq (cur : Cursor) (style : InlineStyle) :
    parseInlineContainer isAlphanumeric cur style =
      closeRuns isAlphanumeric (inlineLoop isAlphanumeric cur style) := rfl

theorem inlineLoop_finish (range : Nat × Nat) (rest : Cursor) (style : InlineStyle) :
    inlineLoop isAlphanumeric ((.finish, range) :: rest) style = ([], rest) := rfl

theorem parseInlineEvent_shrinks (head : Event × (Nat × Nat)) (rest : Cursor) (style : InlineStyle) :
    (parseInlineEvent isAlphanumeric (head :: rest) style).2.length ≤ rest.length :=
  (inline_shrinks isAlphanumeric _).2 (head :: rest) style

theorem inlineLoop_event (running : event ≠ .finish) :
    inlineLoop isAlphanumeric ((event, range) :: rest) style =
      let read := parseInlineEvent isAlphanumeric ((event, range) :: rest) style
      (read.1 ++ (inlineLoop isAlphanumeric read.2 style).1,
        (inlineLoop isAlphanumeric read.2 style).2) := by
  have taken := parseInlineEvent_shrinks isAlphanumeric (event, range) rest style
  have enough : inlineFuel (parseInlineEvent isAlphanumeric ((event, range) :: rest) style).2 ≤
      2 * ((event, range) :: rest).length := by
    unfold inlineFuel
    rw [List.length_cons]
    omega
  rw [inlineLoop, inlineFuel, inlineEvents_event _ running,
    parseInlineEventFor_enough isAlphanumeric (Nat.le_refl _)]
  dsimp only
  rw [inlineEvents_enough isAlphanumeric enough]
  rfl

/-- A tag that is no image is read as its content. -/
theorem parseInlineEvent_start (plain : ∀ destUrl title, tag ≠ .image destUrl title) :
    parseInlineEvent isAlphanumeric ((.start tag, range) :: rest) style =
      parseInlineContainer isAlphanumeric rest (tag.styled style) := by
  have enough : inlineFuel rest ≤ 2 * ((Event.start tag, range) :: rest).length := by
    unfold inlineFuel
    rw [List.length_cons]
    omega
  rw [parseInlineContainer, ← inlineEvents_enough isAlphanumeric enough]
  cases tag with
  | image destUrl title => exact absurd rfl (plain destUrl title)
  | _ => rfl

theorem parseInlineEvent_image (destUrl title : Text) :
    parseInlineEvent isAlphanumeric ((.start (.image destUrl title), range) :: rest) style =
      let inner := parseInlineContainer isAlphanumeric rest style
      let alt := inner.1.flatMap InlineRun.text
      ([⟨alt, { style with
          image := some ⟨destUrl, alt, title, style.link⟩
          link := some destUrl }⟩], inner.2) := by
  have enough : inlineFuel rest ≤ 2 * ((Event.start (.image destUrl title), range) :: rest).length := by
    unfold inlineFuel
    rw [List.length_cons]
    omega
  rw [parseInlineContainer, ← inlineEvents_enough isAlphanumeric enough]
  rfl

end Zeron.Markdown
