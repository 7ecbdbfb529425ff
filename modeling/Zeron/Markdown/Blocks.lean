import Zeron.Markdown.Inline

namespace Zeron.Markdown

/-! # Blocks without fuel -/

variable (isAlphanumeric : Char → Bool) {event : Event} {range : Nat × Nat} {cur rest : Cursor}
  {tag : Tag} {fuel : Nat} {acc : List InlineRun}

/-- Whether an event opens a block. -/
def opensBlock : Event → Bool
  | .start tag => isBlockTag tag
  | _ => false

theorem parseBlockSequenceFor_block (opening : opensBlock event = true) :
    parseBlockSequenceFor isAlphanumeric (fuel + 1) ((event, range) :: rest) acc =
      let read := parseStartedBlockFor isAlphanumeric fuel ((event, range) :: rest)
      (flushParagraph acc ++ (read.1 ++ (parseBlockSequenceFor isAlphanumeric fuel read.2 []).1),
        (parseBlockSequenceFor isAlphanumeric fuel read.2 []).2) := by
  cases event with
  | start tag => exact if_pos opening
  | _ => cases opening

theorem parseBlockSequenceFor_inline (running : event ≠ .finish) (unruled : event ≠ .rule)
    (inline : opensBlock event = false) :
    parseBlockSequenceFor isAlphanumeric (fuel + 1) ((event, range) :: rest) acc =
      let read := parseInlineEvent isAlphanumeric ((event, range) :: rest) {}
      parseBlockSequenceFor isAlphanumeric fuel read.2 (acc ++ read.1) := by
  cases event with
  | start tag => exact if_neg (Bool.eq_false_iff.mp inline)
  | finish => exact absurd rfl running
  | rule => exact absurd rfl unruled
  | _ => rfl

theorem parseBlockSequenceFor_rule :
    parseBlockSequenceFor isAlphanumeric (fuel + 1) ((.rule, range) :: rest) acc =
      (flushParagraph acc ++ .rule :: (parseBlockSequenceFor isAlphanumeric fuel rest []).1,
        (parseBlockSequenceFor isAlphanumeric fuel rest []).2) := rfl

theorem parseStartedBlockFor_list (orderedStart : Option Nat) :
    parseStartedBlockFor isAlphanumeric (fuel + 1) ((.start (.list orderedStart), range) :: rest) =
      ([.list orderedStart (parseItems isAlphanumeric fuel rest).1],
        (parseItems isAlphanumeric fuel rest).2) := rfl

theorem parseStartedBlockFor_blockQuote :
    parseStartedBlockFor isAlphanumeric (fuel + 1) ((.start .blockQuote, range) :: rest) =
      ([.blockQuote (parseBlockSequenceFor isAlphanumeric fuel rest []).1],
        (parseBlockSequenceFor isAlphanumeric fuel rest []).2) := rfl

theorem parseItems_item :
    parseItems isAlphanumeric (fuel + 1) ((.start .item, range) :: rest) =
      let item := parseBlockSequenceFor isAlphanumeric fuel rest []
      (item.1 :: (parseItems isAlphanumeric fuel item.2).1,
        (parseItems isAlphanumeric fuel item.2).2) := rfl

theorem parseInlineContainer_shrinks (cur : Cursor) (style : InlineStyle) :
    (parseInlineContainer isAlphanumeric cur style).2.length ≤ cur.length :=
  (inline_shrinks isAlphanumeric _).1 cur style

theorem collectText_shrinks (html : Bool) (cur : Cursor) :
    (collectText html cur).2.length ≤ cur.length := by
  induction cur with
  | nil => exact Nat.le_refl 0
  | cons head rest ih =>
      obtain ⟨event, range⟩ := head
      cases event with
      | finish => exact Nat.le_succ _
      | _ => exact ih.trans (Nat.le_succ _)

theorem parseTableCells_shrinks (fuel : Nat) (cur : Cursor) :
    (parseTableCells isAlphanumeric fuel cur).2.length ≤ cur.length := by
  induction fuel generalizing cur with
  | zero => exact Nat.le_refl _
  | succ fuel ih =>
      rcases cur with - | ⟨⟨event, range⟩, rest⟩
      · exact Nat.le_refl _
      · have skipped := (ih rest).trans (Nat.le_succ _)
        cases event with
        | finish => exact Nat.le_succ _
        | start tag =>
            cases tag with
            | tableCell =>
                have cell := parseInlineContainer_shrinks isAlphanumeric rest {}
                exact (ih _).trans (cell.trans (Nat.le_succ _))
            | _ => exact skipped
        | _ => exact skipped

theorem parseTable_shrinks (fuel : Nat) (cur : Cursor) (header : List (List InlineRun)) :
    (parseTable isAlphanumeric fuel cur header).2.length ≤ cur.length := by
  induction fuel generalizing cur header with
  | zero => exact Nat.le_refl _
  | succ fuel ih =>
      rcases cur with - | ⟨⟨event, range⟩, rest⟩
      · exact Nat.le_refl _
      · have skipped := (ih rest header).trans (Nat.le_succ _)
        have cells := parseTableCells_shrinks isAlphanumeric fuel rest
        cases event with
        | finish => exact Nat.le_succ _
        | start tag =>
            cases tag with
            | tableHead => exact (ih _ _).trans (cells.trans (Nat.le_succ _))
            | tableRow => exact (ih _ _).trans (cells.trans (Nat.le_succ _))
            | _ => exact skipped
        | _ => exact skipped

/-- A block with fuel takes its start. -/
theorem block_shrinks (fuel : Nat) :
    (∀ cur acc, (parseBlockSequenceFor isAlphanumeric fuel cur acc).2.length ≤ cur.length) ∧
      (∀ cur, (parseStartedBlockFor isAlphanumeric fuel cur).2.length ≤ cur.length - min fuel 1) ∧
      ∀ cur, (parseItems isAlphanumeric fuel cur).2.length ≤ cur.length := by
  induction fuel with
  | zero => exact ⟨fun _ _ => Nat.le_refl _, fun _ => Nat.le_refl _, fun _ => Nat.le_refl _⟩
  | succ fuel ih =>
      obtain ⟨sequence, block, items⟩ := ih
      refine ⟨fun cur acc => ?_, fun cur => ?_, fun cur => ?_⟩
      · rcases cur with - | ⟨⟨event, range⟩, rest⟩
        · exact Nat.le_refl _
        · by_cases ended : event = .finish
          · rw [ended]
            exact Nat.le_succ _
          by_cases ruled : event = .rule
          · rw [ruled]
            exact (sequence rest []).trans (Nat.le_succ _)
          cases opening : opensBlock event with
          | true =>
              rw [parseBlockSequenceFor_block _ opening]
              exact (sequence _ []).trans ((block _).trans (Nat.sub_le _ _))
          | false =>
              rw [parseBlockSequenceFor_inline _ ended ruled opening]
              have taken := parseInlineEvent_shrinks isAlphanumeric (event, range) rest {}
              exact (sequence _ _).trans (taken.trans (Nat.le_succ _))
      · rw [Nat.min_eq_right (Nat.succ_pos fuel)]
        rcases cur with - | ⟨⟨event, range⟩, rest⟩
        · exact Nat.le_refl _
        · cases event with
          | start tag =>
              cases tag with
              | paragraph | heading level => exact parseInlineContainer_shrinks isAlphanumeric rest {}
              | codeBlock kind => exact collectText_shrinks false rest
              | htmlBlock => exact collectText_shrinks true rest
              | list orderedStart => exact items rest
              | table align => exact parseTable_shrinks isAlphanumeric _ rest []
              | _ => exact sequence rest []
          | _ => exact Nat.le_refl _
      · rcases cur with - | ⟨⟨event, range⟩, rest⟩
        · exact Nat.le_refl _
        · have skipped := (items rest).trans (Nat.le_succ _)
          cases event with
          | finish => exact Nat.le_succ _
          | start tag =>
              cases tag with
              | item => exact (items _).trans ((sequence rest []).trans (Nat.le_succ _))
              | _ => exact skipped
          | _ => exact skipped

theorem block_succ (fuel : Nat) :
    (∀ cur acc, 2 * cur.length + 1 ≤ fuel →
        parseBlockSequenceFor isAlphanumeric (fuel + 1) cur acc =
          parseBlockSequenceFor isAlphanumeric fuel cur acc) ∧
      (∀ cur, 2 * cur.length ≤ fuel → 0 < fuel →
        parseStartedBlockFor isAlphanumeric (fuel + 1) cur =
          parseStartedBlockFor isAlphanumeric fuel cur) ∧
      ∀ cur, 2 * cur.length + 1 ≤ fuel →
        parseItems isAlphanumeric (fuel + 1) cur = parseItems isAlphanumeric fuel cur := by
  induction fuel with
  | zero =>
      refine ⟨fun cur acc enough => by omega, fun cur _ some => by omega,
        fun cur enough => by omega⟩
  | succ fuel ih =>
      obtain ⟨sequence, block, items⟩ := ih
      obtain ⟨_, shorter, _⟩ := block_shrinks isAlphanumeric fuel
      refine ⟨fun cur acc enough => ?_, fun cur enough _ => ?_, fun cur enough => ?_⟩
      · rcases cur with - | ⟨⟨event, range⟩, rest⟩
        · rfl
        · rw [List.length_cons] at enough
          by_cases ended : event = .finish
          · rw [ended]
            rfl
          by_cases ruled : event = .rule
          · rw [ruled]
            rw [parseBlockSequenceFor_rule, parseBlockSequenceFor_rule,
              sequence rest [] (by omega)]
          cases opening : opensBlock event with
          | true =>
              have taken := shorter ((event, range) :: rest)
              rw [List.length_cons] at taken
              rw [parseBlockSequenceFor_block _ opening, parseBlockSequenceFor_block _ opening,
                block _ (by rw [List.length_cons]; omega) (by omega)]
              dsimp only
              rw [sequence _ [] (by omega)]
          | false =>
              have taken := parseInlineEvent_shrinks isAlphanumeric (event, range) rest {}
              rw [parseBlockSequenceFor_inline _ ended ruled opening,
                parseBlockSequenceFor_inline _ ended ruled opening]
              exact sequence _ _ (by omega)
      · rcases cur with - | ⟨⟨event, range⟩, rest⟩
        · rfl
        · rw [List.length_cons] at enough
          cases event with
          | start tag =>
              cases tag with
              | paragraph | heading | codeBlock | htmlBlock | table => rfl
              | list orderedStart =>
                  rw [parseStartedBlockFor_list, parseStartedBlockFor_list,
                    items rest (by omega)]
              | blockQuote =>
                  rw [parseStartedBlockFor_blockQuote, parseStartedBlockFor_blockQuote,
                    sequence rest [] (by omega)]
              | _ => exact sequence rest [] (by omega)
          | _ => rfl
      · rcases cur with - | ⟨⟨event, range⟩, rest⟩
        · rfl
        · rw [List.length_cons] at enough
          cases event with
          | start tag =>
              cases tag with
              | item =>
                  have taken := (block_shrinks isAlphanumeric fuel).1 rest []
                  rw [parseItems_item, parseItems_item, sequence rest [] (by omega)]
                  dsimp only
                  rw [items _ (by omega)]
              | _ => exact items rest (by omega)
          | finish => rfl
          | _ => exact items rest (by omega)

/-- The loop of `parse_block_sequence`. -/
def blockSequence (cur : Cursor) (acc : List InlineRun) : List Block × Cursor :=
  parseBlockSequenceFor isAlphanumeric (inlineFuel cur) cur acc

theorem parseBlockSequenceFor_enough (enough : inlineFuel cur ≤ fuel) :
    parseBlockSequenceFor isAlphanumeric fuel cur acc = blockSequence isAlphanumeric cur acc := by
  induction fuel, enough using Nat.le_induction with
  | base => rfl
  | succ fuel enough ih => rw [(block_succ isAlphanumeric fuel).1 cur acc enough, ih]

theorem blockSequence_inline (running : event ≠ .finish) (unruled : event ≠ .rule)
    (inline : opensBlock event = false) :
    blockSequence isAlphanumeric ((event, range) :: rest) acc =
      let read := parseInlineEvent isAlphanumeric ((event, range) :: rest) {}
      blockSequence isAlphanumeric read.2 (acc ++ read.1) := by
  have taken := parseInlineEvent_shrinks isAlphanumeric (event, range) rest {}
  rw [blockSequence, inlineFuel, parseBlockSequenceFor_inline _ running unruled inline]
  apply parseBlockSequenceFor_enough
  unfold inlineFuel
  rw [List.length_cons]
  omega

end Zeron.Markdown
