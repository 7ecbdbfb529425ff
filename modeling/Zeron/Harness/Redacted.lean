import Zeron.Harness.Redact

namespace Zeron.Harness.Redact

open Zeron.Data

/-! # A labelled secret does not reach the output

Two texts that differ in one labelled value leave the machine alike: what was written is the same,
and of the word before only whether it is one the next word depends on is kept.
-/

section parts

variable {part text : Text} {quote : Char} {next last : Redactor → Text → Redactor}

/-! ## Parts get shorter -/

theorem closeFrom_length {escaped : Bool} {cut : Text × Text}
    (found : closeFrom quote escaped text = some cut) : cut.2.length < text.length := by
  induction text generalizing escaped cut with
  | nil => cases found
  | cons c rest ih =>
      have later : ∀ {escaped : Bool}, ((closeFrom quote escaped rest).map fun cut =>
          (c :: cut.1, cut.2)) = some cut → cut.2.length < (c :: rest).length := by
        intro escaped mapped
        obtain ⟨inner, deeper, same⟩ := Option.map_eq_some_iff.mp mapped
        have shorter := ih deeper
        rw [← same]
        exact Nat.lt_succ_of_lt shorter
      rw [closeFrom] at found
      split at found
      · exact later found
      · split at found
        · exact later found
        · split at found
          · cases found
            exact Nat.lt_succ_self _
          · exact later found

theorem stripSeparator_length {rest : Text} (found : stripSeparator part = some rest) :
    rest.length < part.length := by
  unfold stripSeparator at found
  split at found <;> cases found <;> simp

theorem unquoted_length (mark : Option Char) (after : Text) :
    (unquoted mark after).length ≤ after.length := by
  unfold unquoted
  split
  · split <;> simp
  · exact Nat.le_refl _

theorem parseLabel_length {key rest : Text} (found : parseLabel part = some ⟨key, some rest⟩) :
    rest.length < part.length := by
  unfold parseLabel at found
  dsimp only at found
  split at found
  · cases found
  · split at found
    · cases found
    · obtain ⟨held, stripped, same⟩ := Option.bind_eq_some_iff.mp found
      split at same
      · cases same
      · cases same
        have shorter := stripSeparator_length stripped
        have dropped := unquoted_length ((part.takeWhile isLead).getLast?.filter isQuote)
          ((part.dropWhile isLead).drop ((part.dropWhile isLead).takeWhile isKeyChar).length)
        have body := List.length_dropWhile_le isLead part
        rw [List.length_drop] at dropped
        omega

theorem findClosing_tail {cut : Text × Text} (found : findClosing part.tail quote = some cut) :
    cut.2.length < part.length := by
  have shorter := closeFrom_length found
  rw [List.length_tail] at shorter
  omega

theorem quotedItem_length {cut : Text × Text} (found : quotedItem part = some cut) :
    cut.2.length < part.length := by
  obtain ⟨mark, -, item⟩ := Option.bind_eq_some_iff.mp found
  obtain ⟨inner, closed, same⟩ := Option.map_eq_some_iff.mp item
  have shorter := findClosing_tail closed
  rw [← same]
  exact shorter

/-- A machine that agrees on shorter parts reads a part alike. -/
theorem segmentWith_congr {bound : Nat}
    (agree : ∀ redactor part, part.length < bound → next redactor part = last redactor part)
    (redactor : Redactor) (short : part.length ≤ bound) :
    redactor.segmentWith next part = redactor.segmentWith last part := by
  have unlabelled : ∀ redactor : Redactor,
      redactor.unlabelled next part = redactor.unlabelled last part := by
    intro redactor
    unfold Redactor.unlabelled
    cases item : (quotedItem part).filter fun cut => decide (cut.2 ≠ []) with
    | some cut =>
        have shorter := quotedItem_length (Option.filter_eq_some_iff.mp item).1
        exact agree _ _ (by omega)
    | none =>
        dsimp only
        cases comma : (cutFirst [','] part).filter fun cut =>
            decide (cut.2 ≠ []) && !contains part "://".toList with
        | none => rfl
        | some cut =>
            obtain ⟨found, kept⟩ := Option.filter_eq_some_iff.mp comma
            have whole := congrArg List.length (cutFirst_eq_some found)
            simp only [Bool.and_eq_true, decide_eq_true_eq, ne_eq] at kept
            have tail := List.length_pos_iff.mpr kept.1
            simp only [List.length_append, List.length_singleton] at whole
            have head : (cut.1 ++ [',']).length < bound := by
              simp only [List.length_append, List.length_singleton]
              omega
            dsimp only
            rw [agree _ _ head]
            exact agree _ _ (by omega)
  have text : ∀ redactor : Redactor, redactor.text next part = redactor.text last part := by
    intro redactor
    unfold Redactor.text
    cases parsed : parseLabel part with
    | none => exact unlabelled redactor
    | some parts =>
        obtain ⟨key, rest⟩ := parts
        cases rest with
        | none =>
            cases kind : labelKind key redactor.previous with
            | none =>
                simp only [kind]
                exact unlabelled redactor
            | some label => simp only [kind]
        | some rest =>
            have shorter := parseLabel_length parsed
            cases kind : labelKind key redactor.previous with
            | none =>
                simp only [kind]
                split
                · exact unlabelled redactor
                · exact agree _ _ (by omega)
            | some label =>
                simp only [kind]
                exact agree _ _ (by omega)
  unfold Redactor.segmentWith
  split
  · rfl
  · rename_i filled
    have tail := List.length_pos_iff.mpr filled
    cases redactor.state with
    | text => exact text redactor
    | separator label =>
        dsimp only
        cases stripped : stripSeparator part with
        | none => exact text _
        | some rest =>
            have shorter := stripSeparator_length stripped
            exact agree _ _ (by omega)
    | value label =>
        dsimp only
        split
        · rfl
        · cases label with
          | secret =>
              dsimp only
              unfold Redactor.secretValue
              split
              · rfl
              · cases opened : openingQuote part with
                | none => rfl
                | some mark =>
                    dsimp only
                    cases closed : findClosing part.tail mark with
                    | none => rfl
                    | some cut =>
                        have shorter := findClosing_tail closed
                        exact agree _ _ (by omega)
          | authorization =>
              dsimp only
              unfold Redactor.authorizationValue
              cases opened : openingQuote part with
              | none => rfl
              | some mark =>
                  simp only [Option.isSome_some, if_true, Option.bind_some]
                  cases closed : findClosing part.tail mark with
                  | none => rfl
                  | some cut =>
                      have shorter := findClosing_tail closed
                      exact agree _ _ (by omega)
    | hidden mark masked =>
        dsimp only
        unfold Redactor.hide
        cases mark with
        | none => rfl
        | some mark =>
            obtain closed | ⟨cut, closed⟩ := Option.eq_none_or_eq_some (findClosing part mark)
            · simp only [Option.bind_some, closed, Option.map_none]
            · simp only [Option.bind_some, closed, Option.map_some]
              have shorter := closeFrom_length closed
              exact agree _ _ (by omega)

theorem segmentFor_enough {fuel other : Nat} (redactor : Redactor) (part : Text)
    (enough : part.length < fuel) (plenty : part.length < other) :
    redactor.segmentFor fuel part = redactor.segmentFor other part := by
  induction fuel generalizing other redactor part with
  | zero => omega
  | succ fuel ih =>
      cases other with
      | zero => omega
      | succ other =>
          refine segmentWith_congr ?_ redactor (Nat.le_refl part.length)
          intro redactor shorter less
          exact ih redactor shorter (by omega) (by omega)

/-- The rest of a part is read by the same machine. -/
theorem segment_eq (redactor : Redactor) (part : Text) :
    redactor.segment part = redactor.segmentWith Redactor.segment part := by
  refine segmentWith_congr ?_ redactor (Nat.le_refl part.length)
  intro redactor shorter less
  exact segmentFor_enough redactor shorter less (Nat.lt_succ_self _)

end parts

/-! ## The word before -/

instance : LawfulBEq Text := inferInstanceAs (LawfulBEq (List Char))

/-- The word before, where the next word depends on it. -/
def contextOf (previous : Text) : Option Text :=
  if trimmed previous ∈ statusWords ++ credentialWords then some (trimmed previous) else none

section contexts

variable {previous before : Text}

theorem mem_statusWords_congr (same : contextOf previous = contextOf before) :
    trimmed previous ∈ statusWords ↔ trimmed before ∈ statusWords := by
  unfold contextOf at same
  split at same <;> split at same
  · rw [Option.some.inj same]
  · cases same
  · cases same
  · rename_i first second
    simp only [List.mem_append, not_or] at first second
    exact iff_of_false first.1 second.1

theorem mem_credentialWords_congr (same : contextOf previous = contextOf before) :
    trimmed previous ∈ credentialWords ↔ trimmed before ∈ credentialWords := by
  unfold contextOf at same
  split at same <;> split at same
  · rw [Option.some.inj same]
  · cases same
  · cases same
  · rename_i first second
    simp only [List.mem_append, not_or] at first second
    exact iff_of_false first.2 second.2

theorem labelKind_congr (key : Text) (same : contextOf previous = contextOf before) :
    labelKind key previous = labelKind key before := by
  unfold labelKind
  simp only [mem_statusWords_congr same]

theorem redactWord_congr (word : Text) (same : contextOf previous = contextOf before) :
    redactWord word previous = redactWord word before := by
  unfold redactWord
  simp only [mem_credentialWords_congr same]

end contexts

variable {redactor other : Redactor}

/-- Machines that write the same from here on. -/
structure Alike (redactor other : Redactor) : Prop where
  out : redactor.out = other.out
  space : redactor.space = other.space
  state : redactor.state = other.state
  context : contextOf redactor.previous = contextOf other.previous

namespace Alike

theorem emit (alike : Alike redactor other) (text : Text) :
    Alike (redactor.emit text) (other.emit text) where
  out := by simp only [Redactor.emit, alike.out, alike.space]
  space := rfl
  state := alike.state
  context := alike.context

theorem turn (alike : Alike redactor other) (state : State) :
    Alike { redactor with state } { other with state } where
  out := alike.out
  space := alike.space
  state := rfl
  context := alike.context

theorem drop_space (alike : Alike redactor other) :
    Alike { redactor with space := [] } { other with space := [] } where
  out := alike.out
  space := rfl
  state := alike.state
  context := alike.context

theorem blank (alike : Alike redactor other) (c : Char) :
    Alike (redactor.blank c) (other.blank c) where
  out := alike.out
  space := by simp only [Redactor.blank, alike.space]
  state := by simp only [Redactor.blank, alike.state]
  context := alike.context

theorem finish (alike : Alike redactor other) : redactor.finish = other.finish := by
  unfold Redactor.finish
  rw [alike.out, alike.space]

def Keeps (next : Redactor → Text → Redactor) : Prop :=
  ∀ redactor other part, Alike redactor other → Alike (next redactor part) (next other part)

section segments

variable {next : Redactor → Text → Redactor}

theorem unlabelled (keeps : Keeps next) (alike : Alike redactor other) (part : Text) :
    Alike (redactor.unlabelled next part) (other.unlabelled next part) := by
  unfold Redactor.unlabelled
  cases (quotedItem part).filter fun cut => decide (cut.2 ≠ []) with
  | some cut =>
      dsimp only
      rw [redactWord_congr cut.1 alike.context]
      exact keeps _ _ _ (alike.emit _)
  | none =>
      dsimp only
      cases (cutFirst [','] part).filter fun cut =>
          decide (cut.2 ≠ []) && !contains part "://".toList with
      | some cut => exact keeps _ _ _ (keeps _ _ _ alike)
      | none =>
          dsimp only
          rw [redactWord_congr part alike.context]
          exact alike.emit _

theorem text (keeps : Keeps next) (alike : Alike redactor other) (part : Text) :
    Alike (redactor.text next part) (other.text next part) := by
  unfold Redactor.text
  cases parseLabel part with
  | none => exact unlabelled keeps alike part
  | some parts =>
      obtain ⟨key, rest⟩ := parts
      dsimp only
      rw [labelKind_congr key alike.context, redactWord_congr part alike.context]
      cases labelKind key other.previous with
      | some label =>
          cases rest with
          | none => exact (alike.emit _).turn _
          | some rest => exact keeps _ _ _ ((alike.emit _).turn _)
      | none =>
          cases rest with
          | none => exact unlabelled keeps alike part
          | some rest =>
              dsimp only
              split
              · exact unlabelled keeps alike part
              · exact keeps _ _ _ (alike.emit _)

theorem secretValue (keeps : Keeps next) (alike : Alike redactor other) (part : Text) :
    Alike (redactor.secretValue next part) (other.secretValue next part) := by
  unfold Redactor.secretValue
  split
  · exact alike.emit _
  · cases openingQuote part with
    | none => exact alike.emit _
    | some mark =>
        have opened := alike.emit [mark]
        dsimp only
        cases findClosing part.tail mark with
        | some cut =>
            apply keeps
            apply Alike.emit
            split
            · exact opened
            · exact opened.emit _
        | none =>
            dsimp only
            split
            · exact opened.turn _
            · exact (opened.emit _).turn _

theorem authorizationValue (keeps : Keeps next) (alike : Alike redactor other) (part : Text) :
    Alike (redactor.authorizationValue next part) (other.authorizationValue next part) := by
  have ended : ∀ {opened latter : Redactor} (mark : Option Char) (body : Text),
      Alike opened latter → Alike
        (if isAuthScheme body then { opened.emit body with state := .hidden mark false }
          else if body = [] then { opened with state := .hidden mark false }
          else { opened.emit redacted with state := .hidden mark true })
        (if isAuthScheme body then { latter.emit body with state := .hidden mark false }
          else if body = [] then { latter with state := .hidden mark false }
          else { latter.emit redacted with state := .hidden mark true }) := by
    intro opened latter mark body alike
    split
    · exact (alike.emit _).turn _
    · split
      · exact alike.turn _
      · exact (alike.emit _).turn _
  unfold Redactor.authorizationValue
  cases openingQuote part with
  | none => exact ended none part alike
  | some mark =>
      have opened := alike.emit [mark]
      simp only [Option.isSome_some, if_true, Option.bind_some]
      cases findClosing part.tail mark with
      | none => exact ended (some mark) part.tail opened
      | some cut =>
          apply keeps
          apply Alike.emit
          split
          · exact opened
          · exact opened.emit _

theorem hide (keeps : Keeps next) (alike : Alike redactor other) (part : Text) (mark : Option Char) (masked : Bool) :
    Alike (redactor.hide next part mark masked) (other.hide next part mark masked) := by
  have covered : ∀ content : Text, Alike
      (if masked then { redactor with space := [] }
        else if content = [] then redactor else redactor.emit redacted)
      (if masked then { other with space := [] }
        else if content = [] then other else other.emit redacted) := by
    intro content
    split
    · exact alike.drop_space
    · split
      · exact alike
      · exact alike.emit _
  unfold Redactor.hide
  dsimp only
  cases mark.bind fun quote => (findClosing part quote).map fun cut => (quote, cut) with
  | some cut => exact keeps _ _ _ (((covered _).turn _).emit _)
  | none => exact (covered _).turn _

/-- One part keeps two machines alike, whatever state they are in. -/
theorem segmentWith (keeps : Keeps next) (alike : Alike redactor other) (part : Text) :
    Alike (redactor.segmentWith next part) (other.segmentWith next part) := by
  unfold Redactor.segmentWith
  rw [← alike.state]
  split
  · exact alike
  · cases redactor.state with
    | text => exact text keeps alike part
    | separator label =>
        dsimp only
        cases stripSeparator part with
        | some rest => exact keeps _ _ _ ((alike.emit _).turn _)
        | none => exact text keeps (alike.turn _) part
    | value label =>
        dsimp only
        split
        · exact alike.emit _
        · cases label with
          | secret => exact secretValue keeps (alike.turn _) part
          | authorization => exact authorizationValue keeps (alike.turn _) part
    | hidden mark masked => exact hide keeps alike part mark masked

end segments

theorem segmentFor (fuel : Nat) (alike : Alike redactor other) (part : Text) :
    Alike (redactor.segmentFor fuel part) (other.segmentFor fuel part) := by
  induction fuel generalizing redactor other part with
  | zero => exact alike
  | succ fuel ih => exact segmentWith (fun _ _ part alike => ih alike part) alike part

theorem segment (alike : Alike redactor other) (part : Text) :
    Alike (redactor.segment part) (other.segment part) :=
  segmentFor _ alike part

theorem word (alike : Alike redactor other) (word : Text) :
    Alike (redactor.word word) (other.word word) where
  out := (alike.segment word).out
  space := (alike.segment word).space
  state := (alike.segment word).state
  context := rfl

end Alike

/-! ## The rest of the text -/

/-- The machine once the word being read is over. -/
def settled (reading : Redactor × Text) : Redactor :=
  if reading.2 = [] then reading.1 else reading.1.word reading.2

theorem feed_alike {pending : Text} (alike : Alike redactor other) (c : Char) :
    Alike (feed (redactor, pending) c).1 (feed (other, pending) c).1 ∧
      (feed (redactor, pending) c).2 = (feed (other, pending) c).2 := by
  unfold feed
  split
  · refine ⟨Alike.blank ?_ c, rfl⟩
    split
    · exact alike
    · exact alike.word _
  · exact ⟨alike, rfl⟩

theorem close_alike {pending : Text} (alike : Alike redactor other) :
    close (redactor, pending) = close (other, pending) := by
  unfold close
  split
  · exact alike.finish
  · exact (alike.word _).finish

theorem close_fold_alike {pending : Text} (alike : Alike redactor other) (rest : Text) :
    close (rest.foldl feed (redactor, pending)) = close (rest.foldl feed (other, pending)) := by
  induction rest generalizing redactor other pending with
  | nil => exact close_alike alike
  | cons c rest ih =>
      obtain ⟨after, pending'⟩ :
          Alike (feed (redactor, pending) c).1 (feed (other, pending) c).1 ∧
            (feed (redactor, pending) c).2 = (feed (other, pending) c).2 := feed_alike alike c
      rw [List.foldl_cons, List.foldl_cons, ← Prod.eta (feed (redactor, pending) c),
        ← Prod.eta (feed (other, pending) c), pending']
      exact ih after

/-- Past the end of a word, what the word was is told by the machine alone. -/
theorem close_settled {reading latter : Redactor × Text}
    (alike : Alike (settled reading) (settled latter)) {rest : Text}
    (ended : rest.head?.all isWhitespace) :
    close (rest.foldl feed reading) = close (rest.foldl feed latter) := by
  cases rest with
  | nil => exact alike.finish
  | cons c rest =>
      have white : isWhitespace c = true := ended
      rw [List.foldl_cons, List.foldl_cons, feed, feed, if_pos white, if_pos white]
      exact close_fold_alike (alike.blank c) rest

end Zeron.Harness.Redact
