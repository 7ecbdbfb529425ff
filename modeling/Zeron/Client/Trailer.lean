import Zeron.Client.Attachments
import Zeron.Data.Trim

namespace Zeron.Client

open Zeron.Data

/-! # What comes back of a prompt and its attachments

A message is split at the first marker line under a blank one.  The trailer's own is the first
unless the prompt quotes one, so what comes back is settled by the lines of the prompt.
-/

variable {text prompt content body shownPart context : Text} {paths lines front back listed : List Text}
  {line path : Text}

def lineBlank : Char → Bool := Registry.SidebarM.isWhitespace

theorem trim_eq (text : Text) : Command.trim text = trimBy lineBlank text := rfl

/-- A path a line can carry. -/
structure IsPath (path : Text) : Prop where
  nonblank : path ≠ []
  oneLine : '\n' ∉ path
  trimmed : Command.trim path = path

/-! ## Lines -/

theorem joinLines_splitOn (text : Text) : joinLines (text.splitOn '\n') = text :=
  List.intercalate_splitOn '\n'

theorem splitOn_joinLines (some : lines ≠ []) (single : ∀ line ∈ lines, '\n' ∉ line) :
    (joinLines lines).splitOn '\n' = lines := List.splitOn_intercalate '\n' single some

theorem joinLines_append (frontSome : front ≠ []) (backSome : back ≠ []) :
    joinLines (front ++ back) = joinLines front ++ '\n' :: joinLines back := by
  induction front with
  | nil => exact absurd rfl frontSome
  | cons line rest ih =>
      cases rest with
      | nil => simp [joinLines, List.intercalate_cons_of_ne_nil backSome]
      | cons next others =>
          have tail := ih (by simp)
          simp only [joinLines, List.cons_append, List.intercalate_cons_cons] at tail ⊢
          rw [tail]
          simp

theorem joinLines_cons (line : Text) (rest : List Text) :
    ∃ more, joinLines (line :: rest) = line ++ more := by
  cases rest with
  | nil => exact ⟨[], by simp [joinLines]⟩
  | cons next others =>
      exact ⟨'\n' :: joinLines (next :: others), by simp [joinLines, List.intercalate_cons_cons]⟩

theorem splitOn_append_plain (plain : '\n' ∉ line) (text : Text) :
    ∃ first rest, (line ++ text).splitOn '\n' = (line ++ first) :: rest := by
  induction line with
  | nil =>
      obtain ⟨first, rest, same⟩ := List.exists_cons_of_ne_nil (List.splitOn_ne_nil '\n' text)
      exact ⟨first, rest, by simpa using same⟩
  | cons c others ih =>
      obtain ⟨first, rest, same⟩ := ih (fun member => plain (List.mem_cons_of_mem _ member))
      have apart : (c == '\n') = false := by
        rw [beq_eq_false_iff_ne]
        rintro rfl
        exact plain List.mem_cons_self
      refine ⟨first, rest, ?_⟩
      rw [List.cons_append, List.splitOn_cons_eq_if_modifyHead, apart, same]
      rfl

/-! ## The lines of the trailer -/

theorem listedPath_refLine (valid : IsPath path) : listedPath (refLine path) = some path := by
  have tight := trimBy_tight lineBlank path
  rw [← trim_eq, valid.trimmed] at tight
  have trimmed : Command.trim (refLine path) = refLine path := by
    apply trimBy_of_tight
    constructor
    · intro c first
      cases first
      rfl
    · intro c last
      obtain ⟨first, rest, rfl⟩ := List.exists_cons_of_ne_nil valid.nonblank
      exact tight.last c (by simpa [refLine] using last)
  rw [listedPath, trimmed, show refLine path = ['-', ' '] ++ path from rfl,
    List.dropPrefix?_append_of_beq path (BEq.refl _), Option.bind_some, valid.trimmed,
    if_neg valid.nonblank]

theorem isMarkerLine_attachmentMarker : isMarkerLine attachmentMarker = true := by
  decide

theorem isMarkerLine_nil : isMarkerLine [] = false := by decide

/-- The lines of a message. -/
theorem splitOn_trailer (some : paths ≠ []) (each : ∀ path ∈ paths, IsPath path) (body : Text) :
    (body ++ ['\n', '\n'] ++ attachmentMarker ++ ['\n'] ++ joinLines (paths.map refLine)).splitOn '\n' =
      body.splitOn '\n' ++ [] :: attachmentMarker :: paths.map refLine := by
  have plainMarker : '\n' ∉ attachmentMarker := by decide
  have refs : (joinLines (paths.map refLine)).splitOn '\n' = paths.map refLine := by
    apply splitOn_joinLines
    · simpa using some
    · intro line member
      obtain ⟨path, listed, rfl⟩ := List.mem_map.mp member
      simpa [refLine] using (each path listed).oneLine
  have shape : body ++ ['\n', '\n'] ++ attachmentMarker ++ ['\n'] ++ joinLines (paths.map refLine) =
      body ++ '\n' :: ([] ++ '\n' :: (attachmentMarker ++ '\n' :: joinLines (paths.map refLine))) := by
    simp
  rw [shape, splitOn_append_sep, splitOn_append_sep, splitOn_append_sep, refs,
    splitOn_plain plainMarker]
  rfl

/-! ## The first marker -/

theorem splitAtMarker_eq_some (found : splitAtMarker lines = some (front, listed)) :
    ∃ blank marker, lines = front ++ blank :: marker :: listed ∧ isMarkerLine marker = true := by
  induction lines generalizing front with
  | nil => cases found
  | cons previous rest ih =>
      cases rest with
      | nil => cases found
      | cons line others =>
          rw [splitAtMarker] at found
          split at found
          · rename_i here
            cases found
            exact ⟨previous, line, rfl, here.2⟩
          · obtain ⟨⟨early, late⟩, later, same⟩ := Option.map_eq_some_iff.mp found
            cases same
            obtain ⟨blank, marker, shape, marks⟩ := ih later
            exact ⟨blank, marker, by rw [shape]; rfl, marks⟩

theorem splitAtMarker_append (found : splitAtMarker lines = some (front, listed)) (others : List Text) :
    splitAtMarker (lines ++ others) = some (front, listed ++ others) := by
  induction lines generalizing front with
  | nil => cases found
  | cons previous rest ih =>
      cases rest with
      | nil => cases found
      | cons line tail =>
          simp only [List.cons_append, splitAtMarker] at found ⊢
          split at found
          · rename_i here
            cases found
            rw [if_pos here]
          · rename_i elsewhere
            obtain ⟨⟨early, late⟩, later, same⟩ := Option.map_eq_some_iff.mp found
            cases same
            have tailFound := ih later
            rw [List.cons_append] at tailFound
            rw [if_neg elsewhere, tailFound]
            rfl

/-- A line that is no marker goes on from lines without one. -/
theorem splitAtMarker_skip (absent : splitAtMarker front = none) (plain : isMarkerLine line = false)
    (rest : List Text) :
    splitAtMarker (front ++ line :: rest) =
      (splitAtMarker (line :: rest)).map fun cut => (front ++ cut.1, cut.2) := by
  induction front with
  | nil => simp
  | cons previous others ih =>
      cases others with
      | nil => simp [splitAtMarker, plain]
      | cons next tail =>
          simp only [splitAtMarker] at absent
          split at absent
          · cases absent
          · rename_i elsewhere
            have tailSkips := ih (by simpa using absent)
            simp only [List.cons_append] at tailSkips ⊢
            rw [splitAtMarker, if_neg elsewhere, tailSkips, Option.map_map]
            rfl

/-! ## The two halves of a message -/

/-- The prompt above the first marker it quotes. -/
def quotedBody (prompt : Text) : Text :=
  match splitAtMarker (prompt.splitOn '\n') with
  | some (before, _) => joinLines before
  | none => prompt

/-- The paths listed below the first marker the prompt quotes. -/
def quotedPaths (prompt : Text) : List Text :=
  match splitAtMarker (prompt.splitOn '\n') with
  | some (_, below) => below.filterMap listedPath
  | none => []

/-- Nothing of a body that only stands for attachments is shown. -/
def hide (visible : Text) : Text :=
  if visible = attachmentOnlyText ∨ visible = fileAttachmentOnlyText then [] else visible

/-- A message whose list names paths under the marker. -/
theorem parseUserMessage_of_split (found : splitAtMarker (content.splitOn '\n') = some (front, listed))
    (named : listed.filterMap listedPath = paths) (some : paths ≠ []) :
    (parseUserMessage content).images.map (·.path) = paths ∧
      (parseUserMessage content).text = hide (visibleText (Command.trim (joinLines front))) := by
  have images : ((paths.map fun path =>
      (⟨path, imageName path, appshotLabels content path⟩ : UserImage)) = []) = False := by
    simp [some]
  rw [parseUserMessage, found]
  simp only [named, images, if_false, List.map_map]
  refine ⟨?_, rfl⟩
  conv_rhs => rw [← List.map_id paths]
  rfl

theorem parseUserMessage_trailer (some : paths ≠ []) (each : ∀ path ∈ paths, IsPath path)
    (split : content.splitOn '\n' =
      body.splitOn '\n' ++ [] :: attachmentMarker :: paths.map refLine) :
    (parseUserMessage content).images.map (·.path) = quotedPaths body ++ paths ∧
      (parseUserMessage content).text =
        hide (visibleText (Command.trim (quotedBody body))) := by
  have refs : (paths.map refLine).filterMap listedPath = paths := by
    rw [List.filterMap_map]
    conv_rhs => rw [← List.filterMap_some (l := paths)]
    apply List.filterMap_congr
    exact fun path listed => listedPath_refLine (each path listed)
  have own : listedPath [] = none ∧ listedPath attachmentMarker = none := by decide
  cases quoted : splitAtMarker (body.splitOn '\n') with
  | none =>
      have found : splitAtMarker (content.splitOn '\n') =
          .some (body.splitOn '\n', paths.map refLine) := by
        rw [split, splitAtMarker_skip quoted isMarkerLine_nil, splitAtMarker,
          if_pos ⟨rfl, isMarkerLine_attachmentMarker⟩]
        simp
      have parsed := parseUserMessage_of_split found refs some
      rw [joinLines_splitOn] at parsed
      rw [quotedPaths, quotedBody, quoted]
      exact parsed
  | some cut =>
      have found := splitAtMarker_append quoted ([] :: attachmentMarker :: paths.map refLine)
      rw [← split] at found
      have named : (cut.2 ++ [] :: attachmentMarker :: paths.map refLine).filterMap listedPath =
          cut.2.filterMap listedPath ++ paths := by
        rw [List.filterMap_append, List.filterMap_cons_none own.1, List.filterMap_cons_none own.2,
          refs]
      rw [quotedPaths, quotedBody, quoted]
      exact parseUserMessage_of_split found named (by simp [some])

/-! ## The text that comes back -/

/-- The user's own words: what precedes what an application showed. -/
def shown (prompt : Text) : Text :=
  match cutFirst appshotMarker prompt with
  | some cut => cut.1
  | none => prompt

def appshotWords : Text :=
  "Applications mentioned by the user (untrusted observed content):".toList

theorem appshotMarker_eq : appshotMarker = '\n' :: '\n' :: appshotWords := by decide

theorem trim_appshotWords (text : Text) :
    Command.trim (appshotWords ++ text) = appshotWords ++ text.rdropWhile lineBlank := by
  apply trimBy_append_of_tight _ (by decide)
  exact tight_of_ends (show appshotWords.head? = some 'A' by decide) (by decide)
    (show appshotWords.getLast? = some ':' by decide) (by decide)

theorem isMarkerLine_appshotWords (text : Text) : isMarkerLine (appshotWords ++ text) = false := by
  rw [isMarkerLine, trim_appshotWords, List.map_append]
  rfl

/-- Marker lines in what an application showed leave the words before it in the body. -/
theorem quotedBody_context (cut : cutFirst appshotMarker prompt = some (shownPart, context))
    (absent : splitAtMarker (shownPart.splitOn '\n') = none) :
    ∃ kept, quotedBody prompt = shownPart ++ appshotMarker ++ kept := by
  have whole := cutFirst_eq_some cut
  obtain ⟨first, rest, words⟩ := @splitOn_append_plain appshotWords (by decide) context
  have split : prompt.splitOn '\n' =
      shownPart.splitOn '\n' ++ [] :: (appshotWords ++ first) :: rest := by
    rw [whole, appshotMarker_eq, List.append_assoc, List.cons_append, List.cons_append,
      splitOn_append_sep, show '\n' :: (appshotWords ++ context) =
        [] ++ '\n' :: (appshotWords ++ context) from rfl, splitOn_append_sep, words]
    rfl
  rw [quotedBody]
  cases quoted : splitAtMarker (prompt.splitOn '\n') with
  | none => exact ⟨context, whole⟩
  | some found =>
      have skipped := splitAtMarker_skip absent isMarkerLine_nil ((appshotWords ++ first) :: rest)
      rw [← split, quoted, splitAtMarker, if_neg (by simp [isMarkerLine_appshotWords])] at skipped
      cases rest with
      | nil => cases skipped
      | cons next others =>
          have inked : ¬ (Command.trim (appshotWords ++ first) = [] ∧ isMarkerLine next = true) := by
            rw [trim_appshotWords]
            exact fun both => absurd (List.append_eq_nil_iff.mp both.1).1 (by decide)
          rw [splitAtMarker, if_neg inked, Option.map_map, Option.map_map] at skipped
          obtain ⟨tail, -, same⟩ := Option.map_eq_some_iff.mp skipped.symm
          subst same
          obtain ⟨more, joined⟩ := joinLines_cons (appshotWords ++ first) tail.1
          have opened : joinLines ([] :: (appshotWords ++ first) :: tail.1) =
              '\n' :: (appshotWords ++ first ++ more) := by
            rw [← joined]
            simp [joinLines, List.intercalate_cons_cons]
          refine ⟨first ++ more, ?_⟩
          change joinLines (shownPart.splitOn '\n' ++ [] :: (appshotWords ++ first) :: tail.1) = _
          rw [joinLines_append (List.splitOn_ne_nil _ _) (by simp), joinLines_splitOn, opened,
            appshotMarker_eq]
          simp

/-- The words before the context are what is shown of it. -/
theorem visibleText_context (cut : cutFirst appshotMarker prompt = some (shownPart, context))
    (inked : Command.trim shownPart ≠ []) (kept : Text) :
    visibleText (Command.trim (shownPart ++ appshotMarker ++ kept)) = Command.trim shownPart := by
  obtain ⟨front, back, same, blankFront, blankBack⟩ := trimBy_split lineBlank shownPart
  rw [← trim_eq] at same
  have tight := trimBy_tight lineBlank shownPart
  obtain ⟨opening, others, opened⟩ := List.exists_cons_of_ne_nil inked
  have words : Tight lineBlank (Command.trim shownPart ++ back ++ appshotMarker) := by
    apply @tight_of_ends _ _ _ opening ':'
    · rw [opened]
      rfl
    · exact tight.first opening (by rw [← trim_eq, opened]; rfl)
    · rw [List.getLast?_append, show appshotMarker.getLast? = some ':' by decide]
      rfl
    · decide
  have trimmed : Command.trim (shownPart ++ appshotMarker ++ kept) =
      Command.trim shownPart ++ back ++ appshotMarker ++ kept.rdropWhile lineBlank := by
    rw [← trimBy_append_of_tight words (by simp [inked])]
    conv_lhs => rw [same]
    simp only [List.append_assoc]
    exact trimBy_append_front blankFront
  have found : cutFirst appshotMarker (shownPart ++ appshotMarker ++ kept.rdropWhile lineBlank) =
      some (shownPart, kept.rdropWhile lineBlank) := by
    rw [cutFirst_eq_some cut] at cut
    exact cutFirst_replace_after cut _
  have later : cutFirst appshotMarker
      (Command.trim shownPart ++ back ++ appshotMarker ++ kept.rdropWhile lineBlank) =
      some (Command.trim shownPart ++ back, kept.rdropWhile lineBlank) := by
    apply @cutFirst_of_append _ _ _ front
    have shape : front ++ (Command.trim shownPart ++ back ++ appshotMarker ++
        kept.rdropWhile lineBlank) = shownPart ++ appshotMarker ++ kept.rdropWhile lineBlank := by
      conv_rhs => rw [same]
      simp only [List.append_assoc]
    rw [shape, found, ← List.append_assoc, ← same]
  rw [trimmed, visibleText, later]
  have blankless := @trimBy_of_split _ _ [] _ back tight (by simp) blankBack
  exact blankless

/-- Without words before it the context is not found again. -/
theorem visibleText_unworded (unworded : Command.trim shownPart = []) (kept : Text) :
    (visibleText (Command.trim (shownPart ++ appshotMarker ++ kept))).head? = some 'A' := by
  have trimmed : Command.trim (shownPart ++ appshotMarker ++ kept) =
      appshotWords ++ kept.rdropWhile lineBlank := by
    rw [← trim_appshotWords, appshotMarker_eq]
    have blankFront : ∀ c ∈ shownPart ++ ['\n', '\n'], lineBlank c = true := by
      intro c member
      rcases List.mem_append.mp member with inside | inside
      · exact trimBy_eq_nil.mp unworded c inside
      · simp only [List.mem_cons, List.not_mem_nil, or_false, or_self] at inside
        subst inside
        decide
    rw [show shownPart ++ '\n' :: '\n' :: appshotWords ++ kept =
      shownPart ++ ['\n', '\n'] ++ (appshotWords ++ kept) by simp]
    exact trimBy_append_front blankFront
  rw [trimmed, visibleText]
  cases found : cutFirst appshotMarker (appshotWords ++ kept.rdropWhile lineBlank) with
  | none => rfl
  | some cut =>
      have whole := congrArg List.head? (cutFirst_eq_some found)
      cases before : cut.1 with
      | nil =>
          rw [before] at whole
          cases whole
      | cons c rest =>
          rw [before] at whole
          cases whole
          change (Command.trim cut.1).head? = _
          rw [before]
          exact @trimBy_head? _ lineBlank 'A' (by decide) rest

theorem ink_joinLines (lines : List Text) :
    ink lineBlank (joinLines lines) = (lines.map (ink lineBlank)).sum := by
  induction lines with
  | nil => rfl
  | cons line rest ih =>
      cases rest with
      | nil => simp [joinLines]
      | cons next others =>
          have split : joinLines (line :: next :: others) =
              line ++ '\n' :: joinLines (next :: others) := by
            simp [joinLines, List.intercalate_cons_cons]
          have sep : ink lineBlank ('\n' :: joinLines (next :: others)) =
              ink lineBlank (joinLines (next :: others)) :=
            List.countP_cons_of_neg (by decide)
          rw [split, ink_append, sep, ih]
          rfl

theorem ink_visibleText_le (text : Text) : ink lineBlank (visibleText text) ≤ ink lineBlank text := by
  rw [visibleText]
  cases found : cutFirst appshotMarker text with
  | none => exact Nat.le_refl _
  | some cut =>
      have whole := congrArg (ink lineBlank) (cutFirst_eq_some found)
      rw [ink_append, ink_append] at whole
      change ink lineBlank (trimBy lineBlank cut.1) ≤ _
      rw [ink_trimBy]
      omega

theorem ink_hide_le (text : Text) : ink lineBlank (hide text) ≤ ink lineBlank text := by
  rw [hide]
  split
  · exact Nat.zero_le _
  · exact Nat.le_refl _

theorem ink_isMarkerLine (marks : isMarkerLine line = true) : 0 < ink lineBlank line := by
  apply Nat.pos_of_ne_zero
  intro empty
  have blankLine : Command.trim line = [] := trimBy_eq_nil.mpr (ink_eq_zero.mp empty)
  rw [isMarkerLine, blankLine] at marks
  exact absurd marks (by decide)

theorem shown_isStart (prompt : Text) : shown prompt <+: prompt := by
  rw [shown]
  cases found : cutFirst appshotMarker prompt with
  | none => exact List.prefix_refl _
  | some cut => exact ⟨appshotMarker ++ cut.2, by rw [← List.append_assoc, ← cutFirst_eq_some found]⟩

theorem splitOn_shown (prompt : Text) :
    ∃ more, prompt.splitOn '\n' = (shown prompt).splitOn '\n' ++ more := by
  rw [shown]
  cases found : cutFirst appshotMarker prompt with
  | none => exact ⟨[], by simp⟩
  | some cut =>
      refine ⟨('\n' :: (appshotWords ++ cut.2)).splitOn '\n', ?_⟩
      conv_lhs => rw [cutFirst_eq_some found]
      rw [← splitOn_append_sep, appshotMarker_eq]
      simp

/-- A quoted marker among the user's own words loses the words from it on. -/
theorem ink_quoted (quoted : splitAtMarker ((shown prompt).splitOn '\n') ≠ none) :
    ink lineBlank (hide (visibleText (Command.trim (quotedBody prompt)))) <
      ink lineBlank (shown prompt) := by
  obtain ⟨cut, found⟩ := Option.ne_none_iff_exists'.mp quoted
  obtain ⟨more, split⟩ := splitOn_shown prompt
  obtain ⟨blank, marker, lines, marks⟩ := splitAtMarker_eq_some found
  have body : quotedBody prompt = joinLines cut.1 := by
    rw [quotedBody, split, splitAtMarker_append found]
  have shownInk : ink lineBlank (shown prompt) =
      ((cut.1 ++ blank :: marker :: cut.2).map (ink lineBlank)).sum := by
    rw [← lines, ← ink_joinLines, joinLines_splitOn]
  have marked := ink_isMarkerLine marks
  rw [List.map_append, List.sum_append, List.map_cons, List.map_cons, List.sum_cons, List.sum_cons,
    ← ink_joinLines] at shownInk
  have trimmed : ink lineBlank (Command.trim (quotedBody prompt)) =
      ink lineBlank (joinLines cut.1) := by
    rw [body]
    exact ink_trimBy lineBlank _
  have hidden := ink_hide_le (visibleText (Command.trim (quotedBody prompt)))
  have visible := ink_visibleText_le (Command.trim (quotedBody prompt))
  omega

/-! ## The round trip -/

/-- The user's own words are not a text that stands for attachments alone and quote no marker, and
no list of paths follows a marker quoted in what an application showed. -/
def Unambiguous (prompt : Text) : Prop :=
  Command.trim prompt = [] ∨
    Command.trim (shown prompt) ∉ [[], attachmentOnlyText, fileAttachmentOnlyText] ∧
      splitAtMarker ((shown prompt).splitOn '\n') = none ∧ quotedPaths prompt = []

theorem hide_eq_self_iff (some : text ≠ []) :
    hide text = text ↔ text ∉ [attachmentOnlyText, fileAttachmentOnlyText] := by
  rw [hide]
  by_cases fixed : text = attachmentOnlyText ∨ text = fileAttachmentOnlyText
  · simp [fixed, some.symm]
  · rw [if_neg fixed]
    simpa using fixed

/-- What is shown of a prompt whose own words quote no marker. -/
theorem text_of_unquoted (inked : Command.trim prompt ≠ [])
    (absent : splitAtMarker ((shown prompt).splitOn '\n') = none) :
    hide (visibleText (Command.trim (quotedBody prompt))) = Command.trim (shown prompt) ↔
      Command.trim (shown prompt) ∉ [[], attachmentOnlyText, fileAttachmentOnlyText] := by
  cases found : cutFirst appshotMarker prompt with
  | none =>
      have whole : shown prompt = prompt := by rw [shown, found]
      rw [whole] at absent ⊢
      have outside : cutFirst appshotMarker (Command.trim prompt) = none := by
        rw [cutFirst_eq_none] at found ⊢
        exact fun inside => found (inside.trans (trimBy_isInside lineBlank prompt))
      rw [quotedBody, absent, visibleText, outside, hide_eq_self_iff inked]
      simp [inked]
  | some cut =>
      have part : shown prompt = cut.1 := by rw [shown, found]
      rw [part] at absent ⊢
      obtain ⟨kept, body⟩ := quotedBody_context found absent
      rw [body]
      by_cases worded : Command.trim cut.1 = []
      · have leads := visibleText_unworded worded kept
        rw [worded]
        constructor
        · intro same
          rw [hide] at same
          split at same
          · rename_i fixed
            rcases fixed with fixed | fixed
            · rw [fixed] at leads
              exact absurd leads (by decide)
            · rw [fixed] at leads
              exact absurd leads (by decide)
          · rw [same] at leads
            cases leads
        · intro outside
          exact absurd List.mem_cons_self outside
      · rw [visibleText_context found worded, hide_eq_self_iff worded]
        simp [worded]

/-- A prompt with paths comes back as its own words, trimmed, and the paths, in order, exactly when
it is unambiguous. -/
theorem trailer_round_trips_iff (prompt : Text) (some : paths ≠ [])
    (each : ∀ path ∈ paths, IsPath path) :
    ((parseUserMessage (withAttachments prompt paths)).images.map (·.path) = paths ∧
        (parseUserMessage (withAttachments prompt paths)).text = Command.trim (shown prompt)) ↔
      Unambiguous prompt := by
  have parsed := fun body => parseUserMessage_trailer some each (splitOn_trailer some each body)
  by_cases blank : Command.trim prompt = []
  · have back := parsed attachmentOnlyText
    have alone : quotedPaths attachmentOnlyText = [] ∧
        hide (visibleText (Command.trim (quotedBody attachmentOnlyText))) = [] := by
      decide
    have wordless : Command.trim (shown prompt) = [] := by
      rw [trim_eq, trimBy_eq_nil] at blank ⊢
      exact fun c member => blank c ((shown_isStart prompt).mem member)
    rw [alone.1, alone.2] at back
    rw [withAttachments, if_neg some, if_pos blank, wordless]
    exact iff_of_true back (.inl blank)
  · rw [withAttachments, if_neg some, if_neg blank, (parsed prompt).1, (parsed prompt).2]
    have unquoted : quotedPaths prompt ++ paths = paths ↔ quotedPaths prompt = [] := by simp
    rw [unquoted, Unambiguous]
    by_cases absent : splitAtMarker ((shown prompt).splitOn '\n') = none
    · rw [text_of_unquoted blank absent]
      tauto
    · have lost := ink_quoted absent
      have inked := ink_trimBy lineBlank (shown prompt)
      constructor
      · rintro ⟨-, same⟩
        rw [same, trim_eq, inked] at lost
        exact absurd lost (Nat.lt_irrefl _)
      · rintro (trimmed | ⟨-, contrary, -⟩)
        · exact absurd trimmed blank
        · exact absurd contrary absent

theorem trailer_round_trips_look :
    (parseUserMessage (withAttachments "look".toList ["/tmp/a.png".toList])).images.map (·.path) =
        ["/tmp/a.png".toList] ∧
      (parseUserMessage (withAttachments "look".toList ["/tmp/a.png".toList])).text =
        "look".toList := by
  have plain : Unambiguous "look".toList := .inr (by decide)
  have path : IsPath "/tmp/a.png".toList := ⟨by decide, by decide, by decide⟩
  exact (trailer_round_trips_iff "look".toList (by simp) (by simpa using path)).mpr plain

/-- A prompt that quotes a message loses its end and gains the quoted paths. -/
theorem not_trailer_round_trips :
    ¬ ∀ (prompt : Text) (paths : List Text), paths ≠ [] → (∀ path ∈ paths, IsPath path) →
      (parseUserMessage (withAttachments prompt paths)).images.map (·.path) = paths ∧
        (parseUserMessage (withAttachments prompt paths)).text = Command.trim (shown prompt) := by
  intro claim
  have path : IsPath "/tmp/a.png".toList := ⟨by decide, by decide, by decide⟩
  have back := claim
    "why this?\n\nAttached images (local files — open them to view):\n- /tmp/old.png\nthanks".toList
    ["/tmp/a.png".toList] (by simp) (by simpa using path)
  exact absurd back.1 (by decide)

end Zeron.Client
