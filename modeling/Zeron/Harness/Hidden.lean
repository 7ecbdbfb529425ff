import Zeron.Harness.Labelled

namespace Zeron.Harness.Redact

open Zeron.Data

/-! # A labelled secret does not reach the output

One word or a quoted value takes the machine out of its waiting state with the same output whatever
the value is, and machines that are alike write the rest alike.
-/

/-! ## Quotes that are open -/

/-- Whether the next character is escaped; nothing once the quote has been closed. -/
def escapedAfter (quote : Char) : Bool → Text → Option Bool
  | escaped, [] => some escaped
  | escaped, c :: rest =>
      if escaped then escapedAfter quote false rest
      else if c = '\\' then escapedAfter quote true rest
      else if c = quote then none
      else escapedAfter quote false rest

section quotes

variable {quote : Char} {escaped : Bool} {front back : Text}

theorem escapedAfter_append : escapedAfter quote escaped (front ++ back) =
    (escapedAfter quote escaped front).bind fun escaped => escapedAfter quote escaped back := by
  induction front generalizing escaped with
  | nil => rfl
  | cons c front ih =>
      simp only [List.cons_append, escapedAfter]
      split
      · exact ih
      · split
        · exact ih
        · split
          · rfl
          · exact ih

theorem closeFrom_of_open {after : Bool} (opened : escapedAfter quote escaped front = some after) :
    closeFrom quote escaped (front ++ back) =
      (closeFrom quote after back).map fun cut => (front ++ cut.1, cut.2) := by
  induction front generalizing escaped with
  | nil =>
      cases opened
      simp only [List.nil_append, Prod.mk.eta, Option.map_id']
  | cons c front ih =>
      simp only [List.cons_append, closeFrom, escapedAfter] at opened ⊢
      split at opened
      · rw [if_pos (by assumption), ih opened, Option.map_map]
        rfl
      · rename_i plain
        rw [if_neg plain]
        split at opened
        · rw [if_pos (by assumption), ih opened, Option.map_map]
          rfl
        · rename_i letter
          rw [if_neg letter]
          split at opened
          · cases opened
          · rw [if_neg (by assumption), ih opened, Option.map_map]
            rfl

theorem findClosing_none (opened : escapedAfter quote false front = some escaped) :
    findClosing front quote = none := by
  have read := @closeFrom_of_open quote false front [] escaped opened
  rw [List.append_nil] at read
  rw [findClosing, read]
  cases escaped <;> rfl

theorem findClosing_some (mark : isQuote quote = true)
    (opened : escapedAfter quote false front = some false) :
    findClosing (front ++ quote :: back) quote = some (front, back) := by
  have letter : quote ≠ '\\' := by
    intro same
    rw [same] at mark
    revert mark
    decide
  rw [findClosing, closeFrom_of_open opened, closeFrom, if_neg Bool.false_ne_true, if_neg letter,
    if_pos rfl, Option.map_some, List.append_nil]

theorem escapedAfter_of_closed
    (closed : closeFrom quote escaped (front ++ [quote]) = some (front, [])) :
    escapedAfter quote escaped front = some false := by
  induction front generalizing escaped with
  | nil =>
      cases escaped with
      | false => rfl
      | true =>
          simp only [List.nil_append, closeFrom, if_true, Option.map_none] at closed
          cases closed
  | cons c front ih =>
      have later : ∀ {escaped : Bool}, ((closeFrom quote escaped (front ++ [quote])).map fun cut =>
          (c :: cut.1, cut.2)) = some (c :: front, []) →
          escapedAfter quote escaped front = some false := by
        intro escaped mapped
        obtain ⟨cut, closed, same⟩ := Option.map_eq_some_iff.mp mapped
        obtain ⟨before, after⟩ := cut
        cases same
        exact ih closed
      simp only [List.cons_append, closeFrom, escapedAfter] at closed ⊢
      split at closed
      · rw [if_pos (by assumption)]
        exact later closed
      · rename_i plain
        rw [if_neg plain]
        split at closed
        · rw [if_pos (by assumption)]
          exact later closed
        · rename_i letter
          rw [if_neg letter]
          split at closed
          · cases closed
          · rw [if_neg (by assumption)]
            exact later closed

/-- White space ends an escape, as the end of a word does. -/
theorem escapedAfter_white {c : Char} (mark : isQuote quote = true) (white : isWhitespace c = true) :
    escapedAfter quote escaped (c :: back) = escapedAfter quote false back := by
  have letter : c ≠ '\\' := by
    intro same
    rw [same] at white
    revert white
    decide
  have inner : c ≠ quote := by
    intro same
    rw [same, not_white_of_quote mark] at white
    cases white
  cases escaped with
  | true => rfl
  | false =>
      rw [escapedAfter, if_neg Bool.false_ne_true, if_neg letter, if_neg inner]

end quotes

/-! ## Values -/

/-- A machine past a value, whatever the value was. -/
def pastValue (ready : Redactor) : Option Char → Redactor
  | none => { ready with state := .text }.emit redacted
  | some quote => (({ ready with state := .text }.emit [quote]).emit redacted).emit [quote]

section values

variable {quote : Char} {redactor ready : Redactor} {pending content front : Text}
  {escaped : Bool}

theorem mask_plain (plain : looksLikeDeviceCode content = false) : mask content = redacted := by
  rw [mask, if_neg (by rw [plain]; exact Bool.false_ne_true)]

theorem openingQuote_cons (mark : isQuote quote = true) :
    openingQuote (quote :: content) = some quote := by
  rw [openingQuote, List.head?_cons, Option.filter_some_pos mark]

/-- A word of a hidden value that does not close it. -/
theorem segment_hidden (hides : redactor.state = .hidden (some quote) true) (filled : pending ≠ [])
    (opened : escapedAfter quote false pending = some escaped) :
    redactor.segment pending =
      { redactor with space := [], state := .hidden (some quote) true } := by
  rw [segment_eq, Redactor.segmentWith, if_neg filled, hides]
  dsimp only
  rw [Redactor.hide, Option.bind_some, findClosing_none opened]
  rfl

/-- The word that closes a hidden value. -/
theorem segment_closing (hides : redactor.state = .hidden (some quote) true)
    (mark : isQuote quote = true) (opened : escapedAfter quote false pending = some false)
    (rest : Text) :
    redactor.segment (pending ++ quote :: rest) =
      ({ redactor with space := [], state := .text }.emit [quote]).segment rest := by
  rw [segment_eq, Redactor.segmentWith, if_neg (by simp), hides]
  dsimp only
  rw [Redactor.hide, Option.bind_some, findClosing_some mark opened]
  rfl

/-- The rest of a quoted value that is hidden already, through its closing quote. -/
theorem fold_hidden (hides : redactor.state = .hidden (some quote) true)
    (mark : isQuote quote = true) (line : '\n' ∉ content)
    (opened : escapedAfter quote false pending = some escaped)
    (closed : escapedAfter quote escaped content = some false) :
    ∃ after word, (content ++ [quote]).foldl feed (redactor, pending) = (after, word) ∧ word ≠ [] ∧
      ∀ rest, after.segment (word ++ rest) =
        ({ out := redactor.out, space := [], previous := after.previous,
           state := .text : Redactor }.emit [quote]).segment rest := by
  induction content generalizing redactor pending escaped with
  | nil =>
      cases closed
      refine ⟨redactor, pending ++ [quote], feed_ink (not_white_of_quote mark), by simp, ?_⟩
      intro rest
      rw [List.append_assoc, List.singleton_append]
      exact segment_closing hides mark opened rest
  | cons c content ih =>
      have later : '\n' ∉ content := fun inside => line (List.mem_cons_of_mem _ inside)
      rw [List.cons_append, List.foldl_cons]
      cases white : isWhitespace c with
      | false =>
          rw [feed_ink white]
          have step := closed
          rw [← List.singleton_append, escapedAfter_append] at step
          obtain ⟨next, inner, outer⟩ := Option.bind_eq_some_iff.mp step
          apply ih hides later _ outer
          rw [escapedAfter_append, opened]
          exact inner
      | true =>
          rw [escapedAfter_white mark white] at closed
          have still : (settled (redactor, pending)).state = .hidden (some quote) true ∧
              (settled (redactor, pending)).out = redactor.out := by
            unfold settled
            split
            · exact ⟨hides, rfl⟩
            · rename_i filled
              have read := segment_hidden hides filled opened
              have out := congrArg Redactor.out read
              exact ⟨congrArg Redactor.state read, out⟩
          have other : c ≠ '\n' := fun same => line (by rw [same]; exact List.mem_cons_self)
          have fed : feed (redactor, pending) c = ((settled (redactor, pending)).blank c, []) := by
            rw [feed, if_pos white]
            rfl
          have state : ((settled (redactor, pending)).blank c).state =
              .hidden (some quote) true := by
            simp only [Redactor.blank, still.1, if_neg other]
          have fresh : escapedAfter quote false [] = some false := rfl
          rw [fed]
          obtain ⟨after, word, read, filled, reads⟩ := ih state later fresh closed
          refine ⟨after, word, read, filled, fun rest => ?_⟩
          rw [reads, ← still.2]
          rfl

theorem segment_secretValue {part : Text} (waits : ready.state = .value .secret)
    (filled : part ≠ []) (opening : ∀ c ∈ part.head?, opens c = true) :
    ready.segment part =
      { ready with state := .text }.secretValue Redactor.segment part := by
  have word : isSeparator part = false := by
    have apart : part ∉ [['='], [':'], ['=', '>']] := by
      intro among
      simp only [List.mem_cons, List.not_mem_nil, or_false] at among
      rcases among with rfl | rfl | rfl
      · exact not_mark_of_opens (opening '=' rfl) (by decide)
      · exact not_mark_of_opens (opening ':' rfl) (by decide)
      · exact not_mark_of_opens (opening '=' rfl) (by decide)
    exact Bool.eq_false_iff.mpr fun found => apart (List.contains_iff_mem.mp found)
  rw [segment_eq, Redactor.segmentWith, if_neg filled, waits]
  dsimp only
  rw [word, if_neg Bool.false_ne_true]

theorem opens_quote (mark : isQuote quote = true) {part : Text} :
    ∀ c ∈ (quote :: part).head?, opens c = true := by
  intro c leads
  cases leads
  rw [opens, mark, Bool.true_or]

theorem not_object {part : Text} (mark : isQuote quote = true) : quote :: part ≠ ['\x7b'] := by
  intro same
  cases same
  revert mark
  decide

/-- A quoted value that one word holds. -/
theorem segment_quoted (waits : ready.state = .value .secret) (mark : isQuote quote = true)
    (filled : content ≠ []) (opened : escapedAfter quote false content = some false)
    (plain : looksLikeDeviceCode content = false) (rest : Text) :
    ready.segment (quote :: (content ++ quote :: rest)) =
      (pastValue ready (some quote)).segment rest := by
  rw [segment_secretValue waits (List.cons_ne_nil _ _) (opens_quote mark), Redactor.secretValue,
    if_neg (not_object mark), openingQuote_cons mark, List.tail_cons]
  dsimp only
  rw [findClosing_some mark opened]
  dsimp only
  rw [if_neg filled, mask_plain plain]
  rfl

/-- The first word of a quoted value of several. -/
theorem segment_opening (waits : ready.state = .value .secret) (mark : isQuote quote = true)
    (filled : content ≠ []) (opened : escapedAfter quote false content = some escaped) :
    ready.segment (quote :: content) =
      { ({ ready with state := .text }.emit [quote]).emit redacted with
        state := .hidden (some quote) true } := by
  rw [segment_secretValue waits (List.cons_ne_nil _ _) (opens_quote mark), Redactor.secretValue,
    if_neg (not_object mark), openingQuote_cons mark, List.tail_cons]
  dsimp only
  rw [findClosing_none opened]
  dsimp only
  rw [if_neg filled, decide_eq_true filled]

/-- A value that is one word of letters and digits. -/
theorem segment_written {value : Text} (waits : ready.state = .value .secret) (filled : value ≠ [])
    (written : ∀ c ∈ value, c.isAlphanum = true) (plain : looksLikeDeviceCode value = false) :
    ready.segment value = pastValue ready none := by
  have opening : ∀ c ∈ value.head?, opens c = true := by
    intro c leads
    rw [opens, written c (List.mem_of_mem_head? leads), Bool.or_true]
  have object : value ≠ ['\x7b'] := by
    intro same
    exact not_mark_of_opens (opening '\x7b' (by rw [same]; rfl)) (by decide)
  have mark : openingQuote value = none := by
    have apart : ∀ c ∈ value.head?, isQuote c = false := by
      intro c leads
      have letter := written c (List.mem_of_mem_head? leads)
      have table := @forall_alphanum (fun c => !isQuote c) (by decide) c letter
      exact Bool.not_eq_true' _ ▸ table
    rw [openingQuote, Option.filter_eq_none_iff]
    intro c leads
    rw [apart c leads]
    exact Bool.false_ne_true
  have tight : Tight isEdge value :=
    ⟨fun c leads => not_edge_of_alphanum (written c (List.mem_of_mem_head? leads)),
      fun c ends => not_edge_of_alphanum (written c (List.mem_of_mem_getLast? ends))⟩
  have shown : redactLabeledValue value = redacted := by
    have leads : value.takeWhile isEdge = [] := by
      have whole := List.takeWhile_append_dropWhile (p := isEdge) (l := value)
      rw [dropWhile_of_first tight.first] at whole
      exact List.append_left_eq_self.mp whole
    have trails : value.rtakeWhile isEdge = [] := by
      have whole := List.rdropWhile_append_rtakeWhile (p := isEdge) (l := value)
      rw [rdropWhile_of_last tight.last] at whole
      exact List.append_right_eq_self.mp whole
    rw [redactLabeledValue, trimBy_of_tight tight, if_neg filled, mask_plain plain, dropWhile_of_first tight.first, leads, trails,
      List.nil_append, List.append_nil]
  rw [segment_secretValue waits filled opening, Redactor.secretValue, if_neg object, mark]
  dsimp only
  rw [shown]
  rfl

/-- A quoted value read from its opening quote, in one word or more. -/
theorem fold_quoted (awaits : Awaits (redactor, front) ready) (mark : isQuote quote = true)
    (line : '\n' ∉ content) (filled : pending ++ content ≠ [])
    (starts : ∀ c ∈ (pending ++ content).head?, isWhitespace c = false)
    (plain : looksLikeDeviceCode (pending ++ content) = false)
    (opened : escapedAfter quote false pending = some escaped)
    (closed : escapedAfter quote escaped content = some false) :
    ∃ after word, (content ++ [quote]).foldl feed (redactor, front ++ quote :: pending) =
        (after, word) ∧ word ≠ [] ∧
      ∀ rest, after.segment (word ++ rest) =
        { pastValue ready (some quote) with previous := after.previous }.segment rest := by
  induction content generalizing pending escaped with
  | nil =>
      cases closed
      rw [List.append_nil] at filled plain
      refine ⟨redactor, front ++ quote :: pending ++ [quote], feed_ink (not_white_of_quote mark),
        by simp, ?_⟩
      intro rest
      have read := awaits.reads (quote :: (pending ++ quote :: rest)) (by simp) (opens_quote mark)
      rw [List.append_assoc, List.append_assoc, List.cons_append, List.singleton_append, read,
        segment_quoted awaits.state mark filled opened plain]
      have previous : (pastValue ready (some quote)).previous = redactor.previous :=
        awaits.previous
      rw [← previous]
  | cons c content ih =>
      have later : '\n' ∉ content := fun inside => line (List.mem_cons_of_mem _ inside)
      rw [List.cons_append, List.foldl_cons]
      cases white : isWhitespace c with
      | false =>
          rw [feed_ink white, List.append_assoc, List.cons_append]
          have step := closed
          rw [← List.singleton_append, escapedAfter_append] at step
          obtain ⟨next, inner, outer⟩ := Option.bind_eq_some_iff.mp step
          have joined : pending ++ [c] ++ content = pending ++ c :: content := by
            rw [List.append_assoc, List.singleton_append]
          apply ih later (by rwa [joined]) (by rwa [joined]) (by rwa [joined]) _ outer
          rw [escapedAfter_append, opened]
          exact inner
      | true =>
          rw [escapedAfter_white mark white] at closed
          have written : pending ≠ [] := by
            intro none
            have ink := starts c (by rw [none]; rfl)
            rw [white] at ink
            cases ink
          have read := awaits.reads (quote :: pending) (by simp) (opens_quote mark)
          rw [segment_opening awaits.state mark written opened] at read
          have other : c ≠ '\n' := fun same => line (by rw [same]; exact List.mem_cons_self)
          have fed : feed (redactor, front ++ quote :: pending) c =
              ((redactor.word (front ++ quote :: pending)).blank c, []) := by
            rw [feed, if_pos white, if_neg (by simp)]
          have state : ((redactor.word (front ++ quote :: pending)).blank c).state =
              .hidden (some quote) true := by
            have hides : (redactor.word (front ++ quote :: pending)).state =
                .hidden (some quote) true := congrArg Redactor.state read
            simp only [Redactor.blank, hides, if_neg other]
          have fresh : escapedAfter quote false [] = some false := rfl
          rw [fed]
          obtain ⟨after, word, folded, filled, reads⟩ :=
            fold_hidden state mark later fresh closed
          refine ⟨after, word, folded, filled, fun rest => ?_⟩
          have out : ((redactor.word (front ++ quote :: pending)).blank c).out =
              (({ ready with state := .text }.emit [quote]).emit redacted).out := by
            have shown := congrArg Redactor.out read
            exact shown
          rw [reads, out]
          rfl

end values

/-! ## Two values of one kind -/

/-- One word of letters and digits that ends before `rest`, or what a quote holds on one line. -/
inductive IsValue (rest : Text) : Option Char → Text → Prop
  | word {value : Text} (filled : value ≠ []) (written : ∀ c ∈ value, c.isAlphanum = true)
      (plain : looksLikeDeviceCode value = false) (ended : rest.head?.all isWhitespace = true) :
      IsValue rest none value
  | quoted {quote : Char} {content : Text} (mark : isQuote quote = true) (filled : content ≠ [])
      (line : '\n' ∉ content) (starts : ∀ c ∈ content.head?, isWhitespace c = false)
      (closed : findClosing (content ++ [quote]) quote = some (content, []))
      (plain : looksLikeDeviceCode content = false) :
      IsValue rest (some quote) (quote :: (content ++ [quote]))

/-- What `rest` adds to the word it starts in. -/
def wordRest (rest : Text) : Text := rest.takeWhile fun c => !isWhitespace c

theorem fold_value {rest value : Text} {kind : Option Char} {reading : Redactor × Text}
    {ready : Redactor} (awaits : Awaits reading ready) (valued : IsValue rest kind value) :
    ∃ after word, value.foldl feed reading = (after, word) ∧ word ≠ [] ∧
      after.segment (word ++ wordRest rest) =
        { pastValue ready kind with previous := after.previous }.segment (wordRest rest) := by
  obtain ⟨redactor, front⟩ := reading
  cases valued with
  | word filled written plain ended =>
      have alone : wordRest rest = [] := by
        cases rest with
        | nil => rfl
        | cons c rest =>
            have white : isWhitespace c = true := ended
            rw [wordRest, List.takeWhile_cons_of_neg (by rw [white]; exact Bool.false_ne_true)]
      have opening : ∀ c ∈ value.head?, opens c = true := by
        intro c leads
        rw [opens, written c (List.mem_of_mem_head? leads), Bool.or_true]
      refine ⟨redactor, front ++ value, fold_ink fun c inside =>
        not_white_of_alphanum (written c inside), by simp [filled], ?_⟩
      have read := awaits.reads value filled opening
      have previous : (pastValue ready none).previous = redactor.previous := awaits.previous
      rw [alone, List.append_nil, read, segment_nil, ← previous]
      exact segment_written awaits.state filled written plain
  | @quoted quote content mark filled line starts closed plain =>
      have fresh : escapedAfter quote false [] = some false := rfl
      obtain ⟨after, word, folded, some, reads⟩ :=
        @fold_quoted quote redactor ready [] content front false awaits mark line filled starts
          plain fresh (escapedAfter_of_closed closed)
      refine ⟨after, word, ?_, some, reads _⟩
      rw [List.foldl_cons, feed_ink (not_white_of_quote mark)]
      exact folded

/-- No label waits for its value before this one, and both texts lead the rest alike: the word it
starts in, and the word before that one, tell it the same. -/
structure LeadsAlike (front rest : Text) (text other : Text) : Prop where
  idle : ∀ label, (read front).1.state ≠ .value label
  word : contextOf (lower (lastWords (text ++ wordRest rest)).2) =
    contextOf (lower (lastWords (other ++ wordRest rest)).2)
  previous : wordRest rest ≠ [] →
    contextOf (lower (lastWords text).1) = contextOf (lower (lastWords other).1)

theorem stripAnsi_plain {text : Text} (plain : '\x1b' ∉ text) : stripAnsi text = text := by
  unfold stripAnsi
  induction text with
  | nil => rfl
  | cons c text ih =>
      rw [List.mem_cons, not_or] at plain
      rw [stripAnsiFrom, if_neg (Ne.symm plain.1), ih plain.2]

/-- The machine after the value and what the rest adds to its word. -/
theorem read_value {front rest value : Text} {kind : Option Char} {label : Labelled}
    {reading : Redactor × Text} {ready : Redactor}
    (labelled : label.text.foldl feed (read front) = reading) (awaits : Awaits reading ready)
    (valued : IsValue rest kind value) :
    ∃ after word, read (front ++ label.text ++ value) = (after, word) ∧
      read (front ++ label.text ++ value ++ wordRest rest) = (after, word ++ wordRest rest) ∧
      word ≠ [] ∧ after.segment (word ++ wordRest rest) =
        { pastValue ready kind with previous := after.previous }.segment (wordRest rest) := by
  obtain ⟨after, word, folded, filled, reads⟩ := fold_value awaits valued
  have whole : read (front ++ label.text ++ value) = (after, word) := by
    rw [read, List.foldl_append, List.foldl_append]
    change value.foldl feed (label.text.foldl feed (read front)) = _
    rw [labelled, folded]
  refine ⟨after, word, whole, ?_, filled, reads⟩
  rw [read, List.foldl_append]
  change (wordRest rest).foldl feed (read (front ++ label.text ++ value)) = _
  rw [whole]
  apply fold_ink
  intro c inside
  have ink := List.mem_takeWhile_imp inside
  exact Bool.not_eq_true' _ ▸ ink

theorem labelled_secret_hidden (front : Text) (label : Labelled) (kind : Option Char)
    (value other rest : Text) (line : front = [] ∨ front.getLast? = some '\n')
    (first : IsValue rest kind value) (second : IsValue rest kind other)
    (plain : '\x1b' ∉ front ++ label.text ++ value ++ rest)
    (plainOther : '\x1b' ∉ front ++ label.text ++ other ++ rest)
    (alike : LeadsAlike front rest (front ++ label.text ++ value) (front ++ label.text ++ other)) :
    redactOutput (front ++ label.text ++ value ++ rest) =
      redactOutput (front ++ label.text ++ other ++ rest) := by
  have outside : (read front).1.state = .text := by
    rcases (fold_line line).2 with text | ⟨waiting, value⟩
    · exact text
    · exact absurd value (alike.idle waiting)
  obtain ⟨ready, awaits⟩ := awaits_of_label label outside
  have start : read front = ((read front).1, []) := by
    rw [← (fold_line line).1]
  rw [← start] at awaits
  obtain ⟨after, word, whole, joined, filled, reads⟩ := read_value rfl awaits first
  obtain ⟨latter, last, wholeOther, joinedOther, filledOther, readsOther⟩ :=
    read_value rfl awaits second
  -- The two machines once the word that the rest starts in is over.
  have ended : Alike (settled (after, word ++ wordRest rest))
      (settled (latter, last ++ wordRest rest)) := by
    have segments : (after.segment (word ++ wordRest rest)).out =
          (latter.segment (last ++ wordRest rest)).out ∧
        (after.segment (word ++ wordRest rest)).space =
          (latter.segment (last ++ wordRest rest)).space ∧
        (after.segment (word ++ wordRest rest)).state =
          (latter.segment (last ++ wordRest rest)).state := by
      rw [reads, readsOther]
      by_cases stops : wordRest rest = []
      · rw [stops, segment_nil, segment_nil]
        exact ⟨rfl, rfl, rfl⟩
      · have words := alike.previous stops
        rw [← (read_lastWords _).1, ← (read_lastWords _).1, whole, wholeOther] at words
        have past : Alike { pastValue ready kind with previous := after.previous }
            { pastValue ready kind with previous := latter.previous } := ⟨rfl, rfl, rfl, words⟩
        have same := past.segment (wordRest rest)
        exact ⟨same.out, same.space, same.state⟩
    rw [settled, settled, if_neg (by simp [filled]), if_neg (by simp [filledOther])]
    refine ⟨segments.1, segments.2.1, segments.2.2, ?_⟩
    have words := alike.word
    rw [← (read_lastWords _).2, ← (read_lastWords _).2, joined, joinedOther] at words
    exact words
  have split : rest = wordRest rest ++ rest.dropWhile fun c => !isWhitespace c :=
    List.takeWhile_append_dropWhile.symm
  have white : (rest.dropWhile fun c => !isWhitespace c).head?.all isWhitespace = true := by
    have stopped := List.head?_dropWhile_not (fun c => !isWhitespace c) rest
    cases leads : (rest.dropWhile fun c => !isWhitespace c).head? with
    | none => rfl
    | some c =>
        rw [leads] at stopped
        exact Bool.not_eq_false' _ ▸ stopped
  have output : ∀ {text : Text} {reading : Redactor × Text}, '\x1b' ∉ text ++ rest →
      read (text ++ wordRest rest) = reading → redactOutput (text ++ rest) =
        close ((rest.dropWhile fun c => !isWhitespace c).foldl feed reading) := by
    intro text reading plain joined
    rw [redactOutput, stripAnsi_plain plain, ← joined, read, read, ← List.foldl_append,
      List.append_assoc, ← split]
  rw [output plain joined, output plainOther joinedOther]
  exact close_settled ended white

theorem secretKey_password : SecretKey "password".toList where
  parsed := by decide
  secret := by
    intro previous
    have authorization : lower "password".toList ∉
        ["authorization".toList, "proxy-authorization".toList] := by decide
    have code : ¬(lower "password".toList = "code".toList ∧ trimmed previous ∈ statusWords) :=
      fun both => absurd both.1 (by decide)
    rw [labelKind, if_neg authorization, if_neg code, if_pos (by decide)]

/-- The label `password:` and one space. -/
def passwordLabel : Labelled where
  lead := []
  key := "password".toList
  closing := []
  gap := 0
  separator := [':']
  space := 1
  leads := by simp
  secretKey := secretKey_password
  closes := .inl rfl
  separates := by decide

/-- A value of one word and one of two, before more of the same line. -/
theorem labelled_secret_hidden_words :
    redactOutput "password: \"hunter2\",\"x\":1".toList =
      redactOutput "password: \"correct horse\",\"x\":1".toList :=
  labelled_secret_hidden [] passwordLabel (some '"') "\"hunter2\"".toList
    "\"correct horse\"".toList ",\"x\":1".toList (.inl rfl)
    (@IsValue.quoted _ '"' "hunter2".toList (by decide) (by decide) (by decide)
      (by intro c leads; cases leads; rfl) (by decide) (by decide))
    (@IsValue.quoted _ '"' "correct horse".toList (by decide) (by decide) (by decide)
      (by intro c leads; cases leads; rfl) (by decide) (by decide))
    (by decide) (by decide)
    ⟨fun label waits => (by cases waits), by decide, fun _ => by decide⟩

/-- Whether a value ends in a word that the next one depends on. -/
def endsInContext (value : Text) : Bool :=
  (statusWords ++ credentialWords).any fun word => word.isSuffixOf (trimmed (lower value))

/-- A label that still waits takes the next label for its value. -/
theorem not_labelled_secret_hidden :
    ¬ ∀ (front : Text) (label : Labelled) (kind : Option Char) (value other rest : Text),
      (front = [] ∨ front.getLast? = some '\n') → IsValue rest kind value →
      IsValue rest kind other → endsInContext value = false → endsInContext other = false →
      '\x1b' ∉ front ++ label.text ++ value ++ rest →
      '\x1b' ∉ front ++ label.text ++ other ++ rest →
      redactOutput (front ++ label.text ++ value ++ rest) =
        redactOutput (front ++ label.text ++ other ++ rest) := by
  intro hidden
  have same := hidden "token:\n".toList passwordLabel none "hunter2".toList "swordfish".toList []
    (.inr (by decide))
    (.word (by decide) (List.all_eq_true.mp (by decide)) (by decide) rfl)
    (.word (by decide) (List.all_eq_true.mp (by decide)) (by decide) rfl)
    (by decide) (by decide) (by decide) (by decide)
  revert same
  decide

end Zeron.Harness.Redact
