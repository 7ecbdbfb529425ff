import Zeron.Data.Ascii
import Zeron.Harness.Redacted

namespace Zeron.Harness.Redact

open Zeron.Data

/-! # What a label leaves the machine waiting for

A key, its closing quote and its separator are read as one label however they are spaced: after them
the next word is read as the value of a secret.
-/

/-! ## Characters -/

theorem forall_oneOf {set : String} {holds : Char → Bool} (table : set.toList.all holds = true)
    {c : Char} (among : isOneOf set c = true) : holds c = true :=
  List.all_eq_true.mp table c (List.contains_iff_mem.mp among)

theorem not_white_of_alphanum {c : Char} (written : c.isAlphanum = true) :
    isWhitespace c = false := by
  have ink := @forall_alphanum (fun c => !isWhitespace c) (by decide) c written
  exact Bool.not_eq_true' _ ▸ ink

theorem not_edge_of_alphanum {c : Char} (written : c.isAlphanum = true) : isEdge c = false := by
  have inside := @forall_alphanum (fun c => !isEdge c) (by decide) c written
  exact Bool.not_eq_true' _ ▸ inside

theorem not_white_of_lead {c : Char} (lead : isLead c = true) : isWhitespace c = false := by
  have ink := @forall_oneOf _ (fun c => !isWhitespace c) (by decide) c lead
  exact Bool.not_eq_true' _ ▸ ink

theorem not_white_of_quote {c : Char} (quote : isQuote c = true) : isWhitespace c = false := by
  have ink := @forall_oneOf _ (fun c => !isWhitespace c) (by decide) c quote
  exact Bool.not_eq_true' _ ▸ ink

theorem not_white_of_keyChar {c : Char} (kept : isKeyChar c = true) : isWhitespace c = false := by
  cases Bool.or_eq_true _ _ ▸ kept with
  | inl written => exact not_white_of_alphanum written
  | inr mark =>
      have ink := @forall_oneOf _ (fun c => !isWhitespace c) (by decide) c mark
      exact Bool.not_eq_true' _ ▸ ink

/-- A character a value starts with. -/
def opens (c : Char) : Bool := isQuote c || c.isAlphanum

/-- Characters that would be read as something else where a value starts. -/
def valueMarks : List Char := ['=', ':', '>', '/', '\x7b']

theorem not_mark_of_opens {c : Char} (opening : opens c = true) :
    c ∉ valueMarks := by
  have apart : (!valueMarks.contains c) = true := by
    cases Bool.or_eq_true _ _ ▸ opening with
    | inl quote =>
        exact @forall_oneOf _ (fun c => !valueMarks.contains c) (by decide) c quote
    | inr written =>
        exact @forall_alphanum (fun c => !valueMarks.contains c) (by decide) c written
  simpa only [Bool.not_eq_true', ← Bool.not_eq_true, List.contains_iff_mem] using apart

/-! ## The text as it is read -/

section reading

variable {redactor : Redactor} {pending text : Text} {c : Char}

theorem feed_ink (ink : isWhitespace c = false) :
    feed (redactor, pending) c = (redactor, pending ++ [c]) := by
  rw [feed, if_neg (by rw [ink]; exact Bool.false_ne_true)]

theorem fold_ink (ink : ∀ c ∈ text, isWhitespace c = false) :
    text.foldl feed (redactor, pending) = (redactor, pending ++ text) := by
  induction text generalizing pending with
  | nil => rw [List.foldl_nil, List.append_nil]
  | cons c text ih =>
      rw [List.foldl_cons, feed_ink (ink c List.mem_cons_self),
        ih fun c inside => ink c (List.mem_cons_of_mem _ inside), List.append_assoc,
        List.singleton_append]

theorem white_space : isWhitespace ' ' = true := by decide

theorem feed_space (reading : Redactor × Text) :
    feed reading ' ' = ((settled reading).blank ' ', []) := by
  rw [feed, if_pos white_space]
  rfl

theorem blank_space_state (redactor : Redactor) : (redactor.blank ' ').state = redactor.state := by
  unfold Redactor.blank
  cases redactor.state <;> rfl

/-- Spaces end the word being read and nothing else. -/
theorem fold_spaces (count : Nat) (reading : Redactor × Text) :
    ∃ after, (List.replicate (count + 1) ' ').foldl feed reading = (after, []) ∧
      after.state = (settled reading).state := by
  induction count generalizing reading with
  | zero => exact ⟨_, feed_space reading, blank_space_state _⟩
  | succ count ih =>
      obtain ⟨after, read, same⟩ := ih (feed reading ' ')
      refine ⟨after, by rw [List.replicate_succ, List.foldl_cons, read], ?_⟩
      rw [same, feed_space]
      exact blank_space_state _

/-- The machine at the start of a line. -/
theorem fold_line (opened : text = [] ∨ text.getLast? = some '\n') :
    (read text).2 = [] ∧
      ((read text).1.state = .text ∨ ∃ label, (read text).1.state = .value label) := by
  rcases opened with rfl | ended
  · exact ⟨rfl, .inl rfl⟩
  · obtain ⟨front, rfl⟩ := List.getLast?_eq_some_iff.mp ended
    have white : isWhitespace '\n' = true := by decide
    have last : read (front ++ ['\n']) = ((settled (read front)).blank '\n', []) := by
      rw [read, List.foldl_append, List.foldl_cons, List.foldl_nil, feed, if_pos white]
      rfl
    refine ⟨by rw [last], ?_⟩
    rw [last]
    cases state : (settled (read front)).state with
    | text => exact .inl (by simp only [Redactor.blank, state])
    | separator label => exact .inl (by simp only [Redactor.blank, state, if_true])
    | value label => exact .inr ⟨label, by simp only [Redactor.blank, state]⟩
    | hidden mark masked => exact .inl (by simp only [Redactor.blank, state, if_true])

end reading

/-! ## The words before -/

def wordFeed (words : Text × Text) (c : Char) : Text × Text :=
  if isWhitespace c then (if words.2 = [] then words.1 else words.2, [])
  else (words.1, words.2 ++ [c])

/-- The last word that is over, and the word being read. -/
def lastWords (text : Text) : Text × Text := text.foldl wordFeed ([], [])

/-- The machine remembers the last word that is over. -/
theorem read_lastWords (text : Text) :
    (read text).1.previous = lower (lastWords text).1 ∧ (read text).2 = (lastWords text).2 := by
  have kept : ∀ (reading : Redactor × Text) (words : Text × Text),
      reading.1.previous = lower words.1 → reading.2 = words.2 →
      (text.foldl feed reading).1.previous = lower (text.foldl wordFeed words).1 ∧
        (text.foldl feed reading).2 = (text.foldl wordFeed words).2 := by
    induction text with
    | nil => exact fun _ _ previous pending => ⟨previous, pending⟩
    | cons c text ih =>
        intro reading words previous pending
        rw [List.foldl_cons, List.foldl_cons]
        apply ih
        · unfold feed wordFeed
          split
          · rw [← pending]
            split
            · exact previous
            · rfl
          · exact previous
        · unfold feed wordFeed
          split
          · rfl
          · rw [pending]
  exact kept _ _ rfl rfl

/-! ## The label -/

/-- A key that labels a secret whatever comes before it. -/
structure SecretKey (key : Text) : Prop where
  parsed : parseLabel key = some ⟨key, none⟩
  secret : ∀ previous, labelKind key previous = some .secret

/-- A label and its separator, before the value. -/
structure Labelled where
  lead : Text
  key : Text
  closing : Text
  gap : Nat
  separator : Text
  space : Nat
  leads : ∀ c ∈ lead, isLead c = true
  secretKey : SecretKey key
  closes : closing = [] ∨ ∃ quote, isQuote quote = true ∧ lead.getLast? = some quote ∧ closing = [quote]
  separates : isSeparator separator = true

namespace Labelled

def name (label : Labelled) : Text := label.lead ++ label.key ++ label.closing

def text (label : Labelled) : Text :=
  label.name ++ List.replicate label.gap ' ' ++ label.separator ++ List.replicate label.space ' '

end Labelled

/-- A label that is read alone is all key. -/
theorem key_of_parsed {key : Text} (parsed : parseLabel key = some ⟨key, none⟩) :
    key.dropWhile isLead = key ∧ key.takeWhile isKeyChar = key ∧
      (!(key.head?.any Char.isAlpha) || decide (64 < key.length) || looksLikeSecret key ||
        looksLikeDeviceCode key) = false := by
  unfold parseLabel at parsed
  dsimp only at parsed
  split at parsed
  · cases parsed
  · rename_i label
    have whole : (key.dropWhile isLead).takeWhile isKeyChar = key := by
      split at parsed
      · exact congrArg LabelParts.key (Option.some.inj parsed)
      · obtain ⟨rest, -, same⟩ := Option.bind_eq_some_iff.mp parsed
        split at same
        · cases same
        · cases congrArg LabelParts.rest (Option.some.inj same)
    have body : key.dropWhile isLead = key := by
      apply (List.dropWhile_suffix isLead).eq_of_length_le
      have shorter := (List.takeWhile_prefix (l := key.dropWhile isLead) isKeyChar).length_le
      rwa [whole] at shorter
    rw [body] at whole
    rw [body, whole] at label
    exact ⟨body, whole, Bool.eq_false_iff.mpr label⟩

section labels

variable (label : Labelled)

theorem key_ne_nil : label.key ≠ [] := by
  intro empty
  have alpha := (key_of_parsed label.secretKey.parsed).2.2
  rw [empty] at alpha
  cases alpha

/-- What a label is read as, whatever follows its key. -/
theorem parseLabel_key {tail : Text} (ended : ∀ c ∈ tail.head?, isKeyChar c = false) :
    parseLabel (label.lead ++ label.key ++ tail) =
      let after := unquoted (label.lead.getLast?.filter isQuote) tail
      if after = [] then some ⟨label.key, none⟩
      else
        (stripSeparator after).bind fun rest =>
          if "//".toList.isPrefixOf rest then none else some ⟨label.key, some rest⟩ := by
  obtain ⟨body, whole, plain⟩ := key_of_parsed label.secretKey.parsed
  obtain ⟨first, letters, same⟩ := List.exists_cons_of_ne_nil (key_ne_nil label)
  have inside : isLead first = false := by
    rw [same, List.dropWhile_cons] at body
    split at body
    · have shorter := (List.dropWhile_suffix (l := letters) isLead).length_le
      rw [body, List.length_cons] at shorter
      omega
    · rename_i other
      exact Bool.eq_false_iff.mpr other
  have dropped : (label.lead ++ label.key ++ tail).dropWhile isLead = label.key ++ tail := by
    rw [List.append_assoc, List.dropWhile_append_of_pos label.leads]
    apply dropWhile_of_first
    intro symbol leads
    rw [same] at leads
    cases leads
    exact inside
  have taken : (label.lead ++ label.key ++ tail).takeWhile isLead = label.lead := by
    rw [List.append_assoc, List.takeWhile_append_of_pos label.leads, same, List.cons_append,
      List.takeWhile_cons_of_neg (by rw [inside]; exact Bool.false_ne_true), List.append_nil]
  have keyed : (label.key ++ tail).takeWhile isKeyChar = label.key := by
    rw [List.takeWhile_append_of_pos (List.takeWhile_eq_self_iff.mp whole)]
    cases tail with
    | nil => rw [List.takeWhile_nil, List.append_nil]
    | cons c tail =>
        rw [List.takeWhile_cons_of_neg (by rw [ended c rfl]; exact Bool.false_ne_true),
          List.append_nil]
  unfold parseLabel
  dsimp only
  rw [dropped, taken, keyed, plain, List.drop_left]
  rfl

theorem not_keyChar_of_quote {c : Char} (quote : isQuote c = true) : isKeyChar c = false := by
  have apart := @forall_oneOf _ (fun c => !isKeyChar c) (by decide) c quote
  exact Bool.not_eq_true' _ ▸ apart

/-- The quote that closes a key is not part of what follows. -/
theorem unquoted_closing {tail : Text} (plain : ∀ c ∈ tail.head?, isQuote c = false) :
    unquoted (label.lead.getLast?.filter isQuote) (label.closing ++ tail) = tail := by
  rcases label.closes with closing | ⟨quote, mark, last, closing⟩
  · rw [closing, List.nil_append]
    unfold unquoted
    split
    · rename_i quote c rest opened
      have mark := (Option.filter_eq_some_iff.mp opened).2
      split
      · rename_i same
        have other := plain c rfl
        rw [same, mark] at other
        cases other
      · rfl
    · rfl
  · rw [closing, last, Option.filter_some_pos mark]
    exact if_pos rfl

theorem separator_cases : label.separator ∈ [['='], [':'], ['=', '>']] :=
  List.contains_iff_mem.mp label.separates

theorem stripSeparator_separator {part : Text} (plain : ∀ c ∈ part.head?, c ∉ valueMarks) :
    stripSeparator (label.separator ++ part) = some part := by
  have among := separator_cases label
  simp only [List.mem_cons, List.not_mem_nil, or_false] at among
  rcases among with same | same | same <;> rw [same]
  · cases part with
    | nil => rfl
    | cons c part =>
        have other : c ≠ '>' := fun same => plain c rfl (by rw [same]; decide)
        simp only [List.cons_append, List.nil_append]
        unfold stripSeparator
        split
        · rename_i found
          cases found
          exact absurd rfl other
        · rename_i found
          cases found
        · rename_i found
          cases found
          rfl
        · rename_i none
          exact absurd rfl (none _)
  · rfl
  · rfl

theorem separator_head {part : Text} : ∀ c ∈ (label.separator ++ part).head?,
    isKeyChar c = false ∧ isQuote c = false := by
  have among := separator_cases label
  simp only [List.mem_cons, List.not_mem_nil, or_false] at among
  have equals : isKeyChar '=' = false ∧ isQuote '=' = false := by decide
  have colon : isKeyChar ':' = false ∧ isQuote ':' = false := by decide
  rcases among with same | same | same <;> rw [same] <;> intro c leads <;> cases leads
  · exact equals
  · exact colon
  · exact equals

theorem parseLabel_name : parseLabel label.name = some ⟨label.key, none⟩ := by
  have ended : ∀ c ∈ label.closing.head?, isKeyChar c = false := by
    intro c leads
    rcases label.closes with closing | ⟨quote, mark, -, closing⟩
    · rw [closing] at leads
      cases leads
    · rw [closing] at leads
      cases leads
      exact not_keyChar_of_quote mark
  have after := @unquoted_closing label [] (by intro c leads; cases leads)
  rw [List.append_nil] at after
  rw [Labelled.name, parseLabel_key label ended]
  dsimp only
  rw [after, if_pos rfl]

theorem parseLabel_separator {part : Text} (plain : ∀ c ∈ part.head?, c ∉ valueMarks) :
    parseLabel (label.name ++ (label.separator ++ part)) = some ⟨label.key, some part⟩ := by
  have ended : ∀ c ∈ (label.closing ++ (label.separator ++ part)).head?, isKeyChar c = false := by
    intro c leads
    rcases label.closes with closing | ⟨quote, mark, -, closing⟩
    · rw [closing, List.nil_append] at leads
      exact (separator_head label c leads).1
    · rw [closing] at leads
      cases leads
      exact not_keyChar_of_quote mark
  have after := unquoted_closing label fun c leads => (@separator_head label part c leads).2
  have stripped := stripSeparator_separator label plain
  have filled : label.separator ++ part ≠ [] := by
    intro empty
    rw [empty] at stripped
    cases stripped
  have url : "//".toList.isPrefixOf part = false := by
    cases part with
    | nil => rfl
    | cons c part =>
        have other : c ≠ '/' := fun same => plain c rfl (by rw [same]; decide)
        have apart : ('/' == c) = false := beq_false_of_ne other.symm
        change ('/' == c && _) = false
        rw [apart, Bool.false_and]
  rw [Labelled.name, List.append_assoc, parseLabel_key label ended]
  dsimp only
  rw [after, if_neg filled, stripped, Option.bind_some, url]
  rfl

end labels

/-! ## Waiting for the value -/

/-- A machine whose next word starts the value of a secret, as `ready` would read it. -/
structure Awaits (reading : Redactor × Text) (ready : Redactor) : Prop where
  state : ready.state = .value .secret
  previous : ready.previous = reading.1.previous
  reads : ∀ part, part ≠ [] → (∀ c ∈ part.head?, opens c = true) →
    reading.1.segment (reading.2 ++ part) = ready.segment part

theorem segment_nil (redactor : Redactor) : redactor.segment [] = redactor := by
  rw [segment_eq, Redactor.segmentWith, if_pos rfl]

section waiting

variable (label : Labelled) {redactor : Redactor}

/-- A label and its separator in one word. -/
theorem segment_label {part : Text} (outside : redactor.state = .text)
    (plain : ∀ c ∈ part.head?, c ∉ valueMarks) :
    redactor.segment (label.name ++ (label.separator ++ part)) =
      { redactor.emit (label.name ++ label.separator) with state := .value .secret }.segment part := by
  have filled : label.name ++ (label.separator ++ part) ≠ [] := by
    intro empty
    rw [Labelled.name] at empty
    simp only [List.append_eq_nil_iff] at empty
    exact key_ne_nil label empty.1.1.2
  have front : before (label.name ++ (label.separator ++ part)) part =
      label.name ++ label.separator := by
    rw [before, ← List.append_assoc, List.length_append, Nat.add_sub_cancel, List.take_left]
  rw [segment_eq, Redactor.segmentWith, if_neg filled, outside]
  dsimp only
  rw [Redactor.text, parseLabel_separator label plain]
  dsimp only
  rw [label.secretKey.secret]
  dsimp only
  rw [front]

/-- A label whose separator may be the next word. -/
theorem segment_name (outside : redactor.state = .text) :
    (redactor.segment label.name).state = .separator .secret := by
  have filled : label.name ≠ [] := by
    intro empty
    rw [Labelled.name] at empty
    simp only [List.append_eq_nil_iff] at empty
    exact key_ne_nil label empty.1.2
  rw [segment_eq, Redactor.segmentWith, if_neg filled, outside]
  dsimp only
  rw [Redactor.text, parseLabel_name label]
  dsimp only
  rw [label.secretKey.secret]

/-- A separator that is a word of its own, or starts one. -/
theorem segment_separator {part : Text} (waits : redactor.state = .separator .secret)
    (plain : ∀ c ∈ part.head?, c ∉ valueMarks) :
    redactor.segment (label.separator ++ part) =
      { redactor.emit label.separator with state := .value .secret }.segment part := by
  have stripped := stripSeparator_separator label plain
  have filled : label.separator ++ part ≠ [] := by
    intro empty
    rw [empty] at stripped
    cases stripped
  have front : before (label.separator ++ part) part = label.separator := by
    rw [before, List.length_append, Nat.add_sub_cancel, List.take_left]
  rw [segment_eq, Redactor.segmentWith, if_neg filled, waits]
  dsimp only
  rw [stripped]
  dsimp only
  rw [front]

theorem name_ink : ∀ c ∈ label.name, isWhitespace c = false := by
  intro c inside
  rw [Labelled.name, List.mem_append, List.mem_append] at inside
  rcases inside with (lead | key) | closing
  · exact not_white_of_lead (label.leads c lead)
  · have whole := (key_of_parsed label.secretKey.parsed).2.1
    exact not_white_of_keyChar (List.takeWhile_eq_self_iff.mp whole c key)
  · rcases label.closes with same | ⟨quote, mark, -, same⟩
    · rw [same] at closing
      cases closing
    · rw [same, List.mem_singleton] at closing
      rw [closing]
      exact not_white_of_quote mark

theorem separator_ink : ∀ c ∈ label.separator, isWhitespace c = false := by
  have table : ([['='], [':'], ['=', '>']].all fun separator =>
      separator.all fun c => !isWhitespace c) = true := by decide
  intro c inside
  have ink := List.all_eq_true.mp (List.all_eq_true.mp table _ (separator_cases label)) c inside
  exact Bool.not_eq_true' _ ▸ ink

/-- However the separator is spaced, the machine waits for the value. -/
theorem awaits_of_label (outside : redactor.state = .text) :
    ∃ ready, Awaits (label.text.foldl feed (redactor, [])) ready := by
  have empty : ∀ c ∈ ([] : Text).head?, c ∉ valueMarks := by
    intro c leads
    cases leads
  have plain : ∀ {part : Text}, (∀ c ∈ part.head?, opens c = true) →
      ∀ c ∈ part.head?, c ∉ valueMarks :=
    fun opening c leads => not_mark_of_opens (opening c leads)
  -- A word that is over leaves a machine in the value's state, and nothing is being read.
  have waiting : ∀ {after : Redactor}, after.state = .value .secret → Awaits (after, []) after :=
    fun state => ⟨state, rfl, fun _ _ _ => rfl⟩
  unfold Labelled.text
  rw [List.foldl_append, List.foldl_append, List.foldl_append, fold_ink (name_ink label),
    List.nil_append]
  have written : label.name ≠ [] := by
    intro none
    rw [Labelled.name, List.append_eq_nil_iff, List.append_eq_nil_iff] at none
    exact key_ne_nil label none.1.2
  cases label.gap with
  | zero =>
      rw [List.replicate_zero, List.foldl_nil, fold_ink (separator_ink label)]
      cases label.space with
      | zero =>
          refine ⟨{ redactor.emit (label.name ++ label.separator) with state := .value .secret },
            rfl, rfl, fun part _ opening => ?_⟩
          rw [List.replicate_zero, List.foldl_nil]
          dsimp only
          rw [List.append_assoc]
          exact segment_label label outside (plain opening)
      | succ space =>
          obtain ⟨after, read, state⟩ := fold_spaces space (redactor, label.name ++ label.separator)
          rw [read]
          refine ⟨after, waiting ?_⟩
          have ended := segment_label label outside empty
          rw [List.append_nil, segment_nil] at ended
          rw [state, settled, if_neg (by simp [written])]
          exact congrArg Redactor.state ended
  | succ gap =>
      obtain ⟨named, read, state⟩ := fold_spaces gap (redactor, label.name)
      rw [read, fold_ink (separator_ink label), List.nil_append]
      have waits : named.state = .separator .secret := by
        rw [state, settled, if_neg written]
        exact segment_name label outside
      cases label.space with
      | zero =>
          exact ⟨{ named.emit label.separator with state := .value .secret }, rfl, rfl,
            fun part _ opening => segment_separator label waits (plain opening)⟩
      | succ space =>
          obtain ⟨after, read, state⟩ := fold_spaces space (named, label.separator)
          rw [read]
          refine ⟨after, waiting ?_⟩
          have ended := segment_separator label waits empty
          rw [List.append_nil, segment_nil] at ended
          have filled : label.separator ≠ [] := by
            intro none
            have among := separator_cases label
            rw [none] at among
            revert among
            decide
          rw [state, settled, if_neg filled]
          exact congrArg Redactor.state ended

end waiting

end Zeron.Harness.Redact
