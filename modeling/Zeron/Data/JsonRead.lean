import Zeron.Data.JsonText

namespace Zeron.Data.JsonText

/-! # Compact text is read back

Each token's text is read back as the token where the text after it does not carry the token on, and
the tokens of a value build the value.
-/

variable {ν : Type} {rest : Text}

/-! ## Tokens build their value -/

theorem startsValue (value : Value ν) : ∃ token others, tokens value = token :: others ∧
    token ≠ .closeArray := by
  cases value <;> exact ⟨_, _, rfl, by intro same; cases same⟩

theorem advance_itemOrEnd {stack : List (Frame ν)} {token : Token ν} (other : token ≠ .closeArray) :
    advance (stack, .itemOrEnd) token = advance (stack, .value) token := by
  cases token with
  | closeArray => exact absurd rfl other
  | _ => rfl

/-- A value may stand where an array has just been opened. -/
theorem fold_itemOrEnd (stack : List (Frame ν)) (value : Value ν) :
    (tokens value).foldlM advance (stack, .itemOrEnd) =
      (tokens value).foldlM advance (stack, .value) := by
  obtain ⟨token, others, same, other⟩ := startsValue value
  rw [same, List.foldlM_cons, List.foldlM_cons, advance_itemOrEnd other]

theorem fold_items {stack : List (Frame ν)} {items : List (Value ν)}
    (each : ∀ item ∈ items, ∀ stack,
      (tokens item).foldlM advance (stack, .value) = place item stack)
    (first : Bool) (done : List (Value ν)) :
    List.foldlM advance (.items done :: stack, if first then .itemOrEnd else .more)
        (itemTokens first items ++ [.closeArray]) =
      place (.array (done ++ items)) stack := by
  induction items generalizing first done with
  | nil =>
      rw [itemTokens, List.nil_append, List.append_nil]
      cases first <;> exact bind_pure _
  | cons item items ih =>
      have here := each item List.mem_cons_self
      have later := ih (fun item among => each item (List.mem_cons_of_mem _ among)) false
        (done ++ [item])
      have joined : done ++ [item] ++ items = done ++ item :: items := by
        rw [List.append_assoc, List.singleton_append]
      rw [joined] at later
      have read : List.foldlM advance (.items done :: stack, .value)
          (tokens item ++ (itemTokens false items ++ [.closeArray])) = place (.array (done ++ item :: items)) stack := by
        rw [List.foldlM_append, here]
        exact later
      cases first with
      | false =>
          rw [itemTokens, List.append_assoc, List.append_assoc]
          exact read
      | true =>
          rw [itemTokens, List.append_assoc, List.append_assoc, if_pos rfl, if_pos rfl,
            List.nil_append, List.foldlM_append, fold_itemOrEnd, ← List.foldlM_append]
          exact read

theorem fold_entries {stack : List (Frame ν)} {entries : List (Units × Value ν)}
    (each : ∀ entry ∈ entries, ∀ stack,
      (tokens entry.2).foldlM advance (stack, .value) = place entry.2 stack)
    (first : Bool) (done : List (Units × Value ν)) :
    List.foldlM advance (.entries done :: stack, if first then .keyOrEnd else .more)
        (entryTokens first entries ++ [.closeObject]) =
      place (.object (done ++ entries)) stack := by
  induction entries generalizing first done with
  | nil =>
      rw [entryTokens, List.nil_append, List.append_nil]
      cases first <;> exact bind_pure _
  | cons entry entries ih =>
      have here := each entry List.mem_cons_self
      have later := ih (fun entry among => each entry (List.mem_cons_of_mem _ among)) false
        (done ++ [entry])
      have joined : done ++ [entry] ++ entries = done ++ entry :: entries := by
        rw [List.append_assoc, List.singleton_append]
      rw [joined] at later
      have read : List.foldlM advance (.member done entry.1 :: stack, .value)
          (tokens entry.2 ++ (entryTokens false entries ++ [.closeObject])) =
            place (.object (done ++ entry :: entries)) stack := by
        rw [List.foldlM_append, here]
        exact later
      cases first with
      | false =>
          rw [entryTokens, List.append_assoc, List.append_assoc]
          exact read
      | true =>
          rw [entryTokens, List.append_assoc, List.append_assoc]
          exact read

theorem fold_tokens (value : Value ν) (stack : List (Frame ν)) :
    (tokens value).foldlM advance (stack, .value) = place value stack := by
  induction value using Value.induct generalizing stack with
  | null => exact bind_pure _
  | bool value => exact bind_pure _
  | string text => exact bind_pure _
  | number value => exact bind_pure _
  | array items ih => exact fold_items ih true []
  | object entries ih => exact fold_entries ih true []

theorem build_tokens (value : Value ν) : build (tokens value) = some value := by
  rw [build, fold_tokens]
  rfl

/-! ## Texts are read into their tokens -/

/-- No letter or number character comes first. -/
def Ends (rest : Text) : Prop := ∀ c ∈ rest.head?, isNumberChar c = false ∧ c.isAlpha = false

theorem lex_quiet {mode after : Mode} {c : Char} (quiet : scan mode c = some ([], after)) :
    lex mode (c :: rest) = lex after rest := by
  rw [lex, quiet, Option.bind_some]
  exact Option.map_id'

theorem lex_emit {mode after : Mode} {c : Char} {token : Token Text}
    (emits : scan mode c = some ([token], after)) :
    lex mode (c :: rest) = (lex after rest).map fun tokens => token :: tokens := by
  rw [lex, emits, Option.bind_some]
  rfl

/-- The end of a number or a word is where the next token starts. -/
theorem lex_restart {mode : Mode} {token : Token Text} (flushed : flush mode = some [token])
    (restarts : ∀ c ∈ rest.head?, scan mode c = restart mode c) :
    lex mode rest = (lex .between rest).map fun tokens => token :: tokens := by
  cases rest with
  | nil => exact flushed
  | cons c rest =>
      rw [lex, lex, restarts c rfl, restart, flushed, Option.bind_some, scan]
      cases start c with
      | none => rfl
      | some out =>
          rw [Option.map_some, Option.bind_some, Option.bind_some, Option.map_map]
          rfl

theorem lex_number {literal more : Text} (written : ∀ c ∈ more, isNumberChar c = true) :
    lex (.number literal) (more ++ rest) = lex (.number (literal ++ more)) rest := by
  induction more generalizing literal with
  | nil => rw [List.nil_append, List.append_nil]
  | cons c more ih =>
      have quiet : scan (.number literal) c = some ([], .number (literal ++ [c])) :=
        if_pos (written c List.mem_cons_self)
      rw [List.cons_append, lex_quiet quiet,
        ih fun c among => written c (List.mem_cons_of_mem _ among), List.append_assoc,
        List.singleton_append]

theorem lex_word {letters more : Text} (written : ∀ c ∈ more, c.isAlpha = true) :
    lex (.word letters) (more ++ rest) = lex (.word (letters ++ more)) rest := by
  induction more generalizing letters with
  | nil => rw [List.nil_append, List.append_nil]
  | cons c more ih =>
      have quiet : scan (.word letters) c = some ([], .word (letters ++ [c])) :=
        if_pos (written c List.mem_cons_self)
      rw [List.cons_append, lex_quiet quiet,
        ih fun c among => written c (List.mem_cons_of_mem _ among), List.append_assoc,
        List.singleton_append]

/-! ## Strings -/

theorem toNat_charOfNat {code : Nat} (valid : code.isValidChar) : (Char.ofNat code).toNat = code := by
  rw [Char.ofNat, dif_pos valid]
  rfl

theorem ofNat_toNat_unit (unit : UInt16) : UInt16.ofNat unit.toNat = unit := UInt16.ofNat_toNat

/-- A character of a string that stands for itself. -/
theorem lex_unitsOf {front : Units} {c : Char} (quote : c.toNat ≠ 0x22) (slash : c.toNat ≠ 0x5C)
    (printed : 0x20 ≤ c.toNat) :
    lex (.string front) (c :: rest) = lex (.string (front ++ unitsOf c)) rest := by
  apply lex_quiet
  have notQuote : c ≠ '"' := fun same => quote (by rw [same]; rfl)
  have notSlash : c ≠ '\\' := fun same => slash (by rw [same]; rfl)
  rw [scan, if_neg notQuote, if_neg notSlash, if_neg (by omega)]

theorem hexValue_digitChar {digit : Nat} (small : digit < 16) :
    hexValue (Nat.digitChar digit) = some digit := by
  have table : ∀ digit < 16, hexValue (Nat.digitChar digit) = some digit := by decide
  exact table digit small

theorem lex_hexDigits {front : Units} (unit : UInt16) :
    lex (.hex front 0 3) (hexDigits unit.toNat ++ rest) =
      lex (.string (front ++ [unit])) rest := by
  have bound : unit.toNat < 65536 := unit.toNat_lt
  have digit : ∀ {code left place : Nat}, place < 16 → left ≠ 0 →
      scan (.hex front code left) (Nat.digitChar place) =
        some ([], .hex front (code * 16 + place) (left - 1)) := by
    intro code left place small more
    rw [scan, hexValue_digitChar small, Option.map_some, if_neg more]
  have last : ∀ {code place : Nat}, place < 16 → scan (.hex front code 0) (Nat.digitChar place) =
      some ([], .string (front ++ [UInt16.ofNat (code * 16 + place)])) := by
    intro code place small
    rw [scan, hexValue_digitChar small, Option.map_some, if_pos rfl]
  have whole : ((0 * 16 + unit.toNat / 0x1000 % 16) * 16 + unit.toNat / 0x100 % 16) * 16 +
      unit.toNat / 0x10 % 16 = unit.toNat / 16 := by omega
  have all : unit.toNat / 16 * 16 + unit.toNat % 16 = unit.toNat := by omega
  rw [hexDigits, List.cons_append, List.cons_append, List.cons_append, List.cons_append,
    List.nil_append, lex_quiet (digit (by omega) (by decide)),
    lex_quiet (digit (by omega) (by decide)), lex_quiet (digit (by omega) (by decide)),
    lex_quiet (last (by omega)), whole, all, ofNat_toNat_unit]

theorem lex_simpleEscape {front : Units} {c : Char} {unit : UInt16} (plain : c ≠ 'u')
    (escaped : simpleEscape c = some unit) :
    lex (.string front) ('\\' :: c :: rest) = lex (.string (front ++ [unit])) rest := by
  have opens : scan (.string front) '\\' = some ([], .escape front) := rfl
  have closes : scan (.escape front) c = some ([], .string (front ++ [unit])) := by
    rw [scan, if_neg plain, escaped]
    rfl
  rw [lex_quiet opens, lex_quiet closes]

theorem lex_escapeUnit {front : Units} (unit : UInt16) :
    lex (.string front) (escapeUnit unit ++ rest) = lex (.string (front ++ [unit])) rest := by
  have simple : ∀ {c : Char} {code : UInt16}, c ≠ 'u' → simpleEscape c = some code →
      unit.toNat = code.toNat →
      lex (.string front) (['\\', c] ++ rest) = lex (.string (front ++ [unit])) rest := by
    intro c code plain escaped same
    rw [UInt16.toNat_inj.mp same]
    exact lex_simpleEscape plain escaped
  unfold escapeUnit
  dsimp only
  split
  · exact simple (by decide) rfl (by assumption)
  split
  · exact simple (by decide) rfl (by assumption)
  split
  · exact simple (by decide) rfl (by assumption)
  split
  · exact simple (by decide) rfl (by assumption)
  split
  · exact simple (by decide) rfl (by assumption)
  split
  · exact simple (by decide) rfl (by assumption)
  split
  · exact simple (by decide) rfl (by assumption)
  split
  · have opens : scan (.string front) '\\' = some ([], .escape front) := rfl
    have hex : scan (.escape front) 'u' = some ([], .hex front 0 3) := rfl
    rw [List.cons_append, List.cons_append, lex_quiet opens, lex_quiet hex, lex_hexDigits]
  · rename_i quote slash _ _ _ _ _ other
    rw [not_or, Nat.not_lt, Bool.not_eq_true, Bool.or_eq_false_iff] at other
    obtain ⟨printed, high, low⟩ := other
    rw [isHigh, decide_eq_false_iff_not] at high
    rw [isLow, decide_eq_false_iff_not] at low
    have bound : unit.toNat < 65536 := unit.toNat_lt
    have valid : unit.toNat.isValidChar := by
      rw [Nat.isValidChar]
      omega
    have code := toNat_charOfNat valid
    have units : unitsOf (Char.ofNat unit.toNat) = [unit] := by
      rw [unitsOf, code, if_pos (by omega), ofNat_toNat_unit]
    rw [List.singleton_append, lex_unitsOf (by rwa [code]) (by rwa [code]) (by rwa [code]), units]

theorem lex_pairChar {front : Units} {high low : UInt16} (first : isHigh high = true)
    (second : isLow low = true) :
    lex (.string front) (pairChar high low :: rest) = lex (.string (front ++ [high, low])) rest := by
  rw [isHigh, decide_eq_true_eq] at first
  rw [isLow, decide_eq_true_eq] at second
  have valid : (0x10000 + (high.toNat - 0xD800) * 0x400 + (low.toNat - 0xDC00)).isValidChar := by
    rw [Nat.isValidChar]
    omega
  have code : (pairChar high low).toNat =
      0x10000 + (high.toNat - 0xD800) * 0x400 + (low.toNat - 0xDC00) := toNat_charOfNat valid
  have units : unitsOf (pairChar high low) = [high, low] := by
    have front : 0xD800 + ((pairChar high low).toNat - 0x10000) / 0x400 = high.toNat := by
      rw [code]
      omega
    have back : 0xDC00 + ((pairChar high low).toNat - 0x10000) % 0x400 = low.toNat := by
      rw [code]
      omega
    rw [unitsOf, if_neg (by rw [code]; omega), front, back, ofNat_toNat_unit, ofNat_toNat_unit]
  rw [lex_unitsOf (by rw [code]; omega) (by rw [code]; omega) (by rw [code]; omega), units]

theorem lex_escapeUnits (front units : Units) :
    lex (.string front) (escapeUnits units ++ rest) = lex (.string (front ++ units)) rest := by
  induction units using escapeUnits.induct generalizing front with
  | case1 => rw [escapeUnits, List.nil_append, List.append_nil]
  | case2 unit => exact lex_escapeUnit unit
  | case3 unit next others pair ih =>
      obtain ⟨first, second⟩ := Bool.and_eq_true_iff.mp pair
      rw [escapeUnits, if_pos pair, List.cons_append, lex_pairChar first second, ih,
        List.append_assoc]
      rfl
  | case4 unit next others apart ih =>
      rw [escapeUnits, if_neg apart, List.append_assoc, lex_escapeUnit, ih, List.append_assoc]
      rfl

theorem lex_string (text : Units) :
    lex .between ('"' :: (escapeUnits text ++ ['"']) ++ rest) =
      (lex .between rest).map fun tokens => .string text :: tokens := by
  have opens : scan .between '"' = some ([], .string []) := rfl
  have closes : scan (.string text) '"' = some ([.string text], .between) := rfl
  rw [List.cons_append, List.append_assoc, lex_quiet opens, lex_escapeUnits, List.nil_append,
    List.singleton_append, lex_emit closes]

/-! ## Numbers and words -/

theorem numberChar_of_digit {c : Char} (digit : c.isDigit = true) : isNumberChar c = true := by
  rw [isNumberChar, digit, Bool.true_or]

theorem numberChars_of_exponent {text : Text} (exponent : isExponent text = true) :
    ∀ c ∈ text, isNumberChar c = true := by
  cases text with
  | nil => exact fun c among => nomatch among
  | cons mark text =>
      simp only [isExponent, Bool.and_eq_true, Bool.or_eq_true, decide_eq_true_eq] at exponent
      obtain ⟨⟨marked, -⟩, digits⟩ := exponent
      have first : isNumberChar mark = true := by
        rcases marked with same | same <;> rw [same] <;> decide
      have later : ∀ c ∈ text, isNumberChar c = true := by
        split at digits
        · rename_i signed
          cases text with
          | nil => exact fun c among => nomatch among
          | cons sign text =>
              have plus : isNumberChar sign = true := by
                rcases signed with same | same <;> cases same <;> decide
              intro c among
              rcases List.mem_cons.mp among with same | inside
              · rw [same]
                exact plus
              · exact numberChar_of_digit (List.all_eq_true.mp digits c inside)
        · exact fun c among => numberChar_of_digit (List.all_eq_true.mp digits c among)
      intro c among
      rcases List.mem_cons.mp among with same | inside
      · rw [same]
        exact first
      · exact later c inside

/-- Digits, and what comes after them. -/
theorem numberChars_of_digits {text : Text}
    (later : ∀ c ∈ text.dropWhile Char.isDigit, isNumberChar c = true) :
    ∀ c ∈ text, isNumberChar c = true := by
  intro c among
  rw [← List.takeWhile_append_dropWhile (p := Char.isDigit) (l := text)] at among
  rcases List.mem_append.mp among with digit | after
  · exact numberChar_of_digit (List.mem_takeWhile_imp digit)
  · exact later c after

theorem numberChars_of_fraction {text : Text} (fraction : isFraction text = true) :
    ∀ c ∈ text, isNumberChar c = true := by
  unfold isFraction at fraction
  split at fraction
  · rename_i text
    rw [Bool.and_eq_true] at fraction
    intro c among
    rcases List.mem_cons.mp among with same | inside
    · rw [same]
      decide
    · exact numberChars_of_digits (numberChars_of_exponent fraction.2) c inside
  · exact numberChars_of_exponent fraction

/-- A literal starts with a sign or a digit, and is all number characters. -/
theorem numberChars {literal : Text} (number : isNumber literal = true) :
    ∃ c more, literal = c :: more ∧ (c = '-' ∨ c.isDigit = true) ∧
      ∀ c ∈ more, isNumberChar c = true := by
  simp only [isNumber, Bool.and_eq_true] at number
  obtain ⟨⟨filled, -⟩, fraction⟩ := number
  cases literal with
  | nil => cases filled
  | cons c more =>
      refine ⟨c, more, rfl, ?_⟩
      by_cases sign : c = '-'
      · rw [sign, List.head?_cons, if_pos rfl, List.tail_cons] at fraction
        exact ⟨.inl sign, numberChars_of_digits (numberChars_of_fraction fraction)⟩
      · have plain : ¬(c :: more).head? = some '-' := fun same => sign (Option.some.inj same)
        rw [if_neg plain] at filled fraction
        have all := numberChars_of_digits (numberChars_of_fraction fraction)
        have digit : c.isDigit = true := by
          rw [List.takeWhile_cons] at filled
          split at filled
          · assumption
          · cases filled
        exact ⟨.inr digit, fun c among => all c (List.mem_cons_of_mem _ among)⟩

theorem start_number {c : Char} (opens : c = '-' ∨ c.isDigit = true) :
    start c = some ([], .number [c]) := by
  rcases opens with rfl | digit
  · rfl
  · have apart : ([' ', '\t', '\n', '\r', '"'].all fun mark => !mark.isDigit) = true := by decide
    have other : c ∉ [' ', '\t', '\n', '\r', '"'] := by
      intro among
      have plain := List.all_eq_true.mp apart c among
      rw [digit] at plain
      cases plain
    have space : isSpace c = false := by
      rw [isSpace, ← Bool.not_eq_true, List.contains_iff_mem]
      exact fun among => other (List.mem_append_left ['"'] among)
    have quote : c ≠ '"' := fun same => other (by rw [same]; decide)
    rw [start, space, if_neg Bool.false_ne_true, if_neg quote, if_pos (.inr digit)]

theorem lex_numberToken {literal : Text} (number : isNumber literal = true) (ends : Ends rest) :
    lex .between (literal ++ rest) = (lex .between rest).map fun tokens => .number literal :: tokens := by
  obtain ⟨c, more, same, opens, written⟩ := numberChars number
  have first : scan .between c = some ([], .number [c]) := start_number opens
  have flushed : flush (.number literal) = some [.number literal] := if_pos number
  have restarts : ∀ c ∈ rest.head?, scan (.number literal) c = restart (.number literal) c := by
    intro c leads
    rw [scan, if_neg (by rw [(ends c leads).1]; exact Bool.false_ne_true)]
  rw [← lex_restart flushed restarts]
  conv_lhs => rw [same, List.cons_append, lex_quiet first, lex_number written, List.singleton_append,
    ← same]

theorem lex_keyword {c : Char} {more : Text} {token : Token Text}
    (opens : start c = some ([], .word [c])) (written : ∀ c ∈ more, c.isAlpha = true)
    (named : keyword (c :: more) = some token) (ends : Ends rest) :
    lex .between (c :: more ++ rest) = (lex .between rest).map fun tokens => token :: tokens := by
  have first : scan .between c = some ([], .word [c]) := opens
  have flushed : flush (.word (c :: more)) = some [token] := by
    rw [flush, named]
    rfl
  have restarts : ∀ d ∈ rest.head?, scan (.word (c :: more)) d = restart (.word (c :: more)) d := by
    intro d leads
    rw [scan, if_neg (by rw [(ends d leads).2]; exact Bool.false_ne_true)]
  rw [← lex_restart flushed restarts, List.cons_append, lex_quiet first, lex_word written,
    List.singleton_append]

/-! ## Values -/

theorem ends_of_punctuation {c : Char} {others : Text} (mark : c ∈ [',', ']', '\x7d']) :
    Ends (c :: others) := by
  have table : ([',', ']', '\x7d'].all fun c => !isNumberChar c && !c.isAlpha) = true := by decide
  have plain := List.all_eq_true.mp table c mark
  rw [Bool.and_eq_true, Bool.not_eq_true', Bool.not_eq_true'] at plain
  intro d leads
  cases leads
  exact plain

/-- The text of some tokens. -/
def textOf (tokens : List (Token Text)) : Text := tokens.flatMap tokenText

theorem textOf_append (front back : List (Token Text)) :
    textOf (front ++ back) = textOf front ++ textOf back := List.flatMap_append

theorem textOf_cons (token : Token Text) (others : List (Token Text)) :
    textOf (token :: others) = tokenText token ++ textOf others := rfl

section values

variable {write : ν → Text}

theorem lex_mark {c : Char} {token : Token Text} (marks : start c = some ([token], .between)) :
    lex .between (c :: rest) = (lex .between rest).map fun tokens => token :: tokens :=
  lex_emit marks

/-- What comes after an item of an array, or a member of an object. -/
theorem ends_more {tokens : List (Token Text)} {c : Char} (mark : c ∈ [',', ']', '\x7d'])
    (comma : tokens = [] ∨ ∃ others, tokens = .comma :: others) :
    Ends (textOf tokens ++ c :: rest) := by
  rcases comma with rfl | ⟨others, rfl⟩
  · exact ends_of_punctuation mark
  · exact ends_of_punctuation (by decide)

theorem map_map_append (found : Option (List (Token Text))) (front back : List (Token Text)) :
    (found.map fun tokens => back ++ tokens).map (fun tokens => front ++ tokens) =
      found.map fun tokens => front ++ back ++ tokens := by
  rw [Option.map_map]
  congr 1
  funext tokens
  exact (List.append_assoc _ _ _).symm

/-- A value's text is read as its tokens where something ends it. -/
def ReadsBack (write : ν → Text) (value : Value ν) : Prop :=
  ∀ rest, Ends rest → lex .between (textOf (tokens (value.map write)) ++ rest) =
    (lex .between rest).map fun others => tokens (value.map write) ++ others

theorem lex_items {items : List (Value ν)} (each : ∀ item ∈ items, ReadsBack write item)
    (first : Bool) (rest : Text) :
    lex .between (textOf (itemTokens first (Value.mapItems write items)) ++ ']' :: rest) =
      (lex .between (']' :: rest)).map fun others =>
        itemTokens first (Value.mapItems write items) ++ others := by
  induction items generalizing first with
  | nil => exact Option.map_id'.symm
  | cons item items ih =>
      have later := ih (fun item among => each item (List.mem_cons_of_mem _ among)) false
      have comma : itemTokens false (Value.mapItems write items) = [] ∨
          ∃ others, itemTokens false (Value.mapItems write items) = .comma :: others := by
        cases items with
        | nil => exact .inl rfl
        | cons => exact .inr ⟨_, rfl⟩
      have here := each item List.mem_cons_self _ (@ends_more rest _ ']' (by decide) comma)
      have both : lex .between (textOf (tokens (item.map write) ++
            itemTokens false (Value.mapItems write items)) ++ ']' :: rest) =
          (lex .between (']' :: rest)).map fun others => tokens (item.map write) ++
            itemTokens false (Value.mapItems write items) ++ others := by
        rw [textOf_append, List.append_assoc, here, later, map_map_append]
      cases first with
      | true => exact both
      | false =>
          have mark : start ',' = some ([.comma], .between) := rfl
          rw [Value.mapItems, itemTokens, List.append_assoc, if_neg Bool.false_ne_true,
            List.singleton_append, textOf_cons]
          have spelled : tokenText .comma = [','] := rfl
          rw [spelled, List.singleton_append, List.cons_append, lex_mark mark, both, Option.map_map]
          rfl

theorem lex_entries {entries : List (Units × Value ν)}
    (each : ∀ entry ∈ entries, ReadsBack write entry.2) (first : Bool) (rest : Text) :
    lex .between (textOf (entryTokens first (Value.mapEntries write entries)) ++ '\x7d' :: rest) =
      (lex .between ('\x7d' :: rest)).map fun others =>
        entryTokens first (Value.mapEntries write entries) ++ others := by
  induction entries generalizing first with
  | nil => exact Option.map_id'.symm
  | cons entry entries ih =>
      have later := ih (fun entry among => each entry (List.mem_cons_of_mem _ among)) false
      have comma : entryTokens false (Value.mapEntries write entries) = [] ∨
          ∃ others, entryTokens false (Value.mapEntries write entries) = .comma :: others := by
        cases entries with
        | nil => exact .inl rfl
        | cons => exact .inr ⟨_, rfl⟩
      have here := each entry List.mem_cons_self _ (@ends_more rest _ '\x7d' (by decide) comma)
      have colon : start ':' = some ([.colon], .between) := rfl
      have value : lex .between (':' :: (textOf (tokens (entry.2.map write) ++
            entryTokens false (Value.mapEntries write entries)) ++ '\x7d' :: rest)) =
          (lex .between ('\x7d' :: rest)).map fun others => .colon :: (tokens (entry.2.map write) ++
            entryTokens false (Value.mapEntries write entries)) ++ others := by
        rw [lex_mark colon, textOf_append, List.append_assoc, here, later, map_map_append,
          Option.map_map]
        rfl
      have member : lex .between (textOf (.string entry.1 :: .colon :: (tokens (entry.2.map write) ++
            entryTokens false (Value.mapEntries write entries))) ++ '\x7d' :: rest) =
          (lex .between ('\x7d' :: rest)).map fun others =>
            .string entry.1 :: .colon :: (tokens (entry.2.map write) ++
              entryTokens false (Value.mapEntries write entries)) ++ others := by
        have spelled : tokenText .colon = [':'] := rfl
        rw [textOf_cons, textOf_cons, spelled, tokenText, List.append_assoc, lex_string,
          List.singleton_append, List.cons_append, value, Option.map_map]
        rfl
      cases first with
      | true => exact member
      | false =>
          have mark : start ',' = some ([.comma], .between) := rfl
          have spelled : tokenText .comma = [','] := rfl
          rw [Value.mapEntries, entryTokens, List.append_assoc, if_neg Bool.false_ne_true,
            List.singleton_append, textOf_cons, spelled, List.singleton_append, List.cons_append,
            lex_mark mark]
          change (lex .between (textOf (.string entry.1 :: .colon :: (_ ++ _)) ++ _)).map _ = _
          rw [member, Option.map_map]
          rfl

theorem readsBack (literal : ∀ number, isNumber (write number) = true) (value : Value ν) :
    ReadsBack write value := by
  have word : ∀ {token : Token Text} {rest : Text},
      (lex .between (tokenText token ++ rest) =
        (lex .between rest).map fun tokens => token :: tokens) →
      lex .between (textOf [token] ++ rest) =
        (lex .between rest).map fun others => [token] ++ others := by
    intro token rest read
    rw [textOf_cons, textOf, List.flatMap_nil, List.append_nil]
    exact read
  induction value using Value.induct with
  | null =>
      intro rest ends
      have letters : "ull".toList.all Char.isAlpha = true := by decide
      exact word (lex_keyword rfl (List.all_eq_true.mp letters) rfl ends)
  | bool value =>
      intro rest ends
      cases value with
      | true =>
          have letters : "rue".toList.all Char.isAlpha = true := by decide
          exact word (lex_keyword rfl (List.all_eq_true.mp letters) rfl ends)
      | false =>
          have letters : "alse".toList.all Char.isAlpha = true := by decide
          exact word (lex_keyword rfl (List.all_eq_true.mp letters) rfl ends)
  | string text => exact fun rest _ => word (lex_string text)
  | number number => exact fun rest ends => word (lex_numberToken (literal number) ends)
  | array items ih =>
      intro rest ends
      have opens : start '[' = some ([.openArray], .between) := rfl
      have closes : start ']' = some ([.closeArray], .between) := rfl
      have body := lex_items ih true rest
      rw [lex_mark closes, Option.map_map] at body
      rw [Value.map, tokens, textOf_cons, textOf_append, List.append_assoc, List.append_assoc]
      change lex .between ('[' :: (_ ++ ']' :: rest)) = _
      rw [lex_mark opens, body, Option.map_map]
      congr 1
      funext others
      simp only [Function.comp_apply, List.cons_append, List.append_assoc, List.nil_append]
  | object entries ih =>
      intro rest ends
      have opens : start '\x7b' = some ([.openObject], .between) := rfl
      have closes : start '\x7d' = some ([.closeObject], .between) := rfl
      have body := lex_entries ih true rest
      rw [lex_mark closes, Option.map_map] at body
      rw [Value.map, tokens, textOf_cons, textOf_append, List.append_assoc, List.append_assoc]
      change lex .between ('\x7b' :: (_ ++ '\x7d' :: rest)) = _
      rw [lex_mark opens, body, Option.map_map]
      congr 1
      funext others
      simp only [Function.comp_apply, List.cons_append, List.append_assoc, List.nil_append]

/-- The compact text of a value is read as the value, its numbers as they were written. -/
theorem parse_render (literal : ∀ number, isNumber (write number) = true) (value : Value ν) :
    parse (render (value.map write)) = some (value.map write) := by
  have ends : Ends [] := fun c leads => nomatch leads
  have read := readsBack literal value [] ends
  rw [List.append_nil] at read
  rw [parse, render]
  change (lex .between (textOf (tokens (value.map write)))).bind build = _
  rw [read, lex, flush, Option.map_some, Option.bind_some, List.append_nil, build_tokens]

end values

end Zeron.Data.JsonText
