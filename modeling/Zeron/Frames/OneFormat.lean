import Zeron.Data.Ascii
import Zeron.Data.JsonRead
import Zeron.Frames.Codec

namespace Zeron.Frames

open Zeron.Data Zeron.Data.Utf8 Zeron.Data.JsonText

/-! # Where the two codecs are one format

Both decoders read one JSON text into one value where the text is UTF-8 with no mark; the client then
bounds the nesting, wants Unicode strings and reads numbers its own way.
-/

variable {ν : Type} {numbers : Numbers ν}

/-! ## The layout -/

theorem cut_layout {kind : UInt8} {header payload : ByteString}
    (fits : header.length ≤ maxHeaderBytes) :
    cut (layout kind header payload) = some (kind, header, payload) := by
  have small : header.length ≤ 4096 := fits
  have length : ∀ {part : Nat}, part < 256 → (UInt8.ofNat part).toNat = part := by
    intro part less
    rw [UInt8.toNat_ofNat', Nat.mod_eq_of_lt less]
  have whole : header.length % 256 + header.length / 256 % 256 * 256 +
      header.length / 65536 % 256 * 65536 + header.length / 16777216 % 256 * 16777216 =
        header.length := by omega
  rw [layout, lengthBytes]
  simp only [List.cons_append, List.nil_append, cut]
  rw [length (by omega), length (by omega), length (by omega), length (by omega), whole, if_neg,
    List.take_left, List.drop_left]
  rw [List.length_append]
  omega

theorem head_of_cut {bytes header payload : ByteString} {kind : UInt8}
    (parts : cut bytes = some (kind, header, payload)) : bytes.head? = some kind := by
  unfold cut at parts
  split at parts
  · dsimp only at parts
    split at parts
    · cases parts
    · cases parts
      rfl
  · cases parts

/-! ## Nesting and strings do not depend on the numbers -/

section maps

variable {μ : Type} {write : ν → μ}

theorem nests_map (remaining : Nat) (value : Value ν) :
    nests remaining (value.map write) = nests remaining value := by
  induction value using Value.induct generalizing remaining with
  | null => rfl
  | bool value => rfl
  | string text => rfl
  | number value => rfl
  | array items ih =>
      have each : nestsItems (remaining - 1) (Value.mapItems write items) =
          nestsItems (remaining - 1) items := by
        induction items with
        | nil => rfl
        | cons item items below =>
            rw [Value.mapItems, nestsItems, nestsItems, ih item List.mem_cons_self,
              below fun item among => ih item (List.mem_cons_of_mem _ among)]
      rw [Value.map, nests, nests, each]
  | object entries ih =>
      have each : nestsEntries (remaining - 1) (Value.mapEntries write entries) =
          nestsEntries (remaining - 1) entries := by
        induction entries with
        | nil => rfl
        | cons entry entries below =>
            rw [Value.mapEntries, nestsEntries, nestsEntries, ih entry List.mem_cons_self,
              below fun entry among => ih entry (List.mem_cons_of_mem _ among)]
      rw [Value.map, nests, nests, each]

theorem unicode_map (value : Value ν) : unicode (value.map write) = unicode value := by
  induction value using Value.induct with
  | null => rfl
  | bool value => rfl
  | string text => rfl
  | number value => rfl
  | array items ih =>
      have each : unicodeItems (Value.mapItems write items) = unicodeItems items := by
        induction items with
        | nil => rfl
        | cons item items below =>
            rw [Value.mapItems, unicodeItems, unicodeItems, ih item List.mem_cons_self,
              below fun item among => ih item (List.mem_cons_of_mem _ among)]
      rw [Value.map, unicode, unicode, each]
  | object entries ih =>
      have each : unicodeEntries (Value.mapEntries write entries) = unicodeEntries entries := by
        induction entries with
        | nil => rfl
        | cons entry entries below =>
            rw [Value.mapEntries, unicodeEntries, unicodeEntries, ih entry List.mem_cons_self,
              below fun entry among => ih entry (List.mem_cons_of_mem _ among)]
      rw [Value.map, unicode, unicode, each]

theorem isObject_map (value : Value ν) : isObject (value.map write) = isObject value := by
  cases value <;> rfl

theorem isObject_traverse {read : ν → Option μ} {value : Value ν} {other : Value μ}
    (reads : value.traverse read = some other) : isObject other = isObject value := by
  cases value with
  | array items =>
      obtain ⟨others, -, same⟩ := Option.map_eq_some_iff.mp reads
      cases same
      rfl
  | object entries =>
      obtain ⟨others, -, same⟩ := Option.map_eq_some_iff.mp reads
      cases same
      rfl
  | number value =>
      obtain ⟨number, -, same⟩ := Option.map_eq_some_iff.mp reads
      cases same
      rfl
  | _ =>
      cases reads
      rfl

end maps

/-! ## A header is one text on both sides -/

/-- A JSON text starts with an ASCII character. -/
theorem ascii_of_start {c : Char} {out : List (Token Text) × Mode} (starts : start c = some out) :
    c.toNat < 128 := by
  unfold start at starts
  split at starts
  · rename_i space
    have table : ([' ', '\t', '\n', '\r'].all fun mark => decide (mark.toNat < 128)) = true := by
      decide
    exact decide_eq_true_eq.mp (List.all_eq_true.mp table c (List.contains_iff_mem.mp space))
  split at starts
  · rename_i quote
    rw [quote]
    decide
  split at starts
  · rename_i opens
    rcases opens with sign | digit
    · rw [sign]
      decide
    · exact ascii_of_alphanum (by rw [Char.isAlphanum, digit, Bool.or_true])
  split at starts
  · rename_i letter
    exact ascii_of_alphanum (by rw [Char.isAlphanum, letter, Bool.true_or])
  · obtain ⟨token, mark, -⟩ := Option.map_eq_some_iff.mp starts
    have table : (['[', ']', '\x7b', '\x7d', ':', ','].all fun mark =>
        decide (mark.toNat < 128)) = true := by decide
    apply decide_eq_true_eq.mp ∘ List.all_eq_true.mp table c
    unfold punctuation at mark
    simp only [List.mem_cons, List.not_mem_nil, or_false]
    grind

/-- What is read as a value has no byte order mark before it. -/
theorem noMark_of_parse {text : String} {value : Value Text}
    (parsed : parse text.toList = some value) : byteOrderMark.isPrefixOf (utf8 text) = false := by
  rw [utf8_eq_flatMap]
  cases whole : text.toList with
  | nil => rfl
  | cons c rest =>
      rw [whole, parse, lex] at parsed
      obtain ⟨tokens, read, -⟩ := Option.bind_eq_some_iff.mp parsed
      obtain ⟨out, starts, -⟩ := Option.bind_eq_some_iff.mp read
      have ascii := ascii_of_start starts
      rcases utf8EncodeChar_cases c with ⟨-, same⟩ | ⟨low, -⟩ | ⟨low, -⟩ | ⟨low, -⟩
      · have other : UInt8.ofNat c.toNat ≠ 0xEF := by
          intro same
          have code := congrArg UInt8.toNat same
          rw [UInt8.toNat_ofNat', Nat.mod_eq_of_lt (by omega)] at code
          have mark : (0xEF : UInt8).toNat = 239 := rfl
          omega
        rw [List.flatMap_cons, same]
        change (0xEF == UInt8.ofNat c.toNat && _) = false
        rw [beq_false_of_ne (Ne.symm other), Bool.false_and]
      all_goals omega

theorem textDecode_utf8 {text : String}
    (plain : byteOrderMark.isPrefixOf (utf8 text) = false) :
    textDecode (utf8 text) = text.toList := by
  rw [textDecode, plain, if_neg Bool.false_ne_true, decodeLossy_utf8]

/-! ## What each side reads -/

/-- What the room reads a header as, its numbers as they are written. -/
def roomTree (header : ByteString) : Option (Value Text) := parse (textDecode header)

/-- What the client wants of a header that the room reads. -/
structure ClientReads (numbers : Numbers ν) (header : ByteString) (tree : Value Text) : Prop where
  text : (fromUtf8 header).isSome = true
  noMark : byteOrderMark.isPrefixOf header = false
  nested : nests recursionLimit tree = true
  strings : unicode tree = true
  range : (tree.traverse numbers.rustRead).isSome = true

theorem fromSlice_eq_some {header : ByteString} {value : Value ν} :
    fromSlice numbers header = some value ↔ ∃ tree, roomTree header = some tree ∧
      ClientReads numbers header tree ∧ tree.traverse numbers.rustRead = some value := by
  constructor
  · intro read
    obtain ⟨text, decoded, parsed⟩ := Option.bind_eq_some_iff.mp read
    obtain ⟨tree, parsed, checked⟩ := Option.bind_eq_some_iff.mp parsed
    split at checked
    · rename_i checks
      rw [Bool.and_eq_true] at checks
      have bytes := fromUtf8_eq_some.mp decoded
      have plain := noMark_of_parse parsed
      refine ⟨tree, ?_, ⟨by rw [decoded]; rfl, by rwa [bytes], checks.1, checks.2,
        by rw [checked]; rfl⟩, checked⟩
      rw [roomTree, bytes, textDecode_utf8 plain, parsed]
    · cases checked
  · rintro ⟨tree, parsed, reads, value⟩
    obtain ⟨text, decoded⟩ := Option.isSome_iff_exists.mp reads.text
    have bytes := fromUtf8_eq_some.mp decoded
    have plain := reads.noMark
    rw [bytes] at plain
    rw [roomTree, bytes, textDecode_utf8 plain] at parsed
    rw [fromSlice, decoded, Option.bind_some, parsed, Option.bind_some, reads.nested, reads.strings,
      Bool.and_self, if_pos rfl, value]

theorem decode_eq_some {bytes header payload : ByteString} {kind : UInt8} {frame : Frame ν}
    (parts : cut bytes = some (kind, header, payload)) : decode numbers bytes = some frame ↔
      ∃ tree value, roomTree header = some tree ∧ isObject tree = true ∧
        ClientReads numbers header tree ∧ tree.traverse numbers.rustRead = some value ∧
          frame = ⟨kind, value, payload⟩ := by
  rw [decode, parts, Option.bind_some]
  constructor
  · intro read
    obtain ⟨value, sliced, shown⟩ := Option.bind_eq_some_iff.mp read
    obtain ⟨tree, parsed, reads, traversed⟩ := fromSlice_eq_some.mp sliced
    split at shown
    · rename_i object
      rw [isObject_traverse traversed] at object
      exact ⟨tree, value, parsed, object, reads, traversed, (Option.some.inj shown).symm⟩
    · cases shown
  · rintro ⟨tree, value, parsed, object, reads, traversed, rfl⟩
    rw [fromSlice_eq_some.mpr ⟨tree, parsed, reads, traversed⟩, Option.bind_some,
      isObject_traverse traversed, if_pos object]

theorem decodeFrame_eq_some {bytes header payload : ByteString} {kind : UInt8} {frame : Frame ν}
    (parts : cut bytes = some (kind, header, payload)) (known : kind ∈ knownTypes) :
    decodeFrame numbers bytes = some frame ↔ ∃ tree, roomTree header = some tree ∧
      isObject tree = true ∧ frame = ⟨kind, tree.map numbers.jsRead, payload⟩ := by
  rw [decodeFrame, parts, Option.bind_some, if_pos (List.contains_iff_mem.mpr known)]
  constructor
  · intro read
    obtain ⟨tree, parsed, shown⟩ := Option.bind_eq_some_iff.mp read
    split at shown
    · rename_i object
      exact ⟨tree, parsed, object, (Option.some.inj shown).symm⟩
    · cases shown
  · rintro ⟨tree, parsed, object, rfl⟩
    dsimp only
    rw [roomTree] at parsed
    rw [parsed, Option.bind_some, if_pos object]

/-! ## Untrusted bytes -/

/-- Whenever the room reads an object, the client reads it too, with the same numbers. -/
def ReadsAlike (numbers : Numbers ν) (bytes : ByteString) : Prop :=
  ∀ kind header payload tree, cut bytes = some (kind, header, payload) →
    roomTree header = some tree → isObject tree = true → ClientReads numbers header tree ∧
      ∀ literal, tree.Holds literal → numbers.rustRead literal = some (numbers.jsRead literal)

theorem agrees_iff {bytes : ByteString} (known : ∀ kind ∈ bytes.head?, kind ∈ knownTypes) :
    Agrees numbers bytes ↔ ReadsAlike numbers bytes := by
  cases parts : cut bytes with
  | none =>
      constructor
      · intro _ kind header payload tree found
        rw [parts] at found
        cases found
      · intro _
        refine .inl ⟨?_, ?_⟩
        · rw [decode, parts, Option.bind_none]
        · rw [decodeFrame, parts, Option.bind_none]
  | some found =>
      obtain ⟨kind, header, payload⟩ := found
      have first := known kind (head_of_cut parts)
      constructor
      · intro agrees kind' header' payload' tree found parsed object
        rw [parts] at found
        cases found
        have shown : decodeFrame numbers bytes = some ⟨kind, tree.map numbers.jsRead, payload⟩ :=
          (decodeFrame_eq_some parts first).mpr ⟨tree, parsed, object, rfl⟩
        rcases agrees with ⟨-, rejects⟩ | ⟨frame, read, other, decoded, -, same, -⟩
        · rw [shown] at rejects
          cases rejects
        · rw [shown] at read
          cases read
          obtain ⟨tree', value, parsed', -, reads, traversed, rfl⟩ := (decode_eq_some parts).mp decoded
          rw [parsed] at parsed'
          cases parsed'
          exact ⟨reads, (Value.same_map_iff traversed).mp same⟩
      · intro alike
        cases decoded : decodeFrame numbers bytes with
        | none =>
            refine .inl ⟨?_, decoded⟩
            cases read : decode numbers bytes with
            | none => rfl
            | some frame =>
                obtain ⟨tree, value, parsed, object, -⟩ := (decode_eq_some parts).mp read
                rw [(decodeFrame_eq_some parts first).mpr ⟨tree, parsed, object, rfl⟩] at decoded
                cases decoded
        | some frame =>
            obtain ⟨tree, parsed, object, rfl⟩ := (decodeFrame_eq_some parts first).mp decoded
            obtain ⟨reads, literals⟩ := alike kind header payload tree parts parsed object
            obtain ⟨value, traversed⟩ := Option.isSome_iff_exists.mp reads.range
            exact .inr ⟨_, decoded, ⟨kind, value, payload⟩,
              (decode_eq_some parts).mpr ⟨tree, value, parsed, object, reads, traversed, rfl⟩, rfl,
              (Value.same_map_iff traversed).mpr literals, rfl⟩

/-! ## Headers that are written -/

/-- The client's limits hold of a header, and its numbers survive every way they are written. -/
structure Portable (numbers : Numbers ν) (header : Value ν) : Prop where
  nested : nests recursionLimit header = true
  strings : unicode header = true
  numbers : ∀ number, header.Holds number →
    numbers.rustRead (numbers.rustWrite number) = some number ∧
      numbers.jsRead (numbers.rustWrite number) = number ∧
      numbers.rustRead (numbers.jsWrite number) = some number ∧
      numbers.jsRead (numbers.jsWrite number) = number

section written

variable {write : ν → Text} {header : Value ν} {kind : UInt8} {payload : ByteString}

/-- The bytes of a header whose numbers are written by `write`. -/
def headerBytes (write : ν → Text) (header : Value ν) : ByteString :=
  utf8 (String.ofList (render (header.map write)))

theorem roomTree_headerBytes (literal : ∀ number, isNumber (write number) = true) :
    roomTree (headerBytes write header) = some (header.map write) := by
  have parsed : parse (String.ofList (render (header.map write))).toList = some (header.map write) := by
    rw [String.toList_ofList, parse_render literal]
  rw [roomTree, headerBytes, textDecode_utf8 (noMark_of_parse parsed), parsed]

/-- The room reads a header back when the numbers survive. -/
theorem givesBack_decodeFrame_iff (literal : ∀ number, isNumber (write number) = true)
    (fits : (headerBytes write header).length ≤ maxHeaderBytes) (known : kind ∈ knownTypes)
    (object : isObject header = true) :
    GivesBack (decodeFrame numbers (layout kind (headerBytes write header) payload)) kind header
        payload ↔
      ∀ number, header.Holds number → numbers.jsRead (write number) = number := by
  have shown : decodeFrame numbers (layout kind (headerBytes write header) payload) =
      some ⟨kind, (header.map write).map numbers.jsRead, payload⟩ :=
    (decodeFrame_eq_some (cut_layout fits) known).mpr ⟨_, roomTree_headerBytes literal,
      by rw [isObject_map, object], rfl⟩
  rw [GivesBack, shown, ← Value.same_map_map_iff]
  constructor
  · rintro ⟨frame, same, -, gives, -⟩
    cases same
    exact gives
  · exact fun same => ⟨_, rfl, rfl, same, rfl⟩

/-- The client reads a header back within its limits, when the numbers survive. -/
theorem givesBack_decode_iff (literal : ∀ number, isNumber (write number) = true)
    (fits : (headerBytes write header).length ≤ maxHeaderBytes) (object : isObject header = true)
    (distinct : header.Distinct) :
    GivesBack (decode numbers (layout kind (headerBytes write header) payload)) kind header payload ↔
      nests recursionLimit header = true ∧ unicode header = true ∧
        ∀ number, header.Holds number → numbers.rustRead (write number) = some number := by
  have parts : cut (layout kind (headerBytes write header) payload) =
      some (kind, headerBytes write header, payload) := cut_layout fits
  have tree := @roomTree_headerBytes ν write header literal
  constructor
  · rintro ⟨frame, read, -, same, -⟩
    obtain ⟨found, value, parsed, -, reads, traversed, rfl⟩ := (decode_eq_some parts).mp read
    rw [tree] at parsed
    cases parsed
    refine ⟨?_, ?_, Value.survives_of_same traversed same⟩
    · rw [← nests_map]
      exact reads.nested
    · rw [← unicode_map]
      exact reads.strings
  · rintro ⟨nested, strings, survives⟩
    have traversed := Value.traverse_map distinct survives
    have parsed : parse (String.ofList (render (header.map write))).toList =
        some (header.map write) := by
      rw [String.toList_ofList, parse_render literal]
    have reads : ClientReads numbers (headerBytes write header) (header.map write) :=
      { text := by rw [headerBytes, fromUtf8_eq_some.mpr rfl]; rfl
        noMark := noMark_of_parse parsed
        nested := by rwa [nests_map]
        strings := by rwa [unicode_map]
        range := by rw [traversed]; rfl }
    exact ⟨⟨kind, header, payload⟩, (decode_eq_some parts).mpr
      ⟨_, header, tree, by rwa [isObject_map], reads, traversed, rfl⟩, rfl, fun _ => rfl, rfl⟩

end written

theorem roundTrips_iff {kind : UInt8} {header : Value ν} {payload : ByteString}
    (known : kind ∈ knownTypes) (object : isObject header = true) (distinct : header.Distinct)
    (rustFits : (toVec numbers header).length ≤ maxHeaderBytes)
    (tsFits : (stringify numbers header).length ≤ maxHeaderBytes) :
    RoundTrips numbers kind header payload ↔ Portable numbers header := by
  have rustRust := @givesBack_decode_iff ν numbers numbers.rustWrite header kind payload
    numbers.rustLiteral rustFits object distinct
  have rustTs := @givesBack_decodeFrame_iff ν numbers numbers.rustWrite header kind payload
    numbers.rustLiteral rustFits known object
  have tsRust := @givesBack_decode_iff ν numbers numbers.jsWrite header kind payload
    numbers.jsLiteral tsFits object distinct
  have tsTs := @givesBack_decodeFrame_iff ν numbers numbers.jsWrite header kind payload
    numbers.jsLiteral tsFits known object
  constructor
  · intro trips
    obtain ⟨nested, strings, tsNumbers⟩ := tsRust.mp trips.tsRust
    obtain ⟨-, -, rustNumbers⟩ := rustRust.mp (trips.rustRust strings)
    exact ⟨nested, strings, fun number held => ⟨rustNumbers number held,
      rustTs.mp (trips.rustTs strings) number held, tsNumbers number held,
      tsTs.mp trips.tsTs number held⟩⟩
  · intro portable
    have numbersOf := portable.numbers
    exact
      { rustRust := fun _ => rustRust.mpr ⟨portable.nested, portable.strings,
          fun number held => (numbersOf number held).1⟩
        rustTs := fun _ => rustTs.mpr fun number held => (numbersOf number held).2.1
        tsRust := tsRust.mpr ⟨portable.nested, portable.strings,
          fun number held => (numbersOf number held).2.2.1⟩
        tsTs := tsTs.mpr fun number held => (numbersOf number held).2.2.2 }

theorem one_format_iff (numbers : Numbers ν) :
    (∀ kind header payload, kind ∈ knownTypes → isObject header = true → header.Distinct →
      (toVec numbers header).length ≤ maxHeaderBytes →
      (stringify numbers header).length ≤ maxHeaderBytes →
      (RoundTrips numbers kind header payload ↔ Portable numbers header)) ∧
    ∀ bytes : ByteString, (∀ kind ∈ bytes.head?, kind ∈ knownTypes) →
      (Agrees numbers bytes ↔ ReadsAlike numbers bytes) :=
  ⟨fun _ _ _ known object distinct rustFits tsFits =>
    roundTrips_iff known object distinct rustFits tsFits, fun _ known => agrees_iff known⟩

/-! ## Headers of one digit -/

def readDigit : Text → Option (Fin 10)
  | [c] => if c.isDigit then some (Fin.ofNat 10 (c.toNat - 48)) else none
  | _ => none

/-- Numbers of one digit, which both programs write and read alike. -/
def digits : Numbers (Fin 10) where
  rustWrite digit := [Nat.digitChar digit.val]
  rustRead := readDigit
  jsWrite digit := [Nat.digitChar digit.val]
  jsRead literal := (readDigit literal).getD 0
  rustLiteral := by decide
  jsLiteral := by decide

/-- The header `"seq":7`. -/
def seqHeader : Value (Fin 10) := .object [([0x73, 0x65, 0x71], .number 7)]

theorem distinct_seqHeader : seqHeader.Distinct := by
  apply Value.distinct_object (by decide)
  intro entry among
  rw [List.mem_singleton.mp among]
  exact Value.distinct_number 7

theorem portable_seqHeader : Portable digits seqHeader where
  nested := by decide
  strings := by decide
  numbers := by
    have table : ∀ number, digits.rustRead (digits.rustWrite number) = some number ∧
        digits.jsRead (digits.rustWrite number) = number ∧
        digits.rustRead (digits.jsWrite number) = some number ∧
        digits.jsRead (digits.jsWrite number) = number := by decide
    exact fun number _ => table number

theorem one_format_iff_seq :
    RoundTrips digits 0x04 seqHeader [1, 2] ∧
      (Agrees digits (encode digits 0x04 seqHeader [1, 2]) ↔
        ReadsAlike digits (encode digits 0x04 seqHeader [1, 2])) :=
  ⟨((one_format_iff digits).1 0x04 seqHeader [1, 2] (by decide) rfl distinct_seqHeader
      (by decide) (by decide)).mpr portable_seqHeader,
    (one_format_iff digits).2 _ (by decide +kernel)⟩

/-- A byte order mark before an empty header. -/
theorem not_one_format :
    ¬((∀ kind header payload, kind ∈ knownTypes → isObject header = true → header.Distinct →
        (toVec digits header).length ≤ maxHeaderBytes →
        (stringify digits header).length ≤ maxHeaderBytes →
        RoundTrips digits kind header payload) ∧
      ∀ bytes : ByteString, (∀ kind ∈ bytes.head?, kind ∈ knownTypes) → Agrees digits bytes) := by
  rintro ⟨-, agrees⟩
  have room : (decodeFrame digits [0x09, 5, 0, 0, 0, 0xEF, 0xBB, 0xBF, 0x7B, 0x7D]).isSome = true := by
    decide
  have client : (decode digits [0x09, 5, 0, 0, 0, 0xEF, 0xBB, 0xBF, 0x7B, 0x7D]).isSome = false := by
    decide
  rcases agrees [0x09, 5, 0, 0, 0, 0xEF, 0xBB, 0xBF, 0x7B, 0x7D] (by decide +kernel) with
    ⟨-, rejects⟩ | ⟨frame, -, other, reads, -⟩
  · rw [rejects] at room
    cases room
  · rw [reads] at client
    cases client

end Zeron.Frames
