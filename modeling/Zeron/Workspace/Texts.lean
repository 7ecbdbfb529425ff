import Zeron.Data.ByteOrder

namespace Zeron.Workspace

open Zeron.Data

/-! # The text of a file and its bytes

Opening a file drops its byte-order mark and turns its line ends into LF; saving writes
both back from what the reader was told about the file.
-/

def maxEditableFileBytes : Nat := 1024 * 1024

inductive WorkspaceTextEncoding where
  | utf8
  | utf8Bom
  | binary
  | unsupported
deriving DecidableEq, Repr

inductive WorkspaceLineEnding where
  | none
  | lf
  | crlf
  | mixed
deriving DecidableEq, Repr

inductive WorkspaceReadOnlyReason where
  | binary
  | unsupportedEncoding
  | tooLarge
  | mixedLineEndings
deriving DecidableEq, Repr

structure WorkspaceFileText where
  text : Option String
  contentHash : Option String
  size : Nat
  encoding : WorkspaceTextEncoding
  lineEnding : Option WorkspaceLineEnding
  readOnlyReason : Option WorkspaceReadOnlyReason
deriving DecidableEq, Repr

inductive WorkspaceWritableEncoding where
  | utf8
  | utf8Bom
deriving DecidableEq, Repr

inductive WorkspaceWritableLineEnding where
  | lf
  | crlf
deriving DecidableEq, Repr

structure WriteWorkspaceFileRequest where
  text : String
  expectedContentHash : String
  encoding : WorkspaceWritableEncoding
  lineEnding : WorkspaceWritableLineEnding
deriving DecidableEq, Repr

inductive WorkspaceFilesError where
  | badParams (message : String)
  | unsupported (message : String)
  | io (message : String)
deriving DecidableEq, Repr

/-! ## Line ends -/

/-- The counters `crlf`, `lf` and `lone_cr`. -/
structure LineEnds where
  crlf : Nat
  lf : Nat
  loneCr : Nat
deriving DecidableEq, Repr

/-- One pass over text whose units may be bytes or characters. -/
def lineEnds {α : Type} [DecidableEq α] (cr lf : α) : List α → LineEnds
  | [] => ⟨0, 0, 0⟩
  | unit :: rest =>
      if unit = cr then
        match rest with
        | next :: later =>
            if next = lf then
              let counted := lineEnds cr lf later
              { counted with crlf := counted.crlf + 1 }
            else
              let counted := lineEnds cr lf (next :: later)
              { counted with loneCr := counted.loneCr + 1 }
        | [] => ⟨0, 0, 1⟩
      else
        let counted := lineEnds cr lf rest
        if unit = lf then { counted with lf := counted.lf + 1 } else counted

def LineEnds.ending (ends : LineEnds) : WorkspaceLineEnding :=
  if ends.loneCr = 0 then
    if ends.crlf = 0 then if ends.lf = 0 then .none else .lf
    else if ends.lf = 0 then .crlf
    else .mixed
  else .mixed

def detectLineEnding (bytes : List UInt8) : WorkspaceLineEnding :=
  (lineEnds 0x0d 0x0a bytes).ending

/-- `replace("\r\n", "\n")`. -/
def toLf : List Char → List Char
  | [] => []
  | char :: rest =>
      if char = '\r' then
        match rest with
        | next :: later => if next = '\n' then '\n' :: toLf later else '\r' :: toLf (next :: later)
        | [] => ['\r']
      else char :: toLf rest

/-- `replace('\n', "\r\n")`. -/
def toCrlf (chars : List Char) : List Char :=
  chars.flatMap fun char => if char = '\n' then ['\r', '\n'] else [char]

/-! ## Opening and saving -/

def byteOrderMark : List UInt8 := [0xef, 0xbb, 0xbf]

/-- `strip_prefix`. -/
def stripMark (bytes : List UInt8) : Option (List UInt8) :=
  if byteOrderMark.isPrefixOf bytes then some (bytes.drop byteOrderMark.length) else none

def classifyFileText (hashBytes : List UInt8 → String) (bytes : List UInt8) : WorkspaceFileText :=
  let contentHash := some (hashBytes bytes)
  let size := bytes.length
  if bytes.contains 0 then
    ⟨none, contentHash, size, .binary, none, some .binary⟩
  else
    let (encoding, source) := match stripMark bytes with
      | some source => (WorkspaceTextEncoding.utf8Bom, source)
      | none => (.utf8, bytes)
    match fromUtf8 source with
    | none => ⟨none, contentHash, size, .unsupported, none, some .unsupportedEncoding⟩
    | some source =>
        let lineEnding := detectLineEnding (utf8 source)
        let text := if lineEnding = .crlf then String.ofList (toLf source.toList) else source
        let readOnlyReason :=
          if maxEditableFileBytes < size then some .tooLarge
          else if lineEnding = .mixed then some .mixedLineEndings
          else none
        ⟨some text, contentHash, size, encoding, some lineEnding, readOnlyReason⟩

def encodeWriteText (request : WriteWorkspaceFileRequest) :
    Except WorkspaceFilesError (List UInt8) :=
  if request.text.toList.contains '\x00' then
    .error (.badParams "write text must not contain NUL bytes")
  else if request.text.toList.contains '\r' then
    .error (.badParams "write text must use normalized LF line endings")
  else if request.expectedContentHash = "" then
    .error (.badParams "expectedContentHash must not be empty")
  else
    let source := match request.lineEnding with
      | .lf => request.text
      | .crlf => String.ofList (toCrlf request.text.toList)
    let mark := match request.encoding with
      | .utf8 => []
      | .utf8Bom => byteOrderMark
    let bytes := mark ++ utf8 source
    if maxEditableFileBytes < bytes.length then
      .error (.unsupported s!"write exceeds the {maxEditableFileBytes}-byte editable limit")
    else .ok bytes

def validateWritableSource (bytes : List UInt8) : Except WorkspaceFilesError Unit :=
  if bytes.contains 0 then .error (.unsupported "binary files are not writable")
  else
    match fromUtf8 ((stripMark bytes).getD bytes) with
    | none => .error (.unsupported "unsupported text encoding is not writable")
    | some source =>
        if detectLineEnding (utf8 source) = .mixed then
          .error (.unsupported "mixed line endings are not writable")
        else .ok ()

/-! ## Characters and their bytes -/

theorem utf8_ofList (chars : List Char) :
    utf8 (String.ofList chars) = chars.flatMap String.utf8EncodeChar := by
  rw [utf8_eq_flatMap, String.toList_ofList]

/-- A byte below 0x80 stands for one character, alone. -/
theorem mem_utf8EncodeChar {c : Char} {byte : UInt8} (ascii : byte.toNat < 0x80)
    (member : byte ∈ String.utf8EncodeChar c) :
    c.toNat = byte.toNat ∧ String.utf8EncodeChar c = [byte] := by
  have high : ∀ lead digits, byte ∈ encoded lead digits → (∀ digit ∈ digits, digit < 64) →
      lead < 256 → lead = byte.toNat := by
    intro lead digits member small bound
    rcases List.mem_cons.mp member with rfl | member
    · rw [UInt8.toNat_ofNat']
      omega
    · obtain ⟨digit, among, rfl⟩ := List.mem_map.mp member
      have := small digit among
      rw [UInt8.toNat_ofNat'] at ascii
      omega
  rcases utf8EncodeChar_cases c with ⟨top, same⟩ | ⟨bottom, top, same⟩ | ⟨bottom, top, same⟩ |
    ⟨bottom, top, same⟩
  all_goals rw [same] at member ⊢
  · have equal := high _ _ member (by simp) (by omega)
    refine ⟨equal, ?_⟩
    rw [equal, encoded]
    simp
  all_goals
    have equal := high _ _ member (by simp; omega) (by omega)
    omega

theorem utf8EncodeChar_ne_nil (c : Char) : String.utf8EncodeChar c ≠ [] := by
  rcases utf8EncodeChar_cases c with ⟨-, same⟩ | ⟨-, -, same⟩ | ⟨-, -, same⟩ | ⟨-, -, same⟩
  all_goals
    rw [same]
    exact List.cons_ne_nil _ _

/-- The bytes of text have an ASCII byte exactly where the text has its character. -/
theorem contains_utf8 {chars : List Char} {byte : UInt8} {char : Char}
    (ascii : byte.toNat < 0x80) (same : String.utf8EncodeChar char = [byte]) :
    byte ∈ chars.flatMap String.utf8EncodeChar ↔ char ∈ chars := by
  constructor
  · intro member
    obtain ⟨other, among, member⟩ := List.mem_flatMap.mp member
    have value := (mem_utf8EncodeChar ascii member).1
    have own := (mem_utf8EncodeChar (c := char) ascii (by rw [same]; exact List.mem_singleton_self _)).1
    have equal : other = char := Char.toNat_inj.mp (value.trans own.symm)
    rw [← equal]
    exact among
  · intro member
    refine List.mem_flatMap.mpr ⟨char, member, ?_⟩
    rw [same]
    exact List.mem_singleton_self _

section units

variable {α : Type} [DecidableEq α] {cr lf : α}

@[simp] theorem lineEnds_crlf (cr lf : α) (rest : List α) :
    lineEnds cr lf (cr :: lf :: rest) =
      { lineEnds cr lf rest with crlf := (lineEnds cr lf rest).crlf + 1 } :=
  (if_pos rfl).trans (if_pos rfl)

theorem lineEnds_cr {next : α} (rest : List α) (apart : next ≠ lf) :
    lineEnds cr lf (cr :: next :: rest) =
      { lineEnds cr lf (next :: rest) with
        loneCr := (lineEnds cr lf (next :: rest)).loneCr + 1 } :=
  (if_pos rfl).trans (if_neg apart)

theorem lineEnds_lf (rest : List α) (apart : lf ≠ cr) :
    lineEnds cr lf (lf :: rest) =
      { lineEnds cr lf rest with lf := (lineEnds cr lf rest).lf + 1 } := by
  cases rest with
  | nil => exact (if_neg apart).trans (if_pos rfl)
  | cons next rest => exact (if_neg apart).trans (if_pos rfl)

theorem lineEnds_other {unit : α} (rest : List α) (notCr : unit ≠ cr) (notLf : unit ≠ lf) :
    lineEnds cr lf (unit :: rest) = lineEnds cr lf rest := by
  cases rest with
  | nil => exact (if_neg notCr).trans (if_neg notLf)
  | cons next rest => exact (if_neg notCr).trans (if_neg notLf)

theorem lineEnds_append {front : List α} (rest : List α) (noCr : cr ∉ front) (noLf : lf ∉ front) :
    lineEnds cr lf (front ++ rest) = lineEnds cr lf rest := by
  induction front with
  | nil => rfl
  | cons unit front ih =>
      rw [List.mem_cons, not_or] at noCr noLf
      rw [List.cons_append, lineEnds_other _ (Ne.symm noCr.1) (Ne.symm noLf.1)]
      exact ih noCr.2 noLf.2

end units

theorem notMem_utf8EncodeChar {c char : Char} {byte : UInt8} (ascii : byte.toNat < 0x80)
    (same : String.utf8EncodeChar char = [byte]) (apart : c ≠ char) :
    byte ∉ String.utf8EncodeChar c := by
  intro member
  have among := (@contains_utf8 [c] byte char ascii same).mp (by simpa using member)
  exact apart (List.mem_singleton.mp among).symm

/-- The line ends of a text are those of its bytes. -/
theorem lineEnds_utf8 (chars : List Char) :
    lineEnds (0x0d : UInt8) 0x0a (chars.flatMap String.utf8EncodeChar) =
      lineEnds '\r' '\n' chars := by
  induction chars using lineEnds.induct '\r' '\n' with
  | case1 => rfl
  | case2 later ih =>
      rw [lineEnds_crlf, ← ih]
      exact lineEnds_crlf _ _ _
  | case3 next later apart ih =>
      rw [lineEnds_cr later apart, ← ih]
      have absent := @notMem_utf8EncodeChar next '\n' 0x0a (by decide) rfl apart
      rw [List.flatMap_cons, List.flatMap_cons]
      obtain ⟨lead, digits, encoding⟩ := List.exists_cons_of_ne_nil (utf8EncodeChar_ne_nil next)
      rw [encoding] at absent ⊢
      apply lineEnds_cr
      intro same
      exact absent (same ▸ List.mem_cons_self)
  | case4 => rfl
  | case5 rest apart ih =>
      rw [lineEnds_lf rest apart, ← ih]
      exact lineEnds_lf _ (by decide)
  | case6 char rest notCr notLf ih =>
      rw [lineEnds_other rest notCr notLf, ← ih, List.flatMap_cons]
      apply lineEnds_append
      · exact notMem_utf8EncodeChar (by decide) rfl notCr
      · exact notMem_utf8EncodeChar (by decide) rfl notLf

/-! ## Line ends there and back -/

theorem toLf_crlf (later : List Char) : toLf ('\r' :: '\n' :: later) = '\n' :: toLf later := rfl

theorem toLf_cr {next : Char} (later : List Char) (apart : next ≠ '\n') :
    toLf ('\r' :: next :: later) = '\r' :: toLf (next :: later) := if_neg apart

theorem toLf_other {char : Char} (rest : List Char) (notCr : char ≠ '\r') :
    toLf (char :: rest) = char :: toLf rest := by
  cases rest with
  | nil => exact if_neg notCr
  | cons next rest => exact if_neg notCr

theorem toCrlf_cons (char : Char) (rest : List Char) :
    toCrlf (char :: rest) = (if char = '\n' then ['\r', '\n'] else [char]) ++ toCrlf rest := rfl

/-- Where every line ends in CRLF, nothing is lost. -/
theorem toCrlf_toLf {chars : List Char} (noLf : (lineEnds '\r' '\n' chars).lf = 0)
    (noCr : (lineEnds '\r' '\n' chars).loneCr = 0) : toCrlf (toLf chars) = chars := by
  induction chars using lineEnds.induct '\r' '\n' with
  | case1 => rfl
  | case2 later ih =>
      rw [lineEnds_crlf] at noLf noCr
      rw [toLf_crlf, toCrlf_cons, ih noLf noCr]
      rfl
  | case3 next later apart ih =>
      rw [lineEnds_cr later apart] at noCr
      cases noCr
  | case4 => cases noCr
  | case5 rest apart ih =>
      rw [lineEnds_lf rest apart] at noLf
      cases noLf
  | case6 char rest notCr notLf ih =>
      rw [lineEnds_other rest notCr notLf] at noLf noCr
      rw [toLf_other rest notCr, toCrlf_cons, if_neg notLf, ih noLf noCr]
      rfl

theorem mem_toLf {char : Char} {chars : List Char} (member : char ∈ toLf chars) :
    char ∈ chars := by
  induction chars using lineEnds.induct '\r' '\n' with
  | case1 => exact member
  | case2 later ih =>
      rw [toLf_crlf, List.mem_cons] at member
      simp only [List.mem_cons]
      exact .inr (member.imp_right ih)
  | case3 next later apart ih =>
      rw [toLf_cr later apart, List.mem_cons] at member
      rw [List.mem_cons]
      exact member.imp_right ih
  | case4 => exact member
  | case5 rest apart ih =>
      rw [toLf_other rest apart, List.mem_cons] at member
      exact List.mem_cons.mpr (member.imp_right ih)
  | case6 char rest notCr notLf ih =>
      rw [toLf_other rest notCr, List.mem_cons] at member
      exact List.mem_cons.mpr (member.imp_right ih)

theorem notMem_cr_toLf {chars : List Char} (noCr : (lineEnds '\r' '\n' chars).loneCr = 0) :
    '\r' ∉ toLf chars := by
  induction chars using lineEnds.induct '\r' '\n' with
  | case1 => exact List.not_mem_nil
  | case2 later ih =>
      rw [lineEnds_crlf] at noCr
      rw [toLf_crlf, List.mem_cons, not_or]
      exact ⟨by decide, ih noCr⟩
  | case3 next later apart ih =>
      rw [lineEnds_cr later apart] at noCr
      cases noCr
  | case4 => cases noCr
  | case5 rest apart ih =>
      rw [lineEnds_lf rest apart] at noCr
      rw [toLf_other rest apart, List.mem_cons, not_or]
      exact ⟨by decide, ih noCr⟩
  | case6 char rest notCr notLf ih =>
      rw [lineEnds_other rest notCr notLf] at noCr
      rw [toLf_other rest notCr, List.mem_cons, not_or]
      exact ⟨Ne.symm notCr, ih noCr⟩

theorem notMem_cr {chars : List Char} (noCrlf : (lineEnds '\r' '\n' chars).crlf = 0)
    (noCr : (lineEnds '\r' '\n' chars).loneCr = 0) : '\r' ∉ chars := by
  induction chars using lineEnds.induct '\r' '\n' with
  | case1 => exact List.not_mem_nil
  | case2 later ih =>
      rw [lineEnds_crlf] at noCrlf
      cases noCrlf
  | case3 next later apart ih =>
      rw [lineEnds_cr later apart] at noCr
      cases noCr
  | case4 => cases noCr
  | case5 rest apart ih =>
      rw [lineEnds_lf rest apart] at noCrlf noCr
      rw [List.mem_cons, not_or]
      exact ⟨by decide, ih noCrlf noCr⟩
  | case6 char rest notCr notLf ih =>
      rw [lineEnds_other rest notCr notLf] at noCrlf noCr
      rw [List.mem_cons, not_or]
      exact ⟨Ne.symm notCr, ih noCrlf noCr⟩

/-- Text without CR has only LF line ends, and as many CRLF ones once it is saved with them. -/
theorem lineEnds_normal {chars : List Char} (normal : '\r' ∉ chars) :
    lineEnds '\r' '\n' chars = ⟨0, chars.count '\n', 0⟩ ∧
      lineEnds '\r' '\n' (toCrlf chars) = ⟨chars.count '\n', 0, 0⟩ ∧
      toLf (toCrlf chars) = chars := by
  induction chars with
  | nil => exact ⟨rfl, rfl, rfl⟩
  | cons char rest ih =>
      rw [List.mem_cons, not_or] at normal
      obtain ⟨plain, saved, back⟩ := ih normal.2
      have notCr : char ≠ '\r' := Ne.symm normal.1
      rw [toCrlf_cons]
      by_cases isLf : char = '\n'
      · subst isLf
        rw [if_pos rfl, List.cons_append, List.singleton_append, lineEnds_lf rest (by decide), plain,
          lineEnds_crlf, saved, List.count_cons_self]
        refine ⟨rfl, rfl, ?_⟩
        rw [toLf_crlf, back]
      · rw [if_neg isLf, List.singleton_append, lineEnds_other rest notCr isLf, plain,
          lineEnds_other _ notCr isLf, saved, List.count_cons_of_ne isLf, toLf_other _ notCr, back]
        exact ⟨rfl, rfl, rfl⟩

theorem mem_toCrlf {char : Char} {chars : List Char} (member : char ∈ toCrlf chars) :
    char = '\r' ∨ char ∈ chars := by
  obtain ⟨source, among, member⟩ := List.mem_flatMap.mp member
  split at member
  next isLf =>
      subst isLf
      rcases List.mem_cons.mp member with rfl | isLf
      · exact .inl rfl
      · rw [List.mem_singleton.mp isLf]
        exact .inr among
  next =>
      rw [List.mem_singleton.mp member]
      exact .inr among

/-! ## The byte-order mark -/

@[simp] theorem stripMark_append (bytes : List UInt8) :
    stripMark (byteOrderMark ++ bytes) = some bytes := by
  rw [stripMark, if_pos (List.isPrefixOf_iff_prefix.mpr (List.prefix_append _ _)), List.drop_left]

theorem stripMark_eq_some {bytes source : List UInt8} (stripped : stripMark bytes = some source) :
    bytes = byteOrderMark ++ source := by
  obtain ⟨marked, same⟩ := Option.ite_none_right_eq_some.mp stripped
  obtain ⟨rest, whole⟩ := List.isPrefixOf_iff_prefix.mp marked
  rw [← whole, List.drop_left] at same
  rw [← whole, Option.some.inj same]

/-- Only U+FEFF begins as the mark does. -/
theorem utf8EncodeChar_mark {c : Char} {rest source : List UInt8}
    (marked : String.utf8EncodeChar c ++ rest = byteOrderMark ++ source) : c = '\uFEFF' := by
  have toNat : ∀ value, value < 256 → (UInt8.ofNat value).toNat = value := by
    intro value bound
    rw [UInt8.toNat_ofNat']
    omega
  apply Char.toNat_inj.mp
  change c.toNat = 65279
  rcases utf8EncodeChar_cases c with ⟨top, same⟩ | ⟨bottom, top, same⟩ | ⟨bottom, top, same⟩ |
    ⟨bottom, top, same⟩
  all_goals
    rw [same, encoded] at marked
    have lead := congrArg UInt8.toNat (List.cons.inj marked).1
    rw [toNat _ (by omega)] at lead
    have mark : (0xef : UInt8).toNat = 239 := rfl
  · omega
  · omega
  · have tail := (List.cons.inj marked).2
    simp only [List.map_cons, List.map_nil] at tail
    have second := congrArg UInt8.toNat (List.cons.inj tail).1
    have third := congrArg UInt8.toNat (List.cons.inj (List.cons.inj tail).2).1
    rw [toNat _ (by omega)] at second third
    have secondMark : (0xbb : UInt8).toNat = 187 := rfl
    have thirdMark : (0xbf : UInt8).toNat = 191 := rfl
    omega
  · omega

theorem stripMark_utf8_eq_none {text : String} (plain : text.toList.head? ≠ some '\uFEFF') :
    stripMark (utf8 text) = none := by
  cases stripped : stripMark (utf8 text) with
  | none => rfl
  | some source =>
      have whole := stripMark_eq_some stripped
      rw [utf8_eq_flatMap] at whole
      cases chars : text.toList with
      | nil =>
          rw [chars] at whole
          cases whole
      | cons char rest =>
          rw [chars, List.flatMap_cons] at whole
          rw [chars, utf8EncodeChar_mark whole] at plain
          exact absurd rfl plain

/-- The mark is what U+FEFF is encoded to. -/
theorem utf8_mark {text : String} (marked : text.toList.head? = some '\uFEFF') :
    utf8 text = byteOrderMark ++ utf8 (String.ofList text.toList.tail) := by
  rw [utf8_ofList, utf8_eq_flatMap]
  cases chars : text.toList with
  | nil =>
      rw [chars] at marked
      cases marked
  | cons char rest =>
      rw [chars, List.head?_cons] at marked
      cases marked
      rfl

/-! ## Opening what was saved, saving what was opened -/

def WorkspaceWritableEncoding.opened : WorkspaceWritableEncoding → WorkspaceTextEncoding
  | .utf8 => .utf8
  | .utf8Bom => .utf8Bom

def WorkspaceWritableLineEnding.opened : WorkspaceWritableLineEnding → WorkspaceLineEnding
  | .lf => .lf
  | .crlf => .crlf

/-- LF where there is no line break; a mixture is not writable. -/
def WorkspaceLineEnding.writable : WorkspaceLineEnding → Option WorkspaceWritableLineEnding
  | .none => some .lf
  | .lf => some .lf
  | .crlf => some .crlf
  | .mixed => .none

def WorkspaceWritableEncoding.mark : WorkspaceWritableEncoding → List UInt8
  | .utf8 => []
  | .utf8Bom => byteOrderMark

/-- The text with the line ends it is saved with. -/
def WorkspaceWritableLineEnding.write (text : String) : WorkspaceWritableLineEnding → String
  | .lf => text
  | .crlf => String.ofList (toCrlf text.toList)

/-- Saving an editable file as it was opened writes the bytes it had. -/
def SavesBack (hashBytes : List UInt8 → String) (bytes : List UInt8) : Prop :=
  (classifyFileText hashBytes bytes).readOnlyReason = none →
    ∃ text encoding ending lineEnding,
      (classifyFileText hashBytes bytes).text = some text ∧
      (classifyFileText hashBytes bytes).encoding = encoding.opened ∧
      (classifyFileText hashBytes bytes).lineEnding = some ending ∧
      ending.writable = some lineEnding ∧
      ∀ expected, expected ≠ "" → encodeWriteText ⟨text, expected, encoding, lineEnding⟩ = .ok bytes

/-- The saved bytes open as what was saved. -/
def Reopens (hashBytes : List UInt8 → String) (request : WriteWorkspaceFileRequest)
    (bytes : List UInt8) : Prop :=
  (classifyFileText hashBytes bytes).readOnlyReason = none ∧
    (classifyFileText hashBytes bytes).text = some request.text ∧
    (classifyFileText hashBytes bytes).encoding = request.encoding.opened ∧
    ('\n' ∈ request.text.toList →
      (classifyFileText hashBytes bytes).lineEnding = some request.lineEnding.opened)

/-- A text of plain UTF-8 whose first character is U+FEFF. -/
def WriteWorkspaceFileRequest.Marked (request : WriteWorkspaceFileRequest) : Prop :=
  request.encoding = .utf8 ∧ request.text.toList.head? = some '\uFEFF'

section files

variable {hashBytes : List UInt8 → String} {bytes source : List UInt8} {text : String}
  {request : WriteWorkspaceFileRequest}

theorem nul_mem_utf8 {text : String} : (0 : UInt8) ∈ utf8 text ↔ '\x00' ∈ text.toList := by
  rw [utf8_eq_flatMap]
  exact contains_utf8 (by decide) rfl

theorem detectLineEnding_utf8 (text : String) :
    detectLineEnding (utf8 text) = (lineEnds '\r' '\n' text.toList).ending := by
  rw [detectLineEnding, utf8_eq_flatMap, lineEnds_utf8]

/-- What a file without NUL bytes is opened as, with its mark apart from its text. -/
theorem classifyFileText_text (encoding : WorkspaceWritableEncoding) (nul : 0 ∉ bytes)
    (whole : bytes = encoding.mark ++ utf8 text)
    (plain : encoding = .utf8 → stripMark bytes = none) :
    classifyFileText hashBytes bytes =
      ⟨some (if (lineEnds '\r' '\n' text.toList).ending = .crlf then
          String.ofList (toLf text.toList) else text),
        some (hashBytes bytes), bytes.length, encoding.opened,
        some (lineEnds '\r' '\n' text.toList).ending,
        if maxEditableFileBytes < bytes.length then some .tooLarge
        else if (lineEnds '\r' '\n' text.toList).ending = .mixed then some .mixedLineEndings
        else none⟩ := by
  have read : fromUtf8 (utf8 text) = some text := fromUtf8_eq_some.mpr rfl
  have absent : bytes.contains 0 = false := by
    rw [← Bool.not_eq_true, List.contains_iff_mem]
    exact nul
  unfold classifyFileText
  rw [absent]
  cases encoding with
  | utf8 =>
      rw [plain rfl]
      have same : bytes = utf8 text := whole
      simp only [Bool.false_eq_true, if_false, same, read, detectLineEnding_utf8]
      rfl
  | utf8Bom =>
      have stripped : stripMark bytes = some (utf8 text) := by
        rw [whole]
        exact stripMark_append _
      rw [stripped]
      simp only [Bool.false_eq_true, if_false, read, detectLineEnding_utf8]
      rfl

/-- An editable file is a mark, or none, and text. -/
theorem classifyFileText_editable
    (editable : (classifyFileText hashBytes bytes).readOnlyReason = none) :
    0 ∉ bytes ∧ ∃ encoding : WorkspaceWritableEncoding, ∃ text,
      bytes = encoding.mark ++ utf8 text ∧ (encoding = .utf8 → stripMark bytes = none) := by
  unfold classifyFileText at editable
  by_cases nul : bytes.contains 0 = true
  · rw [if_pos nul] at editable
    cases editable
  · rw [if_neg nul] at editable
    rw [List.contains_iff_mem] at nul
    refine ⟨nul, ?_⟩
    cases stripped : stripMark bytes with
    | some source =>
        rw [stripped] at editable
        cases read : fromUtf8 source with
        | none =>
            simp only [read] at editable
            cases editable
        | some text =>
            refine ⟨.utf8Bom, text, ?_, fun impossible => by cases impossible⟩
            rw [stripMark_eq_some stripped, fromUtf8_eq_some.mp read]
            rfl
    | none =>
        rw [stripped] at editable
        cases read : fromUtf8 bytes with
        | none =>
            simp only [read] at editable
            cases editable
        | some text => exact ⟨.utf8, text, fromUtf8_eq_some.mp read, fun _ => rfl⟩

/-- What an accepted request says and what it writes. -/
theorem encodeWriteText_ok :
    encodeWriteText request = .ok bytes ↔
      '\x00' ∉ request.text.toList ∧ '\r' ∉ request.text.toList ∧
      request.expectedContentHash ≠ "" ∧ bytes.length ≤ maxEditableFileBytes ∧
      bytes = request.encoding.mark ++ utf8 (request.lineEnding.write request.text) := by
  have written : encodeWriteText request =
      if request.text.toList.contains '\x00' then
        .error (.badParams "write text must not contain NUL bytes")
      else if request.text.toList.contains '\r' then
        .error (.badParams "write text must use normalized LF line endings")
      else if request.expectedContentHash = "" then
        .error (.badParams "expectedContentHash must not be empty")
      else if maxEditableFileBytes <
          (request.encoding.mark ++ utf8 (request.lineEnding.write request.text)).length then
        .error (.unsupported s!"write exceeds the {maxEditableFileBytes}-byte editable limit")
      else .ok (request.encoding.mark ++ utf8 (request.lineEnding.write request.text)) := by
    unfold encodeWriteText
    cases request.encoding <;> cases request.lineEnding <;> rfl
  rw [written]
  by_cases nul : '\x00' ∈ request.text.toList
  · simp [nul]
  · by_cases cr : '\r' ∈ request.text.toList
    · simp [nul, cr]
    · by_cases hash : request.expectedContentHash = ""
      · simp [nul, cr, hash]
      · simp only [List.contains_iff_mem, nul, cr, hash, if_false, not_false_eq_true, true_and, ne_eq]
        constructor
        · intro accepted
          split at accepted
          · cases accepted
          next fits =>
              cases accepted
              exact ⟨Nat.not_lt.mp fits, rfl⟩
        · intro ⟨fits, same⟩
          subst same
          rw [if_neg (Nat.not_lt.mpr fits)]

/-- What the line ends of an editable text are turned into, and back. -/
theorem ending_cases (chars : List Char) :
    let ends := lineEnds '\r' '\n' chars
    (ends.ending = .crlf ∧ ends.lf = 0 ∧ ends.loneCr = 0) ∨
    ((ends.ending = .none ∨ ends.ending = .lf) ∧ ends.crlf = 0 ∧ ends.loneCr = 0) ∨
    ends.ending = .mixed := by
  intro ends
  unfold LineEnds.ending
  by_cases cr : ends.loneCr = 0
  · by_cases crlf : ends.crlf = 0
    · by_cases lf : ends.lf = 0
      · simp [cr, crlf, lf]
      · simp [cr, crlf, lf]
    · by_cases lf : ends.lf = 0
      · simp [cr, crlf, lf]
      · simp [cr, crlf, lf]
  · simp [cr]

theorem savesBack (bytes : List UInt8) : SavesBack hashBytes bytes := by
  intro editable
  obtain ⟨nul, encoding, text, whole, plain⟩ := classifyFileText_editable editable
  have opened := @classifyFileText_text hashBytes bytes text encoding nul whole plain
  rw [opened] at editable ⊢
  have fits : bytes.length ≤ maxEditableFileBytes := by
    by_contra large
    simp only [if_pos (Nat.lt_of_not_le large)] at editable
    cases editable
  have pure : (lineEnds '\r' '\n' text.toList).ending ≠ .mixed := by
    intro mixed
    simp only [if_neg (Nat.not_lt.mpr fits), if_pos mixed] at editable
    cases editable
  have noNul : '\x00' ∉ text.toList := by
    intro member
    apply nul
    rw [whole]
    exact List.mem_append_right _ (nul_mem_utf8.mpr member)
  rcases ending_cases text.toList with ⟨crlf, noLf, noCr⟩ | ⟨ending, noCrlf, noCr⟩ | mixed
  · refine ⟨_, encoding, _, .crlf, rfl, rfl, rfl, ?_, fun expected present => ?_⟩
    · rw [crlf]
      rfl
    · rw [if_pos crlf]
      apply encodeWriteText_ok.mpr
      rw [String.toList_ofList]
      refine ⟨fun member => noNul (mem_toLf member), notMem_cr_toLf noCr, present, fits, ?_⟩
      rw [whole, WorkspaceWritableLineEnding.write, String.toList_ofList, toCrlf_toLf noLf noCr,
        String.ofList_toList]
  · have notCrlf : (lineEnds '\r' '\n' text.toList).ending ≠ .crlf := by
      rcases ending with none | lf
      · rw [none]
        decide
      · rw [lf]
        decide
    refine ⟨_, encoding, _, .lf, rfl, rfl, rfl, ?_, fun expected present => ?_⟩
    · rcases ending with none | lf
      · rw [none]
        rfl
      · rw [lf]
        rfl
    · rw [if_neg notCrlf]
      exact encodeWriteText_ok.mpr ⟨noNul, notMem_cr noCrlf noCr, present, fits, whole⟩
  · exact absurd mixed pure

/-- Saved bytes have no NUL, and their own text behind the mark. -/
theorem nul_notMem (encoding : WorkspaceWritableEncoding) (noNul : '\x00' ∉ text.toList) :
    0 ∉ encoding.mark ++ utf8 text := by
  rw [List.mem_append, not_or, nul_mem_utf8]
  refine ⟨?_, noNul⟩
  cases encoding <;> decide

theorem toCrlf_eq_self {chars : List Char} (single : '\n' ∉ chars) : toCrlf chars = chars := by
  induction chars with
  | nil => rfl
  | cons char rest ih =>
      rw [List.mem_cons, not_or] at single
      rw [toCrlf_cons, if_neg (Ne.symm single.1), ih single.2]
      rfl

/-- The line ends of a saved text. -/
theorem write_ending (lineEnding : WorkspaceWritableLineEnding) (normal : '\r' ∉ text.toList) :
    (lineEnds '\r' '\n' (lineEnding.write text).toList).ending =
      if '\n' ∈ text.toList then lineEnding.opened else .none := by
  obtain ⟨plain, saved, -⟩ := lineEnds_normal normal
  by_cases broken : '\n' ∈ text.toList
  · have many : text.toList.count '\n' ≠ 0 := fun none => List.count_eq_zero.mp none broken
    rw [if_pos broken]
    cases lineEnding with
    | lf =>
        rw [WorkspaceWritableLineEnding.write, plain, LineEnds.ending, if_pos rfl, if_pos rfl,
          if_neg many]
        rfl
    | crlf =>
        rw [WorkspaceWritableLineEnding.write, String.toList_ofList, saved, LineEnds.ending,
          if_pos rfl, if_neg many, if_pos rfl]
        rfl
  · rw [if_neg broken]
    rw [List.count_eq_zero.mpr broken] at plain saved
    cases lineEnding with
    | lf =>
        rw [WorkspaceWritableLineEnding.write, plain]
        rfl
    | crlf =>
        rw [WorkspaceWritableLineEnding.write, String.toList_ofList, saved]
        rfl

/-- A saved text is read back as it was. -/
theorem write_opened (lineEnding : WorkspaceWritableLineEnding) (normal : '\r' ∉ text.toList) :
    (if (if '\n' ∈ text.toList then lineEnding.opened else .none) = WorkspaceLineEnding.crlf then
        String.ofList (toLf (lineEnding.write text).toList)
      else lineEnding.write text) = text := by
  cases lineEnding with
  | lf =>
      rw [if_neg]
      · rfl
      · split <;> decide
  | crlf =>
      by_cases broken : '\n' ∈ text.toList
      · rw [if_pos broken, WorkspaceWritableLineEnding.opened, if_pos rfl,
          WorkspaceWritableLineEnding.write, String.toList_ofList, (lineEnds_normal normal).2.2,
          String.ofList_toList]
      · rw [if_neg broken, if_neg (by decide), WorkspaceWritableLineEnding.write,
          toCrlf_eq_self broken, String.ofList_toList]

/-- CRLF line ends leave the first character of a text, but where it is a line end. -/
theorem head?_write (lineEnding : WorkspaceWritableLineEnding) :
    (lineEnding.write text).toList.head? = some '\uFEFF' ↔ text.toList.head? = some '\uFEFF' := by
  cases lineEnding with
  | lf => rfl
  | crlf =>
      rw [WorkspaceWritableLineEnding.write, String.toList_ofList]
      cases text.toList with
      | nil => rfl
      | cons char rest =>
          rw [toCrlf_cons]
          by_cases isLf : char = '\n'
          · subst isLf
            simp
          · rw [if_neg isLf]
            rfl

theorem reopens_iff (accepted : encodeWriteText request = .ok bytes) :
    Reopens hashBytes request bytes ↔ ¬ request.Marked := by
  obtain ⟨noNul, noCr, -, fits, whole⟩ := encodeWriteText_ok.mp accepted
  have noNulWritten : '\x00' ∉ (request.lineEnding.write request.text).toList := by
    cases request.lineEnding with
    | lf => exact noNul
    | crlf =>
        rw [WorkspaceWritableLineEnding.write, String.toList_ofList]
        intro member
        rcases mem_toCrlf member with impossible | member
        · cases impossible
        · exact noNul member
  have nul : 0 ∉ bytes := by
    rw [whole]
    exact nul_notMem request.encoding noNulWritten
  constructor
  · -- The mark of a marked text is taken for the file's own.
    rintro ⟨-, -, encoding, -⟩ ⟨isUtf8, marked⟩
    have written : utf8 (request.lineEnding.write request.text) =
        byteOrderMark ++ utf8 (String.ofList (request.lineEnding.write request.text).toList.tail) :=
      utf8_mark ((head?_write request.lineEnding).mpr marked)
    rw [isUtf8, written] at whole
    rw [@classifyFileText_text hashBytes bytes _ .utf8Bom nul whole
      (fun impossible => by cases impossible), isUtf8] at encoding
    cases encoding
  · intro unmarked
    have plain : request.encoding = .utf8 → stripMark bytes = none := by
      intro isUtf8
      rw [isUtf8] at whole
      rw [whole]
      apply stripMark_utf8_eq_none
      intro marked
      exact unmarked ⟨isUtf8, (head?_write request.lineEnding).mp marked⟩
    have opened := @classifyFileText_text hashBytes bytes _ request.encoding nul whole plain
    rw [write_ending request.lineEnding noCr, write_opened request.lineEnding noCr,
      if_neg (Nat.not_lt.mpr fits)] at opened
    rw [Reopens, opened]
    refine ⟨if_neg ?_, rfl, rfl, fun broken => congrArg some (if_pos broken)⟩
    split
    · cases request.lineEnding <;> decide
    · decide

/-- Opening and saving a file is the identity, and so is saving and opening a text, but for a
text of plain UTF-8 that begins with U+FEFF: it opens as a marked file without it. -/
theorem save_identity (hashBytes : List UInt8 → String) :
    (∀ bytes, SavesBack hashBytes bytes) ∧
      ∀ request bytes, encodeWriteText request = .ok bytes →
        (Reopens hashBytes request bytes ↔ ¬ request.Marked) :=
  ⟨savesBack, fun _ _ => reopens_iff⟩

theorem save_identity_line :
    Reopens (fun _ => "") ⟨"a\n", "hash", .utf8Bom, .crlf⟩
      [0xef, 0xbb, 0xbf, 0x61, 0x0d, 0x0a] :=
  ((save_identity fun _ => "").2 _ _ (by decide)).mpr fun marked => by cases marked.1

/-- The text U+FEFF alone, saved as plain UTF-8. -/
theorem not_save_identity : ¬ ∀ hashBytes request bytes, encodeWriteText request = .ok bytes →
    Reopens hashBytes request bytes := by
  intro reopens
  have accepted : encodeWriteText ⟨"\uFEFF", "hash", .utf8, .lf⟩ = .ok [0xef, 0xbb, 0xbf] := by
    decide
  have opened := (reopens (fun _ => "") _ _ accepted).2.1
  revert opened
  decide

end files

end Zeron.Workspace
