import Zeron.Data.Offsets
import Zeron.Data.Packing
import Zeron.Transcript.Message

namespace Zeron.Doc

open Zeron.Data Zeron.Transcript

/-! # Splitting a message

A message beyond the inline limit is written as several entries.  Its parts are packed in
order, and a long text is cut into pieces at characters.
-/

def msgInlineMax : Nat := 256 * 1024

/-- The lengths of what `serde_json` writes. -/
structure Sizes (value : Type) where
  call : ToolCall value → Nat
  diff : ToolDiff → Nat
  diffStats : List ToolDiffStat → Nat
  questions : List UserInputQuestion → Nat

variable {value : Type}

/-- The id of a text or a reasoning part, its body, and whether it is reasoning. -/
def textBody : MessagePart value → Option (String × String × Bool)
  | .text id text => some (id, text, false)
  | .reasoning id text => some (id, text, true)
  | _ => none

/-- A piece of an oversized body. -/
def subPart (reasoning : Bool) (id : String) (piece : Nat) (body : String) : MessagePart value :=
  let subId := if piece = 0 then id else s!"{id}~{piece}"
  if reasoning then .reasoning subId body else .text subId body

/-- Where the piece from `start` ends. -/
def pieceEnd (text : List Char) (start : Nat) : Nat :=
  let finish := backOff text (min (start + msgInlineMax) (utf8Length text))
  -- Guard: ensure forward progress on pathological boundaries.
  if finish ≤ start then utf8Length text else finish

theorem lt_pieceEnd {text : List Char} {start : Nat} (more : start < utf8Length text) :
    start < pieceEnd text start := by
  unfold pieceEnd
  dsimp only
  split
  · exact more
  · omega

namespace Sizes

variable (sizes : Sizes value)

def byteLen : MessagePart value → Nat
  | .text _ text | .reasoning _ text => text.utf8ByteSize
  | .tool _ tool =>
      sizes.call tool.call + (tool.output.map String.utf8ByteSize).getD 0 +
        (tool.diff.map sizes.diff).getD 0 + (tool.diffStats.map sizes.diffStats).getD 0
  | .input _ _ questions _ => sizes.questions questions
  | .image id path name mimeType =>
      id.utf8ByteSize + path.utf8ByteSize + name.utf8ByteSize + mimeType.utf8ByteSize
  | .error _ message => message.utf8ByteSize
  | .fork _ sourceChatId sourceTitle => sourceChatId.utf8ByteSize + sourceTitle.utf8ByteSize

def pushPart (packing : Packing (MessagePart value)) (part : MessagePart value) :
    Packing (MessagePart value) :=
  packing.push sizes.byteLen msgInlineMax part

/-- The loop over an oversized body; none where a slice panics. -/
def splitText (reasoning : Bool) (id : String) (text : List Char) (start piece : Nat)
    (packing : Packing (MessagePart value)) : Option (Packing (MessagePart value)) :=
  if more : start < utf8Length text then
    (slice text start (pieceEnd text start)).bind fun body =>
      splitText reasoning id text (pieceEnd text start) (piece + 1)
        (sizes.pushPart packing (subPart reasoning id piece (String.ofList body)))
  else some packing
termination_by utf8Length text - start
decreasing_by
  have further := lt_pieceEnd more
  omega

/-- One round of the loop over the parts. -/
def splitPart (packing : Packing (MessagePart value)) (part : MessagePart value) :
    Option (Packing (MessagePart value)) :=
  match textBody part with
  | some (id, text, reasoning) =>
      if text.utf8ByteSize > msgInlineMax then
        sizes.splitText reasoning id text.toList 0 0 packing
      else some (sizes.pushPart packing part)
  | none => some (sizes.pushPart packing part)

def splitParts (parts : List (MessagePart value)) : Option (List (List (MessagePart value))) :=
  (parts.foldlM sizes.splitPart .empty).map Packing.chunks

end Sizes

def joinContinuations (entries : List (List (MessagePart value))) : List (MessagePart value) :=
  entries.flatten

/-! ## One piece -/

theorem msgInlineMax_large : 3 < msgInlineMax := by decide

/-- A piece is a whole number of characters, at least one and within the limit. -/
theorem pieceEnd_spec (front : List Char) {rest : List Char} (more : rest ≠ []) :
    ∃ body back, rest = body ++ back ∧ body ≠ [] ∧ utf8Length body ≤ msgInlineMax ∧
      pieceEnd (front ++ rest) (utf8Length front) = utf8Length front + utf8Length body := by
  have large := msgInlineMax_large
  have total := utf8Length_append front rest
  have positive : 0 < utf8Length rest := Nat.pos_of_ne_zero fun none => more (utf8Length_eq_zero.mp none)
  let limit := min (utf8Length front + msgInlineMax) (utf8Length (front ++ rest))
  have inside : limit ≤ utf8Length (front ++ rest) := min_le_right _ _
  have near := backOff_near inside
  have low := backOff_le (front ++ rest) limit
  have isStart : isCharBoundary (front ++ rest) (utf8Length front) = true :=
    isCharBoundary_iff.mpr ⟨front, rest, rfl, rfl⟩
  have beyond : utf8Length front < backOff (front ++ rest) limit := by
    by_cases whole : limit = utf8Length (front ++ rest)
    · rw [whole, backOff_of_boundary (isCharBoundary_length _)]
      omega
    · omega
  obtain ⟨upper, back, cut, size⟩ := isCharBoundary_iff.mp (isCharBoundary_backOff (front ++ rest) limit)
  have bothFronts := List.prefix_or_prefix_of_prefix (List.prefix_append front rest)
    (⟨back, cut.symm⟩ : upper <+: front ++ rest)
  obtain ⟨body, rfl⟩ : front <+: upper := by
    rcases bothFronts with longer | ⟨extra, rfl⟩
    · exact longer
    · rw [utf8Length_append] at beyond
      omega
  rw [List.append_assoc, List.append_cancel_left_eq] at cut
  rw [utf8Length_append] at size
  refine ⟨body, back, cut, ?_, ?_, ?_⟩
  · rintro rfl
    rw [utf8Length_eq_zero.mpr rfl] at size
    omega
  · have capped : limit ≤ utf8Length front + msgInlineMax := min_le_left _ _
    omega
  · change (if backOff (front ++ rest) limit ≤ utf8Length front then _ else _) = _
    rw [if_neg (by omega), ← size]

theorem textBody_subPart (reasoning : Bool) (id : String) (piece : Nat) (body : String) :
    ∃ subId, textBody (subPart reasoning id piece body : MessagePart value) =
      some (subId, body, reasoning) := by
  cases reasoning <;> exact ⟨_, rfl⟩

theorem Sizes.byteLen_of_textBody (sizes : Sizes value) {part : MessagePart value} {id text : String}
    {reasoning : Bool} (isBody : textBody part = some (id, text, reasoning)) :
    sizes.byteLen part = text.utf8ByteSize := by
  cases part <;> cases isBody <;> rfl

/-! ## What becomes of the parts -/

theorem exists_of_forall₂ {first second : Type} {related : first → second → Prop}
    {fronts : List first} {backs : List second} (all : List.Forall₂ related fronts backs)
    {back : second} (inside : back ∈ backs) : ∃ front ∈ fronts, related front back := by
  induction all with
  | nil => cases inside
  | @cons one other ones others holds _ ih =>
      rcases List.mem_cons.mp inside with rfl | later
      · exact ⟨one, List.mem_cons_self, holds⟩
      · obtain ⟨front, isFront, relates⟩ := ih later
        exact ⟨front, List.mem_cons_of_mem _ isFront, relates⟩


/-- The pieces of a body under their ids. -/
def piecesFrom (reasoning : Bool) (id : String) (piece : Nat) (bodies : List String) :
    List (MessagePart value) :=
  (bodies.zipIdx piece).map fun item => subPart reasoning id item.2 item.1

/-- A body within the limit that says something. -/
def IsPiece (body : String) : Prop := body ≠ "" ∧ body.utf8ByteSize ≤ msgInlineMax

/-- What stands in the entries for one part. -/
inductive Replacement : MessagePart value → List (MessagePart value) → Prop
  | whole {part : MessagePart value}
      (fits : ∀ id text reasoning, textBody part = some (id, text, reasoning) →
        text.utf8ByteSize ≤ msgInlineMax) :
      Replacement part [part]
  | pieces {part : MessagePart value} {id text : String} {reasoning : Bool}
      (isBody : textBody part = some (id, text, reasoning))
      (large : msgInlineMax < text.utf8ByteSize) {bodies : List String}
      (joined : String.join bodies = text) (short : ∀ body ∈ bodies, IsPiece body) :
      Replacement part (piecesFrom reasoning id 0 bodies)

theorem Replacement.ne_nil {part : MessagePart value} {stands : List (MessagePart value)}
    (replaces : Replacement part stands) : stands ≠ [] := by
  cases replaces with
  | whole => simp
  | @pieces id text reasoning isBody large bodies joined short =>
      intro nothing
      cases bodies with
      | nil =>
          rw [← joined, String.join_nil, String.utf8ByteSize_empty] at large
          omega
      | cons body bodies => cases nothing

/-- No body in the entries is beyond the limit. -/
theorem Replacement.short {part : MessagePart value} {stands : List (MessagePart value)}
    (replaces : Replacement part stands) {other : MessagePart value} (inside : other ∈ stands)
    {id text : String} {reasoning : Bool} (isBody : textBody other = some (id, text, reasoning)) :
    text.utf8ByteSize ≤ msgInlineMax := by
  cases replaces with
  | whole fits =>
      rw [List.mem_singleton.mp inside] at isBody
      exact fits id text reasoning isBody
  | pieces _ _ _ short =>
      obtain ⟨item, isItem, rfl⟩ := List.mem_map.mp inside
      obtain ⟨subId, isSub⟩ := textBody_subPart _ _ item.2 item.1
      rw [isSub] at isBody
      cases isBody
      exact (short item.1 (List.fst_mem_of_mem_zipIdx isItem)).2

namespace Sizes

variable {sizes : Sizes value} {packing : Packing (MessagePart value)}

abbrev Packed (sizes : Sizes value) (packing : Packing (MessagePart value)) : Prop :=
  Packing.Packed sizes.byteLen msgInlineMax packing

/-- The loop over a body cuts at characters and packs every piece. -/
theorem splitText_spec (reasoning : Bool) (id : String) (front rest : List Char) (piece : Nat)
    (packed : sizes.Packed packing) :
    ∃ final bodies,
      sizes.splitText reasoning id (front ++ rest) (utf8Length front) piece packing = some final ∧
      sizes.Packed final ∧ bodies.flatMap String.toList = rest ∧ (∀ body ∈ bodies, IsPiece body) ∧
      final.chunks.flatten = packing.chunks.flatten ++ piecesFrom reasoning id piece bodies := by
  induction count : rest.length using Nat.strong_induction_on generalizing front rest piece packing with
  | _ count ih =>
      by_cases finished : rest = []
      · refine ⟨packing, [], ?_, packed, ?_, by simp, ?_⟩
        · rw [splitText, dif_neg]
          rw [finished, List.append_nil]
          omega
        · rw [finished]
          rfl
        · exact (List.append_nil _).symm
      · obtain ⟨body, back, cut, nonempty, short, isEnd⟩ := pieceEnd_spec front finished
        have longer : 0 < body.length := List.length_pos_iff.mpr nonempty
        have counts := congrArg List.length cut
        rw [List.length_append] at counts
        have whole : front ++ rest = (front ++ body) ++ back := by rw [cut, List.append_assoc]
        obtain ⟨final, bodies, isFinal, packs, joins, pieces, flat⟩ :=
          ih back.length (by omega) (front ++ body) back (piece + 1)
            (packed.push (subPart reasoning id piece (String.ofList body))) rfl
        refine ⟨final, String.ofList body :: bodies, ?_, packs, ?_, ?_, ?_⟩
        · have more : utf8Length front < utf8Length (front ++ rest) := by
            have positive : utf8Length rest ≠ 0 := fun none => finished (utf8Length_eq_zero.mp none)
            rw [utf8Length_append]
            omega
          have sliced : slice (front ++ rest) (utf8Length front)
              (utf8Length front + utf8Length body) = some body :=
            slice_eq_some.mpr ⟨front, back, whole, rfl, rfl⟩
          rw [splitText, dif_pos more, isEnd, sliced, Option.bind_some, ← utf8Length_append, whole]
          exact isFinal
        · rw [List.flatMap_cons, joins, String.toList_ofList, cut]
        · intro other inside
          rcases List.mem_cons.mp inside with rfl | later
          · refine ⟨?_, ?_⟩
            · intro nothing
              exact nonempty (by simpa using congrArg String.toList nothing)
            · rw [← utf8Length_toList, String.toList_ofList]
              exact short
          · exact pieces other later
        · rw [flat, Packing.flatten_chunks_push, List.append_assoc]
          rfl

theorem splitPart_spec (packed : sizes.Packed packing) (part : MessagePart value) :
    ∃ final stands, sizes.splitPart packing part = some final ∧ sizes.Packed final ∧
      Replacement part stands ∧ final.chunks.flatten = packing.chunks.flatten ++ stands := by
  cases isBody : textBody part with
  | none =>
      refine ⟨_, [part], by rw [splitPart, isBody]; rfl, packed.push part, ?_, ?_⟩
      · apply Replacement.whole
        intro id text reasoning other
        rw [isBody] at other
        cases other
      · exact Packing.flatten_chunks_push part
  | some body =>
      obtain ⟨id, text, reasoning⟩ := body
      by_cases large : text.utf8ByteSize > msgInlineMax
      · obtain ⟨final, bodies, isFinal, packs, joins, short, flat⟩ :=
          splitText_spec reasoning id [] text.toList 0 packed
        refine ⟨final, _, ?_, packs, .pieces isBody large ?_ short, flat⟩
        · rw [splitPart, isBody]
          dsimp only
          rw [if_pos large]
          exact isFinal
        · apply String.toList_inj.mp
          rw [String.toList_join, joins]
      · refine ⟨_, [part], ?_, packed.push part, ?_, ?_⟩
        · rw [splitPart, isBody]
          dsimp only
          rw [if_neg large]
          rfl
        · apply Replacement.whole
          intro id' text' reasoning' other
          rw [isBody] at other
          cases other
          omega
        · exact Packing.flatten_chunks_push part

theorem foldlM_spec (sizes : Sizes value) (packed : sizes.Packed packing) (parts : List (MessagePart value)) :
    ∃ final stands, parts.foldlM sizes.splitPart packing = some final ∧ sizes.Packed final ∧
      List.Forall₂ Replacement parts stands ∧
      final.chunks.flatten = packing.chunks.flatten ++ stands.flatten := by
  induction parts generalizing packing with
  | nil => exact ⟨packing, [], rfl, packed, .nil, (List.append_nil _).symm⟩
  | cons part parts ih =>
      obtain ⟨next, stands, isNext, packs, replaces, flat⟩ := splitPart_spec packed part
      obtain ⟨final, others, isFinal, done, later, rest⟩ := ih packs
      refine ⟨final, stands :: others, ?_, done, .cons replaces later, ?_⟩
      · rw [List.foldlM_cons, isNext]
        exact isFinal
      · rw [rest, flat, List.append_assoc]
        rfl

/-- Splitting ends, loses nothing and stays within the limit. -/
theorem splitParts_lossless (sizes : Sizes value) (parts : List (MessagePart value)) :
    ∃ chunks stands, sizes.splitParts parts = some chunks ∧
      List.Forall₂ Replacement parts stands ∧ joinContinuations chunks = stands.flatten ∧
      (∀ chunk ∈ chunks, (chunk.map sizes.byteLen).sum ≤ msgInlineMax ∨
        ∃ part, chunk.filter (fun part => 0 < sizes.byteLen part) = [part] ∧
          msgInlineMax < sizes.byteLen part ∧ textBody part = none) ∧
      ∀ index, chunks[index]? = some [] → index = 0 ∧ parts = [] := by
  obtain ⟨final, stands, isFinal, packed, replaces, flat⟩ :=
    sizes.foldlM_spec Packing.packed_empty parts
  replace flat : final.chunks.flatten = stands.flatten := flat
  refine ⟨final.chunks, stands, by rw [splitParts, isFinal]; rfl, replaces, flat, ?_, ?_⟩
  · intro chunk isChunk
    rcases packed.bounded chunk isChunk with within | ⟨part, alone, beyond⟩
    · exact .inl within
    · refine .inr ⟨part, alone, beyond, ?_⟩
      have isPart : part ∈ chunk := (List.mem_filter.mp (alone ▸ List.mem_singleton_self part)).1
      have written : part ∈ stands.flatten := flat ▸ List.mem_flatten.mpr ⟨chunk, isChunk, isPart⟩
      obtain ⟨stand, isStand, inStand⟩ := List.mem_flatten.mp written
      cases isBody : textBody part with
      | none => rfl
      | some body =>
          obtain ⟨source, _, came⟩ := exists_of_forall₂ replaces isStand
          have short := came.short inStand isBody
          rw [sizes.byteLen_of_textBody isBody] at beyond
          omega
  · intro index isEmpty
    obtain ⟨isFirst, nothing⟩ := packed.nothing isEmpty
    refine ⟨isFirst, ?_⟩
    cases replaces with
    | nil => rfl
    | cons first _ =>
        rw [flat, List.flatten_cons, List.append_eq_nil_iff] at nothing
        exact absurd nothing.1 first.ne_nil

end Sizes

end Zeron.Doc
