import Zeron.Data.Offsets
import Zeron.Transcript.Message

namespace Zeron.Transcript

open Zeron.Data

/-! # Replay baselines

A baseline holds the byte lengths that the bodies of some entries had.  A viewport cuts
the current entries back to them.
-/

/-- The byte lengths kept for the parts of one entry. -/
abbrev PartLengths := String → Option Nat

structure TranscriptBaseline where
  entries : String → Option PartLengths

variable {value : Type}

/-- The body of a text or reasoning part. -/
def MessagePart.body : MessagePart value → Option String
  | .text _ body | .reasoning _ body => some body
  | _ => none

/-- What `capture` keeps of a part. -/
def MessagePart.bodyLength (part : MessagePart value) : Nat :=
  match part.body with
  | some body => body.utf8ByteSize
  | none => 0

/-- Collecting pairs into a map: the last pair of a key wins. -/
def collect {found : Type} (pairs : List (String × found)) (key : String) : Option found :=
  pairs.reverse.lookup key

/-- `text.truncate(end)` with the offset backed off to a character boundary. -/
def cutBack (text : String) (length : Nat) : Option String :=
  (truncate text.toList (backOff text.toList (min length text.utf8ByteSize))).map String.ofList

def cutPart (length : Nat) : MessagePart value → Option (MessagePart value)
  | .text id text => (cutBack text length).map (.text id)
  | .reasoning id text => (cutBack text length).map (.reasoning id)
  | part => some part

/-- `parts.retain_mut(..)`; none where a truncation panics. -/
def retainParts (lengths : PartLengths) : List (MessagePart value) → Option (List (MessagePart value))
  | [] => some []
  | part :: parts =>
      match lengths part.id with
      | none => retainParts lengths parts
      | some length =>
          (cutPart length part).bind fun cut => (retainParts lengths parts).map fun rest => cut :: rest

namespace TranscriptBaseline

def covers (baseline : TranscriptBaseline) (entry : SessionMessageEntry value) : Bool :=
  match baseline.entries entry.id with
  | none => false
  | some lengths =>
      entry.parts.all fun part =>
        match lengths part.id with
        | none => false
        | some length =>
            match part.body with
            | some text => decide (length ≥ text.utf8ByteSize)
            | none => true

def capture (entries : List (SessionMessageEntry value)) : TranscriptBaseline where
  entries := collect (entries.map fun entry =>
    (entry.id, collect (entry.parts.map fun part => (part.id, part.bodyLength))))

/-- The outer option is none where a truncation panics. -/
def historicalEntry (baseline : TranscriptBaseline) (entry : SessionMessageEntry value) :
    Option (Option (SessionMessageEntry value)) :=
  match baseline.entries entry.id with
  | none => some none
  | some lengths => (retainParts lengths entry.parts).map fun parts => some { entry with parts }

end TranscriptBaseline

/-! ## Cutting a body -/

theorem collect_of_mem {found : Type} {pairs : List (String × found)} {key : String} {item : found}
    (distinct : (pairs.map Prod.fst).Nodup) (inside : (key, item) ∈ pairs) :
    collect pairs key = some item := by
  obtain ⟨front, back, rfl⟩ := List.append_of_mem inside
  rw [collect, List.lookup_eq_some_iff]
  refine ⟨back.reverse, front.reverse, by simp, ?_⟩
  intro pair later
  have apart : key ∉ back.map Prod.fst := by
    rw [List.map_append, List.nodup_append] at distinct
    exact (List.nodup_cons.mp distinct.2.1).1
  rw [bne_iff_ne]
  rintro rfl
  exact apart (List.mem_map_of_mem (List.mem_reverse.mp later))

theorem collect_of_notMem {found : Type} {pairs : List (String × found)} {key : String}
    (absent : key ∉ pairs.map Prod.fst) : collect pairs key = none := by
  rw [collect, List.lookup_eq_none_iff]
  intro pair inside
  rw [bne_iff_ne]
  rintro rfl
  exact absent (List.mem_map_of_mem (List.mem_reverse.mp inside))

/-- A body is cut at a character, whatever the length kept for it. -/
theorem cutBack_spec (text : String) (length : Nat) :
    ∃ front back, cutBack text length = some front ∧ text = front ++ back ∧
      front.utf8ByteSize ≤ length ∧ (text.utf8ByteSize ≤ length ↔ front = text) := by
  obtain ⟨front, back, whole, size⟩ := isCharBoundary_iff.mp
    (isCharBoundary_backOff text.toList (min length text.utf8ByteSize))
  have low := backOff_le text.toList (min length text.utf8ByteSize)
  refine ⟨String.ofList front, String.ofList back, ?_, ?_, ?_, ?_⟩
  · rw [cutBack, ← size, truncate_eq_some whole]
    rfl
  · rw [← String.ofList_append, ← whole, String.ofList_toList]
  · rw [← utf8Length_toList, String.toList_ofList, size]
    omega
  · constructor
    · intro enough
      rw [min_eq_right enough, ← utf8Length_toList, backOff_of_boundary (isCharBoundary_length _),
        whole, utf8Length_append] at size
      have nothing : back = [] := utf8Length_eq_zero.mp (by omega)
      rw [nothing, List.append_nil] at whole
      rw [← whole, String.ofList_toList]
    · intro same
      rw [← same, ← utf8Length_toList, String.toList_ofList, size]
      omega

/-- A body that only grew is cut back to what it was. -/
theorem cutBack_append (old tail : String) :
    cutBack (old ++ tail) old.utf8ByteSize = some old := by
  have whole : (old ++ tail).toList = old.toList ++ tail.toList := String.toList_append
  have within : min old.utf8ByteSize (old ++ tail).utf8ByteSize = utf8Length old.toList := by
    rw [String.utf8ByteSize_append, utf8Length_toList]
    omega
  have boundary : isCharBoundary (old ++ tail).toList (utf8Length old.toList) = true :=
    isCharBoundary_iff.mpr ⟨_, _, whole, rfl⟩
  rw [cutBack, within, backOff_of_boundary boundary, truncate_eq_some whole, Option.map_some,
    String.ofList_toList]

/-! ## Cutting an entry -/

/-- A part whose body, if it has one, was cut at a character. -/
inductive CutFrom : MessagePart value → MessagePart value → Prop
  | text (id front back : String) : CutFrom (.text id front) (.text id (front ++ back))
  | reasoning (id front back : String) :
      CutFrom (.reasoning id front) (.reasoning id (front ++ back))
  | same (part : MessagePart value) : CutFrom part part

theorem cutPart_spec (length : Nat) (part : MessagePart value) :
    ∃ cut, cutPart length part = some cut ∧ CutFrom cut part ∧
      ((∀ text, part.body = some text → text.utf8ByteSize ≤ length) ↔ cut = part) := by
  cases part with
  | text id text =>
      obtain ⟨front, back, isCut, whole, _, covered⟩ := cutBack_spec text length
      refine ⟨.text id front, by rw [cutPart, isCut]; rfl, ?_, ?_⟩
      · rw [whole]
        exact .text id front back
      · simpa [MessagePart.body] using covered
  | reasoning id text =>
      obtain ⟨front, back, isCut, whole, _, covered⟩ := cutBack_spec text length
      refine ⟨.reasoning id front, by rw [cutPart, isCut]; rfl, ?_, ?_⟩
      · rw [whole]
        exact .reasoning id front back
      · simpa [MessagePart.body] using covered
  | _ => exact ⟨_, rfl, .same _, by simp [MessagePart.body]⟩

/-- A part when the baseline was taken, and later. -/
inductive Extends : MessagePart value → MessagePart value → Prop
  | text (id old tail : String) : Extends (.text id old) (.text id (old ++ tail))
  | reasoning (id old tail : String) : Extends (.reasoning id old) (.reasoning id (old ++ tail))
  | plain {part : MessagePart value} (bodiless : part.body = none) : Extends part part

theorem Extends.id {old new : MessagePart value} (longer : Extends old new) : new.id = old.id := by
  cases longer <;> rfl

theorem Extends.cut {old new : MessagePart value} (longer : Extends old new) :
    cutPart old.bodyLength new = some old := by
  cases longer with
  | text id old tail =>
      change (cutBack (old ++ tail) old.utf8ByteSize).map _ = _
      rw [cutBack_append]
      rfl
  | reasoning id old tail =>
      change (cutBack (old ++ tail) old.utf8ByteSize).map _ = _
      rw [cutBack_append]
      rfl
  | plain bodiless => cases old <;> first | rfl | cases bodiless

/-- An entry that grew: its bodies may be longer and parts may follow. -/
structure Grows (old new : SessionMessageEntry value) : Prop where
  id : new.id = old.id
  parts : ∃ longer added, new.parts = longer ++ added ∧ List.Forall₂ Extends old.parts longer

theorem retainParts_of_absent {lengths : PartLengths} {parts : List (MessagePart value)}
    (absent : ∀ part ∈ parts, lengths part.id = none) : retainParts lengths parts = some [] := by
  induction parts with
  | nil => rfl
  | cons part parts ih =>
      rw [retainParts, absent part List.mem_cons_self]
      exact ih fun other inside => absent other (List.mem_cons_of_mem _ inside)

theorem retainParts_grown {lengths : PartLengths} {old longer added : List (MessagePart value)}
    (extended : List.Forall₂ Extends old longer)
    (kept : ∀ part ∈ old, lengths part.id = some part.bodyLength)
    (fresh : ∀ part ∈ added, lengths part.id = none) :
    retainParts lengths (longer ++ added) = some old := by
  induction extended with
  | nil => exact retainParts_of_absent fresh
  | @cons before after olds longers first rest ih =>
      rw [List.cons_append, retainParts, first.id, kept before List.mem_cons_self]
      dsimp only
      rw [first.cut, ih fun part inside => kept part (List.mem_cons_of_mem _ inside)]
      rfl

theorem ids_extended {old longer : List (MessagePart value)} (extended : List.Forall₂ Extends old longer) :
    longer.map MessagePart.id = old.map MessagePart.id := by
  induction extended with
  | nil => rfl
  | cons first rest ih => rw [List.map_cons, List.map_cons, first.id, ih]

theorem retainParts_spec (lengths : PartLengths) (parts : List (MessagePart value)) :
    ∃ kept, retainParts lengths parts = some kept ∧ kept.length ≤ parts.length ∧
      (∀ cut ∈ kept, ∃ part ∈ parts, CutFrom cut part) ∧
      ((∀ part ∈ parts, ∃ length, lengths part.id = some length ∧
        ∀ text, part.body = some text → text.utf8ByteSize ≤ length) ↔ kept = parts) := by
  induction parts with
  | nil => exact ⟨[], rfl, Nat.le_refl _, by simp, by simp⟩
  | cons part parts ih =>
      obtain ⟨rest, isRest, shorter, cuts, covered⟩ := ih
      have inTail : ∀ cut ∈ rest, ∃ source ∈ part :: parts, CutFrom cut source := by
        intro cut inside
        obtain ⟨source, isSource, came⟩ := cuts cut inside
        exact ⟨source, List.mem_cons_of_mem _ isSource, came⟩
      cases known : lengths part.id with
      | none =>
          refine ⟨rest, by rw [retainParts, known]; exact isRest, Nat.le_succ_of_le shorter, inTail, ?_⟩
          constructor
          · intro all
            obtain ⟨length, isLength, _⟩ := all part List.mem_cons_self
            rw [known] at isLength
            cases isLength
          · rintro rfl
            simp only [List.length_cons] at shorter
            omega
      | some length =>
          obtain ⟨cut, isCut, came, whole⟩ := cutPart_spec length part
          refine ⟨cut :: rest, ?_, Nat.succ_le_succ shorter, ?_, ?_⟩
          · rw [retainParts, known]
            dsimp only
            rw [isCut, isRest]
            rfl
          · intro other inside
            rcases List.mem_cons.mp inside with rfl | later
            · exact ⟨part, List.mem_cons_self, came⟩
            · exact inTail other later
          · rw [List.forall_mem_cons, covered, List.cons.injEq, known, ← whole]
            simp

namespace TranscriptBaseline

theorem covers_iff {baseline : TranscriptBaseline} {entry : SessionMessageEntry value} :
    baseline.covers entry = true ↔ ∃ lengths, baseline.entries entry.id = some lengths ∧
      ∀ part ∈ entry.parts, ∃ length, lengths part.id = some length ∧
        ∀ text, part.body = some text → text.utf8ByteSize ≤ length := by
  unfold covers
  cases baseline.entries entry.id with
  | none => simp
  | some lengths =>
      simp only [List.all_eq_true, Option.some.injEq, exists_eq_left']
      apply forall₂_congr
      intro part inside
      cases lengths part.id with
      | none => simp
      | some length => cases part.body <;> simp

/-- Whatever the lengths kept for it, an entry is cut at characters, and nothing is cut
exactly when the baseline covers it. -/
theorem historicalEntry_spec (baseline : TranscriptBaseline) (entry : SessionMessageEntry value) :
    ∃ result, baseline.historicalEntry entry = some result ∧
      (∀ historical, result = some historical →
        ∀ cut ∈ historical.parts, ∃ part ∈ entry.parts, CutFrom cut part) ∧
      (baseline.covers entry = true ↔ result = some entry) := by
  rw [covers_iff]
  unfold historicalEntry
  cases baseline.entries entry.id with
  | none => exact ⟨none, rfl, by simp, by simp⟩
  | some lengths =>
      obtain ⟨kept, isKept, _, cuts, covered⟩ := retainParts_spec lengths entry.parts
      refine ⟨some { entry with parts := kept }, by dsimp only; rw [isKept]; rfl, ?_, ?_⟩
      · intro historical same cut inside
        cases same
        exact cuts cut inside
      · simp only [Option.some.injEq, exists_eq_left', covered]
        constructor
        · rintro rfl
          rfl
        · intro same
          exact congrArg SessionMessageEntry.parts same

/-- A baseline gives back the entry it was taken of, whatever was added to it since. -/
theorem historicalEntry_capture {old new : SessionMessageEntry value} (grows : Grows old new)
    (distinct : (new.parts.map MessagePart.id).Nodup) :
    (capture [old]).historicalEntry new = some (some { new with parts := old.parts }) := by
  obtain ⟨longer, added, shape, extended⟩ := grows.parts
  have ids := ids_extended extended
  rw [shape, List.map_append, ids, List.nodup_append] at distinct
  have keys : (old.parts.map fun part => (part.id, part.bodyLength)).map Prod.fst =
      old.parts.map MessagePart.id := by
    rw [List.map_map]
    rfl
  have entries : (capture [old]).entries new.id =
      some (collect (old.parts.map fun part => (part.id, part.bodyLength))) := by
    rw [grows.id]
    exact collect_of_mem (by simp) (by simp)
  have kept : ∀ part ∈ old.parts, collect (old.parts.map fun part => (part.id, part.bodyLength)) part.id =
      some part.bodyLength := by
    intro part inside
    apply collect_of_mem
    · rw [keys]
      exact distinct.1
    · exact List.mem_map_of_mem inside
  have fresh : ∀ part ∈ added,
      collect (old.parts.map fun part => (part.id, part.bodyLength)) part.id = none := by
    intro part inside
    apply collect_of_notMem
    rw [keys]
    intro known
    exact distinct.2.2 part.id known part.id (List.mem_map_of_mem inside) rfl
  rw [historicalEntry, entries]
  dsimp only
  rw [shape, retainParts_grown extended kept fresh]
  rfl

/-- A baseline is exact: it gives back the entry it was taken of from any that grew out of
it, it never cuts a character, and it covers just the entries that it leaves as they are. -/
theorem baseline_exact :
    (∀ old new : SessionMessageEntry value, Grows old new →
      (new.parts.map MessagePart.id).Nodup →
      (capture [old]).historicalEntry new = some (some { new with parts := old.parts })) ∧
    ∀ (baseline : TranscriptBaseline) (entry : SessionMessageEntry value),
      (baseline.covers entry = true ↔ baseline.historicalEntry entry = some (some entry)) ∧
      ∃ result, baseline.historicalEntry entry = some result ∧
        ∀ historical, result = some historical →
          ∀ cut ∈ historical.parts, ∃ part ∈ entry.parts, CutFrom cut part := by
  constructor
  · intro old new grows distinct
    exact historicalEntry_capture grows distinct
  · intro baseline entry
    obtain ⟨result, isResult, cuts, covered⟩ := historicalEntry_spec baseline entry
    rw [isResult, covered, Option.some.injEq]
    exact ⟨Iff.rfl, result, rfl, cuts⟩

/-- A streaming reply with these parts. -/
def streamingReply (parts : List (MessagePart Unit)) : SessionMessageEntry Unit where
  id := "message"
  role := .assistant
  parts := parts
  createdAt := 0
  deviceId := "host"
  status := some .streaming
  continuationOf := none
  durationMs := none

theorem baseline_exact_cafe :
    (capture [streamingReply [.text "text" "café"]]).historicalEntry
        (streamingReply [.text "text" ("café" ++ " recién hecho"), .reasoning "new" "live"]) =
      some (some (streamingReply [.text "text" "café"])) :=
  baseline_exact.1 (streamingReply [.text "text" "café"])
    (streamingReply [.text "text" ("café" ++ " recién hecho"), .reasoning "new" "live"])
    ⟨rfl, _, [.reasoning "new" "live"], rfl, .cons (.text "text" "café" " recién hecho") .nil⟩
    (by decide)

/-- A text that was replaced has no boundary where the old one ended. -/
example : cutBack "🙂🙂" 5 = some "🙂" := by decide

end TranscriptBaseline

end Zeron.Transcript
