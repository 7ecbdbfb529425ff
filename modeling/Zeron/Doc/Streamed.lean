import Zeron.Doc.Writer
import Zeron.Transcript.Hints
import Zeron.Transcript.Order

namespace Zeron.Doc

open Zeron.Transcript

/-! # What is read of a streamed entry

After every tick a part map holds what its last part writes, but for a kind that an image
does not change and diff stats that a later result does not take away.
-/

variable {raw value : Type}

/-! ## Readable parts -/

/-- A tool whose call is stored as it is. -/
def StoredCall (codec : Codec raw value) : MessagePart value → Prop
  | .tool _ tool => storedCall codec.nullInput tool.call = tool.call
  | _ => True

namespace Codec

variable (codec : Codec raw value)

theorem readPart_partFields {part : DocPart raw} (filled : codec.Filled part)
    (noBytes : part.outputBytes = none) : codec.readPart (codec.partFields part) = some part := by
  have strict := codec.readPart_without (fun _ => false) filled
  have whole : without (codec.partFields part) (fun _ => false) = codec.partFields part := rfl
  rw [whole, noBytes, readBytes_none] at strict
  rw [strict]
  obtain ⟨⟩ := part
  cases noBytes
  rfl

/-- A part map with other diff stats. -/
def withStats (part : DocPart raw) (stats : Option (List ToolDiffStat)) : DocPart raw :=
  { part with diffStats := stats.map codec.ofDiffStats }

theorem withStats_statsOf (part : MessagePart value) :
    codec.withStats (codec.toDocPart part) (statsOf part) = codec.toDocPart part := by
  cases part <;> rfl

theorem filled_withStats (part : MessagePart value) (stats : Option (List ToolDiffStat)) :
    codec.Filled (codec.withStats (codec.toDocPart part) stats) := by
  obtain ⟨call, questions, diff, _⟩ := codec.filled_toDocPart part
  refine ⟨call, questions, diff, ?_⟩
  intro held isHeld
  obtain ⟨stats, _, rfl⟩ := Option.map_eq_some_iff.mp isHeld
  exact (codec.diffStats stats).2

theorem noBytes_of_folded {part : MessagePart value} (folded : Folded part) :
    (codec.toDocPart part).outputBytes = none := by
  cases part with
  | tool id tool => exact folded.outputBytes
  | _ => rfl

theorem savedPart_withStats {part : MessagePart value} (folded : Folded part)
    (stats : Option (List ToolDiffStat)) (entryId : String) (index : Nat) :
    codec.savedPart entryId index
        (some (codec.partFields (codec.withStats (codec.toDocPart part) stats))) =
      some (codec.fromDocPart (codec.withStats (codec.toDocPart part) stats)) := by
  unfold savedPart
  rw [Option.bind_some, codec.readPart_partFields (codec.filled_withStats part stats)
    (codec.noBytes_of_folded folded)]

/-- What is read of a tool with these stats. -/
theorem fromDocPart_tool {id : String} {tool : ToolPart value}
    (stored : storedCall codec.nullInput tool.call = tool.call) (folded : FoldedTool tool)
    (stats : Option (List ToolDiffStat)) :
    codec.fromDocPart (codec.withStats (codec.toDocPart (.tool id tool)) stats) =
      .tool id { tool with diffStats := stats } := by
  have isCall : ((codec.withStats (codec.toDocPart (.tool id tool)) stats).call).bind codec.asCall =
      some tool.call := by
    simp [withStats, toDocPart, codec.call, stored]
  have notImage : (codec.withStats (codec.toDocPart (.tool id tool)) stats).kind ≠ "image" := by
    simp [withStats, toDocPart]
  unfold fromDocPart
  rw [if_neg notImage, if_pos (show (codec.withStats (codec.toDocPart (.tool id tool)) stats).kind =
    "tool" from rfl), isCall]
  have isError : (if tool.resolved then some tool.isError else none).getD false = tool.isError := by
    cases isResolved : tool.resolved with
    | true => rfl
    | false => exact (folded.isError isResolved).symm
  have resolved : (if tool.resolved then some tool.isError else none).isSome = tool.resolved := by
    cases tool.resolved <;> rfl
  have isStats : (stats.map codec.ofDiffStats).bind codec.asDiffStats = stats := by
    cases stats <;> simp [codec.diffStats]
  have isStatus : (tool.subagentStatus.map subagentStatusStr).bind subagentStatusOf =
      tool.subagentStatus := by
    cases tool.subagentStatus <;> simp [subagentStatusOf_str]
  simp only [withStats, toDocPart, isError, resolved, isStats, isStatus, folded.output, folded.diff,
    folded.outputRef, folded.outputBytes, folded.diffRef, folded.subagentRef, folded.subagentTail,
    Option.map_none, Option.bind_none]

theorem fromDocPart_toDocPart {part : MessagePart value} (folded : Folded part)
    (stored : StoredCall codec part) (valid : ValidImage part) :
    codec.fromDocPart (codec.toDocPart part) = asRead part := by
  cases part with
  | tool id tool => exact codec.fromDocPart_tool stored folded tool.diffStats
  | image id path name mimeType =>
      simp only [fromDocPart, toDocPart, imagePart, if_true]
      exact if_pos valid
  | input id requestId questions resolved =>
      simp [fromDocPart, toDocPart, codec.questions, asRead]
  | fork => exact absurd folded not_false
  | _ => simp [fromDocPart, toDocPart, asRead]

/-- A part that was written at once is read as it is. -/
theorem savedPart_pushPart {part : MessagePart value} (folded : Folded part)
    (stored : StoredCall codec part) (valid : ValidImage part) (entryId : String) (index : Nat) :
    codec.savedPart entryId index (some (codec.pushPart part)) = some (asRead part) := by
  have saved := codec.savedPart_withStats folded (statsOf part) entryId index
  rw [codec.withStats_statsOf, codec.fromDocPart_toDocPart folded stored valid] at saved
  exact saved

theorem valid_of_imagePart {id path name mimeType : String}
    (shown : isImage (imagePart id (some path) (some name) (some mimeType) : MessagePart value) = true) :
    path ≠ "" ∧ name ≠ "" ∧ mimeType ∈ imageTypes := by
  unfold imagePart at shown
  dsimp only at shown
  split at shown
  · assumption
  · cases shown

theorem isImage_fromDocPart {part : DocPart raw} (other : part.kind ≠ "image") :
    isImage (codec.fromDocPart part) = false := by
  unfold fromDocPart
  rw [if_neg other]
  split
  · split <;> rfl
  · split
    · rfl
    · split
      · rfl
      · split
        · rfl
        · split <;> rfl

theorem isImage_salvagePart {map : PartMap raw} {kind entryId : String} {index : Nat}
    {read : MessagePart value} (isKind : map .kind = some (codec.ofStr kind)) (other : kind ≠ "image")
    (isRead : codec.salvagePart map entryId index = some read) : isImage read = false := by
  unfold salvagePart at isRead
  have notImage : (map .kind).bind codec.asStr ≠ some "image" := by
    rw [isKind, Option.bind_some, (codec.str kind).1]
    exact fun same => other (Option.some_inj.mp same)
  dsimp only at isRead
  rw [if_neg notImage] at isRead
  split at isRead
  · cases isRead
    rfl
  · split at isRead
    · cases isRead
      rfl
    · split at isRead
      · cases isRead
        rfl
      · obtain ⟨message, _, rfl⟩ := Option.map_eq_some_iff.mp isRead
        rfl

theorem all_bind {α β : Type} {good : β → Prop} {field : Option α} {next : α → Option β}
    (held : ∀ found, ∀ result, next found = some result → good result) :
    ∀ result, Option.bind field next = some result → good result := by
  intro result isResult
  obtain ⟨found, _, isNext⟩ := Option.bind_eq_some_iff.mp isResult
  exact held found result isNext

theorem kind_readPart {map : PartMap raw} {kind : String} {part : DocPart raw}
    (isKind : map .kind = some (codec.ofStr kind)) (strict : codec.readPart map = some part) :
    part.kind = kind := by
  unfold readPart at strict
  obtain ⟨id, _, strict⟩ := Option.bind_eq_some_iff.mp strict
  obtain ⟨found, isFound, strict⟩ := Option.bind_eq_some_iff.mp strict
  rw [isKind, Option.bind_some, (codec.str kind).1] at isFound
  cases isFound
  refine @all_bind _ _ (fun result => result.kind = kind) _ _ (fun _ => ?_) part strict
  iterate 20 refine all_bind fun _ => ?_
  rintro _ ⟨⟩
  rfl

/-- A map of another kind is no image. -/
theorem isImage_savedPart {map : PartMap raw} {kind entryId : String} {index : Nat}
    {read : MessagePart value} (isKind : map .kind = some (codec.ofStr kind)) (other : kind ≠ "image")
    (isRead : codec.savedPart entryId index (some map) = some read) : isImage read = false := by
  unfold savedPart at isRead
  rw [Option.bind_some, Option.bind_some] at isRead
  cases strict : codec.readPart map with
  | none =>
      rw [strict] at isRead
      exact codec.isImage_salvagePart isKind other isRead
  | some part =>
      rw [strict] at isRead
      cases isRead
      apply codec.isImage_fromDocPart
      rw [codec.kind_readPart isKind strict]
      exact other

/-! ## What a part map holds -/

/-- The map of a part after the ticks that saw it, the first of them and the last stats. -/
structure Stored (seen : MessagePart value → Prop) (first : MessagePart value)
    (stats : Option (List ToolDiffStat)) (map : PartMap raw) (part : MessagePart value) : Prop where
  wasSeen : seen first
  between : ∀ other, seen other → Becomes first other ∧ Becomes other part
  folded : Folded part
  kind : map .kind = some (codec.ofStr (codec.toDocPart first).kind)
  same : isImage first = isImage part →
    map = codec.partFields (codec.withStats (codec.toDocPart part) stats)
  latest : statsOf part ≠ none → stats = statsOf part
  stale : stats ≠ none → ∃ other, seen other ∧ statsOf other ≠ none
  fresh : stats = none → ∀ other, seen other → statsOf other = none

theorem kind_toDocPart (part : MessagePart value) (other : isImage part = false) :
    (codec.toDocPart part).kind ≠ "image" := by
  cases part <;> simp_all [toDocPart, isImage]

theorem Becomes.isImage {first second : MessagePart value} (became : Becomes first second)
    (isFirst : Zeron.Doc.isImage first = true) : Zeron.Doc.isImage second = true := by
  cases became with
  | image => rfl
  | _ => cases isFirst

/-- A part is read as it is exactly when the ticks left nothing behind. -/
theorem savedPart_stored {seen : MessagePart value → Prop} {first part : MessagePart value}
    {stats : Option (List ToolDiffStat)} {map : PartMap raw}
    (held : codec.Stored seen first stats map part) (stored : StoredCall codec part)
    (entryId : String) (index : Nat) :
    codec.savedPart entryId index (some map) = some (asRead part) ↔
      ValidImage part ∧ ∀ other, seen other → Leaves other part := by
  constructor
  · intro isRead
    have sameKind : isImage first = isImage part := by
      cases isFirst : isImage first with
      | true => exact (Becomes.isImage (held.between first held.wasSeen).2 isFirst).symm
      | false =>
          have notImage := codec.isImage_savedPart held.kind (codec.kind_toDocPart first isFirst) isRead
          rw [← notImage]
          cases part <;> rfl
    have isMap := held.same sameKind
    rw [isMap, codec.savedPart_withStats held.folded stats] at isRead
    have isPart := Option.some_inj.mp isRead
    refine ⟨?_, ?_⟩
    · cases part with
      | image id path name mimeType =>
          have isRead : codec.fromDocPart (codec.withStats (codec.toDocPart
              (.image id path name mimeType)) stats) =
              imagePart id (some path) (some name) (some mimeType) := if_pos rfl
          apply valid_of_imagePart
          rw [← isRead, isPart]
          rfl
      | _ => trivial
    · intro other isSeen
      obtain ⟨before, after⟩ := held.between other isSeen
      refine ⟨?_, ?_⟩
      · intro isFinal
        exact Becomes.isImage before (sameKind.trans isFinal)
      · intro noStats
        cases part with
        | tool id tool =>
            rw [codec.fromDocPart_tool stored held.folded] at isPart
            have sameStats : stats = tool.diffStats := congrArg statsOf isPart
            exact held.fresh (sameStats.trans noStats) other isSeen
        | image id path name mimeType =>
            have wasImage := Becomes.isImage before (sameKind.trans rfl)
            cases other <;> first | rfl | cases wasImage
        | _ => cases after <;> rfl
  · rintro ⟨valid, leaves⟩
    have sameKind : isImage first = isImage part := by
      cases isPart : isImage part with
      | true => exact (leaves first held.wasSeen).1 isPart
      | false =>
          cases isFirst : isImage first with
          | false => rfl
          | true =>
              rw [Becomes.isImage (held.between first held.wasSeen).2 isFirst] at isPart
              cases isPart
    have isStats : stats = statsOf part := by
      cases isPart : statsOf part with
      | some own =>
          rw [← isPart]
          exact held.latest (by rw [isPart]; exact Option.some_ne_none own)
      | none =>
          by_contra notNone
          obtain ⟨other, isSeen, isSome⟩ := held.stale notNone
          exact isSome ((leaves other isSeen).2 isPart)
    rw [held.same sameKind, isStats, codec.withStats_statsOf]
    exact codec.savedPart_pushPart held.folded stored valid entryId index

/-! ## One part of a sync -/

/-- An update writes what the new part has, but for stats that it has not. -/
theorem updatePartFields_eq {prev part : MessagePart value} (became : Becomes prev part)
    (same : isImage prev = isImage part) (folded : Folded prev) (isFolded : Folded part)
    (stats : Option (List ToolDiffStat)) :
    codec.updatePartFields (codec.partFields (codec.withStats (codec.toDocPart prev) stats)) part =
      codec.partFields (codec.withStats (codec.toDocPart part) ((statsOf part).or stats)) := by
  cases became with
  | text id old tail =>
      funext key
      cases key <;> rfl
  | reasoning id old tail =>
      funext key
      cases key <;> rfl
  | @tool id old new resolved status =>
      have isError : ((if new.resolved then some new.isError else none).map codec.ofBool).or
          ((if old.resolved then some old.isError else none).map codec.ofBool) =
          (if new.resolved then some new.isError else none).map codec.ofBool := by
        cases isNew : new.resolved with
        | true => rfl
        | false =>
            cases isOld : old.resolved with
            | false => rfl
            | true =>
                rw [resolved isOld] at isNew
                cases isNew
      have isStatus : ((new.subagentStatus.map subagentStatusStr).map codec.ofStr).or
          ((old.subagentStatus.map subagentStatusStr).map codec.ofStr) =
          (new.subagentStatus.map subagentStatusStr).map codec.ofStr := by
        cases isNew : new.subagentStatus with
        | some found => rfl
        | none =>
            cases isOld : old.subagentStatus with
            | none => rfl
            | some found =>
                have known := status (by rw [isOld]; rfl)
                rw [isNew] at known
                cases known
      have isStats : (new.diffStats.map codec.ofDiffStats).or (stats.map codec.ofDiffStats) =
          (new.diffStats.or stats).map codec.ofDiffStats := by
        cases new.diffStats <;> rfl
      funext key
      cases key <;> simp only [updatePartFields, partFields, withStats, toDocPart, statsOf,
        folded.output, folded.diff, folded.outputRef, folded.outputBytes, folded.diffRef,
        folded.subagentRef, folded.subagentTail, isFolded.output, isFolded.diff, isFolded.outputRef,
        isFolded.outputBytes, isFolded.diffRef, isFolded.subagentRef, isFolded.subagentTail,
        isError, isStatus, isStats, Option.map_none, Option.or_none, Option.some_or]
  | input id requestId questions resolved =>
      funext key
      cases key <;> rfl
  | error id message =>
      funext key
      cases key <;> rfl
  | image old path name mimeType =>
      cases prev with
      | image id path' name' mimeType' =>
          funext key
          cases key <;> rfl
      | _ => cases same

theorem isImage_of_becomes {prev part : MessagePart value} (became : Becomes prev part)
    (notImage : isImage part = false) : isImage prev = false := by
  cases isPrev : isImage prev with
  | false => rfl
  | true =>
      rw [Becomes.isImage became isPrev] at notImage
      cases notImage

/-- A part after one more tick. -/
theorem Stored.next {seen : MessagePart value → Prop} {first prev part : MessagePart value}
    {stats : Option (List ToolDiffStat)} {map after : PartMap raw}
    (held : codec.Stored seen first stats map prev) (became : Becomes prev part)
    (folded : Folded part) (kind : after .kind = map .kind)
    (same : isImage prev = isImage part →
      map = codec.partFields (codec.withStats (codec.toDocPart prev) stats) →
      after = codec.partFields (codec.withStats (codec.toDocPart part) ((statsOf part).or stats))) :
    codec.Stored (fun other => seen other ∨ other = part) first ((statsOf part).or stats) after part where
  wasSeen := .inl held.wasSeen
  between other isSeen := by
    rcases isSeen with old | rfl
    · exact ⟨(held.between other old).1, (held.between other old).2.trans became⟩
    · exact ⟨(held.between first held.wasSeen).2.trans became, .refl folded⟩
  folded := folded
  kind := kind.trans held.kind
  same isSame := by
    have isPrev : isImage first = isImage prev := by
      cases isFirst : isImage first with
      | true => exact (Becomes.isImage (held.between first held.wasSeen).2 isFirst).symm
      | false =>
          rw [isFirst] at isSame
          exact (isImage_of_becomes became isSame.symm).symm
    exact same (isPrev.symm.trans isSame) (held.same isPrev)
  latest isSome := by
    obtain ⟨own, isOwn⟩ := Option.ne_none_iff_exists'.mp isSome
    rw [isOwn]
    rfl
  stale isSome := by
    cases isOwn : statsOf part with
    | some own =>
        refine ⟨part, .inr rfl, ?_⟩
        rw [isOwn]
        exact Option.some_ne_none own
    | none =>
        rw [isOwn, Option.none_or] at isSome
        obtain ⟨other, isSeen, hadStats⟩ := held.stale isSome
        exact ⟨other, .inl isSeen, hadStats⟩
  fresh isNone other isSeen := by
    obtain ⟨isOwn, isOld⟩ := Option.or_eq_none_iff.mp isNone
    rcases isSeen with old | rfl
    · exact held.fresh isOld other old
    · exact isOwn

/-- A part that is pushed. -/
theorem stored_pushPart {seen : MessagePart value → Prop} {part : MessagePart value}
    (folded : Folded part) (only : ∀ other, seen other ↔ other = part) :
    codec.Stored seen part (statsOf part) (codec.pushPart part) part where
  wasSeen := (only part).mpr rfl
  between other isSeen := by
    rw [(only other).mp isSeen]
    exact ⟨.refl folded, .refl folded⟩
  folded := folded
  kind := rfl
  same _ := by
    rw [codec.withStats_statsOf]
    rfl
  latest _ := rfl
  stale isSome := ⟨part, (only part).mpr rfl, isSome⟩
  fresh isNone other isSeen := by
    rw [(only other).mp isSeen]
    exact isNone

theorem stripPrefix_append (front tail : String) : stripPrefix (front ++ tail) front = some tail := by
  obtain ⟨rest, isRest⟩ := Option.isSome_iff_exists.mp
    (isSome_stripPrefix.mpr (by rw [String.toList_append]; exact List.prefix_append _ _) :
      (stripPrefix (front ++ tail) front).isSome = true)
  have same := eq_append_of_stripPrefix isRest
  rw [isRest]
  exact congrArg some (String.append_right_inj front |>.mp same).symm

variable [DecidableEq value]

theorem set_of_getElem? {α : Type} {elements : List α} {index : Nat} {element : α}
    (isThere : elements[index]? = some element) : elements.set index element = elements := by
  obtain ⟨inside, rfl⟩ := List.getElem?_eq_some_iff.mp isThere
  exact List.set_getElem_self inside

omit [DecidableEq value] in
/-- A text grows by what was added. -/
theorem appendText_eq {map : PartMap raw} {key : PartKey} {old : String}
    (isText : map key = some (codec.ofStr old)) (delta : String) :
    codec.appendText map key delta = some (put map key (codec.ofStr (old ++ delta))) := by
  unfold appendText
  rw [isText, Option.bind_some, (codec.str old).1]
  rfl

theorem syncPart_old {maps : List (Option (PartMap raw))} {written : List (MessagePart value)}
    {index : Nat} {prev part : MessagePart value} {map : PartMap raw}
    {seen : MessagePart value → Prop} {first : MessagePart value}
    {stats : Option (List ToolDiffStat)} (isPrev : written[index]? = some prev)
    (isMap : maps[index]? = some (some map)) (held : codec.Stored seen first stats map prev)
    (became : Becomes prev part) (folded : Folded part) :
    ∃ after, codec.syncPart maps written index part =
        some (maps.set index (some after), written.set index part) ∧
      codec.Stored (fun other => seen other ∨ other = part) first ((statsOf part).or stats) after
        part := by
  by_cases same : prev = part
  · subst same
    refine ⟨map, ?_, held.next codec became folded rfl fun _ isMap => ?_⟩
    · unfold syncPart
      rw [isPrev]
      dsimp only
      rw [if_pos rfl, set_of_getElem? isMap, set_of_getElem? isPrev]
    · cases isOwn : statsOf prev with
      | none => exact isMap
      | some own =>
          have latest := held.latest (by rw [isOwn]; exact Option.some_ne_none own)
          rw [isOwn] at latest
          rw [isMap, latest]
          rfl
  · -- A text grew, or the fields of the part are inserted again.
    have updated : grown prev part = none →
        ∃ after, codec.syncPart maps written index part =
            some (maps.set index (some after), written.set index part) ∧
          codec.Stored (fun other => seen other ∨ other = part) first ((statsOf part).or stats)
            after part := by
      intro isNone
      refine ⟨codec.updatePartFields map part, ?_, held.next codec became folded rfl fun isSame isMap => ?_⟩
      · unfold syncPart
        rw [isPrev]
        dsimp only
        rw [if_neg same, isNone, isMap]
        rfl
      · rw [isMap]
        exact codec.updatePartFields_eq became isSame held.folded folded stats
    have grew : ∀ {key : PartKey} {old tail : String}, grown prev part = some (key, tail) →
        tail ≠ "" → key ≠ .kind → map key = some (codec.ofStr old) →
        put map key (codec.ofStr (old ++ tail)) =
          codec.partFields (codec.withStats (codec.toDocPart part) ((statsOf part).or stats)) →
        ∃ after, codec.syncPart maps written index part =
            some (maps.set index (some after), written.set index part) ∧
          codec.Stored (fun other => seen other ∨ other = part) first ((statsOf part).or stats)
            after part := by
      intro key old tail isGrown notEmpty notKind isText isAfter
      refine ⟨put map key (codec.ofStr (old ++ tail)), ?_,
        held.next codec became folded (if_neg notKind.symm) fun _ _ => isAfter⟩
      unfold syncPart
      rw [isPrev]
      dsimp only
      rw [if_neg same, isGrown, isMap]
      dsimp only
      rw [if_neg notEmpty, Option.join_some, Option.bind_some, codec.appendText_eq isText]
      rfl
    have whole : isImage prev = false → map = codec.partFields (codec.withStats (codec.toDocPart prev) stats) := by
      intro notImage
      exact held.same
        ((isImage_of_becomes (held.between first held.wasSeen).2 notImage).trans notImage.symm)
    cases became with
    | text id old tail =>
        have isMap := whole rfl
        refine @grew .text old tail ?_ ?_ nofun ?_ ?_
        · dsimp only [grown]
          rw [stripPrefix_append]
          rfl
        · rintro rfl
          exact same (by rw [String.append_empty])
        · rw [isMap]
          rfl
        · rw [isMap]
          funext key
          cases key <;> rfl
    | reasoning id old tail =>
        have isMap := whole rfl
        refine @grew .reasoning old tail ?_ ?_ nofun ?_ ?_
        · dsimp only [grown]
          rw [stripPrefix_append]
          rfl
        · rintro rfl
          exact same (by rw [String.append_empty])
        · rw [isMap]
          rfl
        · rw [isMap]
          funext key
          cases key <;> rfl
    | tool id resolved status => exact updated rfl
    | input id requestId questions resolved => exact updated rfl
    | error id message => exact updated rfl
    | image path name mimeType =>
        apply updated
        cases prev <;> rfl

/-! ## A whole sync -/

/-- The maps of an entry, by what the ticks saw at each place. -/
structure Held (seen : Nat → MessagePart value → Prop) (maps : List (Option (PartMap raw)))
    (written : List (MessagePart value)) : Prop where
  length : maps.length = written.length
  stored : ∀ index part, written[index]? = some part → ∃ map first stats,
    maps[index]? = some (some map) ∧ codec.Stored (seen index) first stats map part
  unseen : ∀ index other, written.length ≤ index → ¬ seen index other

omit [DecidableEq value] in
theorem Held.congr {seen other : Nat → MessagePart value → Prop}
    {maps : List (Option (PartMap raw))} {written : List (MessagePart value)}
    (held : codec.Held seen maps written) (same : ∀ index part, seen index part ↔ other index part) :
    codec.Held other maps written := by
  have equal : seen = other := by
    funext index part
    exact propext (same index part)
  rw [← equal]
  exact held

theorem syncPart_spec {seen : Nat → MessagePart value → Prop} {maps : List (Option (PartMap raw))}
    {written : List (MessagePart value)} {index : Nat} {part : MessagePart value}
    (held : codec.Held seen maps written) (reached : index ≤ written.length) (folded : Folded part)
    (became : ∀ prev, written[index]? = some prev → Becomes prev part) :
    ∃ maps' written', codec.syncPart maps written index part = some (maps', written') ∧
      written'[index]? = some part ∧ (∀ other, other ≠ index → written'[other]? = written[other]?) ∧
      codec.Held (fun place other => seen place other ∨ place = index ∧ other = part) maps' written' := by
  cases isPrev : written[index]? with
  | none =>
      have isEnd : index = written.length := by
        have outside := List.getElem?_eq_none_iff.mp isPrev
        omega
      refine ⟨maps ++ [some (codec.pushPart part)], written ++ [part], ?_, ?_, ?_, ?_, ?_, ?_⟩
      · unfold syncPart
        rw [isPrev]
      · rw [isEnd]
        exact List.getElem?_concat_length
      · intro other apart
        rcases Nat.lt_or_gt_of_ne apart with before | after
        · exact List.getElem?_append_left (by omega)
        · rw [List.getElem?_eq_none (by simp; omega), List.getElem?_eq_none (by omega)]
      · simp [held.length]
      · intro place other isOther
        by_cases here : place = index
        · rw [here, isEnd, List.getElem?_concat_length] at isOther
          cases isOther
          refine ⟨_, _, _, ?_, codec.stored_pushPart folded fun other => ?_⟩
          · rw [here, isEnd, ← held.length]
            exact List.getElem?_concat_length
          · have never := held.unseen index other (by omega)
            simp [never, here]
        · have inside : place < written.length := by
            have bound := (List.getElem?_eq_some_iff.mp isOther).1
            rw [List.length_append, List.length_singleton] at bound
            omega
          rw [List.getElem?_append_left inside] at isOther
          obtain ⟨map, first, stats, isMap, stored⟩ := held.stored place other isOther
          refine ⟨map, first, stats, ?_, ?_⟩
          · rw [List.getElem?_append_left (by rw [held.length]; exact inside)]
            exact isMap
          · simpa [here] using stored
      · intro place other beyond
        rw [List.length_append, List.length_singleton] at beyond
        rintro (old | ⟨here, _⟩)
        · exact held.unseen place other (by omega) old
        · omega
  | some prev =>
      obtain ⟨map, first, stats, isMap, stored⟩ := held.stored index prev isPrev
      obtain ⟨after, isSync, stored⟩ :=
        codec.syncPart_old isPrev isMap stored (became prev isPrev) folded
      have inside := (List.getElem?_eq_some_iff.mp isPrev).1
      refine ⟨_, _, isSync, ?_, ?_, ?_, ?_, ?_⟩
      · rw [List.getElem?_set_self inside]
      · intro other apart
        exact List.getElem?_set_ne apart.symm
      · simp [held.length]
      · intro place other isOther
        by_cases here : place = index
        · rw [here, List.getElem?_set_self inside] at isOther
          cases isOther
          refine ⟨after, first, (statsOf part).or stats, ?_, ?_⟩
          · rw [here, List.getElem?_set_self (by rw [held.length]; exact inside)]
          · simpa [here] using stored
        · rw [List.getElem?_set_ne (Ne.symm here)] at isOther
          obtain ⟨map, first, stats, isMap, stored⟩ := held.stored place other isOther
          refine ⟨map, first, stats, ?_, ?_⟩
          · rw [List.getElem?_set_ne (Ne.symm here)]
            exact isMap
          · simpa [here] using stored
      · intro place other beyond
        rw [List.length_set] at beyond
        rintro (old | ⟨here, _⟩)
        · exact held.unseen place other beyond old
        · omega

/-- The loop of a sync, from a place on. -/
theorem syncParts_spec {folded : List (MessagePart value)} (areFolded : ∀ part ∈ folded, Folded part)
    {seen : Nat → MessagePart value → Prop} {maps : List (Option (PartMap raw))}
    {front rest written : List (MessagePart value)} (split : folded = front ++ rest)
    (held : codec.Held seen maps written) (reached : front.length ≤ written.length)
    (done : ∀ index < front.length, written[index]? = folded[index]?)
    (grows : GrowsInto written folded) :
    ∃ maps', codec.syncParts front.length maps written rest = some (maps', folded) ∧
      codec.Held (fun place other => seen place other ∨
        front.length ≤ place ∧ folded[place]? = some other) maps' folded := by
  induction rest generalizing front maps written seen with
  | nil =>
      rw [List.append_nil] at split
      have isAll : written = folded := by
        apply List.ext_getElem?
        intro index
        by_cases inside : index < front.length
        · exact done index inside
        · have bound := grows.length
          rw [List.getElem?_eq_none (by rw [split] at bound; omega),
            List.getElem?_eq_none (by rw [split]; omega)]
      subst isAll
      refine ⟨maps, rfl, held.congr codec fun place other => ⟨.inl, ?_⟩⟩
      rintro (old | ⟨beyond, isOther⟩)
      · exact old
      · rw [List.getElem?_eq_none (by rw [split]; exact beyond)] at isOther
        cases isOther
  | cons part rest ih =>
      have isPart : folded[front.length]? = some part := by
        rw [split, List.getElem?_append_right (le_refl _), Nat.sub_self]
        rfl
      have isFolded := areFolded part (List.mem_of_getElem? isPart)
      obtain ⟨maps', written', isSync, isHere, isSame, after⟩ :=
        codec.syncPart_spec held reached isFolded (by
          intro prev isPrev
          obtain ⟨later, isLater, became⟩ := grows front.length prev isPrev
          rw [isPart] at isLater
          cases isLater
          exact became)
      have inside := (List.getElem?_eq_some_iff.mp isHere).1
      obtain ⟨last, isLast, heldLast⟩ := @ih _ maps' (front ++ [part]) written' (by rw [split]; simp)
        after (by rw [List.length_append, List.length_singleton]; omega) (by
          intro index before
          rw [List.length_append, List.length_singleton] at before
          by_cases here : index = front.length
          · rw [here, isHere, isPart]
          · rw [isSame index here]
            exact done index (by omega)) (by
          intro index other isOther
          by_cases here : index = front.length
          · rw [here, isHere] at isOther
            cases isOther
            exact ⟨part, here ▸ isPart, .refl isFolded⟩
          · rw [isSame index here] at isOther
            exact grows index other isOther)
      refine ⟨last, ?_, heldLast.congr codec fun place other => ?_⟩
      · rw [syncParts, isSync]
        rw [List.length_append, List.length_singleton] at isLast
        exact isLast
      · rw [List.length_append, List.length_singleton]
        constructor
        · rintro ((old | ⟨rfl, rfl⟩) | ⟨beyond, isOther⟩)
          · exact .inl old
          · exact .inr ⟨le_refl _, isPart⟩
          · exact .inr ⟨by omega, isOther⟩
        · rintro (old | ⟨beyond, isOther⟩)
          · exact .inl (.inl old)
          · by_cases here : place = front.length
            · rw [here, isPart] at isOther
              cases isOther
              exact .inl (.inr ⟨here, rfl⟩)
            · exact .inr ⟨by omega, isOther⟩

/-! ## A streamed turn -/

/-- The parts that the ticks saw at a place. -/
def SeenIn (seen : List (List (MessagePart value))) (index : Nat) (part : MessagePart value) : Prop :=
  ∃ tick ∈ seen, tick[index]? = some part

/-- The document beside the fold, after some ticks. -/
structure InStep (inputs : Inputs value) (doc : List (EntryMap raw))
    (seen : List (List (MessagePart value))) (state : Streaming raw value) : Prop where
  entry : ∃ entry maps, state.doc = doc ++ [entry] ∧ entry.parts = .list maps ∧
    codec.Held (SeenIn seen) maps state.writer.written
  index : state.writer.entryIndex = doc.length
  grows : GrowsInto state.writer.written (inputs.renderParts state.parts)
  folded : ∀ part ∈ state.parts, Folded part

variable {inputs : Inputs value} {doc : List (EntryMap raw)}

omit [DecidableEq value] in
theorem folded_renderParts {parts : List (MessagePart value)}
    (folded : ∀ part ∈ parts, Folded part) : ∀ part ∈ inputs.renderParts parts, Folded part := by
  intro part inside
  obtain ⟨old, isOld, rfl⟩ := List.mem_map.mp inside
  exact Inputs.folded_renderPart (folded old isOld)

theorem sync_spec {seen : List (List (MessagePart value))} {state : Streaming raw value}
    (inStep : codec.InStep inputs doc seen state) :
    ∃ doc' entry maps, codec.sync state.doc state.writer (inputs.renderParts state.parts) =
        some (doc', { state.writer with written := inputs.renderParts state.parts }) ∧
      doc' = doc ++ [entry] ∧ entry.parts = .list maps ∧
      codec.Held (SeenIn (seen ++ [inputs.renderParts state.parts])) maps
        (inputs.renderParts state.parts) := by
  obtain ⟨entry, maps, isDoc, isParts, held⟩ := inStep.entry
  obtain ⟨maps', isSync, after⟩ := @syncParts_spec raw value codec _ _
    (folded_renderParts inStep.folded) _ maps [] _ state.writer.written rfl held (Nat.zero_le _)
    nofun inStep.grows
  have isEntry : state.doc[state.writer.entryIndex]? = some entry := by
    rw [isDoc, inStep.index]
    exact List.getElem?_concat_length
  refine ⟨doc ++ [{ entry with parts := .list maps' }], _, maps', ?_, rfl, rfl,
    after.congr codec fun place other => ?_⟩
  · unfold sync
    rw [isEntry, Option.bind_some, isParts]
    dsimp only
    rw [show codec.syncParts 0 maps state.writer.written (inputs.renderParts state.parts) = _ from isSync]
    rw [Option.map_some, isDoc, inStep.index, List.set_append_right _ _ (le_refl _), Nat.sub_self]
    rfl
  · simp [SeenIn, or_comm]

omit [DecidableEq value] in
theorem inStep_start (entryId deviceId : String) (createdAt : Int) :
    codec.InStep inputs doc [] (codec.start doc entryId deviceId createdAt) := by
  have held : codec.Held (SeenIn []) [] ([] : List (MessagePart value)) := by
    refine ⟨rfl, ?_, ?_⟩
    · intro index part isPart
      rw [List.getElem?_nil] at isPart
      cases isPart
    · rintro index other _ ⟨tick, inside, _⟩
      cases inside
  have grows : GrowsInto [] (inputs.renderParts []) := by
    intro index part isPart
    rw [List.getElem?_nil] at isPart
    cases isPart
  exact ⟨⟨_, [], rfl, rfl, held⟩, rfl, grows, List.forall_mem_nil _⟩

/-- Whether a step is a turn boundary. -/
def Step.resets : Step value → Bool
  | .event made => made.resets
  | _ => false

/-- One step, and what it adds to the ticks. -/
theorem InStep.step {seen : List (List (MessagePart value))} {state : Streaming raw value}
    (inStep : codec.InStep inputs doc seen state) {action : Step value}
    (stays : Step.resets action = false) :
    ∃ next, codec.step inputs state action = some next ∧
      next.parts = foldSteps inputs state.parts [action] ∧
      codec.InStep inputs doc (seen ++ ticks inputs state.parts [action]) next := by
  cases action with
  | event event =>
      have follows := @Inputs.fold_spec value inputs state.parts event inStep.folded stays
      refine ⟨_, rfl, rfl, ?_⟩
      rw [show ticks inputs state.parts [.event event] = [] from rfl, List.append_nil]
      exact { inStep with
        grows := inStep.grows.trans (Inputs.growsInto_renderParts follows.grows)
        folded := follows.folded }
  | sync =>
      obtain ⟨doc', entry, maps, isSync, isDoc, isParts, held⟩ := codec.sync_spec inStep
      refine ⟨{ state with
        doc := doc', writer := { state.writer with written := inputs.renderParts state.parts } },
        by rw [Codec.step, isSync]; rfl, rfl, ⟨entry, maps, isDoc, isParts, held⟩, inStep.index, ?_,
        inStep.folded⟩
      exact growsInto_refl (folded_renderParts inStep.folded)
  | resume =>
      refine ⟨_, rfl, rfl, ?_⟩
      rw [show ticks inputs state.parts [.resume] = [] from rfl, List.append_nil]
      obtain ⟨entry, index, grows, folded⟩ := inStep
      exact ⟨entry, index, grows, folded⟩

omit [DecidableEq value] in
theorem foldSteps_cons (parts : List (MessagePart value)) (action : Step value)
    (rest : List (Step value)) :
    foldSteps inputs parts (action :: rest) =
      foldSteps inputs (foldSteps inputs parts [action]) rest := by
  cases action <;> rfl

omit [DecidableEq value] in
theorem ticks_cons (parts : List (MessagePart value)) (action : Step value)
    (rest : List (Step value)) :
    ticks inputs parts (action :: rest) =
      ticks inputs parts [action] ++ ticks inputs (foldSteps inputs parts [action]) rest := by
  cases action <;> rfl

/-- All the steps of a turn. -/
theorem InStep.foldlM {seen : List (List (MessagePart value))} {state : Streaming raw value}
    (inStep : codec.InStep inputs doc seen state) {steps : List (Step value)}
    (stays : ∀ action ∈ steps, Step.resets action = false) :
    ∃ last, steps.foldlM (codec.step inputs) state = some last ∧
      last.parts = foldSteps inputs state.parts steps ∧
      codec.InStep inputs doc (seen ++ ticks inputs state.parts steps) last := by
  induction steps generalizing seen state with
  | nil =>
      refine ⟨state, rfl, rfl, ?_⟩
      rw [show ticks inputs state.parts [] = [] from rfl, List.append_nil]
      exact inStep
  | cons action rest ih =>
      obtain ⟨next, isNext, isParts, after⟩ := inStep.step codec (stays action List.mem_cons_self)
      obtain ⟨last, isLast, areParts, later⟩ :=
        ih after fun other inside => stays other (List.mem_cons_of_mem _ inside)
      refine ⟨last, ?_, ?_, ?_⟩
      · rw [List.foldlM_cons, isNext]
        exact isLast
      · rw [areParts, isParts]
        exact (foldSteps_cons state.parts action rest).symm
      · rw [ticks_cons, ← List.append_assoc, ← isParts]
        exact later

/-! ## Reading the entry -/

omit [DecidableEq value] in
theorem eq_map_some {α : Type} {elements : List (Option α)} {others : List α}
    (reduced : elements.reduceOption = others) (length : elements.length = others.length) :
    elements = others.map some := by
  induction elements generalizing others with
  | nil =>
      cases reduced
      rfl
  | cons first rest ih =>
      have bound := List.reduceOption_length_le rest
      cases first with
      | none =>
          rw [List.reduceOption_cons_of_none] at reduced
          rw [reduced] at bound
          simp at length
          omega
      | some element =>
          rw [List.reduceOption_cons_of_some] at reduced
          subst reduced
          rw [List.map_cons, ← ih rfl (by simpa using length)]

omit [DecidableEq value] in
theorem reduceOption_map_some {α : Type} (elements : List α) :
    (elements.map some).reduceOption = elements := by
  induction elements with
  | nil => rfl
  | cons first rest ih => rw [List.map_cons, List.reduceOption_cons_of_some, ih]

omit [DecidableEq value] in
/-- The parts of an entry are read as they are exactly when the ticks left nothing behind. -/
theorem read_held {seen : Nat → MessagePart value → Prop} {maps : List (Option (PartMap raw))}
    {final : List (MessagePart value)} (held : codec.Held seen maps final)
    (stored : ∀ part ∈ final, StoredCall codec part) (entryId : String) :
    (maps.mapIdx (codec.savedPart entryId)).reduceOption = final.map asRead ↔
      ∀ index part, final[index]? = some part →
        ValidImage part ∧ ∀ other, seen index other → Leaves other part := by
  have pointwise : ∀ index part, final[index]? = some part →
      ((maps.mapIdx (codec.savedPart entryId))[index]? = some (some (asRead part)) ↔
        ValidImage part ∧ ∀ other, seen index other → Leaves other part) := by
    intro index part isPart
    obtain ⟨map, first, stats, isMap, isStored⟩ := held.stored index part isPart
    rw [List.getElem?_mapIdx, isMap, Option.map_some, Option.some_inj]
    exact codec.savedPart_stored isStored (stored part (List.mem_of_getElem? isPart)) entryId index
  constructor
  · intro isRead index part isPart
    have whole := eq_map_some isRead (by simp [held.length])
    rw [← pointwise index part isPart, whole]
    simp [isPart]
  · intro leaves
    have whole : maps.mapIdx (codec.savedPart entryId) = (final.map asRead).map some := by
      apply List.ext_getElem?
      intro index
      cases isPart : final[index]? with
      | none =>
          have outside := List.getElem?_eq_none_iff.mp isPart
          rw [List.getElem?_eq_none (by simp [held.length, outside])]
          simp [isPart]
      | some part =>
          rw [(pointwise index part isPart).mpr (leaves index part isPart)]
          simp [isPart]
    rw [whole, reduceOption_map_some]

omit [DecidableEq value] in
/-- One write of all parts. -/
theorem held_pushMessage {final : List (MessagePart value)} (folded : ∀ part ∈ final, Folded part) :
    codec.Held (fun index part => final[index]? = some part)
      (final.map fun part => some (codec.pushPart part)) final := by
  refine ⟨List.length_map _, ?_, ?_⟩
  · intro index part isPart
    refine ⟨codec.pushPart part, part, statsOf part, ?_, ?_⟩
    · rw [List.getElem?_map, isPart]
      rfl
    · apply codec.stored_pushPart (folded part (List.mem_of_getElem? isPart))
      intro other
      rw [isPart, Option.some_inj]
      exact eq_comm
  · intro index other beyond isOther
    rw [List.getElem?_eq_none beyond] at isOther
    cases isOther

omit [DecidableEq value] in
theorem parts_readEntries {entry : EntryMap raw} {maps : List (Option (PartMap raw))}
    (isParts : entry.parts = .list maps) :
    ((codec.readEntries (doc ++ [entry]))[doc.length]?).map (·.parts) =
      some ((maps.mapIdx (codec.savedPart (codec.entryId entry))).reduceOption) := by
  unfold readEntries
  rw [List.getElem?_map, List.getElem?_concat_length, Option.map_some, Option.map_some,
    parts_entryFromJson, isParts]
  rfl

omit [DecidableEq value] in
theorem storedCall_sanitize (objects : ∀ kept, codec.nullInput (inputs.object kept) = false)
    (call : ToolCall value) :
    storedCall codec.nullInput (inputs.sanitizeToolCall call) = inputs.sanitizeToolCall call := by
  have badge : (inputs.spawnBadge call).filter (fun value => !codec.nullInput value) =
      inputs.spawnBadge call := by
    cases isBadge : inputs.spawnBadge call with
    | none => rfl
    | some input =>
        have isObject : ∃ kept, input = inputs.object kept := by
          unfold Inputs.spawnBadge at isBadge
          split at isBadge
          · split at isBadge
            · obtain ⟨held, _, isKept⟩ := Option.bind_eq_some_iff.mp isBadge
              split at isKept
              · cases isKept
              · cases isKept
                exact ⟨_, rfl⟩
            · obtain ⟨held, _, isKept⟩ := Option.bind_eq_some_iff.mp isBadge
              split at isKept
              · cases isKept
              · cases isKept
                exact ⟨_, rfl⟩
            · cases isBadge
          · cases isBadge
        obtain ⟨kept, rfl⟩ := isObject
        simp [Option.filter, objects kept]
  cases call with
  | mcp server tool input => exact congrArg (ToolCall.mcp server tool) badge
  | unknown name input => exact congrArg (ToolCall.unknown name) badge
  | _ => rfl

omit [DecidableEq value] in
theorem storedCall_renderParts (objects : ∀ kept, codec.nullInput (inputs.object kept) = false)
    (parts : List (MessagePart value)) :
    ∀ part ∈ inputs.renderParts parts, StoredCall codec part := by
  intro part inside
  obtain ⟨old, _, rfl⟩ := List.mem_map.mp inside
  cases old with
  | tool id tool => exact codec.storedCall_sanitize objects tool.call
  | _ => trivial

theorem finish_spec {seen : List (List (MessagePart value))} {state : Streaming raw value}
    (inStep : codec.InStep inputs doc seen state) (status : MessageStatus) (now : Int) :
    ∃ entry maps, codec.finish state.doc state.writer (inputs.renderParts state.parts) status now =
        some (doc ++ [entry]) ∧ entry.parts = .list maps ∧
      codec.Held (SeenIn (seen ++ [inputs.renderParts state.parts])) maps
        (inputs.renderParts state.parts) := by
  obtain ⟨doc', entry, maps, isSync, rfl, isParts, held⟩ := codec.sync_spec inStep
  let writer := { state.writer with written := inputs.renderParts state.parts }
  refine ⟨codec.stamp writer entry status now, maps, ?_, isParts, held⟩
  unfold finish
  rw [isSync, Option.bind_some]
  dsimp only
  rw [inStep.index, List.getElem?_concat_length, Option.map_some,
    List.set_append_right _ _ (le_refl _), Nat.sub_self]
  rfl

/-- A streamed entry is read as one that was written at once exactly when no tick wrote what
    an insert does not replace. -/
theorem streamsAsOneWrite_iff (inputs : Inputs value)
    (objects : ∀ kept, codec.nullInput (inputs.object kept) = false) (doc : List (EntryMap raw))
    (entryId deviceId : String) (createdAt : Int) (steps : List (Step value))
    (status : MessageStatus) (now : Int) (stays : ∀ action ∈ steps, Step.resets action = false) :
    codec.StreamsAsOneWrite inputs doc entryId deviceId createdAt steps status now ↔
      Replaceable inputs steps := by
  obtain ⟨last, isLast, areParts, inStep⟩ :=
    (codec.inStep_start entryId deviceId createdAt).foldlM codec stays
  obtain ⟨entry, maps, isFinish, isList, held⟩ := codec.finish_spec inStep status now
  have isFinal : inputs.renderParts last.parts = finalParts inputs steps := by
    rw [areParts]
    rfl
  rw [isFinal] at held isFinish
  have isStream : codec.stream inputs doc entryId deviceId createdAt steps status now =
      some (doc ++ [entry]) := by
    unfold stream
    rw [isLast, Option.bind_some, isFinal]
    exact isFinish
  have folded : ∀ part ∈ finalParts inputs steps, Folded part := by
    rw [← isFinal]
    exact folded_renderParts inStep.folded
  have stored : ∀ part ∈ finalParts inputs steps, StoredCall codec part :=
    codec.storedCall_renderParts objects _
  have atOnce := codec.held_pushMessage folded
  have leavesItself : ∀ part : MessagePart value, Leaves part part := fun _ => ⟨id, id⟩
  have streamed := codec.read_held held stored (codec.entryId entry)
  constructor
  · rintro ⟨result, isResult, isRead, _⟩
    rw [isStream] at isResult
    cases isResult
    rw [codec.parts_readEntries isList, Option.some_inj] at isRead
    have leaves := streamed.mp isRead
    refine ⟨?_, ?_⟩
    · intro part inside
      obtain ⟨index, isPart⟩ := List.mem_iff_getElem?.mp inside
      exact (leaves index part isPart).1
    · intro tick inside index part final isPart isFinalPart
      exact (leaves index final isFinalPart).2 part
        ⟨tick, List.mem_append_left _ inside, isPart⟩
  · rintro ⟨valid, leaves⟩
    refine ⟨_, isStream, ?_, ?_⟩
    · rw [codec.parts_readEntries isList, Option.some_inj]
      apply streamed.mpr
      intro index part isPart
      refine ⟨valid part (List.mem_of_getElem? isPart), ?_⟩
      rintro other ⟨tick, inside, isOther⟩
      rcases List.mem_append.mp inside with old | new
      · exact leaves tick old index other part isOther isPart
      · rw [List.mem_singleton.mp new, isPart] at isOther
        cases isOther
        exact leavesItself part
    · rw [codec.parts_readEntries rfl, Option.some_inj]
      apply (codec.read_held atOnce stored _).mpr
      intro index part isPart
      refine ⟨valid part (List.mem_of_getElem? isPart), ?_⟩
      intro other isOther
      rw [isPart] at isOther
      cases isOther
      exact leavesItself part

end Codec

/-! ## An edit with two results -/

def plainInputs : Inputs String where
  field _ _ := none
  object _ := "kept"
  changes _ _ := (1, 1)
  lines _ := 1

/-- A tool result with a diff, a tick, and a second result without one. -/
def editedTwice : List (Codec.Step String) :=
  [.event (.toolCall "x" (.editFile "a.rs" none none)),
    .event (.toolResult "x" false none (some ⟨"a.rs", some "one", "two"⟩)), .sync,
    .event (.toolResult "x" true none none)]

/-- The stats of the first result stay. -/
theorem not_streamsAsOneWrite :
    ¬ plain.StreamsAsOneWrite plainInputs [] "m1" "d1" 1 editedTwice .complete 2 := by
  rintro ⟨result, isResult, isRead, _⟩
  cases isResult
  revert isRead
  decide

/-- A turn of a text, a tick in it, and a tool. -/
def spoken : List (Codec.Step String) :=
  [.event (.textDelta "Hel"), .sync, .event (.textDelta "lo"), .resume, .sync,
    .event (.toolCall "x" (.exec "ls")), .sync,
    .event (.toolResult "x" false (some "out") none)]

theorem spoken_streamsAsOneWrite :
    plain.StreamsAsOneWrite plainInputs [] "m1" "d1" 1 spoken .complete 2 := by
  refine (Codec.streamsAsOneWrite_iff plain plainInputs (fun _ => rfl) [] "m1" "d1" 1 spoken
    .complete 2 (by decide)).mpr ?_
  have noImage : ∀ part ∈ finalParts plainInputs spoken, isImage part = false := by decide
  have noStats : ∀ tick ∈ ticks plainInputs [] spoken, ∀ part ∈ tick, statsOf part = none := by
    decide
  refine ⟨?_, ?_⟩
  · intro part inside
    have other := noImage part inside
    cases part with
    | image => cases other
    | _ => trivial
  · intro tick inside index part final isPart isFinal
    refine ⟨fun image => ?_, fun _ => noStats tick inside part (List.mem_of_getElem? isPart)⟩
    rw [noImage final (List.mem_of_getElem? isFinal)] at image
    cases image

end Zeron.Doc
