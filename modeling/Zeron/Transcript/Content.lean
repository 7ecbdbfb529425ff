import Zeron.Transcript.Order

namespace Zeron.Transcript

/-! # What a watcher ends up with

Frames between transcripts whose common entries keep their order, and a watcher
that follows a producer from a reset.
-/

variable {value : Type} [DecidableEq value]

/-- Ids are distinct, of entries and of the parts inside each. -/
structure WellFormed (list : Entries value) : Prop where
  entries : DistinctIds list
  parts : ∀ entry ∈ list, (entry.parts.map (·.id)).Nodup

/-- The common entries stand in the same relative order. -/
def CommonInOrder (prev next : Entries value) : Prop :=
  (prev.map (·.id)).filter (· ∈ next.map (·.id)) = (next.map (·.id)).filter (· ∈ prev.map (·.id))

/-- Where only text was appended, the turn's duration did not change with it. -/
def CarriesDuration (prev next : Entries value) : Prop :=
  ∀ entry ∈ next, ∀ old ∈ prev, old.id = entry.id →
    predecessor prev entry.id = predecessor next entry.id →
    (tryTextAppend old entry).isSome → old.durationMs = entry.durationMs

/-- A reset, or no text append hides a changed duration. -/
def Delivers (prev next : Entries value) : Prop := Resends prev next ∨ CarriesDuration prev next

omit [DecidableEq value] in
theorem tailOf_id {part text : String} {body : MessagePart value}
    (isBody : tailOf part body = some text) : body.id = part := by
  unfold tailOf at isBody
  split at isBody
  · split at isBody
    · rename_i same
      exact same
    · cases isBody
  · split at isBody
    · rename_i same
      exact same
    · cases isBody
  · cases isBody

omit [DecidableEq value] in
/-- With distinct part ids the part under an id is the only one there. -/
theorem findSome?_tailOf {front back : List (MessagePart value)} {body : MessagePart value}
    (distinct : ((front ++ body :: back).map (·.id)).Nodup) {part text : String}
    (isBody : tailOf part body = some text) :
    (front ++ body :: back).findSome? (tailOf part) = some text ∧
      (front ++ body :: back).findIdx? (fun other => (tailOf part other).isSome) =
        some front.length := by
  rw [List.map_append, List.nodup_append] at distinct
  have before : ∀ other ∈ front, tailOf part other = none := by
    intro other member
    rw [Option.eq_none_iff_forall_ne_some]
    intro text isOther
    exact distinct.2.2 _ (List.mem_map_of_mem member) _ List.mem_cons_self
      ((tailOf_id isOther).trans (tailOf_id isBody).symm)
  have noText : front.findSome? (tailOf part) = none := List.findSome?_eq_none_iff.mpr before
  have noIndex : front.findIdx? (fun other => (tailOf part other).isSome) = none := by
    rw [List.findIdx?_eq_none_iff]
    intro other member
    simp [before other member]
  constructor
  · rw [List.findSome?_append, noText, Option.none_or, List.findSome?_cons, isBody]
  · rw [List.findIdx?_append, noIndex, Option.none_or, List.findIdx?_cons]
    simp [isBody]

theorem CommonInOrder.keepsOrder {prev next : Entries value} (distinct : DistinctIds next)
    (inOrder : CommonInOrder prev next) : KeepsOrder prev next := by
  unfold KeepsOrder
  have inPrev : ∀ id ∈ (next.filter (leftInPlace prev next)).map (·.id), id ∈ prev.map (·.id) := by
    intro id member
    obtain ⟨entry, left, rfl⟩ := List.mem_map.mp member
    have inPlace := (List.mem_filter.mp left).2
    simp only [leftInPlace, List.any_eq_true, decide_eq_true_eq] at inPlace
    obtain ⟨old, isOld, same, _⟩ := inPlace
    exact List.mem_map.mpr ⟨old, isOld, same⟩
  have inNext : ∀ id ∈ (next.filter (leftInPlace prev next)).map (·.id), id ∈ next.map (·.id) :=
    fun id member => (List.filter_sublist.map _).subset member
  have narrow : ∀ (keep common : List String) (ids : List String), (∀ id ∈ keep, id ∈ common) →
      ids.filter (· ∈ keep) = (ids.filter (· ∈ common)).filter (· ∈ keep) := by
    intro keep common ids within
    rw [List.filter_filter]
    apply List.filter_congr
    intro id _
    by_cases kept : id ∈ keep
    · simp [kept, within id kept]
    · simp [kept]
  dsimp only
  rw [narrow _ _ (prev.map (·.id)) inNext, inOrder, ← narrow _ _ (next.map (·.id)) inPrev,
    List.filter_map]
  congr 1
  apply List.filter_congr
  intro entry member
  simp only [Function.comp_apply]
  cases left : leftInPlace prev next entry with
  | true =>
      simp only [decide_eq_true_eq]
      exact List.mem_map_of_mem (List.mem_filter.mpr ⟨member, left⟩)
  | false =>
      simp only [decide_eq_false_iff_not]
      intro kept
      obtain ⟨twin, isTwin, same⟩ := List.mem_map.mp kept
      have twins := List.inj_on_of_nodup_map distinct (List.mem_filter.mp isTwin).1 member same
      rw [twins] at isTwin
      simp [left] at isTwin

theorem WellFormed.appendsFit {prev : Entries value} (wellFormed : WellFormed prev)
    (next : Entries value) : AppendsFit prev next := by
  intro entry _ old isOld _ _ _ append grows
  obtain ⟨front, p, n, back, text, parts, _, grew, _⟩ := tryTextAppend_eq_some grows
  have distinct := wellFormed.parts old isOld
  rw [parts] at distinct
  refine ⟨text, ?_, ?_⟩
  · rw [parts]
    exact (findSome?_tailOf distinct grew.body).1
  · rw [grew.len, String.utf8ByteSize_append]

/-- An append gives the new entry up to its duration. -/
theorem grown_eq {old entry : SessionMessageEntry value} {append : TextAppend}
    (distinct : (old.parts.map (·.id)).Nodup) (grows : tryTextAppend old entry = some append) :
    grown old append = { entry with durationMs := old.durationMs } := by
  obtain ⟨front, p, n, back, text, parts, ends, grew, header⟩ := tryTextAppend_eq_some grows
  rw [parts] at distinct
  have index := (findSome?_tailOf distinct grew.body).2
  rw [← parts] at index
  have same := grown_parts parts grew.body index
  rw [← grew.after, ← ends] at same
  have shape : grown old append = { old with parts := (grown old append).parts } := rfl
  rw [shape, same, ← header]

omit [DecidableEq value] in
/-- Lists with the same distinct ids are compared entry by entry. -/
theorem map_eq_iff {list next : Entries value} (distinct : DistinctIds next)
    (ids : list.map (·.id) = next.map (·.id))
    (change : SessionMessageEntry value → SessionMessageEntry value) :
    list.map change = next ↔
      ∀ entry ∈ list, ∀ twin ∈ next, twin.id = entry.id → change entry = twin := by
  induction list generalizing next with
  | nil =>
      have empty : next = [] := List.map_eq_nil_iff.mp ids.symm
      simp [empty]
  | cons entry rest ih =>
      cases next with
      | nil => cases ids
      | cons twin others =>
          rw [List.map_cons, List.map_cons, List.cons.injEq] at ids
          have apart := List.nodup_cons.mp distinct
          rw [List.map_cons, List.cons.injEq, ih apart.2 ids.2]
          constructor
          · rintro ⟨here, later⟩ other isOther match_ isMatch same
            cases List.mem_cons.mp isOther with
            | inl first =>
                cases List.mem_cons.mp isMatch with
                | inl second => rw [first, second, here]
                | inr inOthers =>
                    refine absurd (List.mem_map.mpr ⟨match_, inOthers, ?_⟩) apart.1
                    rw [same, first, ids.1]
            | inr inRest =>
                cases List.mem_cons.mp isMatch with
                | inl second =>
                    refine absurd ?_ apart.1
                    rw [← ids.2, ← second]
                    exact List.mem_map.mpr ⟨other, inRest, same.symm⟩
                | inr inOthers => exact later other inRest match_ inOthers same
          · intro all
            refine ⟨all entry List.mem_cons_self twin List.mem_cons_self ids.1.symm, ?_⟩
            intro other inRest match_ inOthers same
            exact all other (List.mem_cons_of_mem _ inRest) match_
              (List.mem_cons_of_mem _ inOthers) same

/-- An entry that is sent anew is in no append. -/
theorem not_appended_of_sent {prev next : Entries value} (distinct : DistinctIds prev)
    (nextDistinct : DistinctIds next) {entry : SessionMessageEntry value} (inNext : entry ∈ next)
    (sent : leftInPlace prev next entry = false) :
    entry.id ∉ (frameAppends prev next).map (·.entry) := by
  intro named
  obtain ⟨append, member, isNamed⟩ := List.mem_map.mp named
  obtain ⟨source, isSource, old, isOld, same, inPlace, _, grows⟩ := (mem_frameAppends distinct).mp member
  obtain ⟨_, _, _, _, _, _, _, grew, _⟩ := tryTextAppend_eq_some grows
  rw [List.inj_on_of_nodup_map nextDistinct isSource inNext (grew.entry.symm.trans isNamed)]
    at same inPlace grows
  have left : leftInPlace prev next entry = true := by
    simp only [leftInPlace, List.any_eq_true, decide_eq_true_eq]
    exact ⟨old, isOld, same, inPlace, .inr (by simp [grows])⟩
  rw [left] at sent
  cases sent

/-- An entry that is the same in both transcripts is in no append. -/
theorem not_appended_of_common {prev next : Entries value} (distinct : DistinctIds prev)
    (nextDistinct : DistinctIds next) {entry : SessionMessageEntry value} (inPrev : entry ∈ prev)
    (inNext : entry ∈ next) : entry.id ∉ (frameAppends prev next).map (·.entry) := by
  intro named
  obtain ⟨append, member, isNamed⟩ := List.mem_map.mp named
  obtain ⟨source, isSource, old, isOld, same, _, differs, grows⟩ := (mem_frameAppends distinct).mp member
  obtain ⟨_, _, _, _, _, _, _, grew, _⟩ := tryTextAppend_eq_some grows
  have isEntry := grew.entry.symm.trans isNamed
  apply differs
  rw [List.inj_on_of_nodup_map distinct isOld inPrev (same.trans isEntry),
    List.inj_on_of_nodup_map nextDistinct isSource inNext isEntry]

/-- What becomes of a placed entry, against the entry of `next` under its id. -/
theorem grownBy_placed {prev next : Entries value} (wellFormed : WellFormed prev)
    (nextDistinct : DistinctIds next) {entry twin : SessionMessageEntry value}
    (isTwin : twin ∈ next) (same : twin.id = entry.id)
    (contents : entry ∈ next ∧ leftInPlace prev next entry = false ∨
      entry ∈ prev ∧ ∃ other ∈ next, other.id = entry.id ∧ leftInPlace prev next other = true) :
    grownBy (frameAppends prev next) entry = twin ∨
      entry ∈ prev ∧ predecessor prev twin.id = predecessor next twin.id ∧
        (tryTextAppend entry twin).isSome ∧
        grownBy (frameAppends prev next) entry = { twin with durationMs := entry.durationMs } := by
  rcases contents with ⟨inNext, sent⟩ | ⟨inPrev, other, isOther, sameId, left⟩
  · rw [List.inj_on_of_nodup_map nextDistinct isTwin inNext same]
    exact .inl (grownBy_of_not_mem (not_appended_of_sent wellFormed.entries nextDistinct inNext sent))
  · rw [List.inj_on_of_nodup_map nextDistinct isOther isTwin (sameId.trans same.symm)] at left
    simp only [leftInPlace, List.any_eq_true, decide_eq_true_eq] at left
    obtain ⟨old, isOld, oldId, inPlace, change⟩ := left
    have isEntry : old = entry :=
      List.inj_on_of_nodup_map wellFormed.entries isOld inPrev (oldId.trans same)
    rw [isEntry] at oldId change
    by_cases unchanged : entry = twin
    · rw [← unchanged] at isTwin ⊢
      exact .inl (grownBy_of_not_mem
        (not_appended_of_common wellFormed.entries nextDistinct inPrev isTwin))
    · have grows := change.resolve_left unchanged
      obtain ⟨append, isAppend⟩ := Option.isSome_iff_exists.mp grows
      have member : append ∈ frameAppends prev next := (mem_frameAppends wellFormed.entries).mpr
        ⟨twin, isTwin, entry, inPrev, oldId, inPlace, unchanged, isAppend⟩
      obtain ⟨_, _, _, _, _, _, _, grew, _⟩ := tryTextAppend_eq_some isAppend
      refine .inr ⟨inPrev, inPlace, grows, ?_⟩
      rw [grownBy_of_mem (frameAppends_once wellFormed.entries nextDistinct) member
        (grew.entry.trans same), grown_eq (wellFormed.parts entry inPrev) isAppend]

/-- One frame brings the producer's next transcript exactly when it delivers it. -/
theorem applyFrame_iff {prev next : Entries value} (wellFormed : WellFormed prev)
    (nextWellFormed : WellFormed next) (inOrder : CommonInOrder prev next) :
    applyTranscriptFrame prev (diffTranscript prev next) = .ok next ↔ Delivers prev next := by
  rcases applyFrame_cases wellFormed.entries nextWellFormed.entries with
    ⟨resends, result⟩ |
      ⟨stays, placed, _, contents, ordered, ⟨_, result⟩ | ⟨misses, _⟩⟩
  · exact ⟨fun _ => .inl resends, fun _ => result⟩
  · have ids := ordered.mpr (inOrder.keepsOrder nextWellFormed.entries)
    have delivers : Delivers prev next ↔ CarriesDuration prev next :=
      ⟨fun either => either.resolve_left stays, .inr⟩
    rw [result, Except.ok.injEq, map_eq_iff nextWellFormed.entries ids, delivers]
    constructor
    · intro all entry isEntry old isOld same inPlace grows
      have inIds : entry.id ∈ placed.map (·.id) := by
        rw [ids]
        exact List.mem_map_of_mem isEntry
      obtain ⟨target, isTarget, sameId⟩ := List.mem_map.mp inIds
      have ends := all target isTarget entry isEntry sameId.symm
      have left : leftInPlace prev next entry = true := by
        simp only [leftInPlace, List.any_eq_true, decide_eq_true_eq]
        exact ⟨old, isOld, same, inPlace, .inr grows⟩
      have inPrev : target ∈ prev := by
        rcases contents target isTarget with ⟨inNext, sent⟩ | ⟨inPrev, _⟩
        · rw [List.inj_on_of_nodup_map nextWellFormed.entries inNext isEntry sameId, left] at sent
          cases sent
        · exact inPrev
      have isOldTarget : target = old :=
        List.inj_on_of_nodup_map wellFormed.entries inPrev isOld (sameId.trans same.symm)
      rw [isOldTarget] at ends
      obtain ⟨append, isAppend⟩ := Option.isSome_iff_exists.mp grows
      by_cases differs : old = entry
      · rw [differs]
      · have member : append ∈ frameAppends prev next := (mem_frameAppends wellFormed.entries).mpr
          ⟨entry, isEntry, old, isOld, same, inPlace, differs, isAppend⟩
        obtain ⟨_, _, _, _, _, _, _, grew, _⟩ := tryTextAppend_eq_some isAppend
        rw [grownBy_of_mem (frameAppends_once wellFormed.entries nextWellFormed.entries) member
          (grew.entry.trans same.symm), grown_eq (wellFormed.parts old isOld) isAppend] at ends
        have durations := congrArg SessionMessageEntry.durationMs ends
        exact durations
    · intro carries entry isPlaced twin isTwin same
      rcases grownBy_placed wellFormed nextWellFormed.entries isTwin same (contents entry isPlaced)
        with ends | ⟨inPrev, inPlace, grows, ends⟩
      · exact ends
      · rw [ends, carries twin isTwin entry inPrev same.symm inPlace grows]
  · exact absurd (wellFormed.appendsFit next) misses

/-! ## Watching a producer -/

/-- A watcher's copy is the producer's transcript, now and after every frame
the producer sends for its coming transcripts. -/
def Watches (copy current : Entries value) : List (Entries value) → Prop
  | [] => copy = current
  | next :: rest => copy = current ∧
      ∃ after, applyTranscriptFrame copy (diffTranscript current next) = .ok after ∧
        Watches after next rest

theorem watches_iff {current : Entries value} {rest : List (Entries value)}
    (wellFormed : ∀ transcript ∈ current :: rest, WellFormed transcript)
    (inOrder : (current :: rest).IsChain CommonInOrder) :
    Watches current current rest ↔ (current :: rest).IsChain Delivers := by
  induction rest generalizing current with
  | nil => simp [Watches]
  | cons next rest ih =>
      rw [List.isChain_cons_cons] at inOrder ⊢
      have here := applyFrame_iff (wellFormed current List.mem_cons_self)
        (wellFormed next (List.mem_cons_of_mem _ List.mem_cons_self)) inOrder.1
      have onwards := ih (fun transcript member =>
        wellFormed transcript (List.mem_cons_of_mem _ member)) inOrder.2
      rw [Watches, ← onwards, ← here]
      constructor
      · rintro ⟨_, after, applied, watches⟩
        have reached : after = next := by
          cases rest with
          | nil => exact watches
          | cons other more => exact watches.1
        subst reached
        exact ⟨applied, watches⟩
      · rintro ⟨applied, watches⟩
        exact ⟨rfl, next, applied, watches⟩

/-- A frame brings the next transcript, every field included, and a watcher
that starts from a reset follows every run of frames, exactly when no text
append comes with a changed duration. -/
theorem watch_content_iff :
    (∀ prev next : Entries value, WellFormed prev → WellFormed next → CommonInOrder prev next →
      (applyTranscriptFrame prev (diffTranscript prev next) = .ok next ↔ Delivers prev next)) ∧
    ∀ (copy first : Entries value) (rest : List (Entries value)),
      (∀ transcript ∈ first :: rest, WellFormed transcript) →
      (first :: rest).IsChain CommonInOrder →
      ∃ started, applyTranscriptFrame copy (.reset first) = .ok started ∧
        (Watches started first rest ↔ (first :: rest).IsChain Delivers) :=
  ⟨fun _ _ wellFormed nextWellFormed inOrder => applyFrame_iff wellFormed nextWellFormed inOrder,
    fun _ first _ wellFormed inOrder => ⟨first, rfl, watches_iff wellFormed inOrder⟩⟩

/-- The segment's duration is stamped with its last words. -/
def timed (id text : String) (durationMs : Int) : SessionMessageEntry Unit :=
  { reply id text with durationMs := some durationMs }

omit [DecidableEq value] in
theorem wellFormed_singleton (entry : SessionMessageEntry value)
    (distinct : (entry.parts.map (·.id)).Nodup) : WellFormed [entry] where
  entries := List.nodup_singleton _
  parts _ member := List.mem_singleton.mp member ▸ distinct

/-- The watcher keeps the reply without its duration. -/
theorem watch_content_dropped_duration :
    ¬ ∀ prev next : Entries Unit, WellFormed prev → WellFormed next → CommonInOrder prev next →
      applyTranscriptFrame prev (diffTranscript prev next) = .ok next := by
  intro always
  have delivered := always [reply "b" "wor"] [timed "b" "world" 5]
    (wellFormed_singleton _ (List.nodup_singleton _))
    (wellFormed_singleton _ (List.nodup_singleton _))
    (by unfold CommonInOrder; decide)
  have ends : applyTranscriptFrame [reply "b" "wor"]
      (diffTranscript [reply "b" "wor"] [timed "b" "world" 5]) = .ok [reply "b" "world"] := by
    rfl
  cases ends.symm.trans delivered

/-- A reply grows, and then a second one follows. -/
theorem watch_content_streamed :
    ∃ started, applyTranscriptFrame [] (.reset [reply "a" "1"]) = .ok started ∧
      Watches started [reply "a" "1"] [[reply "a" "1 and"], [reply "a" "1 and", reply "b" "2"]] := by
  have wellFormed : ∀ transcript ∈
      [[reply "a" "1"], [reply "a" "1 and"], [reply "a" "1 and", reply "b" "2"]],
      WellFormed transcript := by
    intro transcript member
    fin_cases member
    · exact wellFormed_singleton _ (List.nodup_singleton _)
    · exact wellFormed_singleton _ (List.nodup_singleton _)
    · refine ⟨by unfold DistinctIds; decide, fun entry isEntry => ?_⟩
      rcases List.mem_pair.mp isEntry with rfl | rfl
      · exact List.nodup_singleton _
      · exact List.nodup_singleton _
  obtain ⟨started, reset, watches⟩ := watch_content_iff.2 [] [reply "a" "1"]
    [[reply "a" "1 and"], [reply "a" "1 and", reply "b" "2"]] wellFormed
    (by
      simp only [List.isChain_cons_cons, List.isChain_singleton, and_true, CommonInOrder]
      decide)
  refine ⟨started, reset, watches.mpr ?_⟩
  simp only [List.isChain_cons_cons, List.isChain_singleton, and_true, Delivers, CarriesDuration]
  decide

end Zeron.Transcript
