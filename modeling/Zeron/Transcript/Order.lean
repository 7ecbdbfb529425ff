import Zeron.Transcript.Delta

namespace Zeron.Transcript

open Data

/-! # The order a watcher ends up with

Which entries a frame moves, and when moving them is enough.
-/

variable {value : Type} [DecidableEq value]

abbrev Entries (value : Type) := List (SessionMessageEntry value)

/-- Entry ids are pairwise distinct. -/
def DistinctIds (list : Entries value) : Prop := (list.map (·.id)).Nodup

/-- The id of the entry that stands before an id. -/
def predecessor (list : Entries value) (id : String) : Option String :=
  (list.takeWhile fun entry => entry.id ≠ id).getLast?.map (·.id)

/-- An entry of `next` that `prev` already has behind the same entry, the same
or short of some appended text. -/
def leftInPlace (prev next : Entries value) (entry : SessionMessageEntry value) : Bool :=
  prev.any fun old => old.id = entry.id ∧
    predecessor prev entry.id = predecessor next entry.id ∧
    (old = entry ∨ (tryTextAppend old entry).isSome)

/-- The entries left in place stand in `prev` in the order they have in `next`. -/
def KeepsOrder (prev next : Entries value) : Prop :=
  let left := (next.filter (leftInPlace prev next)).map (·.id)
  (prev.map (·.id)).filter (· ∈ left) = left

/-- At least half of a transcript longer than four entries is not left in place. -/
def Resends (prev next : Entries value) : Prop :=
  next.length > 4 ∧
    next.length ≤ 2 * (next.filter fun entry => !leftInPlace prev next entry).length

instance (prev next : Entries value) : Decidable (Resends prev next) := instDecidableAnd

/-- The first text or reasoning part with the id a text append names is as long
as the part that grew. -/
def AppendFits (old : SessionMessageEntry value) (append : TextAppend) : Prop :=
  ∃ text, old.parts.findSome? (tailOf append.part) = some text ∧
    text.utf8ByteSize + append.text.utf8ByteSize = append.len

instance (old : SessionMessageEntry value) (append : TextAppend) :
    Decidable (AppendFits old append) :=
  decidable_of_iff ((old.parts.findSome? (tailOf append.part)).any fun text =>
      text.utf8ByteSize + append.text.utf8ByteSize = append.len) (by
    simp [AppendFits, Option.any_eq_true])

/-- Every text append reaches the part that grew. -/
def AppendsFit (prev next : Entries value) : Prop :=
  ∀ entry ∈ next, ∀ old ∈ prev, old.id = entry.id → old ≠ entry →
    predecessor prev entry.id = predecessor next entry.id →
    ∀ append ∈ tryTextAppend old entry, AppendFits old append

/-! ## Looking an entry up -/

omit [DecidableEq value] in
theorem takeWhile_split {front back : Entries value} {entry : SessionMessageEntry value}
    (distinct : DistinctIds (front ++ entry :: back)) :
    (front ++ entry :: back).takeWhile (fun other => other.id ≠ entry.id) = front := by
  induction front with
  | nil => simp
  | cons head rest ih =>
      have apart : head.id ≠ entry.id := by
        intro same
        unfold DistinctIds at distinct
        simp [same] at distinct
      have tail : DistinctIds (rest ++ entry :: back) := (List.nodup_cons.mp distinct).2
      rw [List.cons_append, List.takeWhile_cons_of_pos (by simpa using apart), ih tail]

omit [DecidableEq value] in
theorem predecessor_split {front back : Entries value} {entry : SessionMessageEntry value}
    (distinct : DistinctIds (front ++ entry :: back)) :
    predecessor (front ++ entry :: back) entry.id = front.getLast?.map (·.id) := by
  rw [predecessor, takeWhile_split distinct]

omit [DecidableEq value] in
theorem idBefore_length (front back : Entries value) (entry : SessionMessageEntry value) :
    idBefore (front ++ entry :: back) front.length = front.getLast?.map (·.id) := by
  cases front using List.reverseRecOn with
  | nil => rfl
  | append_singleton init last => simp [idBefore]

omit [DecidableEq value] in
theorem prevById_split {front back : Entries value} {entry : SessionMessageEntry value}
    (distinct : DistinctIds (front ++ entry :: back)) :
    prevById (front ++ entry :: back) entry.id = some (entry, front.length) := by
  have later : ∀ other ∈ back, other.id ≠ entry.id := by
    intro other member same
    rw [DistinctIds, List.map_append] at distinct
    have split := (List.nodup_append.mp distinct).2.1
    exact (List.nodup_cons.mp split).1 (List.mem_map.mpr ⟨other, member, same⟩)
  have none : ((back.zipIdx (front.length + 1)).reverse.find? fun item =>
      decide (item.1.id = entry.id)) = none := by
    rw [List.find?_eq_none]
    intro item member
    have inBack := List.fst_mem_of_mem_zipIdx (List.mem_reverse.mp member)
    simpa using later _ inBack
  rw [prevById, List.zipIdx_append, List.zipIdx_cons, List.reverse_append, List.reverse_cons,
    List.append_assoc, List.find?_append, Nat.zero_add, none, Option.none_or,
    List.singleton_append, List.find?_cons_of_pos (by simp)]

omit [DecidableEq value] in
theorem prevById_eq_none {prev : Entries value} {id : String}
    (absent : id ∉ prev.map (·.id)) : prevById prev id = none := by
  rw [prevById, List.find?_eq_none]
  intro item member
  have inPrev := List.fst_mem_of_mem_zipIdx (List.mem_reverse.mp member)
  simpa using fun same : item.1.id = id => absent (same ▸ List.mem_map_of_mem inPrev)

/-! ## What a round sends -/

/-- What a round of the loop sends for an entry of a transcript. -/
theorem changeOf_cases {prev : Entries value} (distinct : DistinctIds prev)
    (after : Option String) (entry : SessionMessageEntry value) :
    (∃ old ∈ prev, old.id = entry.id ∧ predecessor prev entry.id = after ∧ old = entry ∧
      changeOf prev after entry = .keep) ∨
    (∃ old ∈ prev, ∃ append, old.id = entry.id ∧ predecessor prev entry.id = after ∧
      old ≠ entry ∧ tryTextAppend old entry = some append ∧
      changeOf prev after entry = .append append) ∨
    ((∀ old ∈ prev, old.id = entry.id → predecessor prev entry.id = after →
        old ≠ entry ∧ tryTextAppend old entry = none) ∧
      changeOf prev after entry = .upsert ⟨after, entry⟩) := by
  by_cases present : entry.id ∈ prev.map (·.id)
  · obtain ⟨old, member, same⟩ := List.mem_map.mp present
    obtain ⟨front, back, rfl⟩ := List.append_of_mem member
    have unique : ∀ other ∈ front ++ old :: back, other.id = entry.id → other = old :=
      fun other isOther sameId => List.inj_on_of_nodup_map distinct isOther member
        (sameId.trans same.symm)
    have found := prevById_split distinct
    have before := predecessor_split distinct
    rw [same] at found before
    unfold changeOf
    simp only [found, idBefore_length, ← before]
    by_cases inPlace : predecessor (front ++ old :: back) entry.id = after
    · by_cases isSame : old = entry
      · exact .inl ⟨old, member, same, inPlace, isSame, if_pos ⟨isSame, inPlace⟩⟩
      · simp only [isSame, inPlace, false_and, if_false, if_true]
        cases grows : tryTextAppend old entry with
        | some append => exact .inr (.inl ⟨old, member, append, same, trivial, isSame, grows, rfl⟩)
        | none =>
            refine .inr (.inr ⟨fun other isOther sameId _ => ?_, rfl⟩)
            rw [unique other isOther sameId]
            exact ⟨isSame, grows⟩
    · refine .inr (.inr ⟨fun _ _ _ here => absurd here inPlace, ?_⟩)
      simp [inPlace]
  · refine .inr (.inr ⟨fun old member same => ?_, ?_⟩)
    · exact absurd (same ▸ List.mem_map_of_mem member) present
    · simp [changeOf, prevById_eq_none present]

/-- A round sends an entry exactly when it is not left in place. -/
theorem changeOf_upsert? {prev front back : Entries value} {entry : SessionMessageEntry value}
    (distinct : DistinctIds prev) (nextDistinct : DistinctIds (front ++ entry :: back)) :
    (changeOf prev (front.getLast?.map (·.id)) entry).upsert? =
      if leftInPlace prev (front ++ entry :: back) entry then none
      else some ⟨front.getLast?.map (·.id), entry⟩ := by
  have before := predecessor_split nextDistinct
  unfold leftInPlace
  rw [before]
  rcases changeOf_cases distinct (front.getLast?.map (·.id)) entry with
    ⟨old, member, same, inPlace, isSame, change⟩ |
      ⟨old, member, append, same, inPlace, differs, grows, change⟩ | ⟨sent, change⟩
  · rw [change, if_pos]
    · rfl
    · simp only [List.any_eq_true, decide_eq_true_eq]
      exact ⟨old, member, same, inPlace, .inl isSame⟩
  · rw [change, if_pos]
    · rfl
    · simp only [List.any_eq_true, decide_eq_true_eq]
      exact ⟨old, member, same, inPlace, .inr (by simp [grows])⟩
  · rw [change, if_neg]
    · rfl
    · simp only [List.any_eq_true, decide_eq_true_eq]
      rintro ⟨old, member, same, inPlace, isSame | grows⟩
      · exact (sent old member same inPlace).1 isSame
      · simp [(sent old member same inPlace).2] at grows

omit [DecidableEq value] in
/-- An upsert is a move. -/
theorem applyUpsert_of_moveBehind {list after : Entries value} {anchor : Option String}
    {entry : SessionMessageEntry value}
    (moves : Reorder.moveBehind (·.id) list anchor entry = some after) :
    applyUpsert list ⟨anchor, entry⟩ = .ok after := by
  cases anchor with
  | none =>
      cases moves
      rfl
  | some anchor =>
      obtain ⟨index, found, rfl⟩ := Option.map_eq_some_iff.mp moves
      unfold applyUpsert
      cases held : list.findIdx? (fun other => decide (other.id = entry.id)) with
      | none =>
          simp only [Reorder.without, held] at found ⊢
          rw [found]
      | some place =>
          simp only [Reorder.without, held] at found ⊢
          rw [found]

/-- The upserts of a frame walk over `next`, moving what is not left in place. -/
theorem upserts_of_moveAll {prev done todo list final : Entries value}
    (distinct : DistinctIds prev) (nextDistinct : DistinctIds (done ++ todo))
    (moves : Reorder.moveAll (·.id) (fun entry => !leftInPlace prev (done ++ todo) entry)
      (done.getLast?.map (·.id)) todo list = some final) :
    ((changesFrom prev (done.getLast?.map (·.id)) todo).filterMap Change.upsert?).foldlM
      applyUpsert list = .ok final := by
  induction todo generalizing done list with
  | nil =>
      cases moves
      rfl
  | cons entry rest ih =>
      have target : done ++ [entry] ++ rest = done ++ entry :: rest := by simp
      have last : (done ++ [entry]).getLast?.map (·.id) = some entry.id := by simp
      have sends := changeOf_upsert? distinct nextDistinct
      rw [← target] at nextDistinct moves
      have later := @ih (done ++ [entry])
      rw [last] at later
      rw [Reorder.moveAll] at moves
      rw [changesFrom, List.filterMap_cons, sends, ← target]
      cases left : leftInPlace prev (done ++ [entry] ++ rest) entry with
      | true =>
          rw [left] at moves
          exact later nextDistinct moves
      | false =>
          rw [left] at moves
          obtain ⟨moved, here, onwards⟩ := Option.bind_eq_some_iff.mp moves
          simp only [Bool.false_eq_true, if_false]
          rw [List.foldlM_cons, applyUpsert_of_moveBehind here]
          exact later nextDistinct onwards

/-- How many entries a frame would send. -/
theorem upserts_length {prev done todo : Entries value} (distinct : DistinctIds prev)
    (nextDistinct : DistinctIds (done ++ todo)) :
    ((changesFrom prev (done.getLast?.map (·.id)) todo).filterMap Change.upsert?).length =
      (todo.filter fun entry => !leftInPlace prev (done ++ todo) entry).length := by
  induction todo generalizing done with
  | nil => rfl
  | cons entry rest ih =>
      have target : done ++ [entry] ++ rest = done ++ entry :: rest := by simp
      have last : (done ++ [entry]).getLast?.map (·.id) = some entry.id := by simp
      have sends := changeOf_upsert? distinct nextDistinct
      have later := @ih (done ++ [entry]) (by rw [target]; exact nextDistinct)
      rw [last, target] at later
      rw [changesFrom, List.filterMap_cons, sends]
      cases left : leftInPlace prev (done ++ entry :: rest) entry with
      | true => simp [later, left]
      | false => simp [later, left]

/-! ## Applying the frame -/

/-- The entries a watcher keeps before the upserts. -/
def retained (prev next : Entries value) : Entries value :=
  prev.filter fun entry => entry.id ∈ next.map (·.id)

omit [DecidableEq value] in
theorem retained_eq (prev next : Entries value) :
    (if ((prev.filter fun entry => ¬ entry.id ∈ next.map (·.id)).map (·.id)).isEmpty then prev
      else prev.filter fun entry =>
        ¬ entry.id ∈ (prev.filter fun entry => ¬ entry.id ∈ next.map (·.id)).map (·.id)) =
      retained prev next := by
  split
  · rename_i nothing
    symm
    rw [retained, List.filter_eq_self]
    intro entry member
    rw [List.isEmpty_iff, List.map_eq_nil_iff, List.filter_eq_nil_iff] at nothing
    simpa using nothing entry member
  · apply List.filter_congr
    intro entry member
    simp only [decide_eq_decide, List.mem_map, List.mem_filter, decide_eq_true_eq]
    constructor
    · intro spared
      by_contra gone
      exact spared ⟨entry, ⟨member, gone⟩, rfl⟩
    · rintro ⟨other, here, same⟩ ⟨twin, ⟨_, gone⟩, sameId⟩
      exact gone ⟨other, here, same.trans sameId.symm⟩

/-- What the upserts leave: every entry of `next` by id, each sent one as
`next` has it and each other as `prev` has it, in the order of `next` exactly
when the entries left in place were. -/
theorem upserts_spec {prev next : Entries value} (distinct : DistinctIds prev)
    (nextDistinct : DistinctIds next) :
    ∃ placed,
      ((changesFrom prev none next).filterMap Change.upsert?).foldlM applyUpsert
        (retained prev next) = .ok placed ∧
      (placed.map (·.id)).Perm (next.map (·.id)) ∧
      (∀ entry ∈ placed, entry ∈ next ∧ leftInPlace prev next entry = false ∨
        entry ∈ prev ∧ ∃ twin ∈ next, twin.id = entry.id ∧ leftInPlace prev next twin = true) ∧
      (placed.map (·.id) = next.map (·.id) ↔ KeepsOrder prev next) := by
  have within : ∀ id ∈ (retained prev next).map (·.id), id ∈ next.map (·.id) := by
    intro id member
    obtain ⟨entry, kept, rfl⟩ := List.mem_map.mp member
    simpa using (List.mem_filter.mp kept).2
  have present : ∀ entry ∈ next, (!leftInPlace prev next entry) = false →
      entry.id ∈ (retained prev next).map (·.id) := by
    intro entry member left
    simp only [Bool.not_eq_false', leftInPlace, List.any_eq_true, decide_eq_true_eq] at left
    obtain ⟨old, isOld, same, _⟩ := left
    refine List.mem_map.mpr ⟨old, List.mem_filter.mpr ⟨isOld, ?_⟩, same⟩
    simpa [same] using ⟨entry, member, rfl⟩
  obtain ⟨placed, moves, perm, contents, inOrder⟩ := Reorder.moveAll_spec
    (distinct.sublist (List.filter_sublist.map _)) nextDistinct within present
  refine ⟨placed, @upserts_of_moveAll _ _ prev [] next _ placed distinct nextDistinct moves, perm,
    ?_, inOrder.trans ?_⟩
  · intro entry member
    refine (contents entry member).imp (And.imp_right fun moves => by simpa using moves) ?_
    rintro ⟨kept, stays⟩
    obtain ⟨twin, isTwin, same⟩ := List.mem_map.mp stays
    exact ⟨(List.mem_filter.mp kept).1, twin, (List.mem_filter.mp isTwin).1, same,
      by simpa using (List.mem_filter.mp isTwin).2⟩
  · unfold KeepsOrder Reorder.staying
    simp only [Bool.not_not]
    have narrowed : ((prev.filter fun entry => decide (entry.id ∈ next.map (·.id))).map (·.id)).filter
          (· ∈ (next.filter (leftInPlace prev next)).map (·.id)) =
        (prev.map (·.id)).filter (· ∈ (next.filter (leftInPlace prev next)).map (·.id)) := by
      have mapped : (prev.filter fun entry => decide (entry.id ∈ next.map (·.id))).map (·.id) =
          (prev.map (·.id)).filter (· ∈ next.map (·.id)) := by
        rw [List.filter_map]
        rfl
      rw [mapped, List.filter_filter]
      apply List.filter_congr
      intro id _
      have subset : id ∈ (next.filter (leftInPlace prev next)).map (·.id) → id ∈ next.map (·.id) :=
        fun member => (List.filter_sublist.map _).subset member
      by_cases left : id ∈ (next.filter (leftInPlace prev next)).map (·.id)
      · simp only [left, subset left, decide_true, Bool.and_self]
      · simp only [left, decide_false, Bool.false_and]
    rw [narrowed]

/-! ## The text appends -/

theorem eq_append_of_stripPrefix {text front tail : String}
    (stripped : stripPrefix text front = some tail) : text = front ++ tail := by
  unfold stripPrefix at stripped
  split at stripped
  · rename_i isPrefix
    cases stripped
    obtain ⟨rest, split⟩ := List.isPrefixOf_iff_prefix.mp isPrefix
    apply String.toList_injective
    rw [String.toList_append, String.toList_ofList, ← split, List.drop_left]
  · cases stripped

omit [DecidableEq value] in
theorem textBodies_eq_some {p n : MessagePart value} {pid pt nid nt : String}
    (bodies : textBodies p n = some ((pid, pt), (nid, nt))) :
    p.id = pid ∧ tailOf pid p = some pt ∧ (pid = nid → n = withText p nt) := by
  unfold textBodies at bodies
  split at bodies
  · cases bodies
    exact ⟨rfl, by simp [tailOf], by rintro rfl; rfl⟩
  · cases bodies
    exact ⟨rfl, by simp [tailOf], by rintro rfl; rfl⟩
  · cases bodies

/-- After one append has been found, every other part must be unchanged. -/
theorem appendOfParts_some {entry : String} {parts : List (MessagePart value × MessagePart value)}
    {found append : TextAppend} (result : appendOfParts entry parts (some found) = some append) :
    append = found ∧ ∀ pair ∈ parts, pair.1 = pair.2 := by
  induction parts with
  | nil =>
      cases result
      exact ⟨rfl, by simp⟩
  | cons pair rest ih =>
      unfold appendOfParts at result
      split at result
      · rename_i same
        obtain ⟨isFound, others⟩ := ih result
        refine ⟨isFound, fun other member => ?_⟩
        cases List.mem_cons.mp member with
        | inl here => exact here ▸ same
        | inr later => exact others other later
      · split at result
        · cases result
        · split at result
          · cases result
          · simp at result

/-- One text or reasoning part grew by the appended text. -/
structure Grew (entry : String) (append : TextAppend) (p n : MessagePart value) (text : String) :
    Prop where
  id : p.id = append.part
  body : tailOf append.part p = some text
  after : n = withText p (text ++ append.text)
  entry : append.entry = entry
  len : append.len = (text ++ append.text).utf8ByteSize

theorem appendOfParts_none {entry : String} {parts : List (MessagePart value × MessagePart value)}
    {append : TextAppend} (result : appendOfParts entry parts none = some append) :
    ∃ front p n back text, parts = front ++ (p, n) :: back ∧
      (∀ pair ∈ front ++ back, pair.1 = pair.2) ∧ Grew entry append p n text := by
  induction parts with
  | nil => cases result
  | cons pair rest ih =>
      obtain ⟨p, n⟩ := pair
      unfold appendOfParts at result
      split at result
      · rename_i same
        obtain ⟨front, before, after, back, text, split, others, grew⟩ := ih result
        refine ⟨(p, n) :: front, before, after, back, text, by rw [split]; rfl, ?_, grew⟩
        intro pair member
        cases List.mem_cons.mp member with
        | inl here => exact here ▸ same
        | inr later => exact others pair later
      · split at result
        · cases result
        · rename_i pid pt nid nt bodies
          split at result
          · cases result
          · rename_i tail stripped
            split at result
            · cases result
            · rename_i accepted
              have sameId : pid = nid := by
                by_contra differ
                exact accepted (.inl differ)
              obtain ⟨isAppend, others⟩ := appendOfParts_some result
              obtain ⟨id, body, after⟩ := textBodies_eq_some bodies
              have grows := eq_append_of_stripPrefix stripped
              subst isAppend sameId
              exact ⟨[], p, n, rest, pt, rfl, others, id, body, grows ▸ after rfl, rfl, by rw [grows]⟩

/-- What a text append tells of the two entries: they differ in one part, which
grew, and in nothing else but how long the turn took. -/
theorem tryTextAppend_eq_some {old entry : SessionMessageEntry value} {append : TextAppend}
    (grows : tryTextAppend old entry = some append) :
    ∃ front p n back text, old.parts = front ++ p :: back ∧ entry.parts = front ++ n :: back ∧
      Grew entry.id append p n text ∧
      { entry with parts := old.parts, durationMs := old.durationMs } = old := by
  unfold tryTextAppend at grows
  split at grows
  · cases grows
  · rename_i header
    simp only [not_or, not_not] at header
    obtain ⟨id, role, createdAt, deviceId, status, continuationOf, length⟩ := header
    obtain ⟨front, p, n, back, text, split, others, grew⟩ := appendOfParts_none grows
    have olds := congrArg (List.map Prod.fst) split
    have news := congrArg (List.map Prod.snd) split
    rw [List.map_fst_zip (by omega)] at olds
    rw [List.map_snd_zip (by omega)] at news
    have sameParts : ∀ pairs : List (MessagePart value × MessagePart value),
        (∀ pair ∈ pairs, pair.1 = pair.2) → pairs.map Prod.snd = pairs.map Prod.fst :=
      fun pairs same => List.map_congr_left fun pair member => (same pair member).symm
    rw [List.map_append, List.map_cons] at olds news
    rw [sameParts front fun pair member => others pair (List.mem_append_left _ member),
      sameParts back fun pair member => others pair (List.mem_append_right _ member)] at news
    refine ⟨_, p, n, _, text, olds, news, grew, ?_⟩
    rw [← id, ← role, ← createdAt, ← deviceId, ← status, ← continuationOf]

/-- The append a frame carries for an entry. -/
def sentAppend (prev next : Entries value) (entry : SessionMessageEntry value) :
    Option TextAppend :=
  (prev.find? fun old => old.id = entry.id ∧
    predecessor prev entry.id = predecessor next entry.id ∧ old ≠ entry).bind (tryTextAppend · entry)

theorem sentAppend_eq_some {prev next : Entries value} {entry : SessionMessageEntry value}
    (distinct : DistinctIds prev) {append : TextAppend} :
    sentAppend prev next entry = some append ↔
      ∃ old ∈ prev, old.id = entry.id ∧ predecessor prev entry.id = predecessor next entry.id ∧
        old ≠ entry ∧ tryTextAppend old entry = some append := by
  rw [sentAppend, Option.bind_eq_some_iff]
  constructor
  · rintro ⟨old, found, grows⟩
    have holds := List.find?_some found
    simp only [decide_eq_true_eq] at holds
    exact ⟨old, List.mem_of_find?_eq_some found, holds.1, holds.2.1, holds.2.2, grows⟩
  · rintro ⟨old, member, same, inPlace, differs, grows⟩
    refine ⟨old, ?_, grows⟩
    cases found : prev.find? (fun old => old.id = entry.id ∧
        predecessor prev entry.id = predecessor next entry.id ∧ old ≠ entry) with
    | none =>
        rw [List.find?_eq_none] at found
        have misses := found old member
        simp only [decide_eq_true_eq] at misses
        exact absurd ⟨same, inPlace, differs⟩ misses
    | some other =>
        have holds := List.find?_some found
        simp only [decide_eq_true_eq] at holds
        rw [List.inj_on_of_nodup_map distinct (List.mem_of_find?_eq_some found) member
          (holds.1.trans same.symm)]

theorem changeOf_append? {prev front back : Entries value} {entry : SessionMessageEntry value}
    (distinct : DistinctIds prev) (nextDistinct : DistinctIds (front ++ entry :: back)) :
    (changeOf prev (front.getLast?.map (·.id)) entry).append? =
      sentAppend prev (front ++ entry :: back) entry := by
  have before := predecessor_split nextDistinct
  rcases changeOf_cases distinct (front.getLast?.map (·.id)) entry with
    ⟨old, member, same, inPlace, isSame, change⟩ |
      ⟨old, member, append, same, inPlace, differs, grows, change⟩ | ⟨sent, change⟩
  · rw [change]
    symm
    rw [Change.append?, Option.eq_none_iff_forall_ne_some]
    intro append sends
    obtain ⟨other, isOther, sameId, _, differs, _⟩ := (sentAppend_eq_some distinct).mp sends
    exact differs ((List.inj_on_of_nodup_map distinct isOther member
      (sameId.trans same.symm)).trans isSame)
  · rw [change]
    symm
    exact (sentAppend_eq_some distinct).mpr
      ⟨old, member, same, inPlace.trans before.symm, differs, grows⟩
  · rw [change]
    symm
    rw [Change.append?, Option.eq_none_iff_forall_ne_some]
    intro append sends
    obtain ⟨old, member, same, inPlace, _, grows⟩ := (sentAppend_eq_some distinct).mp sends
    rw [(sent old member same (inPlace.trans before)).2] at grows
    cases grows

theorem appends_eq {prev done todo : Entries value} (distinct : DistinctIds prev)
    (nextDistinct : DistinctIds (done ++ todo)) :
    (changesFrom prev (done.getLast?.map (·.id)) todo).filterMap Change.append? =
      todo.filterMap (sentAppend prev (done ++ todo)) := by
  induction todo generalizing done with
  | nil => rfl
  | cons entry rest ih =>
      have target : done ++ [entry] ++ rest = done ++ entry :: rest := by simp
      have last : (done ++ [entry]).getLast?.map (·.id) = some entry.id := by simp
      have later := @ih (done ++ [entry]) (by rw [target]; exact nextDistinct)
      rw [last, target] at later
      rw [changesFrom, List.filterMap_cons, List.filterMap_cons,
        changeOf_append? distinct nextDistinct, later]

/-! ## One append -/

omit [DecidableEq value] in
/-- The part an append lands on. -/
theorem parts_split {parts : List (MessagePart value)} {part text : String}
    (found : parts.findSome? (tailOf part) = some text) :
    ∃ front body back, parts = front ++ body :: back ∧ tailOf part body = some text ∧
      (∀ other ∈ front, tailOf part other = none) ∧
      parts.findIdx? (fun body => (tailOf part body).isSome) = some front.length := by
  induction parts with
  | nil => cases found
  | cons head rest ih =>
      rw [List.findSome?_cons] at found
      rw [List.findIdx?_cons]
      cases here : tailOf part head with
      | some body =>
          rw [here] at found
          cases found
          exact ⟨[], head, rest, rfl, here, by simp, by simp⟩
      | none =>
          rw [here] at found
          obtain ⟨front, body, back, split, holds, before, index⟩ := ih found
          refine ⟨head :: front, body, back, by rw [split]; rfl, holds, ?_, by simp [index]⟩
          intro other member
          cases List.mem_cons.mp member with
          | inl same => exact same ▸ here
          | inr inFront => exact before other inFront

/-- An entry whose part grew. -/
def grown (old : SessionMessageEntry value) (append : TextAppend) : SessionMessageEntry value :=
  { old with
    parts :=
      match old.parts.findIdx? fun part => (tailOf append.part part).isSome with
      | none => old.parts
      | some here => old.parts.modify here fun part =>
          withText part ((tailOf append.part part).getD "" ++ append.text) }

theorem modify_length {α : Type} (front back : List α) (body : α) (change : α → α) :
    (front ++ body :: back).modify front.length change = front ++ change body :: back := by
  induction front with
  | nil => rfl
  | cons head rest ih => exact congrArg (head :: ·) ih

omit [DecidableEq value] in
theorem grown_parts {old : SessionMessageEntry value} {append : TextAppend} {text : String}
    {front back : List (MessagePart value)} {body : MessagePart value}
    (parts : old.parts = front ++ body :: back) (isBody : tailOf append.part body = some text)
    (index : old.parts.findIdx? (fun part => (tailOf append.part part).isSome) =
      some front.length) :
    (grown old append).parts = front ++ withText body (text ++ append.text) :: back := by
  unfold grown
  simp only [index]
  rw [parts, modify_length, isBody]
  rfl

omit [DecidableEq value] in
/-- Everything an append can do to entries of distinct ids. -/
theorem applyAppend_cases {front back : Entries value} {target : SessionMessageEntry value}
    (distinct : DistinctIds (front ++ target :: back)) {append : TextAppend}
    (same : target.id = append.entry) :
    (AppendFits target append ∧
      applyAppend (front ++ target :: back) append =
        .ok (front ++ grown target append :: back)) ∨
    (¬ AppendFits target append ∧
      ∃ reason, applyAppend (front ++ target :: back) append = .error reason) := by
  have index : (front ++ target :: back).findIdx? (fun entry => decide (entry.id = append.entry)) =
      some front.length := by
    have notFront : ∀ other ∈ front, other.id ≠ append.entry := by
      intro other member here
      rw [DistinctIds, List.map_append, List.nodup_append] at distinct
      exact distinct.2.2 _ (List.mem_map_of_mem member) _ List.mem_cons_self (here.trans same.symm)
    have none : front.findIdx? (fun entry => decide (entry.id = append.entry)) = none := by
      rw [List.findIdx?_eq_none_iff]
      simpa using notFront
    rw [List.findIdx?_append, none, Option.none_or, List.findIdx?_cons]
    simp [same]
  have at_ : (front ++ target :: back)[front.length]? = some target := by simp
  unfold applyAppend
  simp only [index, at_]
  cases found : target.parts.findSome? (tailOf append.part) with
  | none =>
      refine .inr ⟨fun fits => ?_, ?_⟩
      · obtain ⟨text, isText, _⟩ := fits
        rw [found] at isText
        cases isText
      · have missing : target.parts.findIdx? (fun part => (tailOf append.part part).isSome) = none := by
          rw [List.findIdx?_eq_none_iff]
          intro part member
          rw [List.findSome?_eq_none_iff] at found
          simp [found part member]
        simp only [missing]
        exact ⟨_, rfl⟩
  | some text =>
      obtain ⟨before, body, after, parts, isBody, _, here⟩ := @parts_split value _ _ _ found
      have atPart : target.parts[before.length]? = some body := by simp [parts]
      simp only [here, atPart, isBody, Option.getD_some, String.utf8ByteSize_append]
      by_cases fits : text.utf8ByteSize + append.text.utf8ByteSize = append.len
      · refine .inl ⟨⟨text, found, fits⟩, ?_⟩
        rw [if_neg (by simpa using fits)]
        have isGrown : { target with
              parts := target.parts.set before.length (withText body (text ++ append.text)) } =
            grown target append := by
          have ends := grown_parts parts isBody here
          have set : target.parts.set before.length (withText body (text ++ append.text)) =
              (grown target append).parts := by
            rw [ends, parts]
            simp
          rw [set]
          rfl
        rw [isGrown]
        simp
      · refine .inr ⟨?_, ?_⟩
        · rintro ⟨other, isOther, reaches⟩
          rw [found] at isOther
          cases isOther
          exact fits reaches
        · rw [if_pos fits]
          exact ⟨_, rfl⟩

/-- An entry after a frame's appends. -/
def grownBy (appends : List TextAppend) (entry : SessionMessageEntry value) :
    SessionMessageEntry value :=
  match appends.find? fun append => append.entry = entry.id with
  | some append => grown entry append
  | none => entry

omit [DecidableEq value] in
theorem grownBy_id (appends : List TextAppend) (entry : SessionMessageEntry value) :
    (grownBy appends entry).id = entry.id := by
  unfold grownBy
  split <;> rfl

omit [DecidableEq value] in
theorem grownBy_of_ne {appends : List TextAppend} {append : TextAppend}
    {entry : SessionMessageEntry value} (apart : append.entry ≠ entry.id) :
    grownBy (append :: appends) entry = grownBy appends entry := by
  rw [grownBy, List.find?_cons_of_neg (by simpa using apart)]
  rfl

omit [DecidableEq value] in
theorem grownBy_of_mem {appends : List TextAppend} (once : (appends.map (·.entry)).Nodup)
    {append : TextAppend} (member : append ∈ appends) {entry : SessionMessageEntry value}
    (same : append.entry = entry.id) : grownBy appends entry = grown entry append := by
  have found : appends.find? (fun other => decide (other.entry = entry.id)) = some append := by
    obtain ⟨front, back, rfl⟩ := List.append_of_mem member
    rw [List.map_append, List.nodup_append] at once
    have none : front.find? (fun other => decide (other.entry = entry.id)) = none := by
      rw [List.find?_eq_none]
      intro other inFront here
      exact once.2.2 _ (List.mem_map_of_mem inFront) _ List.mem_cons_self
        ((of_decide_eq_true here).trans same.symm)
    rw [List.find?_append, none, Option.none_or, List.find?_cons_of_pos (by simpa using same)]
  rw [grownBy, found]

omit [DecidableEq value] in
theorem grownBy_of_not_mem {appends : List TextAppend} {entry : SessionMessageEntry value}
    (absent : entry.id ∉ appends.map (·.entry)) : grownBy appends entry = entry := by
  have missing : appends.find? (fun append => decide (append.entry = entry.id)) = none := by
    rw [List.find?_eq_none]
    intro append member here
    exact absent (List.mem_map.mpr ⟨append, member, of_decide_eq_true here⟩)
  rw [grownBy, missing]

omit [DecidableEq value] in
/-- A frame's appends all reach the part that grew, or the frame fails. -/
theorem appends_cases {appends : List TextAppend} {list : Entries value}
    (distinct : DistinctIds list) (once : (appends.map (·.entry)).Nodup)
    (present : ∀ append ∈ appends, append.entry ∈ list.map (·.id)) :
    ((∀ append ∈ appends, ∀ target ∈ list, target.id = append.entry →
        AppendFits target append) ∧
      appends.foldlM applyAppend list = .ok (list.map (grownBy appends))) ∨
    ((∃ append ∈ appends, ∃ target ∈ list, target.id = append.entry ∧
        ¬ AppendFits target append) ∧
      ∃ reason, appends.foldlM applyAppend list = .error reason) := by
  induction appends generalizing list with
  | nil =>
      refine .inl ⟨by simp, ?_⟩
      have same : list.map (grownBy []) = list :=
        List.map_id'' (fun entry => grownBy_of_not_mem (by simp)) list
      rw [same]
      rfl
  | cons append rest ih =>
      obtain ⟨target, member, same⟩ := List.mem_map.mp (present append List.mem_cons_self)
      obtain ⟨front, back, rfl⟩ := List.append_of_mem member
      have unique : ∀ other ∈ front ++ target :: back, other.id = append.entry → other = target :=
        fun other isOther sameId => List.inj_on_of_nodup_map distinct isOther member
          (sameId.trans same.symm)
      rcases applyAppend_cases distinct same with ⟨fits, result⟩ | ⟨misses, reason, result⟩
      · have ids : (front ++ grown target append :: back).map (·.id) =
            (front ++ target :: back).map (·.id) := by
          simp [grown]
        have all := once
        rw [List.map_cons, List.nodup_cons] at once
        -- The appends that follow name other entries.
        have others : ∀ other ∈ rest, ∀ entry, entry.id = other.entry →
            (entry ∈ front ++ grown target append :: back ↔ entry ∈ front ++ target :: back) := by
          intro other isOther entry sameId
          have apart : target.id ≠ other.entry := by
            rw [same]
            exact fun clash => once.1 (List.mem_map.mpr ⟨other, isOther, clash.symm⟩)
          have notTarget : entry ≠ target := fun clash => apart (clash ▸ sameId)
          have notGrown : entry ≠ grown target append := fun clash => apart (by
            rw [clash] at sameId
            exact sameId)
          simp [notTarget, notGrown]
        have onwards := ih (by rw [DistinctIds, ids]; exact distinct) once.2
          (fun other isOther => by rw [ids]; exact present other (List.mem_cons_of_mem _ isOther))
        have images : (front ++ grown target append :: back).map (grownBy rest) =
            (front ++ target :: back).map (grownBy (append :: rest)) := by
          have settled : grownBy rest (grown target append) = grownBy (append :: rest) target := by
            rw [grownBy_of_mem all List.mem_cons_self same.symm]
            apply grownBy_of_not_mem
            change target.id ∉ _
            rw [same]
            exact once.1
          have untouched : ∀ entry ∈ front ++ back,
              grownBy rest entry = grownBy (append :: rest) entry := by
            intro entry inRest
            symm
            apply grownBy_of_ne
            intro clash
            rw [DistinctIds, List.map_append, List.map_cons, List.nodup_middle,
              List.nodup_cons, ← List.map_append, same] at distinct
            exact distinct.1 (List.mem_map.mpr ⟨entry, inRest, clash.symm⟩)
          rw [List.map_append, List.map_cons, List.map_append, List.map_cons, settled]
          congr 1
          · exact List.map_congr_left fun entry inFront =>
              untouched entry (List.mem_append_left _ inFront)
          · congr 1
            exact List.map_congr_left fun entry inBack =>
              untouched entry (List.mem_append_right _ inBack)
        rw [List.foldlM_cons, result]
        rcases onwards with ⟨allFit, ends⟩ | ⟨⟨other, isOther, entry, isEntry, sameId, bad⟩, fails⟩
        · refine .inl ⟨?_, by rw [← images]; exact ends⟩
          intro other isOther entry isEntry sameId
          cases List.mem_cons.mp isOther with
          | inl isFirst =>
              subst isFirst
              rw [unique entry isEntry sameId]
              exact fits
          | inr later =>
              exact allFit other later entry ((others other later entry sameId).mpr isEntry) sameId
        · refine .inr ⟨⟨other, List.mem_cons_of_mem _ isOther, entry, ?_, sameId, bad⟩, fails⟩
          exact (others other isOther entry sameId).mp isEntry
      · refine .inr ⟨⟨append, List.mem_cons_self, target, member, same, misses⟩, reason, ?_⟩
        rw [List.foldlM_cons, result]
        rfl

/-! ## The whole frame -/

/-- The appends a frame carries. -/
def frameAppends (prev next : Entries value) : List TextAppend :=
  next.filterMap (sentAppend prev next)

theorem mem_frameAppends {prev next : Entries value} (distinct : DistinctIds prev)
    {append : TextAppend} :
    append ∈ frameAppends prev next ↔ ∃ entry ∈ next, ∃ old ∈ prev, old.id = entry.id ∧
      predecessor prev entry.id = predecessor next entry.id ∧ old ≠ entry ∧
      tryTextAppend old entry = some append := by
  rw [frameAppends, List.mem_filterMap]
  exact exists_congr fun entry => and_congr_right fun _ => sentAppend_eq_some distinct

theorem entry_of_sentAppend {prev next : Entries value} (distinct : DistinctIds prev)
    {entry : SessionMessageEntry value} {append : TextAppend}
    (sends : sentAppend prev next entry = some append) : append.entry = entry.id := by
  obtain ⟨old, _, _, _, _, grows⟩ := (sentAppend_eq_some distinct).mp sends
  obtain ⟨_, _, _, _, _, _, _, grew, _⟩ := tryTextAppend_eq_some grows
  exact grew.entry

/-- A frame names each entry in at most one append. -/
theorem frameAppends_once {prev next : Entries value} (distinct : DistinctIds prev)
    (nextDistinct : DistinctIds next) : ((frameAppends prev next).map (·.entry)).Nodup := by
  have within : ∀ list : Entries value,
      ((list.filterMap (sentAppend prev next)).map (·.entry)).Sublist (list.map (·.id)) := by
    intro list
    induction list with
    | nil => exact List.Sublist.refl _
    | cons entry rest ih =>
        rw [List.filterMap_cons]
        cases sends : sentAppend prev next entry with
        | none => exact ih.cons _
        | some append =>
            rw [List.map_cons, List.map_cons, entry_of_sentAppend distinct sends]
            exact ih.cons_cons _
  exact nextDistinct.sublist (within next)

/-- Applying a delta: the entries are placed, and then the appends reach the
parts that grew or the frame fails. -/
theorem applyFrame_cases {prev next : Entries value} (distinct : DistinctIds prev)
    (nextDistinct : DistinctIds next) :
    (Resends prev next ∧
      applyTranscriptFrame prev (diffTranscript prev next) = .ok next) ∨
    (¬ Resends prev next ∧ ∃ placed : Entries value,
      (placed.map (·.id)).Perm (next.map (·.id)) ∧
      (∀ entry ∈ placed, entry ∈ next ∧ leftInPlace prev next entry = false ∨
        entry ∈ prev ∧ ∃ twin ∈ next, twin.id = entry.id ∧ leftInPlace prev next twin = true) ∧
      (placed.map (·.id) = next.map (·.id) ↔ KeepsOrder prev next) ∧
      (AppendsFit prev next ∧
          applyTranscriptFrame prev (diffTranscript prev next) =
            .ok (placed.map (grownBy (frameAppends prev next))) ∨
        ¬ AppendsFit prev next ∧
          ∃ reason, applyTranscriptFrame prev (diffTranscript prev next) = .error reason)) := by
  have sent := @upserts_length value _ prev [] next distinct nextDistinct
  have carried := @appends_eq value _ prev [] next distinct nextDistinct
  simp only [List.nil_append, List.getLast?_nil, Option.map_none] at sent carried
  have frame : diffTranscript prev next =
      if Resends prev next then .reset next
      else .delta ((changesFrom prev none next).filterMap Change.upsert?) (frameAppends prev next)
        ((prev.filter fun entry => ¬ entry.id ∈ next.map (·.id)).map (·.id)) next.length := by
    unfold diffTranscript
    simp only [sent, carried]
    have same : ((next.filter fun entry => !leftInPlace prev next entry).length * 2 ≥
        max next.length 1 ∧ next.length > 4) ↔ Resends prev next := by
      unfold Resends
      omega
    exact if_congr same rfl rfl
  by_cases resends : Resends prev next
  · exact .inl ⟨resends, by rw [frame, if_pos resends, applyTranscriptFrame]⟩
  · refine .inr ⟨resends, ?_⟩
    obtain ⟨placed, upserts, perm, contents, inOrder⟩ := upserts_spec distinct nextDistinct
    refine ⟨placed, perm, contents, inOrder, ?_⟩
    have applies : applyTranscriptFrame prev (diffTranscript prev next) =
        ((frameAppends prev next).foldlM applyAppend placed).bind fun ended =>
          if ended.length ≠ next.length then
            .error ("count mismatch: have " ++ toString ended.length ++ ", expected " ++
              toString next.length)
          else .ok ended := by
      rw [frame, if_neg resends, applyTranscriptFrame, retained_eq, upserts]
      rfl
    have placedDistinct : DistinctIds placed := perm.nodup_iff.mpr nextDistinct
    have present : ∀ append ∈ frameAppends prev next, append.entry ∈ placed.map (·.id) := by
      intro append member
      obtain ⟨entry, isEntry, _, _, _, _, _, grows⟩ := (mem_frameAppends distinct).mp member
      obtain ⟨_, _, _, _, _, _, _, grew, _⟩ := tryTextAppend_eq_some grows
      rw [grew.entry]
      exact perm.mem_iff.mpr (List.mem_map_of_mem isEntry)
    -- An entry that an append names still is as `prev` has it.
    have olds : ∀ entry ∈ next, ∀ old ∈ prev, old.id = entry.id →
        predecessor prev entry.id = predecessor next entry.id → ∀ append,
        tryTextAppend old entry = some append → ∀ target ∈ placed, target.id = entry.id →
        target = old := by
      intro entry isEntry old isOld same inPlace append grows target isTarget sameId
      have left : leftInPlace prev next entry = true := by
        simp only [leftInPlace, List.any_eq_true, decide_eq_true_eq]
        exact ⟨old, isOld, same, inPlace, .inr (by simp [grows])⟩
      rcases contents target isTarget with ⟨inNext, sentAgain⟩ | ⟨inPrev, _⟩
      · rw [List.inj_on_of_nodup_map nextDistinct inNext isEntry sameId, left] at sentAgain
        cases sentAgain
      · exact List.inj_on_of_nodup_map distinct inPrev isOld (sameId.trans same.symm)
    rcases appends_cases placedDistinct (frameAppends_once distinct nextDistinct) present with
      ⟨fits, result⟩ | ⟨⟨append, member, target, isTarget, sameId, bad⟩, reason, result⟩
    · refine .inl ⟨?_, ?_⟩
      · intro entry isEntry old isOld same differs inPlace append grows
        have member : append ∈ frameAppends prev next := (mem_frameAppends distinct).mpr
          ⟨entry, isEntry, old, isOld, same, inPlace, differs, grows⟩
        obtain ⟨_, _, _, _, _, _, _, grew, _⟩ := tryTextAppend_eq_some grows
        obtain ⟨target, isTarget, sameId⟩ := List.mem_map.mp (present append member)
        have isOldTarget := olds entry isEntry old isOld same inPlace append grows target isTarget
          (sameId.trans grew.entry)
        rw [← isOldTarget]
        exact fits append member target isTarget sameId
      · rw [applies, result]
        have count : (placed.map (grownBy (frameAppends prev next))).length = next.length := by
          rw [List.length_map]
          simpa using perm.length_eq
        exact if_neg (by simpa using count)
    · refine .inr ⟨fun fits => ?_, reason, by rw [applies, result]; rfl⟩
      obtain ⟨entry, isEntry, old, isOld, same, inPlace, differs, grows⟩ :=
        (mem_frameAppends distinct).mp member
      obtain ⟨_, _, _, _, _, _, _, grew, _⟩ := tryTextAppend_eq_some grows
      have isOldTarget := olds entry isEntry old isOld same inPlace append grows target isTarget
        (sameId.trans grew.entry)
      rw [isOldTarget] at bad
      exact bad (fits entry isEntry old isOld same differs inPlace append grows)

/-- A watcher ends up with the producer's order exactly when the frame is a
reset, or the entries left in place stood in that order and every text append
reaches the part that grew. -/
theorem watch_order_iff {prev next : Entries value} (distinct : DistinctIds prev)
    (nextDistinct : DistinctIds next) :
    (∃ final, applyTranscriptFrame prev (diffTranscript prev next) = .ok final ∧
      final.map (·.id) = next.map (·.id)) ↔
    Resends prev next ∨ KeepsOrder prev next ∧ AppendsFit prev next := by
  rcases applyFrame_cases distinct nextDistinct with
    ⟨resends, result⟩ | ⟨stays, placed, _, _, inOrder, ⟨fits, result⟩ | ⟨misses, reason, result⟩⟩
  · exact ⟨fun _ => .inl resends, fun _ => ⟨next, result, rfl⟩⟩
  · have ids : (placed.map (grownBy (frameAppends prev next))).map (·.id) = placed.map (·.id) := by
      rw [List.map_map]
      exact List.map_congr_left fun entry _ => grownBy_id _ entry
    constructor
    · rintro ⟨final, applied, same⟩
      cases result.symm.trans applied
      rw [ids] at same
      exact .inr ⟨inOrder.mp same, fits⟩
    · rintro (resends | ⟨keeps, _⟩)
      · exact absurd resends stays
      · exact ⟨_, result, ids.trans (inOrder.mpr keeps)⟩
  · constructor
    · rintro ⟨final, applied, _⟩
      cases result.symm.trans applied
    · rintro (resends | ⟨_, fits⟩)
      · exact absurd resends stays
      · exact absurd fits misses

/-- A finished reply with one text part. -/
def reply (id text : String) : SessionMessageEntry Unit where
  id
  role := .assistant
  parts := [.text "t0" text]
  createdAt := 0
  deviceId := "dev"
  status := none
  continuationOf := none
  durationMs := none

/-- A reply that grows while another is inserted behind it. -/
theorem watch_order_insertedBehind :
    DistinctIds [reply "a" "1", reply "c" "3"] ∧
      DistinctIds [reply "a" "1 and", reply "b" "2", reply "c" "3"] ∧
      ∃ final, applyTranscriptFrame [reply "a" "1", reply "c" "3"]
        (diffTranscript [reply "a" "1", reply "c" "3"]
          [reply "a" "1 and", reply "b" "2", reply "c" "3"]) = .ok final ∧
        final.map (·.id) = ["a", "b", "c"] := by
  have distinct : DistinctIds [reply "a" "1", reply "c" "3"] := by
    unfold DistinctIds
    decide
  have nextDistinct : DistinctIds [reply "a" "1 and", reply "b" "2", reply "c" "3"] := by
    unfold DistinctIds
    decide
  refine ⟨distinct, nextDistinct, (watch_order_iff distinct nextDistinct).mpr (.inr ⟨?_, ?_⟩)⟩
  · unfold KeepsOrder
    decide
  · unfold AppendsFit
    decide

/-- Two pairs that trade places keep their inner predecessors. -/
theorem watch_order_broken_swappedPairs :
    ¬ ∀ prev next : Entries Unit, DistinctIds prev → DistinctIds next →
      ∃ final, applyTranscriptFrame prev (diffTranscript prev next) = .ok final ∧
        final.map (·.id) = next.map (·.id) := by
  intro always
  obtain ⟨final, applied, same⟩ := always
    [reply "y" "", reply "x" "", reply "a" "", reply "b" ""]
    [reply "a" "", reply "b" "", reply "y" "", reply "x" ""]
    (by unfold DistinctIds; decide) (by unfold DistinctIds; decide)
  have ends : applyTranscriptFrame [reply "y" "", reply "x" "", reply "a" "", reply "b" ""]
      (diffTranscript [reply "y" "", reply "x" "", reply "a" "", reply "b" ""]
        [reply "a" "", reply "b" "", reply "y" "", reply "x" ""]) =
      .ok [reply "a" "", reply "x" "", reply "b" "", reply "y" ""] := by
    rfl
  cases ends.symm.trans applied
  revert same
  decide

end Zeron.Transcript
