import Mathlib

namespace Zeron.Data

/-! # Reordering a keyed list by moves

Each move takes an entry out of a list, where it is present, and puts it behind
a named entry or at the front.  A walk over a target list that moves some of
its entries behind their predecessors, and leaves the others where they are,
ends with the target's keys.  It ends in the target's order exactly when the
entries left alone already stood in that order.
-/

namespace Reorder

variable {α β : Type}

theorem insertIdx_behind (front : List β) (found entry : β) (back : List β) :
    (front ++ found :: back).insertIdx (front.length + 1) entry =
      front ++ found :: entry :: back := by
  induction front with
  | nil => rfl
  | cons head rest ih => exact congrArg (head :: ·) ih

/-- Two cuts of a list of distinct entries behind the same entry are one cut. -/
theorem cut_unique {left right front back : List α} (distinct : (left ++ right).Nodup)
    (same : front ++ back = left ++ right) (last : front.getLast? = left.getLast?) :
    front = left ∧ back = right := by
  have apart : ∀ {shorter longer : List α}, (shorter ++ longer).Nodup →
      shorter.getLast? = (shorter ++ longer).getLast? → longer = [] := by
    intro shorter longer nodup lasts
    cases final : longer.getLast? with
    | none => exact List.getLast?_eq_none_iff.mp final
    | some entry =>
        rw [List.getLast?_append, final, Option.some_or] at lasts
        have inShorter := List.mem_of_getLast? lasts
        have inLonger := List.mem_of_getLast? final
        exact absurd inLonger (List.disjoint_of_nodup_append nodup inShorter)
  rcases List.append_eq_append_iff.mp same with ⟨more, isLeft, isBack⟩ | ⟨more, isFront, isRight⟩
  · have empty : more = [] := by
      refine @apart front more ?_ ?_
      · rw [← isLeft]
        exact (List.nodup_append.mp distinct).1
      · rw [← isLeft]
        exact last
    subst empty
    exact ⟨by simpa using isLeft.symm, by simpa using isBack⟩
  · have empty : more = [] := by
      refine @apart left more ?_ ?_
      · rw [← isFront]
        rw [← same] at distinct
        exact (List.nodup_append.mp distinct).1
      · rw [← isFront]
        exact last.symm
    subst empty
    exact ⟨by simpa using isFront, by simpa using isRight.symm⟩

section Split

variable (key : β → α) (moved : β → Bool)

/-- The entries of a target that are left where they are. -/
def staying (target : List β) : List α := (target.filter fun entry => !moved entry).map key

def moving (target : List β) : List α := (target.filter moved).map key

variable {key moved}

theorem staying_append (left right : List β) :
    staying key moved (left ++ right) = staying key moved left ++ staying key moved right := by
  simp [staying]

theorem moving_append (left right : List β) :
    moving key moved (left ++ right) = moving key moved left ++ moving key moved right := by
  simp [moving]

theorem moving_subset {target : List β} {k : α} (member : k ∈ moving key moved target) :
    k ∈ target.map key :=
  (List.filter_sublist.map key).subset member

theorem staying_subset {target : List β} {k : α} (member : k ∈ staying key moved target) :
    k ∈ target.map key :=
  (List.filter_sublist.map key).subset member

theorem not_moving_of_staying {target : List β} (distinct : (target.map key).Nodup) {k : α}
    (stays : k ∈ staying key moved target) : k ∉ moving key moved target := by
  intro moves
  obtain ⟨one, isOne, rfl⟩ := List.mem_map.mp stays
  obtain ⟨two, isTwo, same⟩ := List.mem_map.mp moves
  have here := (List.mem_filter.mp isOne)
  have there := (List.mem_filter.mp isTwo)
  rw [List.inj_on_of_nodup_map distinct there.1 here.1 same] at there
  simp [there.2] at here

end Split

variable [DecidableEq α] (key : β → α)

/-- The list without the entry under a key. -/
def without (list : List β) (taken : α) : List β :=
  match list.findIdx? (fun entry => key entry = taken) with
  | some index => list.eraseIdx index
  | none => list

/-- `none` when the entry to stand behind is missing. -/
def moveBehind (list : List β) (after : Option α) (entry : β) : Option (List β) :=
  let rest := without key list (key entry)
  match after with
  | none => some (rest.insertIdx 0 entry)
  | some anchor =>
      (rest.findIdx? (fun other => key other = anchor)).map fun index =>
        rest.insertIdx (index + 1) entry

/-- Walk over the target, moving the entries it says behind their predecessors. -/
def moveAll (moved : β → Bool) : Option α → List β → List β → Option (List β)
  | _, [], list => some list
  | after, entry :: todo, list =>
      if moved entry then
        (moveBehind key list after entry).bind (moveAll moved (some (key entry)) todo)
      else moveAll moved (some (key entry)) todo list

variable {key}

theorem without_eq_filter {list : List β} (distinct : (list.map key).Nodup) (taken : α) :
    without key list taken = list.filter fun entry => key entry ≠ taken := by
  induction list with
  | nil => rfl
  | cons entry rest ih =>
      rw [List.map_cons, List.nodup_cons] at distinct
      unfold without at ih ⊢
      rw [List.findIdx?_cons]
      by_cases here : key entry = taken
      · have others : ∀ other ∈ rest, key other ≠ taken := by
          intro other member same
          apply distinct.1
          rw [here, ← same]
          exact List.mem_map_of_mem member
        have kept : rest.filter (fun entry => decide (key entry ≠ taken)) = rest := by
          rw [List.filter_eq_self]
          simpa using others
        simp only [here, decide_true, if_true, List.eraseIdx_cons_zero, ne_eq, not_true_eq_false,
          decide_false, Bool.false_eq_true, not_false_eq_true, List.filter_cons_of_neg]
        exact kept.symm
      · have smaller := ih distinct.2
        simp only [here, decide_false, Bool.false_eq_true, if_false, ne_eq, not_false_eq_true,
          decide_true, List.filter_cons_of_pos]
        rw [← smaller]
        cases List.findIdx? (fun entry => decide (key entry = taken)) rest with
        | none => rfl
        | some index => rfl

theorem mem_keys_without {list : List β} (distinct : (list.map key).Nodup) {taken other : α} :
    other ∈ (without key list taken).map key ↔ other ∈ list.map key ∧ other ≠ taken := by
  rw [without_eq_filter distinct]
  simp only [List.mem_map, List.mem_filter, decide_eq_true_eq]
  constructor
  · rintro ⟨entry, ⟨member, apart⟩, rfl⟩
    exact ⟨⟨entry, member, rfl⟩, apart⟩
  · rintro ⟨⟨entry, member, rfl⟩, apart⟩
    exact ⟨entry, ⟨member, apart⟩, rfl⟩

/-- Where a present key is found, the list splits. -/
theorem findIdx?_split {list : List β} {anchor : α} (present : anchor ∈ list.map key) :
    ∃ front found back, list = front ++ found :: back ∧ key found = anchor ∧
      list.findIdx? (fun other => key other = anchor) = some front.length := by
  induction list with
  | nil => simp at present
  | cons entry rest ih =>
      rw [List.findIdx?_cons]
      by_cases here : key entry = anchor
      · exact ⟨[], entry, rest, rfl, here, by simp [here]⟩
      · have later : anchor ∈ rest.map key := by
          rw [List.map_cons, List.mem_cons] at present
          exact present.resolve_left fun same => here same.symm
        obtain ⟨front, found, back, split, same, index⟩ := ih later
        refine ⟨entry :: front, found, back, by rw [split]; rfl, same, ?_⟩
        simp [here, index]

/-- A move cuts the list behind the entry it looks for. -/
structure Cut (list : List β) (after : Option α) (entry : β) (front back : List β) : Prop where
  rest : without key list (key entry) = front ++ back
  last : front.getLast?.map key = after
  result : moveBehind key list after entry = some (front ++ entry :: back)

theorem moveBehind_cut {list : List β} (distinct : (list.map key).Nodup) {after : Option α}
    {entry : β} (present : ∀ anchor ∈ after, anchor ∈ list.map key ∧ anchor ≠ key entry) :
    ∃ front back, @Cut _ _ _ key list after entry front back := by
  cases after with
  | none => exact ⟨[], _, rfl, rfl, rfl⟩
  | some anchor =>
      have still : anchor ∈ (without key list (key entry)).map key :=
        (mem_keys_without distinct).mpr (present anchor rfl)
      obtain ⟨front, found, back, split, same, index⟩ := findIdx?_split still
      refine ⟨front ++ [found], back, by simp [split], by simp [same], ?_⟩
      unfold moveBehind
      simp only [index, Option.map_some, Option.some.injEq]
      rw [split, insertIdx_behind]
      simp

section Cut

variable {list front back : List β} {after : Option α} {entry : β}

theorem Cut.keys (cut : @Cut _ _ _ key list after entry front back)
    (distinct : (list.map key).Nodup) :
    (front ++ back).map key = (list.map key).filter (· ≠ key entry) := by
  rw [← cut.rest, without_eq_filter distinct, List.filter_map]
  rfl

theorem Cut.mem (cut : @Cut _ _ _ key list after entry front back)
    (distinct : (list.map key).Nodup) {other : β} (member : other ∈ front ++ back) :
    other ∈ list ∧ key other ≠ key entry := by
  rw [← cut.rest, without_eq_filter distinct] at member
  simpa using member

theorem Cut.mem_keys (cut : @Cut _ _ _ key list after entry front back)
    (distinct : (list.map key).Nodup) (k : α) :
    k ∈ (front ++ entry :: back).map key ↔ k = key entry ∨ k ∈ list.map key := by
  have others : k ∈ (front ++ back).map key ↔ k ∈ list.map key ∧ k ≠ key entry := by
    rw [← cut.rest]
    exact mem_keys_without distinct
  have expand : k ∈ (front ++ entry :: back).map key ↔
      k = key entry ∨ k ∈ (front ++ back).map key := by
    simp only [List.map_append, List.map_cons, List.mem_append, List.mem_cons]
    tauto
  rw [expand, others]
  by_cases same : k = key entry
  · simp [same]
  · simp [same]

theorem Cut.distinct (cut : @Cut _ _ _ key list after entry front back)
    (distinct : (list.map key).Nodup) : ((front ++ entry :: back).map key).Nodup := by
  have apart : key entry ∉ (front ++ back).map key := by
    rw [cut.keys distinct]
    simp
  have rest : ((front ++ back).map key).Nodup := by
    rw [cut.keys distinct]
    exact distinct.filter _
  rw [List.map_append] at apart rest
  rw [List.map_append, List.map_cons]
  exact List.nodup_middle.mpr (List.nodup_cons.mpr ⟨apart, rest⟩)

/-- Off the moved key, the new list holds the old list's keys in the old order. -/
theorem Cut.unmoved (cut : @Cut _ _ _ key list after entry front back)
    (distinct : (list.map key).Nodup) {keep : α → Bool} (drops : keep (key entry) = false) :
    ((front ++ entry :: back).map key).filter keep = (list.map key).filter keep := by
  have kept : (list.map key).filter keep = ((front ++ back).map key).filter keep := by
    rw [cut.keys distinct, List.filter_filter]
    apply List.filter_congr
    intro k _
    by_cases same : k = key entry
    · simp [same, drops]
    · simp [same]
  rw [kept]
  simp [List.filter_append, drops]

/-- Where the kept keys without the moved one are a known list, and it ends
its first half at the cut, the moved key comes between the halves. -/
theorem Cut.placed (cut : @Cut _ _ _ key list after entry front back)
    (distinct : (list.map key).Nodup) {keep : α → Bool} (keeps : keep (key entry) = true)
    {before behind : List α}
    (same : (list.map key).filter (fun k => keep k && decide (k ≠ key entry)) = before ++ behind)
    (sorted : (before ++ behind).Nodup) (last : before.getLast? = after)
    (kept : ∀ k ∈ before, keep k = true) :
    ((front ++ entry :: back).map key).filter keep = before ++ key entry :: behind := by
  have halves : (front.map key).filter keep ++ (back.map key).filter keep = before ++ behind := by
    rw [← List.filter_append, ← List.map_append, cut.keys distinct, List.filter_filter]
    exact same
  have lasts : ((front.map key).filter keep).getLast? = before.getLast? := by
    have final := cut.last.trans last.symm
    rw [← final]
    cases front using List.reverseRecOn with
    | nil => rfl
    | append_singleton init found =>
        have isLast : key found ∈ before := by
          rw [List.getLast?_append, List.getLast?_singleton, Option.some_or] at final
          exact List.mem_of_getLast? final.symm
        simp [List.filter_append, kept _ isLast]
  obtain ⟨isFront, isBack⟩ := cut_unique sorted halves lasts
  rw [List.map_append, List.map_cons, List.filter_append, List.filter_cons_of_pos keeps, isFront,
    isBack]

end Cut

/-! ## The walk -/

section Walk

variable (key) (moved : β → Bool)

/-- How far a walk got: `done` of the target is behind it, `todo` is ahead. -/
structure Walk (start done todo list : List β) : Prop where
  distinct : (list.map key).Nodup
  keys : ∀ k, k ∈ list.map key ↔ k ∈ done.map key ∨ k ∈ todo.map key ∧ k ∈ start.map key
  contents : ∀ entry ∈ list, entry ∈ done ∧ moved entry = true ∨
    entry ∈ start ∧ key entry ∉ moving key moved done
  still : (list.map key).filter (· ∈ staying key moved (done ++ todo)) =
    (start.map key).filter (· ∈ staying key moved (done ++ todo))
  ordered : (start.map key).filter (· ∈ staying key moved (done ++ todo)) =
      staying key moved (done ++ todo) →
    (list.map key).filter (· ∉ moving key moved todo) = done.map key ++ staying key moved todo

variable {key moved}

/-- A list whose keys are the target's, and the walk has not started. -/
theorem Walk.begin {start target : List β} (distinct : (start.map key).Nodup)
    (targets : (target.map key).Nodup) (within : ∀ k ∈ start.map key, k ∈ target.map key)
    : Walk key moved start [] target start where
  distinct := distinct
  keys k := by
    simp only [List.map_nil, List.not_mem_nil, false_or]
    exact ⟨fun member => ⟨within k member, member⟩, And.right⟩
  contents entry member := .inr ⟨member, by simp [moving]⟩
  still := rfl
  ordered same := by
    rw [List.nil_append] at same
    rw [List.map_nil, List.nil_append, ← same]
    apply List.filter_congr
    intro k member
    have inTarget := within k member
    obtain ⟨entry, isEntry, rfl⟩ := List.mem_map.mp inTarget
    have either : key entry ∈ staying key moved target ↔ key entry ∉ moving key moved target := by
      refine ⟨not_moving_of_staying targets, fun stays => ?_⟩
      refine List.mem_map.mpr ⟨entry, List.mem_filter.mpr ⟨isEntry, ?_⟩, rfl⟩
      by_contra moves
      apply stays
      refine List.mem_map.mpr ⟨entry, List.mem_filter.mpr ⟨isEntry, ?_⟩, rfl⟩
      simpa using moves
    simp only [decide_eq_decide]
    exact either.symm

/-- What one move does to a walk. -/
theorem Walk.move {start done todo list : List β} {entry : β}
    (walk : Walk key moved start done (entry :: todo) list)
    (targets : ((done ++ entry :: todo).map key).Nodup) (moves : moved entry = true) :
    ∃ after, moveBehind key list (done.getLast?.map key) entry = some after ∧
      Walk key moved start (done ++ [entry]) todo after := by
  have split := targets
  rw [List.map_append, List.map_cons, List.nodup_append] at split
  obtain ⟨doneDistinct, todoDistinct, disjoint⟩ := split
  have present : ∀ anchor ∈ done.getLast?.map key, anchor ∈ list.map key ∧ anchor ≠ key entry := by
    intro anchor isAnchor
    obtain ⟨last, isLast, rfl⟩ := Option.mem_map.mp isAnchor
    have inDone := List.mem_map_of_mem (f := key) (List.mem_of_getLast? isLast)
    exact ⟨(walk.keys _).mpr (.inl inDone), disjoint _ inDone _ List.mem_cons_self⟩
  obtain ⟨front, back, cut⟩ := moveBehind_cut walk.distinct present
  have target : done ++ [entry] ++ todo = done ++ entry :: todo := by simp
  refine ⟨_, cut.result, cut.distinct walk.distinct, ?_, ?_, ?_, ?_⟩
  · intro k
    rw [cut.mem_keys walk.distinct, walk.keys k]
    simp only [List.map_append, List.map_cons, List.map_nil, List.mem_append, List.mem_cons,
      List.not_mem_nil, or_false]
    by_cases same : k = key entry
    · simp [same]
    · simp [same]
  · intro other member
    by_cases here : other ∈ front ++ back
    · obtain ⟨inList, different⟩ := cut.mem walk.distinct here
      rcases walk.contents other inList with ⟨behind, isMoved⟩ | ⟨inStart, untouched⟩
      · exact .inl ⟨List.mem_append_left _ behind, isMoved⟩
      · refine .inr ⟨inStart, ?_⟩
        rw [moving_append, List.mem_append]
        rintro (earlier | now)
        · exact untouched earlier
        · simp [moving, moves] at now
          exact different now
    · have isEntry : other = entry := by
        simp only [List.mem_append, List.mem_cons] at member here
        tauto
      subst isEntry
      exact .inl ⟨by simp, moves⟩
  · rw [target, ← walk.still]
    apply cut.unmoved walk.distinct
    have movesHere : key entry ∈ moving key moved (done ++ entry :: todo) :=
      List.mem_map.mpr ⟨entry, List.mem_filter.mpr ⟨by simp, moves⟩, rfl⟩
    simpa using fun stays => not_moving_of_staying targets stays movesHere
  · intro inOrder
    rw [target] at inOrder
    have before := walk.ordered inOrder
    have ahead : moving key moved (entry :: todo) = key entry :: moving key moved todo := by
      simp [moving, moves]
    have stays : staying key moved (entry :: todo) = staying key moved todo := by
      simp [staying, moves]
    rw [ahead, stays] at before
    have placed : ((front ++ entry :: back).map key).filter (· ∉ moving key moved todo) =
        done.map key ++ key entry :: staying key moved todo := by
      apply cut.placed walk.distinct
      · have entryOnce := (List.nodup_cons.mp todoDistinct).1
        simpa using fun inTodo => entryOnce (moving_subset inTodo)
      · rw [← before]
        apply List.filter_congr
        intro k _
        simp only [List.mem_cons, not_or, Bool.decide_and, Bool.and_comm, ne_eq]
      · rw [List.nodup_append]
        refine ⟨doneDistinct, (List.nodup_cons.mp todoDistinct).2.sublist
          (List.filter_sublist.map key), ?_⟩
        intro one isOne two isTwo
        exact disjoint one isOne two (List.mem_cons_of_mem _ (staying_subset isTwo))
      · exact List.getLast?_map
      · intro k inDone
        simpa using fun inTodo =>
          disjoint k inDone k (List.mem_cons_of_mem _ (moving_subset inTodo)) rfl
    rw [placed]
    simp

/-- An entry that stays costs nothing. -/
theorem Walk.stay {start done todo list : List β} {entry : β}
    (walk : Walk key moved start done (entry :: todo) list) (stays : moved entry = false)
    (present : key entry ∈ start.map key) :
    Walk key moved start (done ++ [entry]) todo list := by
  have target : done ++ [entry] ++ todo = done ++ entry :: todo := by simp
  have ahead : moving key moved (entry :: todo) = moving key moved todo := by simp [moving, stays]
  have here : staying key moved (entry :: todo) = key entry :: staying key moved todo := by
    simp [staying, stays]
  refine ⟨walk.distinct, ?_, ?_, ?_, ?_⟩
  · intro k
    rw [walk.keys k]
    simp only [List.map_append, List.map_cons, List.map_nil, List.mem_append, List.mem_cons,
      List.not_mem_nil, or_false]
    by_cases same : k = key entry
    · simp [same, present]
    · simp [same]
  · intro other member
    rcases walk.contents other member with ⟨behind, isMoved⟩ | ⟨inStart, untouched⟩
    · exact .inl ⟨List.mem_append_left _ behind, isMoved⟩
    · refine .inr ⟨inStart, ?_⟩
      have nothing : moving key moved [entry] = [] := by simp [moving, stays]
      rw [moving_append, nothing, List.append_nil]
      exact untouched
  · rw [target]
    exact walk.still
  · intro inOrder
    rw [target] at inOrder
    have before := walk.ordered inOrder
    rw [ahead, here] at before
    rw [before]
    simp

/-- A walk reaches the end of its target. -/
theorem Walk.finish {start done todo list : List β}
    (walk : Walk key moved start done todo list) (targets : ((done ++ todo).map key).Nodup)
    (present : ∀ entry ∈ todo, moved entry = false → key entry ∈ start.map key) :
    ∃ final, moveAll key moved (done.getLast?.map key) todo list = some final ∧
      Walk key moved start (done ++ todo) [] final := by
  induction todo generalizing done list with
  | nil => exact ⟨list, rfl, by simpa using walk⟩
  | cons entry todo ih =>
      have target : done ++ [entry] ++ todo = done ++ entry :: todo := by simp
      have last : (done ++ [entry]).getLast?.map key = some (key entry) := by simp
      have later : ∀ other ∈ todo, moved other = false → key other ∈ start.map key :=
        fun other member => present other (List.mem_cons_of_mem _ member)
      cases moves : moved entry with
      | true =>
          obtain ⟨after, result, next⟩ := walk.move targets moves
          obtain ⟨final, ends, finished⟩ := ih next (by rw [target]; exact targets) later
          rw [target] at finished
          rw [last] at ends
          refine ⟨final, ?_, finished⟩
          rw [moveAll, if_pos moves, result]
          exact ends
      | false =>
          have next := walk.stay moves (present entry List.mem_cons_self moves)
          obtain ⟨final, ends, finished⟩ := ih next (by rw [target]; exact targets) later
          rw [target] at finished
          rw [last] at ends
          refine ⟨final, ?_, finished⟩
          rw [moveAll, if_neg (by simp [moves])]
          exact ends

/-- The moves go through and leave the target's keys, each moved entry as the
target has it and each other as the start had it.  They leave the target's
order exactly when the entries that stay were in it. -/
theorem moveAll_spec {start target : List β} (distinct : (start.map key).Nodup)
    (targets : (target.map key).Nodup) (within : ∀ k ∈ start.map key, k ∈ target.map key)
    (present : ∀ entry ∈ target, moved entry = false → key entry ∈ start.map key) :
    ∃ final, moveAll key moved none target start = some final ∧
      (final.map key).Perm (target.map key) ∧
      (∀ entry ∈ final, entry ∈ target ∧ moved entry = true ∨
        entry ∈ start ∧ key entry ∈ staying key moved target) ∧
      (final.map key = target.map key ↔
        (start.map key).filter (· ∈ staying key moved target) = staying key moved target) := by
  obtain ⟨final, ends, walk⟩ := (Walk.begin distinct targets within).finish targets present
  simp only [List.nil_append] at walk
  have keys : ∀ k, k ∈ final.map key ↔ k ∈ target.map key := by
    intro k
    rw [walk.keys k]
    simp
  refine ⟨final, ends, (List.perm_ext_iff_of_nodup walk.distinct targets).mpr keys, ?_, ?_⟩
  · intro entry member
    refine (walk.contents entry member).imp_right fun ⟨inStart, untouched⟩ => ⟨inStart, ?_⟩
    obtain ⟨twin, inTarget, same⟩ := List.mem_map.mp ((keys _).mp (List.mem_map_of_mem member))
    rw [← same] at untouched ⊢
    refine List.mem_map.mpr ⟨twin, List.mem_filter.mpr ⟨inTarget, ?_⟩, rfl⟩
    by_contra moves
    apply untouched
    exact List.mem_map.mpr ⟨twin, List.mem_filter.mpr ⟨inTarget, by simpa using moves⟩, rfl⟩
  · have still := walk.still
    simp only [List.append_nil] at still
    constructor
    · intro same
      rw [← still, same]
      unfold staying
      rw [List.filter_map]
      congr 1
      apply List.filter_congr
      intro entry inTarget
      simp only [Function.comp_apply]
      cases moves : moved entry with
      | false =>
          simp only [Bool.not_false, decide_eq_true_eq]
          exact List.mem_map.mpr ⟨entry, List.mem_filter.mpr ⟨inTarget, by simp [moves]⟩, rfl⟩
      | true =>
          simp only [Bool.not_true, decide_eq_false_iff_not]
          intro stays
          apply not_moving_of_staying targets stays
          exact List.mem_map.mpr ⟨entry, List.mem_filter.mpr ⟨inTarget, moves⟩, rfl⟩
    · intro inOrder
      have all := walk.ordered (by simpa using inOrder)
      simpa [moving, staying] using all

end Walk

end Reorder

end Zeron.Data
