import Zeron.Registry.Doc

namespace Zeron.Registry

open Std Zeron.Data

/-! # The compaction loop as a sequence of merges

The loop of `coalesceUnsent` rewrites a two-level array in place through a map
of latest positions.  Read from outside, each turn either leaves the queue
alone or performs one `Merge`: an op alone in its batch moves to a later op
alone in its batch and the two become one.  Everything the queue means is
proved about `Merge`; this module shows that the loop does nothing else.
-/

/-- One merge on the queue, given as the live ops of each batch.  The earlier
batch is left empty; the later one holds the merged op. -/
structure Merge (before after : List (List RowOp)) : Prop where
  intro ::
  split : ∃ (front between back : List (List RowOp)) (earlier later merged : RowOp),
    before = front ++ [earlier] :: (between ++ [later] :: back) ∧
    after = front ++ [] :: (between ++ [merged] :: back) ∧
    coalesceOps earlier later = some merged ∧
    (∀ op ∈ between.flatten, op.key ≠ later.key) ∧
    -- A session op stays inside its run, behind the run's head, and never
    -- crosses a chat op its notification depends on.
    (later.kind = kindSessions →
      sessionSignal earlier = sessionSignal later ∧
      (∀ op ∈ between.flatten, op.kind = kindChats → op.id = later.id →
        chatGatesNotifications op = false) ∧
      ∃ older head newer, front.flatten = older ++ head :: newer ∧ head.key = later.key ∧
        head.op ≠ .delete ∧ sessionSignal head = sessionSignal earlier ∧
        ∀ op ∈ newer, op.key ≠ later.key) ∧
    -- A gating chat op never crosses a session op of its chat.
    (later.kind = kindChats → chatGatesNotifications earlier = true →
      ∀ op ∈ between.flatten, op.key ≠ ⟨kindSessions, later.id⟩)

/-- Any number of merges. -/
abbrev Compacts : List (List RowOp) → List (List RowOp) → Prop := Relation.ReflTransGen Merge

namespace Compaction

/-! ## Positions -/

/-- Lexicographic order of positions. -/
def Before (left right : OpPos) : Prop := left.1 < right.1 ∨ left.1 = right.1 ∧ left.2 < right.2

theorem after_iff {left right : OpPos} : left.after right = true ↔ Before right left := by
  simp only [OpPos.after, Before, Bool.or_eq_true, Bool.and_eq_true, decide_eq_true_eq, beq_iff_eq]
  omega

theorem not_before_self (place : OpPos) : ¬ Before place place := by
  simp only [Before]
  omega

theorem Before.trans {a b c : OpPos} (first : Before a b) (second : Before b c) : Before a c := by
  simp only [Before] at *
  omega

theorem eq_of_not_before {a b : OpPos} (left : ¬ Before a b) (right : ¬ Before b a) : a = b := by
  simp only [Before] at *
  exact Prod.ext (by omega) (by omega)

theorem opAt_eq_some {tail : List TailBatch} {place : OpPos} {op : RowOp} :
    opAt tail place = some op ↔
      ∃ batch, tail[place.1]? = some batch ∧ batch.ops[place.2]? = some (some op) := by
  simp only [opAt, Option.join_eq_some_iff, Option.bind_eq_some_iff]

theorem mem_live {batch : TailBatch} {op : RowOp} :
    op ∈ batch.live ↔ ∃ index : Nat, batch.ops[index]? = some (some op) := by
  rw [TailBatch.live, List.mem_filterMap]
  simp only [id_eq, exists_eq_right, List.mem_iff_getElem?]

theorem opAt_setOp_of_ne {tail : List TailBatch} {at_ place : OpPos} (apart : place ≠ at_)
    (op : Option RowOp) : opAt (setOp tail at_ op) place = opAt tail place := by
  unfold opAt setOp
  rw [List.getElem?_modify]
  by_cases same : at_.1 = place.1
  · have index : at_.2 ≠ place.2 := fun equal => apart (Prod.ext same.symm equal.symm)
    cases found : tail[place.1]? <;> simp [same, List.getElem?_set_ne index]
  · simp [same]

theorem opAt_setOp_self {tail : List TailBatch} {at_ : OpPos} {held : RowOp}
    (found : opAt tail at_ = some held) (op : Option RowOp) :
    opAt (setOp tail at_ op) at_ = op := by
  obtain ⟨batch, inTail, inBatch⟩ := opAt_eq_some.mp found
  have bound : at_.2 < batch.ops.length := (List.getElem?_eq_some_iff.mp inBatch).1
  simp [opAt, setOp, inTail, List.getElem?_set_self bound]

theorem opAt_markGained (tail : List TailBatch) (index : Nat) (place : OpPos) :
    opAt (markGained tail index) place = opAt tail place := by
  unfold opAt markGained
  rw [List.getElem?_modify]
  cases found : tail[place.1]? with
  | none => simp
  | some batch => by_cases same : index = place.1 <;> simp [same]

/-- The tail one merge leaves behind. -/
def merged (tail : List TailBatch) (at_ here : OpPos) (op : RowOp) : List TailBatch :=
  markGained (setOp (setOp tail at_ none) here (some op)) here.1

theorem opAt_merged_here {tail : List TailBatch} {at_ here : OpPos} {held op : RowOp}
    (apart : here ≠ at_) (found : opAt tail here = some held) :
    opAt (merged tail at_ here op) here = some op := by
  rw [merged, opAt_markGained]
  exact opAt_setOp_self (by rw [opAt_setOp_of_ne apart]; exact found) (some op)

theorem opAt_merged_earlier {tail : List TailBatch} {at_ here : OpPos} {held op : RowOp}
    (apart : here ≠ at_) (found : opAt tail at_ = some held) :
    opAt (merged tail at_ here op) at_ = none := by
  rw [merged, opAt_markGained, opAt_setOp_of_ne apart.symm, opAt_setOp_self found]

theorem opAt_merged_of_ne {tail : List TailBatch} {at_ here place : OpPos} {op : RowOp}
    (notHere : place ≠ here) (notEarlier : place ≠ at_) :
    opAt (merged tail at_ here op) place = opAt tail place := by
  rw [merged, opAt_markGained, opAt_setOp_of_ne notHere, opAt_setOp_of_ne notEarlier]

/-! ## What a batch of the tail may become -/

/-- A batch keeps its id and length; unless it holds a single op it keeps
everything, and without gaining content it at most loses that op. -/
structure Kept (original now : TailBatch) : Prop where
  batch : now.batch = original.batch
  length : now.ops.length = original.ops.length
  multi : original.ops.length ≠ 1 → now = original
  ungained : now.gained = false → now.live = original.live ∨ now.live = []

theorem Kept.refl (batch : TailBatch) : Kept batch batch :=
  ⟨rfl, rfl, fun _ => rfl, fun _ => .inl rfl⟩

theorem opCount_of_kept {originals tail : List TailBatch} (kept : originals.Forall₂ Kept tail)
    (index : Nat) : opCount tail index = opCount originals index := by
  unfold opCount
  induction kept generalizing index with
  | nil => rfl
  | cons head _ ih =>
      cases index with
      | zero => simp [head.length]
      | succ index => simpa using ih index

theorem modify_split {α : Type} (front : List α) (here : α) (back : List α) (rewrite : α → α) :
    (front ++ here :: back).modify front.length rewrite = front ++ rewrite here :: back := by
  induction front with
  | nil => rfl
  | cons first front ih => simp [ih]

/-- Two places of a list, the first before the second. -/
theorem split_two {α : Type} {list : List α} {i j : Nat} {first second : α} (order : i < j)
    (atFirst : list[i]? = some first) (atSecond : list[j]? = some second) :
    ∃ front between back, list = front ++ first :: (between ++ second :: back) ∧
      front.length = i ∧ front.length + 1 + between.length = j := by
  obtain ⟨firstBound, firstIs⟩ := List.getElem?_eq_some_iff.mp atFirst
  obtain ⟨secondBound, secondIs⟩ := List.getElem?_eq_some_iff.mp atSecond
  refine ⟨list.take i, (list.drop (i + 1)).take (j - i - 1), list.drop (j + 1), ?_, ?_, ?_⟩
  · have inner : list.drop (i + 1) =
        (list.drop (i + 1)).take (j - i - 1) ++ second :: list.drop (j + 1) := by
      conv_lhs => rw [← List.take_append_drop (j - i - 1) (list.drop (i + 1))]
      congr 1
      rw [List.drop_drop, show i + 1 + (j - i - 1) = j by omega,
        List.drop_eq_getElem_cons secondBound, secondIs]
    conv_lhs => rw [← List.take_append_drop i list, List.drop_eq_getElem_cons firstBound, firstIs]
    rw [← inner]
  · simp; omega
  · simp; omega

/-! ## The loop invariant -/

/-- What the loop has established once every position before `bound` was
visited. -/
structure Invariant (originals : List TailBatch) (state : Compaction) (bound : OpPos) : Prop where
  kept : originals.Forall₂ Kept state.tail
  compacts : Compacts (originals.map TailBatch.live) (state.tail.map TailBatch.live)
  untouched : state.folded = 0 → state.tail = originals
  lastLive : ∀ {key : RowKey} {at_ : OpPos} {head : Bool}, state.last[key]? = some (at_, head) →
    Before at_ bound ∧ ∃ op, opAt state.tail at_ = some op ∧ op.key = key
  lastLatest : ∀ {place : OpPos} {op : RowOp}, Before place bound →
    opAt state.tail place = some op →
    ∃ at_ head, state.last[op.key]? = some (at_, head) ∧ ¬ Before at_ place
  gatingLatest : ∀ {place : OpPos} {op : RowOp}, Before place bound →
    opAt state.tail place = some op → op.kind = kindChats → chatGatesNotifications op = true →
    ∃ chat, state.gatingChat[op.id]? = some chat ∧ ¬ Before chat place
  /-- Behind a recorded session op that is not a run head sits the op it
  continues. -/
  runs : ∀ {key : RowKey} {at_ : OpPos} {op : RowOp}, state.last[key]? = some (at_, false) →
    key.kind = kindSessions → opAt state.tail at_ = some op →
    ∃ place head, Before place at_ ∧ opAt state.tail place = some head ∧ head.key = key ∧
      head.op ≠ .delete ∧ sessionSignal head = sessionSignal op ∧
      ∀ other between, Before place other → Before other at_ →
        opAt state.tail other = some between → between.key ≠ key

theorem prev_eq_some {state : Compaction} {key : RowKey} {at_ : OpPos} {head : Bool} {op : RowOp} :
    state.prev key = some (at_, head, op) ↔
      state.last[key]? = some (at_, head) ∧ opAt state.tail at_ = some op := by
  unfold prev
  constructor
  · intro found
    obtain ⟨entry, inLast, here⟩ := Option.bind_eq_some_iff.mp found
    obtain ⟨held, inTail, same⟩ := Option.map_eq_some_iff.mp here
    cases same
    exact ⟨inLast, inTail⟩
  · rintro ⟨inLast, inTail⟩
    simp [inLast, inTail]

/-- What a merge at `here` was allowed by. -/
theorem merge?_eq_some {state : Compaction} {here at_ : OpPos} {op replacement : RowOp}
    (merges : state.merge? here op = some (at_, replacement)) :
    ∃ prevHead prevOp, state.last[op.key]? = some (at_, prevHead) ∧
      opAt state.tail at_ = some prevOp ∧ opCount state.tail here.1 = 1 ∧
      opCount state.tail at_.1 = 1 ∧ state.mayMove op prevOp at_ prevHead = true ∧
      coalesceOps prevOp op = some replacement := by
  unfold merge? at merges
  obtain ⟨⟨found, prevHead, prevOp⟩, isPrev, rest⟩ := Option.bind_eq_some_iff.mp merges
  simp only [Option.ite_none_right_eq_some, Bool.and_eq_true, beq_iff_eq,
    Option.map_eq_some_iff, Prod.mk.injEq] at rest
  obtain ⟨⟨⟨hereSingle, atSingle⟩, moves⟩, merged, coalesced, same, rfl⟩ := rest
  subst same
  obtain ⟨inLast, inTail⟩ := prev_eq_some.mp isPrev
  exact ⟨prevHead, prevOp, inLast, inTail, hereSingle, atSingle, moves, coalesced⟩

/-- A batch whose single op is live holds just that op. -/
theorem live_of_single {tail : List TailBatch} {place : OpPos} {op : RowOp}
    (found : opAt tail place = some op) (single : opCount tail place.1 = 1) :
    place.2 = 0 ∧ ∃ batch, tail[place.1]? = some batch ∧ batch.ops = [some op] := by
  obtain ⟨batch, inTail, inBatch⟩ := opAt_eq_some.mp found
  have length : batch.ops.length = 1 := by simpa [opCount, inTail] using single
  obtain ⟨only, isOnly⟩ := List.length_eq_one_iff.mp length
  rw [isOnly] at inBatch
  obtain ⟨bound, held⟩ := List.getElem?_eq_some_iff.mp inBatch
  have index : place.2 = 0 := by
    simp only [List.length_singleton] at bound
    omega
  refine ⟨index, batch, inTail, ?_⟩
  rw [isOnly]
  simp only [index, List.getElem_cons_zero] at held
  rw [held]

theorem opAt_of_mem_split {front between back : List TailBatch} {first second batch : TailBatch}
    {op : RowOp} (member : batch ∈ between) (live : op ∈ batch.live) :
    ∃ place : OpPos, place.1 < front.length + 1 + between.length ∧ front.length < place.1 ∧
      opAt (front ++ first :: (between ++ second :: back)) place = some op := by
  obtain ⟨offset, atOffset⟩ := List.mem_iff_getElem?.mp member
  obtain ⟨index, atIndex⟩ := mem_live.mp live
  have bound : offset < between.length := (List.getElem?_eq_some_iff.mp atOffset).1
  refine ⟨(front.length + 1 + offset, index), by simp only; omega, by simp only; omega, ?_⟩
  refine opAt_eq_some.mpr ⟨batch, ?_, atIndex⟩
  simp only
  rw [List.getElem?_append_right (by omega),
    show front.length + 1 + offset - front.length = offset + 1 by omega, List.getElem?_cons_succ,
    List.getElem?_append_left bound, atOffset]

/-- An op before the end of `front`, as a place in the ops of `front`. -/
theorem split_live {front rest : List TailBatch} {place : OpPos} {op : RowOp}
    (inside : place.1 < front.length) (found : opAt (front ++ rest) place = some op) :
    ∃ older newer, (front.map TailBatch.live).flatten = older ++ op :: newer ∧
      ∀ other ∈ newer, ∃ at_ : OpPos, Before place at_ ∧ at_.1 < front.length ∧
        opAt (front ++ rest) at_ = some other := by
  obtain ⟨batch, inTail, inBatch⟩ := opAt_eq_some.mp found
  rw [List.getElem?_append_left inside] at inTail
  have batchSplit : front = front.take place.1 ++ batch :: front.drop (place.1 + 1) := by
    conv_lhs => rw [← List.take_append_drop place.1 front, List.drop_eq_getElem_cons inside]
    rw [(List.getElem?_eq_some_iff.mp inTail).2]
  obtain ⟨opBound, isOp⟩ := List.getElem?_eq_some_iff.mp inBatch
  have opSplit : batch.live = (batch.ops.take place.2).filterMap id ++ op ::
      (batch.ops.drop (place.2 + 1)).filterMap id := by
    conv_lhs => rw [TailBatch.live, ← List.take_append_drop place.2 batch.ops,
      List.drop_eq_getElem_cons opBound, isOp]
    simp
  refine ⟨((front.take place.1).map TailBatch.live).flatten ++
      (batch.ops.take place.2).filterMap id,
    (batch.ops.drop (place.2 + 1)).filterMap id ++
      ((front.drop (place.1 + 1)).map TailBatch.live).flatten, ?_, ?_⟩
  · conv_lhs => rw [batchSplit]
    simp [opSplit]
  · intro other member
    rcases List.mem_append.mp member with sameBatch | laterBatch
    · simp only [List.mem_filterMap, id_eq, exists_eq_right] at sameBatch
      obtain ⟨index, atIndex⟩ := List.mem_iff_getElem?.mp sameBatch
      rw [List.getElem?_drop] at atIndex
      refine ⟨(place.1, place.2 + 1 + index), .inr ⟨rfl, by simp only; omega⟩, inside, ?_⟩
      exact opAt_eq_some.mpr ⟨batch, by rw [List.getElem?_append_left inside]; exact inTail, atIndex⟩
    · simp only [List.mem_flatten, List.mem_map, exists_exists_and_eq_and] at laterBatch
      obtain ⟨later, inFront, live⟩ := laterBatch
      obtain ⟨offset, atOffset⟩ := List.mem_iff_getElem?.mp inFront
      obtain ⟨index, atIndex⟩ := mem_live.mp live
      rw [List.getElem?_drop] at atOffset
      have bound := (List.getElem?_eq_some_iff.mp atOffset).1
      refine ⟨(place.1 + 1 + offset, index), .inl (by simp only; omega), bound, ?_⟩
      exact opAt_eq_some.mpr
        ⟨later, by rw [List.getElem?_append_left bound]; exact atOffset, atIndex⟩

theorem forall₂_modify {α : Type} {R : α → α → Prop} {left right : List α}
    (related : left.Forall₂ R right) (index : Nat) (rewrite : α → α)
    (keeps : ∀ a b, left[index]? = some a → right[index]? = some b → R a b → R a (rewrite b)) :
    left.Forall₂ R (right.modify index rewrite) := by
  induction related generalizing index with
  | nil => cases index <;> exact .nil
  | @cons a b restLeft restRight head tail ih =>
      cases index with
      | zero => exact .cons (keeps a b rfl rfl head) tail
      | succ index => exact .cons head (ih index (fun a b => keeps a b))

theorem merged_eq_modify (tail : List TailBatch) (at_ here : OpPos) (op : RowOp) :
    merged tail at_ here op =
      (tail.modify at_.1 fun batch => { batch with ops := batch.ops.set at_.2 none }).modify here.1
        fun batch => { batch with ops := batch.ops.set here.2 (some op), gained := true } := by
  simp only [merged, markGained, setOp, List.modify_modify_eq]
  rfl

theorem kept_merged {originals tail : List TailBatch} {at_ here : OpPos} {earlier later op : RowOp}
    (kept : originals.Forall₂ Kept tail) (apart : at_.1 ≠ here.1)
    (atEarlier : opAt tail at_ = some earlier) (atSingle : opCount tail at_.1 = 1)
    (atHere : opAt tail here = some later) (hereSingle : opCount tail here.1 = 1) :
    originals.Forall₂ Kept (merged tail at_ here op) := by
  obtain ⟨atZero, first, firstIs, firstOps⟩ := live_of_single atEarlier atSingle
  obtain ⟨_, second, secondIs, secondOps⟩ := live_of_single atHere hereSingle
  rw [merged_eq_modify]
  refine forall₂_modify (forall₂_modify kept at_.1 _ ?_) here.1 _ ?_
  · intro original now _ isNow held
    rw [firstIs] at isNow
    cases isNow
    have one : original.ops.length = 1 := by rw [← held.length, firstOps]; rfl
    refine ⟨held.batch, by simpa using held.length, fun many => absurd one many, fun _ => .inr ?_⟩
    simp [TailBatch.live, firstOps, atZero]
  · intro original now _ isNow held
    simp only [List.getElem?_modify, apart, if_false, secondIs] at isNow
    cases isNow
    have one : original.ops.length = 1 := by rw [← held.length, secondOps]; rfl
    exact ⟨held.batch, by simpa using held.length, fun many => absurd one many, nofun⟩

theorem sessionSignal_merged {earlier later merged : RowOp}
    (spec : Coalesced earlier later merged)
    (same : sessionSignal earlier = sessionSignal later) :
    sessionSignal merged = sessionSignal earlier := by
  simp only [sessionSignal, Prod.mk.injEq] at *
  exact ⟨spec.set same.1, spec.set same.2⟩

/-- No live op of the row sits between its recorded latest op and `here`. -/
theorem Invariant.none_between {originals : List TailBatch} {state : Compaction} {here : OpPos}
    (invariant : Invariant originals state here) {key : RowKey} {at_ : OpPos} {head : Bool}
    (latest : state.last[key]? = some (at_, head)) {place : OpPos} {op : RowOp}
    (past : Before at_ place) (before : Before place here)
    (found : opAt state.tail place = some op) : op.key ≠ key := by
  intro same
  obtain ⟨other, _, inLast, notBefore⟩ := invariant.lastLatest before found
  rw [same, latest] at inLast
  cases inLast
  exact notBefore past

/-- An op that does not head a run continues the row's previous op. -/
theorem continues_of_not_head {state : Compaction} {op : RowOp}
    (session : op.kind = kindSessions) (follower : state.isHead op = false) :
    ∃ at_ head prevOp, state.last[op.key]? = some (at_, head) ∧
      opAt state.tail at_ = some prevOp ∧ prevOp.op ≠ .delete ∧
      sessionSignal prevOp = sessionSignal op := by
  simp only [isHead, session, beq_self_eq_true, Bool.true_and] at follower
  cases found : state.prev op.key with
  | none => simp [found] at follower
  | some entry =>
      obtain ⟨at_, head, prevOp⟩ := entry
      obtain ⟨inLast, inTail⟩ := prev_eq_some.mp found
      simp only [found, Option.all_some, Bool.or_eq_false_iff, beq_eq_false_iff_ne, ne_eq,
        bne_eq_false_iff_eq] at follower
      exact ⟨at_, head, prevOp, inLast, inTail, follower.1, follower.2⟩

theorem Invariant.merge_step {originals : List TailBatch} {state : Compaction} {here at_ : OpPos}
    {op replacement : RowOp} (invariant : Invariant originals state here)
    (atHere : opAt state.tail here = some op)
    (merges : state.merge? here op = some (at_, replacement)) :
    Merge (state.tail.map TailBatch.live)
      ((merged state.tail at_ here replacement).map TailBatch.live) := by
  obtain ⟨prevHead, prevOp, inLast, atEarlier, hereSingle, atSingle, moves, coalesced⟩ :=
    merge?_eq_some merges
  obtain ⟨atZero, first, firstIs, firstOps⟩ := live_of_single atEarlier atSingle
  obtain ⟨hereZero, second, secondIs, secondOps⟩ := live_of_single atHere hereSingle
  have past : Before at_ here := (invariant.lastLive inLast).1
  have order : at_.1 < here.1 := by
    simp only [Before] at past
    omega
  obtain ⟨front, between, back, tailIs, frontLength, betweenLength⟩ :=
    split_two order firstIs secondIs
  -- Every op strictly between the pair has been visited.
  have visited : ∀ other ∈ (between.map TailBatch.live).flatten, ∃ place : OpPos,
      Before at_ place ∧ Before place here ∧ opAt state.tail place = some other := by
    intro other member
    simp only [List.mem_flatten, List.mem_map, exists_exists_and_eq_and] at member
    obtain ⟨batch, inBetween, live⟩ := member
    obtain ⟨place, below, above, found⟩ :=
      @opAt_of_mem_split front between back first second batch other inBetween live
    exact ⟨place, .inl (by omega), .inl (by omega), by rw [tailIs]; exact found⟩
  refine ⟨front.map TailBatch.live, between.map TailBatch.live, back.map TailBatch.live,
    prevOp, op, replacement, ?_, ?_, coalesced, ?_, ?_, ?_⟩
  · rw [tailIs]
    simp [TailBatch.live, firstOps, secondOps]
  · rw [merged_eq_modify, tailIs, ← frontLength, modify_split, ← betweenLength,
      show front.length + 1 + between.length =
        (front ++ { first with ops := first.ops.set at_.2 none } :: between).length by
        simp; omega,
      show ∀ x y : TailBatch, front ++ x :: (between ++ y :: back) =
        (front ++ x :: between) ++ y :: back by simp, modify_split]
    simp [TailBatch.live, firstOps, secondOps, atZero, hereZero]
  · intro other member
    obtain ⟨place, after, before, found⟩ := visited other member
    exact invariant.none_between inLast after before found
  · intro session
    simp only [mayMove, session, beq_self_eq_true, if_true, Bool.and_eq_true,
      Bool.not_eq_true'] at moves
    obtain ⟨⟨follower, notHead⟩, ungated⟩ := moves
    obtain ⟨_, _, _, sameLast, samePrev, _, signal⟩ := continues_of_not_head session follower
    rw [inLast] at sameLast
    cases sameLast
    rw [atEarlier] at samePrev
    cases samePrev
    refine ⟨signal, ?_, ?_⟩
    · intro other member isChat sameId
      obtain ⟨place, after, before, found⟩ := visited other member
      by_contra gates
      simp only [Bool.not_eq_false] at gates
      obtain ⟨chat, inGating, notBefore⟩ := invariant.gatingLatest before found isChat gates
      rw [sameId] at inGating
      have later : chat.after at_ = true := by
        refine after_iff.mpr ?_
        simp only [Before] at *
        omega
      simp [inGating, later] at ungated
    · subst notHead
      obtain ⟨place, head, before, atHead, headKey, headLives, headSignal, gap⟩ :=
        invariant.runs inLast session atEarlier
      have inFront : place.1 < front.length := by
        simp only [Before] at before
        omega
      obtain ⟨older, newer, flat, newerAt⟩ :=
        split_live inFront (by rw [← tailIs]; exact atHead)
      refine ⟨older, head, newer, flat, headKey, headLives, headSignal, ?_⟩
      intro other member
      obtain ⟨spot, afterHead, inside, found⟩ := newerAt other member
      exact gap spot other afterHead (.inl (by omega)) (by rw [tailIs]; exact found)
  · intro isChat gates other member sameKey
    obtain ⟨place, after, before, found⟩ := visited other member
    have notSession : (kindChats == kindSessions) = false := by decide
    simp only [mayMove, notSession, Bool.false_eq_true, if_false, isChat, beq_self_eq_true, gates,
      Bool.and_self, if_true, Bool.not_eq_true'] at moves
    obtain ⟨session, _, inSessions, notBefore⟩ := invariant.lastLatest before found
    rw [sameKey] at inSessions
    have later : session.after at_ = true := by
      refine after_iff.mpr ?_
      simp only [Before] at *
      omega
    rw [inSessions] at moves
    simp [later] at moves

/-! ## One turn of the loop -/

theorem before_succ {place here : OpPos} :
    Before place (here.1, here.2 + 1) ↔ Before place here ∨ place = here := by
  simp only [Before, Prod.ext_iff]
  omega

/-- Nothing live at `here`: the invariant moves past it unchanged. -/
theorem Invariant.skip {originals : List TailBatch} {state : Compaction} {here bound : OpPos}
    (invariant : Invariant originals state here)
    (further : ∀ place, Before place here → Before place bound)
    (empty : ∀ place op, Before place bound → opAt state.tail place = some op → Before place here) :
    Invariant originals state bound where
  kept := invariant.kept
  compacts := invariant.compacts
  untouched := invariant.untouched
  lastLive found := ⟨further _ (invariant.lastLive found).1, (invariant.lastLive found).2⟩
  lastLatest before found := invariant.lastLatest (empty _ _ before found) found
  gatingLatest before found := invariant.gatingLatest (empty _ _ before found) found
  runs := invariant.runs

/-- The bookkeeping at the end of a turn, whichever op is now live at `here`.
Away from `here` the turn only removed ops, and only of this row. -/
theorem Invariant.record {originals tail : List TailBatch} {state : Compaction} {here : OpPos}
    {op live : RowOp} {folded : Nat} (invariant : Invariant originals state here)
    (kept : originals.Forall₂ Kept tail)
    (compacts : Compacts (originals.map TailBatch.live) (tail.map TailBatch.live))
    (untouched : folded = 0 → tail = originals)
    (atHere : opAt tail here = some live) (sameKey : live.key = op.key)
    (removes : ∀ {place other}, place ≠ here → opAt tail place = some other →
      opAt state.tail place = some other)
    (keeps : ∀ {place other}, place ≠ here → opAt state.tail place = some other →
      other.key ≠ op.key → opAt tail place = some other)
    (continues : state.isHead op = false → op.kind = kindSessions →
      ∃ place head, Before place here ∧ opAt tail place = some head ∧ head.key = op.key ∧
        head.op ≠ .delete ∧ sessionSignal head = sessionSignal live ∧
        ∀ other between, Before place other → Before other here →
          opAt tail other = some between → between.key ≠ op.key) :
    Invariant originals
      { tail
        folded
        gatingChat :=
          if live.kind == kindChats && chatGatesNotifications live then
            state.gatingChat.insert live.id here
          else state.gatingChat
        last := state.last.insert op.key (here, state.isHead op) }
      (here.1, here.2 + 1) where
  kept := kept
  compacts := compacts
  untouched := untouched
  lastLive := by
    intro key at_ head found
    simp only [ExtTreeMap.getElem?_insert] at found
    split at found
    · rename_i same
      cases found
      exact ⟨before_succ.mpr (.inr rfl), live, atHere, sameKey.trans (LawfulEqCmp.eq_of_compare same)⟩
    · rename_i differs
      obtain ⟨before, other, held, key_⟩ := invariant.lastLive found
      have notHere : at_ ≠ here := fun same => not_before_self here (same ▸ before)
      refine ⟨before_succ.mpr (.inl before), other, keeps notHere held ?_, key_⟩
      rintro same
      exact differs (by rw [← key_, same]; exact ReflCmp.compare_self)
  lastLatest := by
    intro place other before found
    simp only [ExtTreeMap.getElem?_insert]
    rcases before_succ.mp before with earlier | rfl
    · split
      · exact ⟨here, _, rfl, fun later => not_before_self _ (later.trans earlier)⟩
      · have notHere : place ≠ here := fun same => not_before_self here (same ▸ earlier)
        exact invariant.lastLatest earlier (removes notHere found)
    · rw [atHere] at found
      cases found
      rw [sameKey]
      exact ⟨place, state.isHead op, by simp, not_before_self _⟩
  gatingLatest := by
    intro place other before found isChat gates
    rcases before_succ.mp before with earlier | rfl
    · have notHere : place ≠ here := fun same => not_before_self here (same ▸ earlier)
      obtain ⟨chat, held, notBefore⟩ :=
        invariant.gatingLatest earlier (removes notHere found) isChat gates
      split
      · rw [ExtTreeMap.getElem?_insert]
        split
        · exact ⟨here, rfl, fun later => not_before_self _ (later.trans earlier)⟩
        · exact ⟨chat, held, notBefore⟩
      · exact ⟨chat, held, notBefore⟩
    · rw [atHere] at found
      cases found
      exact ⟨place, by simp [isChat, gates], not_before_self _⟩
  runs := by
    intro key at_ other found session held
    simp only [ExtTreeMap.getElem?_insert] at found
    split at found
    · rename_i same
      simp only [Option.some.injEq, Prod.mk.injEq] at found
      obtain ⟨rfl, follower⟩ := found
      have isKey : op.key = key := LawfulEqCmp.eq_of_compare same
      subst isKey
      simp only at held
      rw [atHere] at held
      cases held
      exact continues follower session
    · rename_i differs
      have notKey : op.key ≠ key := by
        rintro rfl
        exact differs ReflCmp.compare_self
      obtain ⟨atBefore, holder, atHolder, holderKey⟩ := invariant.lastLive found
      have atNotHere : at_ ≠ here := fun same => not_before_self here (same ▸ atBefore)
      obtain ⟨place, head, before, atHead, headKey, headLives, signal, gap⟩ :=
        invariant.runs found session (removes atNotHere held)
      have headNotHere : place ≠ here :=
        fun same => not_before_self here ((same ▸ before).trans atBefore)
      refine ⟨place, head, before, keeps headNotHere atHead (headKey ▸ notKey.symm), headKey,
        headLives, signal, ?_⟩
      intro spot between afterHead beforeAt inTail
      have spotNotHere : spot ≠ here :=
        fun same => not_before_self here ((same ▸ beforeAt).trans atBefore)
      exact gap spot between afterHead beforeAt (removes spotNotHere inTail)

theorem Invariant.visit {originals : List TailBatch} {state : Compaction} {here : OpPos}
    (invariant : Invariant originals state here) :
    Invariant originals (state.visit here) (here.1, here.2 + 1) := by
  unfold Compaction.visit
  cases atHere : opAt state.tail here with
  | none =>
      refine invariant.skip (fun place before => before_succ.mpr (.inl before)) ?_
      intro place op before found
      rcases before_succ.mp before with earlier | rfl
      · exact earlier
      · rw [atHere] at found
        cases found
  | some op =>
      cases merges : state.merge? here op with
      | none =>
          simp only [merges]
          refine invariant.record invariant.kept invariant.compacts invariant.untouched atHere rfl
            (fun _ found => found) (fun _ found _ => found) ?_
          intro follower session
          obtain ⟨at_, _, prevOp, inLast, atPrev, lives, signal⟩ :=
            continues_of_not_head session follower
          obtain ⟨before, _, found, key⟩ := invariant.lastLive inLast
          rw [atPrev] at found
          cases found
          exact ⟨at_, prevOp, before, atPrev, key, lives, signal,
            fun spot between after before found => invariant.none_between inLast after before found⟩
      | some step =>
          obtain ⟨at_, replacement⟩ := step
          have merge := invariant.merge_step atHere merges
          obtain ⟨prevHead, prevOp, inLast, atPrev, hereSingle, atSingle, moves, coalesced⟩ :=
            merge?_eq_some merges
          have spec := coalesceOps_spec coalesced
          obtain ⟨before, _, found, prevKey⟩ := invariant.lastLive inLast
          rw [atPrev] at found
          cases found
          have apart : here ≠ at_ := fun same => not_before_self here (same ▸ before)
          have batches : at_.1 ≠ here.1 := by
            have left := (live_of_single atPrev atSingle).1
            have right := (live_of_single atHere hereSingle).1
            exact fun same => apart (Prod.ext same.symm (by omega))
          have sameKey : replacement.key = op.key := by
            rw [← prevKey]
            exact congrArg₂ RowKey.mk spec.kind spec.id
          have removes : ∀ {place other}, place ≠ here →
              opAt (merged state.tail at_ here replacement) place = some other →
              opAt state.tail place = some other := by
            intro place other notHere found
            by_cases notAt : place = at_
            · rw [notAt, opAt_merged_earlier apart atPrev] at found
              cases found
            · rwa [opAt_merged_of_ne notHere notAt] at found
          have keeps : ∀ {place other}, place ≠ here → opAt state.tail place = some other →
              other.key ≠ op.key →
              opAt (merged state.tail at_ here replacement) place = some other := by
            intro place other notHere found differs
            have notAt : place ≠ at_ := by
              rintro rfl
              rw [atPrev] at found
              cases found
              exact differs prevKey
            rwa [opAt_merged_of_ne notHere notAt]
          simp only [merges]
          refine invariant.record
            (kept_merged invariant.kept batches atPrev atSingle atHere hereSingle)
            (invariant.compacts.tail merge) nofun (opAt_merged_here apart atHere) sameKey
            removes keeps ?_
          -- A merged session op continues the run its absorbed op continued.
          intro follower session
          simp only [mayMove, session, beq_self_eq_true, if_true, Bool.and_eq_true,
            Bool.not_eq_true'] at moves
          obtain ⟨_, _, _, sameLast, samePrev, _, signal⟩ := continues_of_not_head session follower
          rw [inLast] at sameLast
          cases sameLast
          rw [atPrev] at samePrev
          cases samePrev
          rw [moves.1.2] at inLast
          obtain ⟨place, head, beforeAt, atHead, headKey, headLives, headSignal, gap⟩ :=
            invariant.runs inLast session atPrev
          have headNotHere : place ≠ here :=
            fun same => not_before_self here ((same ▸ beforeAt).trans before)
          have headNotAt : place ≠ at_ := fun same => not_before_self at_ (same ▸ beforeAt)
          refine ⟨place, head, beforeAt.trans before,
            (opAt_merged_of_ne headNotHere headNotAt).trans atHead, headKey, headLives,
            headSignal.trans (sessionSignal_merged spec signal).symm, ?_⟩
          intro spot between afterHead beforeHere found
          have spotNotHere : spot ≠ here := fun same => not_before_self here (same ▸ beforeHere)
          have original := removes spotNotHere found
          by_cases beforeAt_ : Before spot at_
          · exact gap spot between afterHead beforeAt_ original
          · by_cases afterAt : Before at_ spot
            · exact invariant.none_between inLast afterAt beforeHere original
            · have same : spot = at_ := eq_of_not_before beforeAt_ afterAt
              rw [same] at found
              cases (@opAt_merged_earlier _ _ _ _ replacement apart atPrev).symm.trans found

/-! ## The whole loop -/

theorem Invariant.visit_batch {originals : List TailBatch} {state : Compaction} {index : Nat}
    (invariant : Invariant originals state (index, 0)) (count : Nat) :
    Invariant originals
      (((List.range count).map fun op => (index, op)).foldl Compaction.visit state)
      (index, count) := by
  induction count with
  | zero => exact invariant
  | succ count ih =>
      rw [List.range_succ, List.map_append, List.foldl_append]
      exact ih.visit

/-- Past a batch's last op nothing is live until the next batch. -/
theorem Invariant.next_batch {originals : List TailBatch} {state : Compaction} {index : Nat}
    (invariant : Invariant originals state (index, opCount originals index)) :
    Invariant originals state (index + 1, 0) := by
  refine invariant.skip (fun place before => ?_) (fun place op before found => ?_)
  · simp only [Before] at *
    omega
  · obtain ⟨batch, inTail, inBatch⟩ := opAt_eq_some.mp found
    have bound : place.2 < batch.ops.length := (List.getElem?_eq_some_iff.mp inBatch).1
    have count : opCount originals place.1 = batch.ops.length := by
      rw [← opCount_of_kept invariant.kept]
      simp [opCount, inTail]
    simp only [Before] at *
    by_cases same : place.1 = index
    · rw [← same]
      omega
    · omega

theorem run_invariant (originals : List TailBatch) :
    Invariant originals (run originals) (originals.length, 0) := by
  have initial : Invariant originals
      { tail := originals, last := ∅, gatingChat := ∅, folded := 0 } (0, 0) := by
    refine ⟨List.forall₂_same.mpr fun batch _ => .refl batch, .refl, fun _ => rfl,
      by simp, ?_, ?_, by simp⟩
    all_goals
      intro place op before
      simp only [Before] at before
      omega
  suffices general : ∀ count, Invariant originals
      (((List.range count).flatMap fun index =>
        (List.range (opCount originals index)).map fun op => (index, op)).foldl Compaction.visit
        { tail := originals, last := ∅, gatingChat := ∅, folded := 0 }) (count, 0) from
    general originals.length
  intro count
  induction count with
  | zero => exact initial
  | succ count ih =>
      rw [List.range_succ, List.flatMap_append, List.foldl_append]
      simpa using (ih.visit_batch (opCount originals count)).next_batch

end Compaction

end Zeron.Registry
