import Zeron.Registry.Compaction

namespace Zeron.Registry

open Std Zeron.Data

/-! # Queue compaction is invisible

Every read replays the pending ops of its row over the authoritative one, so
the queue means the ops of each row in order.  Compaction keeps that meaning,
keeps what is in flight, and keeps batch ids apart.
-/

/-! ## Replay -/

theorem applyOp_or_self (row : Option RegistryRow) (op : RowOp) :
    (applyOp row op).1.or row = (applyOp row op).1 := by
  rcases applyOp_cases row op with ⟨_, same⟩ | ⟨_, same⟩ | ⟨_, _, same⟩
  · rw [same]
    rfl
  · rw [same]
    rfl
  · rw [same]
    cases row <;> rfl

theorem replay_eq_foldl (base : Option RegistryRow) (ops : List RowOp) :
    replay base ops = ops.foldl (fun row op => (applyOp row op).1) base := by
  simp only [replay, applyOp_or_self]

theorem replay_append (base : Option RegistryRow) (first second : List RowOp) :
    replay base (first ++ second) = replay (replay base first) second := by
  simp [replay]

@[simp] theorem replay_nil (base : Option RegistryRow) : replay base [] = base := rfl

theorem replay_cons (base : Option RegistryRow) (op : RowOp) (rest : List RowOp) :
    replay base (op :: rest) = replay (applyOp base op).1 rest := by
  simp only [replay, List.foldl_cons, applyOp_or_self]

/-- The ops of one row, in queue order. -/
def rowOps (key : RowKey) (ops : List RowOp) : List RowOp := ops.filter fun op => op.key = key

theorem rowOps_append (key : RowKey) (first second : List RowOp) :
    rowOps key (first ++ second) = rowOps key first ++ rowOps key second :=
  List.filter_append ..

theorem rowOps_eq_nil {key : RowKey} {ops : List RowOp} (none : ∀ op ∈ ops, op.key ≠ key) :
    rowOps key ops = [] := by
  simpa [rowOps] using none

theorem overlayRow_eq (doc : RegistryDoc) (kind id : String) :
    doc.overlayRow kind id =
      overlay (doc.authoritative.get? ⟨kind, id⟩) (rowOps ⟨kind, id⟩ doc.pendingOps) := by
  unfold RegistryDoc.overlayRow rowOps
  congr 1
  exact List.filter_congr fun op _ => Bool.eq_iff_iff.mpr (by simp [RowOp.key])

theorem Merge.replay {before after : List (List RowOp)} (merge : Merge before after)
    (key : RowKey) (base : Option RegistryRow) :
    replay base (rowOps key after.flatten) = replay base (rowOps key before.flatten) := by
  obtain ⟨front, between, back, earlier, later, merged, rfl, rfl, coalesced, apart, _, _⟩ := merge
  have spec := coalesceOps_spec coalesced
  have earlierKey : earlier.key = later.key := congrArg₂ RowKey.mk spec.sameKind spec.sameId
  have mergedKey : merged.key = later.key :=
    (congrArg₂ RowKey.mk spec.kind spec.id).trans earlierKey
  simp only [List.flatten_append, List.flatten_cons, List.nil_append, List.singleton_append,
    rowOps_append]
  by_cases mine : later.key = key
  · subst mine
    rw [rowOps_eq_nil apart]
    have only : ∀ {op : RowOp} {rest : List RowOp}, op.key = later.key →
        rowOps later.key (op :: rest) = op :: rowOps later.key rest := by
      intro op rest same
      simp [rowOps, same]
    rw [only earlierKey, rowOps_append, rowOps_eq_nil apart, only mergedKey, only rfl]
    simp only [List.nil_append, replay_append, replay_cons]
    rw [coalesceOps_spec coalesced |>.exact]
  · have skip : ∀ {op : RowOp} {rest : List RowOp}, op.key = later.key →
        rowOps key (op :: rest) = rowOps key rest := by
      intro op rest same
      simp [rowOps, same, mine]
    rw [skip earlierKey, rowOps_append, skip mergedKey, skip rfl]

theorem Compacts.replay {before after : List (List RowOp)} (compacts : Compacts before after)
    (key : RowKey) (base : Option RegistryRow) :
    Registry.replay base (rowOps key after.flatten) =
      Registry.replay base (rowOps key before.flatten) := by
  induction compacts with
  | refl => rfl
  | tail _ merge ih => rw [merge.replay, ih]

/-! ## Where the unsent tail starts -/

theorem unsentStart_le (pending : List PendingBatch) :
    RegistryDoc.unsentStart pending ≤ pending.length := by
  unfold RegistryDoc.unsentStart
  split <;> omega

theorem inFlight_of_unsent {pending : List PendingBatch} {batch : PendingBatch}
    (unsent : batch ∈ pending.drop (RegistryDoc.unsentStart pending)) :
    batch.inFlight = false := by
  unfold RegistryDoc.unsentStart at unsent
  split at unsent
  · rename_i none
    rw [List.findIdx?_eq_none_iff] at none
    exact none batch (List.mem_reverse.mpr (by simpa using unsent))
  · rename_i fromEnd found
    obtain ⟨bound, _, earlier⟩ := List.findIdx?_eq_some_iff_getElem.mp found
    obtain ⟨offset, isBatch⟩ := List.mem_iff_getElem?.mp unsent
    rw [List.getElem?_drop] at isBatch
    obtain ⟨inside, held⟩ := List.getElem?_eq_some_iff.mp isBatch
    rw [List.length_reverse] at bound
    have before : pending.length - 1 - (pending.length - fromEnd + offset) < fromEnd := by omega
    have answer := earlier _ before
    rw [List.getElem_reverse] at answer
    simp only [show pending.length - 1 - (pending.length - 1 - (pending.length - fromEnd + offset)) =
      pending.length - fromEnd + offset by omega, held] at answer
    simpa using answer

/-! ## Putting the compacted tail back -/

/-- A batch id minted from a clock the source has emitted. -/
def IssuedId (clock : HlcClock) (id : String) : Prop := ∃ hlc, clock.Issued hlc ∧ id = "b-" ++ hlc

/-- A batch id minted from a clock the source had not emitted yet. -/
def FreshId (clock : HlcClock) (id : String) : Prop := ∃ hlc, ¬ clock.Issued hlc ∧ id = "b-" ++ hlc

theorem FreshId.not_issued {clock : HlcClock} {id : String} (fresh : FreshId clock id) :
    ¬ IssuedId clock id := by
  obtain ⟨hlc, unissued, rfl⟩ := fresh
  rintro ⟨other, issued, same⟩
  rw [String.append_right_inj] at same
  exact unissued (same ▸ issued)

/-- What the source has emitted stays emitted. -/
def Grows (before after : HlcClock) : Prop := ∀ hlc, before.Issued hlc → after.Issued hlc

theorem Grows.trans {a b c : HlcClock} (first : Grows a b) (second : Grows b c) : Grows a c :=
  fun hlc issued => second hlc (first hlc issued)

theorem grows_next (clock : HlcClock) (nowMs : Int) (device : String) :
    Grows clock (clock.next nowMs device).2 :=
  fun _ issued => issued.next nowMs device

theorem FreshId.mono {before after : HlcClock} (grows : Grows before after) {id : String}
    (fresh : FreshId after id) : FreshId before id := by
  obtain ⟨hlc, unissued, rfl⟩ := fresh
  exact ⟨hlc, fun issued => unissued (grows hlc issued), rfl⟩

/-- What becomes of one batch of the tail: it goes when it lost its only op,
and comes back under its own id unless it gained content. -/
structure Outcome (clock : HlcClock) (batch : TailBatch) (outcome : Option PendingBatch) :
    Prop where
  gone : outcome = none ↔ batch.live = []
  ops : ∀ pending ∈ outcome, pending.ops = batch.live
  unsent : ∀ pending ∈ outcome, pending.inFlight = false
  id : ∀ pending ∈ outcome, batch.gained = false → pending.batch = batch.batch
  fresh : ∀ pending ∈ outcome, batch.gained = true → FreshId clock pending.batch

theorem Outcome.mono {before after : HlcClock} (grows : Grows before after) {batch : TailBatch}
    {outcome : Option PendingBatch} (became : Outcome after batch outcome) :
    Outcome before batch outcome :=
  ⟨became.gone, became.ops, became.unsent, became.id,
    fun pending member gained => (became.fresh pending member gained).mono grows⟩

/-- Queued ids, and those of batches still to be put back, are distinct and
were all minted here. -/
structure IdsDistinct (clock : HlcClock) (ids : List String) : Prop where
  nodup : ids.Nodup
  issued : ∀ id ∈ ids, IssuedId clock id

theorem IdsDistinct.sublist {clock : HlcClock} {ids fewer : List String}
    (distinct : IdsDistinct clock ids) (sublist : fewer.Sublist ids) : IdsDistinct clock fewer :=
  ⟨distinct.nodup.sublist sublist, fun id member => distinct.issued id (sublist.subset member)⟩

/-- A freshly minted id is apart from every earlier one. -/
theorem IdsDistinct.mint {clock : HlcClock} {front back : List String}
    (distinct : IdsDistinct clock (front ++ back)) (nowMs : Int) (device : String) :
    IdsDistinct (clock.next nowMs device).2
      ((front ++ ["b-" ++ (clock.next nowMs device).1]) ++ back) := by
  have fresh : "b-" ++ (clock.next nowMs device).1 ∉ front ++ back := by
    intro member
    obtain ⟨hlc, issued, same⟩ := distinct.issued _ member
    rw [String.append_right_inj] at same
    rw [← same] at issued
    exact clock.next_fresh nowMs device issued
  constructor
  · simp only [List.append_assoc, List.singleton_append]
    exact List.perm_middle.nodup_iff.mpr (List.nodup_cons.mpr ⟨fresh, distinct.nodup⟩)
  · intro id member
    by_cases isNew : id = "b-" ++ (clock.next nowMs device).1
    · exact ⟨_, clock.next_issued nowMs device, isNew⟩
    · have old : id ∈ front ++ back := by
        simp only [List.mem_append, List.mem_singleton] at member ⊢
        tauto
      obtain ⟨hlc, issued, same⟩ := distinct.issued id old
      exact ⟨hlc, issued.next nowMs device, same⟩

/-- What `restore` does to the replica, one batch at a time. -/
structure Restored (tail : List TailBatch) (before after : RegistryDoc) : Prop where
  intro ::
  authoritative : after.authoritative = before.authoritative
  grows : Grows before.clock after.clock
  outcomes : ∃ outcomes, tail.Forall₂ (Outcome before.clock) outcomes ∧
    after.pending = before.pending ++ outcomes.filterMap id
  ids : IdsDistinct before.clock
      (before.pending.map PendingBatch.batch ++ tail.map TailBatch.batch) →
    IdsDistinct after.clock (after.pending.map PendingBatch.batch)

theorem foldl_restore (tail : List TailBatch) (doc : RegistryDoc) (now : Nat → Int) :
    Restored tail doc (tail.foldl RegistryDoc.restore (doc, now)).1 := by
  induction tail generalizing doc now with
  | nil =>
      refine ⟨rfl, fun _ => id, ⟨[], .nil, by simp⟩, fun distinct => ?_⟩
      simpa using distinct
  | cons batch rest ih =>
      rw [List.foldl_cons]
      by_cases empty : batch.live = []
      · have step : RegistryDoc.restore (doc, now) batch = (doc, now) := by
          simp [RegistryDoc.restore, empty]
        rw [step]
        obtain ⟨same, grows, ⟨outcomes, related, pending⟩, ids⟩ := ih doc now
        refine ⟨same, grows, ⟨none :: outcomes,
          .cons ⟨by simp [empty], by simp, by simp, by simp, by simp⟩ related,
          by simpa using pending⟩, fun distinct => ids (distinct.sublist ?_)⟩
        exact .append (.refl _) (List.sublist_cons_self ..)
      · cases gained : batch.gained with
        | false =>
            let same : PendingBatch :=
              { batch := batch.batch, ops := batch.live, inFlight := false }
            have step : RegistryDoc.restore (doc, now) batch =
                ({ doc with pending := doc.pending ++ [same] }, now) := by
              simp [RegistryDoc.restore, empty, gained, same]
            rw [step]
            obtain ⟨rows, grows, ⟨outcomes, related, pending⟩, ids⟩ :=
              ih { doc with pending := doc.pending ++ [same] } now
            refine ⟨rows, grows, ⟨some same :: outcomes,
              .cons ⟨by simp [empty], by simp [same], by simp [same], by simp [same],
                by simp [gained]⟩ related,
              by simpa using pending⟩, fun distinct => ids ?_⟩
            simpa [same] using distinct
        | true =>
            let minted : PendingBatch :=
              { batch := "b-" ++ (doc.nextHlc (now 0)).1, ops := batch.live, inFlight := false }
            have step : RegistryDoc.restore (doc, now) batch =
                ({ (doc.nextHlc (now 0)).2 with pending := doc.pending ++ [minted] },
                  fun index => now (index + 1)) := by
              simp [RegistryDoc.restore, empty, gained, RegistryDoc.nextHlc, minted]
            rw [step]
            obtain ⟨rows, grows, ⟨outcomes, related, pending⟩, ids⟩ :=
              ih { (doc.nextHlc (now 0)).2 with pending := doc.pending ++ [minted] }
                (fun index => now (index + 1))
            have ticks : Grows doc.clock (doc.nextHlc (now 0)).2.clock :=
              grows_next doc.clock (now 0) doc.deviceId
            have fresh : FreshId doc.clock minted.batch :=
              ⟨_, doc.clock.next_fresh (now 0) doc.deviceId, rfl⟩
            refine ⟨rows, ticks.trans grows, ⟨some minted :: outcomes,
              .cons ⟨by simp [empty], by simp [minted], by simp [minted], by simp [gained],
                by simpa using fun _ => fresh⟩ (related.imp fun _ _ became => became.mono ticks),
              by simpa using pending⟩, fun distinct => ids ?_⟩
            have others : IdsDistinct doc.clock
                (doc.pending.map PendingBatch.batch ++ rest.map TailBatch.batch) :=
              distinct.sublist (.append (.refl _) (List.sublist_cons_self ..))
            simpa [minted, RegistryDoc.nextHlc] using others.mint (now 0) doc.deviceId

/-! ## The whole pass -/

theorem live_ofPending (batch : PendingBatch) : (TailBatch.ofPending batch).live = batch.ops := by
  simp [TailBatch.ofPending, TailBatch.live]

theorem map_live_ofPending (batches : List PendingBatch) :
    (batches.map TailBatch.ofPending).map TailBatch.live = batches.map PendingBatch.ops := by
  simp only [List.map_map]
  exact List.map_congr_left fun batch _ => live_ofPending batch

theorem restore_unsent {batches : List PendingBatch}
    (unsent : ∀ batch ∈ batches, batch.inFlight = false) :
    (batches.map TailBatch.ofPending).map (fun batch : TailBatch =>
      ({ batch := batch.batch, ops := batch.live, inFlight := false } : PendingBatch)) =
      batches := by
  rw [List.map_map]
  conv_rhs => rw [← List.map_id batches]
  refine List.map_congr_left fun batch member => ?_
  have idle := unsent batch member
  cases batch
  simp only at idle
  simp [TailBatch.ofPending, TailBatch.live, idle]

theorem forall₂_comp {α β γ : Type} {R : α → β → Prop} {S : β → γ → Prop} {first : List α}
    {second : List β} {third : List γ} (left : first.Forall₂ R second)
    (right : second.Forall₂ S third) :
    first.Forall₂ (fun a c => ∃ b, R a b ∧ S b c) third := by
  induction left generalizing third with
  | nil => cases right; exact .nil
  | cons head _ ih =>
      cases right with
      | cons next rest => exact .cons ⟨_, head, next⟩ (ih rest)

/-- What becomes of one batch of the unsent tail. -/
structure BatchOutcome (clock : HlcClock) (batch : PendingBatch) (outcome : Option PendingBatch) :
    Prop where
  /-- A batch of several ops comes back as it was. -/
  multi : 2 ≤ batch.ops.length → outcome = some batch
  /-- An empty batch is never made, only passed on. -/
  empty : ∀ pending ∈ outcome, pending.ops = [] → pending = batch
  /-- New content never stands under an old id. -/
  renamed : ∀ pending ∈ outcome,
    (pending.batch = batch.batch ∧ pending.ops = batch.ops) ∨ FreshId clock pending.batch

/-- What one compaction pass does to the replica. -/
structure Compacted (doc after : RegistryDoc) : Prop where
  intro ::
  authoritative : after.authoritative = doc.authoritative
  grows : Grows doc.clock after.clock
  tail : ∃ (outcomes : List (Option PendingBatch)) (lists : List (List RowOp)),
    (doc.pending.drop (RegistryDoc.unsentStart doc.pending)).Forall₂ (BatchOutcome doc.clock)
      outcomes ∧
    after.pending =
      doc.pending.take (RegistryDoc.unsentStart doc.pending) ++ outcomes.filterMap id ∧
    Compacts ((doc.pending.drop (RegistryDoc.unsentStart doc.pending)).map PendingBatch.ops)
      lists ∧
    ((outcomes.filterMap id).map PendingBatch.ops).filter (! ·.isEmpty) =
      lists.filter (! ·.isEmpty)
  ids : IdsDistinct doc.clock (doc.pending.map PendingBatch.batch) →
    IdsDistinct after.clock (after.pending.map PendingBatch.batch)

theorem Compacted.refl (doc : RegistryDoc) : Compacted doc doc := by
  refine ⟨rfl, fun _ => id, ⟨(doc.pending.drop (RegistryDoc.unsentStart doc.pending)).map some, _,
    ?_, ?_, .refl, ?_⟩, id⟩
  · refine List.forall₂_map_right_iff.mpr (List.forall₂_same.mpr fun batch _ =>
      ⟨fun _ => rfl, fun pending member _ => (Option.some.inj member).symm,
        fun pending member => .inl ?_⟩)
    cases member
    exact ⟨rfl, rfl⟩
  · rw [List.filterMap_map]
    simp
  · rw [List.filterMap_map]
    simp

/-- The batches put back hold exactly the ops the loop left live. -/
theorem ops_of_outcomes {clock : HlcClock} {tail : List TailBatch}
    {outcomes : List (Option PendingBatch)} (related : tail.Forall₂ (Outcome clock) outcomes) :
    ((outcomes.filterMap id).map PendingBatch.ops).filter (! ·.isEmpty) =
      (tail.map TailBatch.live).filter (! ·.isEmpty) := by
  induction related with
  | nil => rfl
  | @cons batch outcome _ _ head _ ih =>
      cases outcome with
      | none =>
          have empty : batch.live = [] := head.gone.mp rfl
          simpa [empty] using ih
      | some pending =>
          have ops : pending.ops = batch.live := head.ops pending rfl
          have full : batch.live ≠ [] := fun empty => by simpa using head.gone.mpr empty
          have shown : (!batch.live.isEmpty) = true := by simpa using full
          change List.filter _ (pending.ops :: _) = List.filter _ (batch.live :: _)
          simp only [ops, List.filter_cons, shown, if_true]
          exact congrArg (batch.live :: ·) ih

theorem BatchOutcome.of_outcome {clock : HlcClock} {batch : PendingBatch} {now : TailBatch}
    {outcome : Option PendingBatch} (unsent : batch.inFlight = false)
    (kept : Compaction.Kept (TailBatch.ofPending batch) now) (became : Outcome clock now outcome) :
    BatchOutcome clock batch outcome := by
  constructor
  · intro several
    have same : now = TailBatch.ofPending batch := kept.multi (by
      simp only [TailBatch.ofPending, List.length_map]
      omega)
    have live : now.live = batch.ops := by rw [same, live_ofPending]
    cases outcome with
    | none =>
        have gone : batch.ops = [] := live ▸ became.gone.mp rfl
        simp [gone] at several
    | some pending =>
        have ops := became.ops pending rfl
        have idle := became.unsent pending rfl
        have name := became.id pending rfl (by rw [same]; rfl)
        rw [live] at ops
        rw [same] at name
        cases pending
        cases batch
        simp_all [TailBatch.ofPending]
  · intro pending member empty
    have ops := became.ops pending member
    have gone := became.gone.mpr (ops ▸ empty)
    rw [gone] at member
    cases member
  · intro pending member
    cases gained : now.gained with
    | true => exact .inr (became.fresh pending member gained)
    | false =>
        refine .inl ⟨(became.id pending member gained).trans kept.batch, ?_⟩
        rw [became.ops pending member]
        rcases kept.ungained gained with same | emptied
        · rw [same, live_ofPending]
        · rw [became.gone.mpr emptied] at member
          cases member

/-- The loop renames no batch. -/
theorem batch_of_kept {batches : List PendingBatch} {tail : List TailBatch}
    (kept : batches.Forall₂ (fun batch now => Compaction.Kept (TailBatch.ofPending batch) now) tail) :
    tail.map TailBatch.batch = batches.map PendingBatch.batch := by
  induction kept with
  | nil => rfl
  | cons head _ ih => rw [List.map_cons, List.map_cons, ih, head.batch]; rfl

theorem coalesceUnsent_compacted (doc : RegistryDoc) (now : Nat → Int) :
    Compacted doc (doc.coalesceUnsent now).2 := by
  have unsent : ∀ batch ∈ doc.pending.drop (RegistryDoc.unsentStart doc.pending),
      batch.inFlight = false := fun _ => inFlight_of_unsent
  unfold RegistryDoc.coalesceUnsent
  dsimp only
  by_cases short : doc.pending.length - RegistryDoc.unsentStart doc.pending < 2
  · rw [if_pos short]
    exact .refl doc
  · rw [if_neg short]
    have invariant := Compaction.run_invariant
      ((doc.pending.drop (RegistryDoc.unsentStart doc.pending)).map TailBatch.ofPending)
    generalize Compaction.run _ = compacted at invariant ⊢
    by_cases still : compacted.folded = 0
    · -- Nothing folded: every batch goes back as it was.
      rw [if_pos (by simpa using still), invariant.untouched still, restore_unsent unsent,
        List.take_append_drop]
      exact .refl doc
    · rw [if_neg (by simpa using still)]
      let kept : RegistryDoc :=
        { doc with pending := doc.pending.take (RegistryDoc.unsentStart doc.pending) }
      have restored := foldl_restore compacted.tail kept now
      change Compacted doc { (compacted.tail.foldl RegistryDoc.restore (kept, now)).1 with
        generation := _ }
      generalize compacted.tail.foldl RegistryDoc.restore (kept, now) = result at restored ⊢
      obtain ⟨rows, grows, ⟨outcomes, related, pending⟩, ids⟩ := restored
      have keeps := List.forall₂_map_left_iff.mp invariant.kept
      refine ⟨rows, grows, ⟨outcomes, compacted.tail.map TailBatch.live, ?_, pending, ?_,
        ops_of_outcomes related⟩, fun distinct => ids ?_⟩
      · refine ((List.forall₂_and_left _ _).mpr ⟨unsent, forall₂_comp keeps related⟩).imp ?_
        rintro batch outcome ⟨idle, now, same, became⟩
        exact .of_outcome idle same became
      · rw [← map_live_ofPending]
        exact invariant.compacts
      · rw [batch_of_kept keeps, ← List.map_append, List.take_append_drop]
        exact distinct

/-! ## What the pass leaves alone -/

theorem flatten_eq_of_filter {left right : List (List RowOp)}
    (same : left.filter (! ·.isEmpty) = right.filter (! ·.isEmpty)) :
    left.flatten = right.flatten := by
  rw [← List.flatten_filter_not_isEmpty (L := left), same, List.flatten_filter_not_isEmpty]

/-- The queue around a pass: a part that was kept, and a tail that compacted. -/
theorem Compacted.pendingOps {doc after : RegistryDoc} (compacted : Compacted doc after) :
    ∃ kept unsent lists, doc.pendingOps = kept ++ unsent.flatten ∧
      after.pendingOps = kept ++ lists.flatten ∧ Compacts unsent lists := by
  obtain ⟨outcomes, lists, _, pending, compacts, ops⟩ := compacted.tail
  refine ⟨(doc.pending.take (RegistryDoc.unsentStart doc.pending)).flatMap PendingBatch.ops,
    (doc.pending.drop (RegistryDoc.unsentStart doc.pending)).map PendingBatch.ops, lists,
    ?_, ?_, compacts⟩
  · rw [← List.flatMap_def, ← List.flatMap_append, List.take_append_drop]
    rfl
  · rw [RegistryDoc.pendingOps, pending, List.flatMap_append, List.flatMap_def (l := outcomes.filterMap _),
      flatten_eq_of_filter ops]

/-- The ops of each row replay as before. -/
theorem Compacted.replay {doc after : RegistryDoc} (compacted : Compacted doc after)
    (key : RowKey) (base : Option RegistryRow) :
    Registry.replay base (rowOps key after.pendingOps) =
      Registry.replay base (rowOps key doc.pendingOps) := by
  obtain ⟨kept, unsent, lists, held, left, compacts⟩ := compacted.pendingOps
  rw [held, left]
  simp only [rowOps_append, replay_append]
  rw [compacts.replay]

theorem Compacted.overlayRow {doc after : RegistryDoc} (compacted : Compacted doc after)
    (kind id : String) : after.overlayRow kind id = doc.overlayRow kind id := by
  rw [overlayRow_eq, overlayRow_eq, overlay, overlay, compacted.replay, compacted.authoritative]

/-- Compaction as the rest of the replica sees it: not at all. -/
structure Unnoticed (doc after : RegistryDoc) : Prop where
  /-- Every read answers as before. -/
  reads : ∀ kind id, after.overlayRow kind id = doc.overlayRow kind id
  /-- Nothing up to the last in-flight batch moves. -/
  inFlight : after.pending.take (RegistryDoc.unsentStart doc.pending) =
    doc.pending.take (RegistryDoc.unsentStart doc.pending)
  /-- Behind it each batch has one outcome, in the same order, and a batch of
  several ops is its own outcome. -/
  tail : ∃ outcomes : List (Option PendingBatch),
    outcomes.length = (doc.pending.drop (RegistryDoc.unsentStart doc.pending)).length ∧
    after.pending.drop (RegistryDoc.unsentStart doc.pending) = outcomes.filterMap id ∧
    ∀ (index : Nat) (batch : PendingBatch),
      (doc.pending.drop (RegistryDoc.unsentStart doc.pending))[index]? = some batch →
      2 ≤ batch.ops.length → outcomes[index]? = some (some batch)
  /-- An empty batch is one that was queued empty. -/
  empties : ∀ batch ∈ after.pending, batch.ops = [] → batch ∈ doc.pending
  /-- Distinct ids the clock has issued stay distinct. -/
  ids : (doc.pending.map PendingBatch.batch).Nodup →
    (∀ batch ∈ doc.pending, IssuedId doc.clock batch.batch) →
    (after.pending.map PendingBatch.batch).Nodup

theorem Compacted.unnoticed {doc after : RegistryDoc} (compacted : Compacted doc after) :
    Unnoticed doc after := by
  obtain ⟨outcomes, _, related, pending, _, _⟩ := compacted.tail
  have count : (doc.pending.take (RegistryDoc.unsentStart doc.pending)).length =
      RegistryDoc.unsentStart doc.pending :=
    List.length_take_of_le (unsentStart_le doc.pending)
  refine ⟨compacted.overlayRow, ?_, ⟨outcomes, related.length_eq.symm, ?_, ?_⟩, ?_, ?_⟩
  · rw [pending, List.take_append_of_le_length (by omega), List.take_take, Nat.min_self]
  · rw [pending, List.drop_append_of_le_length (by omega), List.drop_take, Nat.sub_self,
      List.take_zero, List.nil_append]
  · intro index batch found several
    obtain ⟨inside, here⟩ := List.getElem?_eq_some_iff.mp found
    have bound : index < outcomes.length := related.length_eq ▸ inside
    have outcome := related.get inside bound
    simp only [List.get_eq_getElem, here] at outcome
    rw [List.getElem?_eq_getElem bound, outcome.multi several]
  · intro batch member empty
    rw [pending, List.mem_append] at member
    rcases member with before | restored
    · exact List.mem_of_mem_take before
    · obtain ⟨outcome, inOutcomes, isBatch⟩ := List.mem_filterMap.mp restored
      obtain ⟨index, bound, rfl⟩ := List.mem_iff_getElem.mp inOutcomes
      have inside := related.length_eq.symm ▸ bound
      have outcome := related.get inside bound
      rw [outcome.empty batch isBatch empty]
      exact List.mem_of_mem_drop (List.getElem_mem inside)
  · intro nodup issued
    exact (compacted.ids ⟨nodup, by simpa using issued⟩).nodup

/-- Whatever the queue holds, compaction changes no read, moves nothing in
flight, touches no batch of several ops, makes no empty batch and repeats no
id. -/
theorem coalesceUnsent_unnoticed (doc : RegistryDoc) (now : Nat → Int) :
    Unnoticed doc (doc.coalesceUnsent now).2 :=
  (coalesceUnsent_compacted doc now).unnoticed

/-- Two renames of one chat, written while nothing was in flight. -/
def renamedTwice : RegistryDoc :=
  let rename := fun (ms : Int) (title : String) =>
    ({ kind := kindChats, id := "chat-1", op := .update, hlc := encodeHlc ms 0 "dev-a",
       set := some (fields [("title", .string title)]), clocks := none } : RowOp)
  { RegistryDoc.new "dev-a" with
    clock := ⟨2000, 1⟩
    pending :=
      [⟨"b-" ++ encodeHlc 1000 1 "dev-a", [rename 1000 "one"], false⟩,
       ⟨"b-" ++ encodeHlc 2000 1 "dev-a", [rename 2000 "two"], false⟩] }

theorem coalesceUnsent_unnoticed_renamedTwice :
    (renamedTwice.coalesceUnsent fun _ => 3000).1 = 1 ∧
    (∀ kind id, (renamedTwice.coalesceUnsent fun _ => 3000).2.overlayRow kind id =
      renamedTwice.overlayRow kind id) ∧
    ((renamedTwice.coalesceUnsent fun _ => 3000).2.pending.map PendingBatch.batch).Nodup := by
  have unnoticed := coalesceUnsent_unnoticed renamedTwice fun _ => 3000
  refine ⟨by decide +kernel, unnoticed.reads, unnoticed.ids (by decide +kernel) ?_⟩
  intro batch member
  simp only [renamedTwice, List.mem_cons, List.not_mem_nil, or_false] at member
  rcases member with rfl | rfl
  · exact ⟨_, ⟨1000, 1, "dev-a", .inl (by decide), rfl⟩, rfl⟩
  · exact ⟨_, ⟨2000, 1, "dev-a", .inr (by decide), rfl⟩, rfl⟩

/-- A stored queue whose only batch has no ops. -/
def queuedEmpty : RegistryDoc :=
  { RegistryDoc.new "dev-a" with pending := [⟨"b-" ++ encodeHlc 0 0 "dev-a", [], false⟩] }

/-- The pass does not clear out a batch that was empty before it. -/
theorem coalesceUnsent_keeps_queuedEmpty :
    (queuedEmpty.pending.map PendingBatch.batch).Nodup ∧
    (∀ batch ∈ queuedEmpty.pending, IssuedId queuedEmpty.clock batch.batch) ∧
    ∃ batch ∈ (queuedEmpty.coalesceUnsent fun _ => 1000).2.pending, batch.ops = [] := by
  refine ⟨by decide, ?_, ?_⟩
  · intro batch member
    simp only [queuedEmpty, List.mem_singleton] at member
    subst member
    exact ⟨_, ⟨0, 0, "dev-a", .inr (by decide), rfl⟩, rfl⟩
  · exact ⟨⟨"b-" ++ encodeHlc 0 0 "dev-a", [], false⟩, by decide, rfl⟩

end Zeron.Registry
