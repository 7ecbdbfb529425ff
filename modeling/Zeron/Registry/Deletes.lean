import Zeron.Registry.Api
import Zeron.Registry.Redelivery
import Zeron.Registry.Queue

namespace Zeron.Registry

open Zeron.Data

/-! # Local deletes

A cascade stamps one clock on the delete of every row.  A row this device shows
disappears exactly when that clock beats the row's newest: the local clock follows
the wall clock and its own writes, and never looks at the rows.
-/

/-! ## Enqueuing, as reads see it -/

theorem applyOp_keeps_key {row : Option RegistryRow} {op : RowOp} {next : RegistryRow}
    (keyed : ∀ held ∈ row, held.key = op.key) (applied : (applyOp row op).1 = some next) :
    next.key = op.key := by
  have header : ∀ base : RegistryRow, base.key = op.key → (op.writeOver base).key = op.key := by
    intro base here
    have same := op.writeOver_header base
    rw [← here, RegistryRow.key, same.kind, same.id]
    rfl
  rcases applyOp_cases row op with ⟨_, same⟩ | ⟨_, same⟩ | ⟨_, _, same⟩
  · rw [same] at applied
    cases applied
    refine header _ ?_
    cases row with
    | none => rfl
    | some held =>
        have here := keyed held rfl
        cases gone : held.deleted <;> simp only [RowOp.base, gone] <;> exact here
  · rw [same] at applied
    cases applied
    cases row with
    | none => rfl
    | some held => exact keyed held rfl
  · rw [same] at applied
    exact keyed next applied

namespace RegistryDoc

theorem get?_foldOp (doc : RegistryDoc) (op : RowOp) (key : RowKey) :
    (doc.foldOp op).authoritative.get? key =
      if op.key = key then (applyOp (doc.authoritative.get? key) op).1
      else doc.authoritative.get? key := by
  unfold foldOp
  cases applied : applyOp (doc.authoritative.get? op.key) op with
  | mk next changed =>
      have keyed : ∀ held ∈ doc.authoritative.get? op.key, held.key = op.key :=
        fun held isHeld => KeyedTable.key_of_get? isHeld
      by_cases mine : op.key = key
      · subst mine
        rw [if_pos rfl, applied]
        cases changed with
        | false =>
            have still := applyOp_unchanged (by rw [applied])
            rw [applied] at still
            cases next <;> exact still.symm
        | true =>
            cases next with
            | some row =>
                have here : row.key = op.key := applyOp_keeps_key keyed (by rw [applied])
                simp [putAuthoritative, KeyedTable.get?_put, here]
            | none =>
                rcases applyOp_cases (doc.authoritative.get? op.key) op with
                  ⟨_, same⟩ | ⟨_, same⟩ | ⟨_, _, same⟩
                · rw [applied] at same; cases same
                · rw [applied] at same; cases same
                · rw [applied] at same; exact same.symm
      · rw [if_neg mine]
        cases changed with
        | false => cases next <;> rfl
        | true =>
            cases next with
            | none => rfl
            | some row =>
                have here : row.key = op.key := applyOp_keeps_key keyed (by rw [applied])
                exact KeyedTable.get?_put_of_ne _ (here ▸ mine)

/-- Folding ops into the table replays each row's own. -/
theorem get?_foldl_foldOp (ops : List RowOp) (doc : RegistryDoc) (key : RowKey) :
    (ops.foldl foldOp doc).authoritative.get? key =
      replay (doc.authoritative.get? key) (rowOps key ops) := by
  induction ops generalizing doc with
  | nil => rfl
  | cons op rest ih =>
      rw [List.foldl_cons, ih, get?_foldOp]
      by_cases mine : op.key = key
      · have head : rowOps key (op :: rest) = op :: rowOps key rest := by simp [rowOps, mine]
        rw [if_pos mine, head, replay_cons]
      · have head : rowOps key (op :: rest) = rowOps key rest := by simp [rowOps, mine]
        rw [if_neg mine, head]

theorem foldl_foldOp_pending (ops : List RowOp) (doc : RegistryDoc) :
    (ops.foldl foldOp doc).pending = doc.pending := by
  induction ops generalizing doc with
  | nil => rfl
  | cons op rest ih =>
      rw [List.foldl_cons, ih]
      unfold foldOp
      split <;> rfl

/-- A local-only replica queues nothing. -/
def Settled (doc : RegistryDoc) : Prop := doc.localOnly = true → doc.pending = []

/-- Whatever the mode, an enqueued op replays behind everything the row shows. -/
theorem enqueueOps_overlayRow {doc : RegistryDoc} (settled : doc.Settled) (now : Nat → Int)
    (ops : List RowOp) (kind id : String) :
    (doc.enqueueOps now ops).overlayRow kind id =
      overlay (replay (doc.authoritative.get? ⟨kind, id⟩) (rowOps ⟨kind, id⟩ doc.pendingOps))
        (rowOps ⟨kind, id⟩ ops) := by
  rw [overlayRow_eq]
  by_cases mode : doc.localOnly = true
  · have empty : doc.pendingOps = [] := by simp [pendingOps, settled mode]
    unfold enqueueOps
    by_cases none_ : ops.isEmpty
    · have nil : ops = [] := List.isEmpty_iff.mp none_
      simp [nil, empty, rowOps]
    · rw [if_neg none_, if_pos mode, pendingOps, foldl_foldOp_pending, get?_foldl_foldOp]
      simp only [settled mode, empty, List.flatMap_nil, rowOps, List.filter_nil, replay_nil]
      rfl
  · have online : doc.localOnly = false := Bool.eq_false_iff.mpr mode
    rw [(enqueueOps_sameTable online now ops).authoritative, overlay, overlay,
      enqueueOps_replay online]

/-! ## Deletes, as reads see them -/

/-- The op of one row of a cascade. -/
def deleteOp (hlc : Hlc) (key : RowKey) : RowOp :=
  { kind := key.kind, id := key.id, op := .delete, set := none, hlc, clocks := none }

/-- What a reader sees of a row. -/
def shown (row : Option RegistryRow) : Option RegistryRow := row.filter fun row => !row.deleted

theorem shown_applyOp_delete (hlc : Hlc) (key : RowKey) (row : Option RegistryRow) :
    shown (applyOp row (deleteOp hlc key)).1 =
      (shown row).filter fun row => !hlcNewer hlc row.maxClock := by
  cases row with
  | none => rfl
  | some held =>
      cases gone : held.deleted with
      | true =>
          cases newer : hlcNewer hlc held.delHlc <;>
            simp [applyOp, deleteOp, shown, gone, newer, Option.filter]
      | false =>
          cases newer : hlcNewer hlc held.maxClock <;>
            simp [applyOp, deleteOp, shown, gone, newer, Option.filter]

theorem shown_replay_deletes (hlc : Hlc) (keys : List RowKey) (row : Option RegistryRow) :
    shown (replay row (keys.map (deleteOp hlc))) =
      if keys = [] then shown row
      else (shown row).filter fun row => !hlcNewer hlc row.maxClock := by
  induction keys generalizing row with
  | nil => rfl
  | cons key rest ih =>
      rw [List.map_cons, replay_cons, ih, shown_applyOp_delete]
      split
      · simp
      · rw [if_neg (by simp)]
        cases shown row with
        | none => rfl
        | some held => cases newer : hlcNewer hlc held.maxClock <;> simp [Option.filter, newer]

/-- A row is still shown after a cascade when it was not in it, or its newest
clock is not older than the cascade's. -/
theorem deleteRowOps_overlayRow {doc : RegistryDoc} (settled : doc.Settled) (now : Nat → Int)
    (keys : List RowKey) (kind id : String) :
    (doc.deleteRowOps now keys).overlayRow kind id =
      (doc.overlayRow kind id).filter fun row =>
        !(decide (⟨kind, id⟩ ∈ keys) && hlcNewer (doc.nextHlc (now 0)).1 row.maxClock) := by
  have enqueued := @enqueueOps_overlayRow (doc.nextHlc (now 0)).2 settled
    (fun index => now (index + 1)) (keys.map (deleteOp (doc.nextHlc (now 0)).1)) kind id
  have mine : rowOps ⟨kind, id⟩ (keys.map (deleteOp (doc.nextHlc (now 0)).1)) =
      (keys.filter fun key => key = ⟨kind, id⟩).map (deleteOp (doc.nextHlc (now 0)).1) := by
    simp only [rowOps, List.filter_map, Function.comp_def]
    rfl
  have unfolded : doc.deleteRowOps now keys =
      (doc.nextHlc (now 0)).2.enqueueOps (fun index => now (index + 1))
        (keys.map (deleteOp (doc.nextHlc (now 0)).1)) := rfl
  have replayed := shown_replay_deletes (doc.nextHlc (now 0)).1
    (keys.filter fun key => key = ⟨kind, id⟩)
    (replay (doc.authoritative.get? ⟨kind, id⟩) (rowOps ⟨kind, id⟩ doc.pendingOps))
  rw [unfolded, enqueued, mine, overlayRow_eq, overlay, overlay]
  refine replayed.trans ?_
  by_cases member : (⟨kind, id⟩ : RowKey) ∈ keys
  · have hit : keys.filter (fun key => key = ⟨kind, id⟩) ≠ [] := by
      intro empty
      exact List.filter_eq_nil_iff.mp empty _ member (by simp)
    simp [hit, member, shown]
  · have missed : keys.filter (fun key => key = ⟨kind, id⟩) = [] := by
      refine List.filter_eq_nil_iff.mpr fun key isKey => ?_
      simp only [decide_eq_true_eq]
      exact fun same => member (same ▸ isKey)
    simp [missed, member, shown]

/-! ## Reads of a kind -/

theorem mem_foldl_ids {ops : List RowOp} {ids : List String} {id : String} :
    id ∈ ops.foldl (fun ids op => if ids.contains op.id then ids else ids ++ [op.id]) ids ↔
      id ∈ ids ∨ ∃ op ∈ ops, op.id = id := by
  induction ops generalizing ids with
  | nil => simp
  | cons op rest ih =>
      rw [List.foldl_cons, ih]
      by_cases held : op.id ∈ ids
      · simp only [List.contains_iff_mem, held, if_true, List.exists_mem_cons_iff]
        refine ⟨fun either => either.imp_right .inr, fun either => ?_⟩
        rcases either with member | rfl | later
        · exact .inl member
        · exact .inl held
        · exact .inr later
      · simp only [List.contains_iff_mem, held, if_false, List.mem_append, List.mem_singleton,
          List.exists_mem_cons_iff, or_assoc]
        exact or_congr_right (or_congr_left eq_comm)

/-- A read of a kind shows exactly the rows shown one by one. -/
theorem mem_overlayRows {doc : RegistryDoc} {order : IterOrder} {kind : String}
    {row : RegistryRow} :
    row ∈ doc.overlayRows order kind ↔ ∃ id, doc.overlayRow kind id = some row := by
  unfold overlayRows
  rw [List.mem_filterMap]
  refine ⟨fun ⟨id, _, shows⟩ => ⟨id, shows⟩, fun ⟨id, shows⟩ => ⟨id, ?_, shows⟩⟩
  rw [overlayIds, mem_foldl_ids]
  cases stored : doc.authoritative.get? ⟨kind, id⟩ with
  | some held =>
      have here : held.key = ⟨kind, id⟩ := KeyedTable.key_of_get? stored
      have kindHere : held.kind = kind := congrArg RowKey.kind here
      refine .inl (List.mem_map.mpr ⟨held, ?_, congrArg RowKey.id here⟩)
      rw [(order.perm _).mem_iff, List.mem_filter]
      exact ⟨KeyedTable.mem_values.mpr (by rw [here, stored]), by simp [kindHere]⟩
  | none =>
      refine .inr ?_
      by_contra unnamed
      have none_ : rowOps ⟨kind, id⟩ doc.pendingOps = [] := by
        refine rowOps_eq_nil fun op member same => unnamed ⟨op, ?_, congrArg RowKey.id same⟩
        have kindHere : op.kind = kind := congrArg RowKey.kind same
        exact List.mem_filter.mpr ⟨member, by simp [kindHere]⟩
      rw [overlayRow_eq, stored, none_] at shows
      cases shows

theorem mem_readChats {doc : RegistryDoc} {codec : EntityCodec} {order : IterOrder} {chat : Chat} :
    chat ∈ doc.readChats codec order ↔
      ∃ id row, doc.overlayRow kindChats id = some row ∧ row.toChat codec = some chat := by
  simp only [readChats, List.mem_insertionSort, List.mem_filterMap, mem_overlayRows]
  exact ⟨fun ⟨row, ⟨id, shows⟩, decodes⟩ => ⟨id, row, shows, decodes⟩,
    fun ⟨id, row, shows, decodes⟩ => ⟨row, ⟨id, shows⟩, decodes⟩⟩

theorem mem_readSessions {doc : RegistryDoc} {order : IterOrder} {session : Session} :
    session ∈ doc.readSessions order ↔
      ∃ id row, doc.overlayRow kindSessions id = some row ∧ row.toSession = some session := by
  simp only [readSessions, List.mem_insertionSort, List.mem_filterMap, mem_overlayRows]
  exact ⟨fun ⟨row, ⟨id, shows⟩, decodes⟩ => ⟨id, row, shows, decodes⟩,
    fun ⟨id, row, shows, decodes⟩ => ⟨row, ⟨id, shows⟩, decodes⟩⟩

/-! ## Deleting a space -/

/-- After the call no reader finds the space, a chat of it, or the session of a
removed chat. -/
def DeleteTakesEffect (doc : RegistryDoc) (now : Nat → Int) (codec : EntityCodec)
    (order : IterOrder) (spaceId : String) : Prop :=
  let ((_, chatIds), after) := doc.deleteSpace now codec order spaceId
  after.space spaceId = none ∧
    (∀ later, ∀ chat ∈ after.readChats codec later, chat.spaceId ≠ some spaceId) ∧
    ∀ later, ∀ session ∈ after.readSessions later, session.chatId ∉ chatIds

/-- The ids of the chats shown in a space. -/
def chatIdsIn (doc : RegistryDoc) (codec : EntityCodec) (order : IterOrder) (spaceId : String) :
    List String :=
  ((doc.readChats codec order).filter fun chat => chat.spaceId == some spaceId).map Chat.id

/-- Every row the cascade is after lies under the id it names, and has no clock as
new as the delete's. -/
structure Outpaces (doc : RegistryDoc) (codec : EntityCodec) (spaceId : String)
    (chatIds : List String) (hlc : Hlc) : Prop where
  space : ∀ row, doc.overlayRow kindSpaces spaceId = some row → row.toSpace ≠ none →
    hlcNewer hlc row.maxClock = true
  chats : ∀ id row chat, doc.overlayRow kindChats id = some row → row.toChat codec = some chat →
    chat.spaceId = some spaceId → id ∈ chatIds ∧ hlcNewer hlc row.maxClock = true
  sessions : ∀ id row session, doc.overlayRow kindSessions id = some row →
    row.toSession = some session → session.chatId ∈ chatIds →
      id ∈ chatIds ∧ hlcNewer hlc row.maxClock = true

def cascadeKeys (spaceId : String) (chatIds : List String) : List RowKey :=
  (chatIds.flatMap fun chatId => [⟨kindChats, chatId⟩, ⟨kindSessions, chatId⟩]) ++
    [⟨kindSpaces, spaceId⟩]

theorem mem_cascadeKeys_space (spaceId : String) (chatIds : List String) :
    (⟨kindSpaces, spaceId⟩ : RowKey) ∈ cascadeKeys spaceId chatIds := by
  simp [cascadeKeys]

theorem mem_cascadeKeys_chat {spaceId id : String} {chatIds : List String} :
    (⟨kindChats, id⟩ : RowKey) ∈ cascadeKeys spaceId chatIds ↔ id ∈ chatIds := by
  simp [cascadeKeys, kindChats, kindSessions, kindSpaces]

theorem mem_cascadeKeys_session {spaceId id : String} {chatIds : List String} :
    (⟨kindSessions, id⟩ : RowKey) ∈ cascadeKeys spaceId chatIds ↔ id ∈ chatIds := by
  simp [cascadeKeys, kindChats, kindSessions, kindSpaces]

/-- The delete takes effect exactly when its clock outpaces the rows. -/
theorem deleteSpace_iff {doc : RegistryDoc} (settled : doc.Settled) (now : Nat → Int)
    (codec : EntityCodec) (order : IterOrder) (spaceId : String) :
    doc.DeleteTakesEffect now codec order spaceId ↔
      doc.Outpaces codec spaceId (doc.chatIdsIn codec order spaceId) (doc.nextHlc (now 0)).1 := by
  have shows := @deleteRowOps_overlayRow doc settled now
    (cascadeKeys spaceId (doc.chatIdsIn codec order spaceId))
  have effect : doc.DeleteTakesEffect now codec order spaceId ↔
      (doc.deleteRowOps now (cascadeKeys spaceId (doc.chatIdsIn codec order spaceId))).space spaceId =
          none ∧
        (∀ later, ∀ chat ∈ (doc.deleteRowOps now
            (cascadeKeys spaceId (doc.chatIdsIn codec order spaceId))).readChats codec later,
          chat.spaceId ≠ some spaceId) ∧
        ∀ later, ∀ session ∈ (doc.deleteRowOps now
            (cascadeKeys spaceId (doc.chatIdsIn codec order spaceId))).readSessions later,
          session.chatId ∉ doc.chatIdsIn codec order spaceId := Iff.rfl
  rw [effect]
  generalize doc.deleteRowOps now (cascadeKeys spaceId (doc.chatIdsIn codec order spaceId)) = after
    at shows
  generalize doc.chatIdsIn codec order spaceId = chatIds at shows ⊢
  generalize (doc.nextHlc (now 0)).1 = hlc at shows ⊢
  constructor
  · rintro ⟨spaceGone, chatsGone, sessionsGone⟩
    refine ⟨fun row isRow decodes => ?_, fun id row chat isRow decodes inSpace => ?_,
      fun id row session isRow decodes ofChat => ?_⟩
    · by_contra stale
      rw [space, shows, isRow] at spaceGone
      simp [Option.filter, stale] at spaceGone
      exact decodes spaceGone
    · by_contra spared
      have still : after.overlayRow kindChats id = some row := by
        rw [shows, isRow]
        simp only [mem_cascadeKeys_chat, Option.filter_some, Option.ite_none_right_eq_some,
          and_true, Bool.not_eq_true', Bool.and_eq_false_iff, decide_eq_false_iff_not]
        rw [not_and_or, Bool.not_eq_true] at spared
        exact spared
      exact chatsGone .byKey chat (mem_readChats.mpr ⟨id, row, still, decodes⟩) inSpace
    · by_contra spared
      have still : after.overlayRow kindSessions id = some row := by
        rw [shows, isRow]
        simp only [mem_cascadeKeys_session, Option.filter_some, Option.ite_none_right_eq_some,
          and_true, Bool.not_eq_true', Bool.and_eq_false_iff, decide_eq_false_iff_not]
        rw [not_and_or, Bool.not_eq_true] at spared
        exact spared
      exact sessionsGone .byKey session (mem_readSessions.mpr ⟨id, row, still, decodes⟩) ofChat
  · rintro ⟨spaceBeaten, chatsBeaten, sessionsBeaten⟩
    refine ⟨?_, fun later chat member inSpace => ?_, fun later session member ofChat => ?_⟩
    · rw [space, shows]
      cases isRow : doc.overlayRow kindSpaces spaceId with
      | none => rfl
      | some row =>
          by_cases decodes : row.toSpace = none
          · simp [Option.filter, mem_cascadeKeys_space, decodes]
          · simp [Option.filter, mem_cascadeKeys_space, spaceBeaten row isRow decodes]
    · obtain ⟨id, row, still, decodes⟩ := mem_readChats.mp member
      rw [shows, Option.filter_eq_some_iff] at still
      obtain ⟨named, beats⟩ := chatsBeaten id row chat still.1 decodes inSpace
      simp [mem_cascadeKeys_chat, named, beats] at still
    · obtain ⟨id, row, still, decodes⟩ := mem_readSessions.mp member
      rw [shows, Option.filter_eq_some_iff] at still
      obtain ⟨named, beats⟩ := sessionsBeaten id row session still.1 decodes ofChat
      simp [mem_cascadeKeys_session, named, beats] at still

/-! ## The mode and the queue -/

theorem settled_new (deviceId : String) : (RegistryDoc.new deviceId).Settled := fun _ => rfl

theorem foldl_foldOp_localOnly (ops : List RowOp) (doc : RegistryDoc) :
    (ops.foldl foldOp doc).localOnly = doc.localOnly := by
  induction ops generalizing doc with
  | nil => rfl
  | cons op rest ih =>
      rw [List.foldl_cons, ih]
      unfold foldOp
      split <;> rfl

theorem enqueueOps_localOnly_eq (doc : RegistryDoc) (now : Nat → Int) (ops : List RowOp) :
    (doc.enqueueOps now ops).localOnly = doc.localOnly := by
  by_cases mode : doc.localOnly = true
  · unfold enqueueOps
    split
    · rfl
    · rw [foldl_foldOp_localOnly]
  · exact (enqueueOps_sameTable (Bool.eq_false_iff.mpr mode) now ops).localOnly

theorem Settled.enqueueOps {doc : RegistryDoc} (settled : doc.Settled) (now : Nat → Int)
    (ops : List RowOp) : (doc.enqueueOps now ops).Settled := by
  intro mode
  rw [enqueueOps_localOnly_eq] at mode
  unfold RegistryDoc.enqueueOps
  split
  · exact settled mode
  · rw [foldl_foldOp_pending]
    exact settled mode

theorem settled_setLocalOnly (doc : RegistryDoc) (now : Nat → Int) (order : IterOrder)
    (localOnly : Bool) : (doc.setLocalOnly now order localOnly).Settled := by
  intro mode
  unfold setLocalOnly at mode ⊢
  cases localOnly with
  | true =>
      simp only [if_true]
      split
      · rename_i empty
        exact List.isEmpty_iff.mp empty
      · rw [foldl_foldOp_pending]
  | false =>
      simp only [Bool.false_eq_true, if_false] at mode
      split at mode
      · rw [enqueueOps_localOnly_eq] at mode
        cases mode
      · cases mode

theorem Settled.applyState {doc : RegistryDoc} (settled : doc.Settled) (now : Nat → Int)
    (order : IterOrder) (seq : Nat) (full : Bool) (gcFloor : Nat) (rows : List RegistryRow) :
    (doc.applyState now order seq full gcFloor rows).2.Settled := by
  rw [applyState_eq]
  refine @Settled.enqueueOps _ ?_ now _
  exact settled

theorem Settled.pending {doc after : RegistryDoc} (settled : doc.Settled)
    (mode : after.localOnly = doc.localOnly) (queue : doc.pending = [] → after.pending = []) :
    after.Settled := fun isLocal => queue (settled (mode ▸ isLocal))

end RegistryDoc

/-- A space last written by a device whose clock runs ahead. -/
def aheadSpace : RegistryRow :=
  { kind := kindSpaces, id := "space-1", seq := 1, deleted := false, delHlc := none
    fields := fields [("id", .string "space-1"), ("deviceId", .string "dev-b"), ("path", .string "/src")]
    clocks := Std.ExtTreeMap.ofList [("id", encodeHlc 9000 0 "dev-b"),
      ("deviceId", encodeHlc 9000 0 "dev-b"), ("path", encodeHlc 9000 0 "dev-b")] }

def aheadDoc : RegistryDoc :=
  { RegistryDoc.new "dev-a" with authoritative := KeyedTable.putAll .empty [aheadSpace], serverSeq := 1 }

def noCodec : EntityCodec := ⟨fun _ => none, fun _ => none⟩

theorem deleteSpace_ahead : aheadDoc.Settled ∧
    (aheadDoc.DeleteTakesEffect (fun _ => 1000) noCodec .byKey "space-1" ↔
      aheadDoc.Outpaces noCodec "space-1" (aheadDoc.chatIdsIn noCodec .byKey "space-1")
        (aheadDoc.nextHlc 1000).1) :=
  have settled : aheadDoc.Settled := fun _ => rfl
  ⟨settled, RegistryDoc.deleteSpace_iff settled (fun _ => 1000) noCodec .byKey "space-1"⟩

/-- The delete is older than the row, and the space stays. -/
theorem deleteSpace_fails_ahead :
    ¬ ∀ (doc : RegistryDoc) (now : Nat → Int) (codec : EntityCodec) (order : IterOrder)
      (spaceId : String), doc.Settled → doc.DeleteTakesEffect now codec order spaceId := by
  intro effective
  have gone := (effective aheadDoc (fun _ => 1000) noCodec .byKey "space-1" fun _ => rfl).1
  exact absurd gone (by decide)

end Zeron.Registry
