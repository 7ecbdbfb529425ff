import Zeron.Sync.Cursor
import Zeron.Sync.Outbound

namespace Zeron.Sync

open Zeron.Data Zeron.Registry Zeron.Edge

/-! # Rows the room has forgotten

Once a tombstone is purged the room cannot tell a deleted row from one it never
saw, and neither can a client that missed the delete: handed the full table, it
re-seeds every row the table lacks.  A row stays gone exactly as long as no
client in that position takes a full frame.
-/

/-! ## Ops that cannot bring the row back -/

/-- The op does not create or revive the row. -/
def Sterile (key : RowKey) (op : RowOp) : Prop := op.key = key → op.op ≠ .upsert

instance (key : RowKey) (op : RowOp) : Decidable (Sterile key op) :=
  inferInstanceAs (Decidable (_ → _))

theorem sterile_mergeClosed (key : RowKey) : MergeClosed (Sterile key) := by
  intro a b merged spec sterileA sterileB mine
  have keyA : a.key = key := (congrArg₂ RowKey.mk spec.kind spec.id).symm.trans mine
  have keyB : b.key = key := (congrArg₂ RowKey.mk spec.sameKind spec.sameId).symm.trans keyA
  have existence := spec.existence
  unfold coalesceKind at existence
  cases first : a.op with
  | upsert => exact absurd first (sterileA keyA)
  | delete => simp [first] at existence
  | update =>
      cases second : b.op with
      | upsert => exact absurd second (sterileB keyB)
      | delete => simp [first, second] at existence
      | update =>
          simp only [first, second, Option.some.injEq, Prod.mk.injEq] at existence
          simp [← existence.1]

/-- Missing, or a tombstone. -/
def Gone (key : RowKey) (rows : RowTable) : Prop :=
  ∀ row, rows.get? key = some row → row.deleted = true

theorem pushRow_gone {seq : Nat} {row : Option RegistryRow} {op : RowOp}
    (gone : ∀ held ∈ row, held.deleted = true) (sterile : op.op ≠ .upsert) :
    ∀ held ∈ Room.pushRow seq row op, held.deleted = true := by
  unfold Room.pushRow
  rw [Edge.applyOp_def]
  cases row with
  | none =>
      cases kind : op.op with
      | upsert => exact absurd kind sterile
      | update => simp
      | delete => simp [RegistryRow.tombstone]
  | some held =>
      have dead := gone held rfl
      cases kind : op.op with
      | upsert => exact absurd kind sterile
      | update => simp [dead]
      | delete =>
          simp only [if_true, dead]
          cases hlcNewer op.hlc held.delHlc <;> simp [dead]

theorem Gone.applyPushBatch {key : RowKey} {room : Room} (gone : Gone key room.rows) (now : Int)
    {batch : String} {ops : List RowOp} (sterile : ∀ op ∈ ops, Sterile key op) :
    Gone key (room.applyPushBatch now batch ops).room.rows := by
  intro row found
  rw [Room.get?_applyPushBatch] at found
  split at found
  · have folded : ∀ (mine : List RowOp) (start : Option RegistryRow),
        (∀ op ∈ mine, op.op ≠ .upsert) → (∀ held ∈ start, held.deleted = true) →
        ∀ held ∈ mine.foldl (Room.pushRow (room.seq + 1)) start, held.deleted = true := by
      intro mine
      induction mine with
      | nil => exact fun _ _ dead => dead
      | cons op rest ih =>
          intro start barren dead
          exact ih _ (fun other member => barren other (List.mem_cons_of_mem _ member))
            (pushRow_gone dead (barren op (by simp)))
    refine folded (rowOps key ops) (room.rows.get? key) (fun op member => ?_) gone row found
    obtain ⟨inBatch, mine⟩ := List.mem_filter.mp member
    exact sterile op inBatch (of_decide_eq_true mine)
  · exact gone row found

/-! ## Runs in which nothing brings it back -/

/-- Applying the frame makes the client re-seed its live copy of the row. -/
def bringsBack (key : RowKey) (doc : RegistryDoc) (frame : StateFrame) : Bool :=
  (doc.authoritative.get? key).any (fun row => !row.deleted) && frame.full &&
    (decide (frame.seq < doc.cursor) ||
      ((KeyedTable.putAll .empty frame.rows : RowTable).get? key).isNone)

/-- The action writes the row anew. -/
def ClientAction.creates (key : RowKey) : ClientAction → Bool
  | .write _ kind id op _ => decide (⟨kind, id⟩ = key) && decide (op = .upsert)
  | _ => false

/-- Nobody writes the row anew, and no client that still holds it live takes a
full frame that lacks it. -/
def Undisturbed {ι : Type} (key : RowKey) (system : System ι) : Action ι → Prop
  | .client i action =>
      action.creates key = false ∧
        ((system.client i).stateFrame action).any (bringsBack key (system.client i).doc) = false
  | .push _ _ ops => ∀ op ∈ ops, Sterile key op
  | .serve _ _ | .servePush _ _ | .servePull _ | .alarm _ | .reset => True

instance {ι : Type} (key : RowKey) (system : System ι) (action : Action ι) :
    Decidable (Undisturbed key system action) :=
  match action with
  | .client _ _ => inferInstanceAs (Decidable (_ ∧ _))
  | .push _ _ ops => inferInstanceAs (Decidable (∀ op ∈ ops, _))
  | .serve _ _ | .servePush _ _ | .servePull _ | .alarm _ | .reset =>
      inferInstanceAs (Decidable True)

/-- The row is gone from the room, and nothing queued or on its way would
create it. -/
structure Buried {ι : Type} (key : RowKey) (system : System ι) : Prop where
  gone : Gone key system.room.rows
  online : ∀ i, (system.client i).doc.localOnly = false
  barren : ∀ i, ∀ content ∈ contents (system.client i).outbound, ∀ op ∈ content.2, Sterile key op

theorem sterile_seedRows {key : RowKey} {doc : RegistryDoc} {order : IterOrder}
    {frame : StateFrame} (spared : bringsBack key doc frame = false) :
    ∀ op ∈ (doc.seedRows order frame.seq frame.full frame.rows).map rowToSeedOp,
      Sterile key op := by
  intro op seeded mine
  obtain ⟨row, inSeeds, rfl⟩ := List.mem_map.mp seeded
  cases dead : row.deleted with
  | true => simp [rowToSeedOp, dead]
  | false =>
      exfalso
      have rowKey : row.key = key := by
        simpa [rowToSeedOp, dead, RowOp.key, RegistryRow.key] using mine
      have held : ∀ arranged ∈ order.arrange doc.authoritative.values, arranged.key = key →
          doc.authoritative.get? key = some arranged := by
        intro arranged member same
        rw [← same]
        exact KeyedTable.mem_values.mp ((order.perm _).mem_iff.mp member)
      unfold RegistryDoc.seedRows at inSeeds
      cases full : frame.full with
      | false => simp [full] at inSeeds
      | true =>
          simp only [full, Bool.not_true, Bool.false_eq_true, if_false] at inSeeds
          split at inSeeds
          · rename_i behind
            have cursor : frame.seq < doc.cursor := behind
            simp [bringsBack, held row inSeeds rowKey, dead, full, cursor] at spared
          · obtain ⟨member, lacks⟩ := List.mem_filter.mp inSeeds
            rw [rowKey] at lacks
            simp [bringsBack, held row member rowKey, dead, full, lacks] at spared

theorem sterile_enqueues {key : RowKey} {client : Client} {action : ClientAction}
    (spared : action.creates key = false)
    (unseeded : (client.stateFrame action).any (bringsBack key client.doc) = false) :
    ∀ op ∈ client.enqueues action, Sterile key op := by
  have seeds : ∀ order : IterOrder,
      ∀ op ∈ ((client.stateFrame action).map fun frame =>
        (client.doc.seedRows order frame.seq frame.full frame.rows).map rowToSeedOp).getD [],
      Sterile key op := by
    intro order
    cases taken : client.stateFrame action with
    | none => intros; contradiction
    | some frame =>
        rw [taken] at unseeded
        exact sterile_seedRows unseeded
  cases action with
  | write now kind id op set =>
      intro queued member mine upsert
      rw [List.mem_singleton.mp member] at mine upsert
      have sameKey : (⟨kind, id⟩ : RowKey) = key := mine
      have sameOp : op = .upsert := upsert
      simp [ClientAction.creates, sameKey, sameOp] at spared
  | deleteRows now keys =>
      intro queued member _
      obtain ⟨deleted, _, rfl⟩ := List.mem_map.mp member
      intro stray
      cases stray
  | receive now order => exact seeds order
  | readPull now order => exact seeds order
  | connect | pushPending | disconnect | spawnCycle | startCycle | readAnswer | loseAnswer
  | startPull | losePull => intros; contradiction

variable {ι : Type} [DecidableEq ι]

theorem Buried.step {key : RowKey} {system after : System ι} {action : Action ι}
    (buried : Buried key system) (undisturbed : Undisturbed key system action)
    (stepped : system.step action = some after) : Buried key after := by
  have room : Gone key after.room.rows := by
    rcases System.step_room stepped with
      ⟨now, batch, ops, delivers, changed⟩ | same | ⟨now, changed⟩ | wiped
    · rw [changed]
      refine buried.gone.applyPushBatch now fun op member => ?_
      rcases System.delivers_of_inTransit delivers with ⟨_, rfl⟩ | ⟨i, sent⟩
      · exact undisturbed op member
      · exact buried.barren i _ ((system.client i).contents_inTransit_subset sent) op member
    · rw [same]
      exact buried.gone
    · rw [changed]
      exact fun row found => buried.gone row ((alarm_removes system.room now).2 key row found)
    · rw [wiped]
      intro row found
      simp [Room.empty] at found
  have clients := fun j => System.step_outbound (sterile_mergeClosed key) (buried.online j) stepped
    (buried.barren j) (by rintro own rfl; exact sterile_enqueues undisturbed.1 undisturbed.2)
  exact ⟨room, fun j => (clients j).1, fun j => (clients j).2⟩

/-- A row gone from the room stays gone in every run in which nobody writes it
anew and no client that still holds it live takes a full frame without it. -/
theorem purged_stays_gone {key : RowKey} {start finish : System ι} (buried : Buried key start)
    (reaches : System.Reaches (Undisturbed key) start finish) : Gone key finish.room.rows := by
  have reached : Buried key finish := by
    induction reaches with
    | refl => exact buried
    | tail _ stepped ih =>
        obtain ⟨action, undisturbed, stepped⟩ := stepped
        exact ih.step undisturbed stepped
  exact reached.gone

/-! ## The two outcomes of a purge -/

def chatOne : RowKey := ⟨kindChats, "chat-1"⟩

def deleteChatOne : RowOp :=
  { kind := kindChats, id := "chat-1", op := .delete, set := none, hlc := encodeHlc 2000 0 "dev-b"
    clocks := none }

/-- A client that joined while the chat was live. -/
def heldChat : List (Action Unit) :=
  [.push 1000 "b-1" [titled "chat-1" 1000 "one"], .client () .connect, .serve () 1500,
   .client () (.receive (fun _ => 1500) .byKey)]

/-- Another device deletes the chat, the client hears of it, and a month later
the tombstone is purged; the client then reconnects. -/
def heardDelete : List (Action Unit) :=
  [.client () (.receive (fun _ => 2000) .byKey), .client () .disconnect,
   .alarm (31 * Room.dayMs), .client () .connect, .serve () 4000,
   .client () (.receive (fun _ => 5000) .byKey), .client () .pushPending]

theorem purged_stays_gone_heardDelete :
    ∃ held deleted finish : System Unit,
      newSystem.run (fun _ _ => True) heldChat = some held ∧
      held.step (.push 2000 "b-2" [deleteChatOne]) = some deleted ∧
      deleted.run (Undisturbed chatOne) heardDelete = some finish ∧
      finish.room.rows.get? chatOne = none ∧ 2 ≤ finish.room.gcFloor ∧
      Gone chatOne finish.room.rows := by
  have runs : (newSystem.run (fun _ _ => True) heldChat).any (fun held =>
      (held.step (.push 2000 "b-2" [deleteChatOne])).any fun deleted =>
        ((deleted.room.rows.get? chatOne).all (·.deleted) ∧
          (deleted.client ()).doc.localOnly = false ∧
          ∀ content ∈ contents (deleted.client ()).outbound, ∀ op ∈ content.2,
            Sterile chatOne op) ∧
        (deleted.run (Undisturbed chatOne) heardDelete).any fun finish =>
          finish.room.rows.get? chatOne = none ∧ 2 ≤ finish.room.gcFloor) = true := by
    decide +kernel
  obtain ⟨held, joined, runs⟩ := (Option.any_eq_true _ _).mp runs
  obtain ⟨deleted, pushed, runs⟩ := (Option.any_eq_true _ _).mp runs
  obtain ⟨⟨gone, online, barren⟩, runs⟩ := of_decide_eq_true runs
  obtain ⟨finish, ran, purged⟩ := (Option.any_eq_true _ _).mp runs
  obtain ⟨absent, horizon⟩ := of_decide_eq_true purged
  have buried : Buried chatOne deleted :=
    ⟨fun row found => by simpa [found] using gone, fun _ => online, fun _ => barren⟩
  exact ⟨held, deleted, finish, joined, pushed, ran, absent, horizon,
    purged_stays_gone buried (System.reaches_of_run ran)⟩

/-- A client that was away all the while comes back after the purge. -/
def missedDelete : List (Action Unit) :=
  [.client () .connect, .serve () 4000, .client () (.receive (fun _ => 5000) .byKey),
   .client () .pushPending, .serve () 6000]

/-- It is told the whole table, takes the missing chat for one the server never
saw, and brings it back. -/
theorem purged_resurrected_missedDelete :
    ∃ held deleted purged finish : System Unit,
      newSystem.run (fun _ _ => True) (heldChat ++ [.client () .disconnect]) = some held ∧
      (∃ row, held.room.rows.get? chatOne = some row ∧ row.deleted = false ∧
        (held.client ()).doc.authoritative.get? chatOne = some row) ∧
      (held.client ()).outbound = [] ∧
      held.step (.push 2000 "b-2" [deleteChatOne]) = some deleted ∧
      (∃ tombstone, deleted.room.rows.get? chatOne = some tombstone ∧ tombstone.deleted = true ∧
        tombstone.seq ≤ purged.room.gcFloor) ∧
      deleted.step (.alarm (31 * Room.dayMs)) = some purged ∧
      purged.room.rows.get? chatOne = none ∧
      purged.run (fun _ _ => True) missedDelete = some finish ∧
      ¬ Gone chatOne finish.room.rows := by
  have runs : (newSystem.run (fun _ _ => True) (heldChat ++ [.client () .disconnect])).any (fun held =>
      ((held.room.rows.get? chatOne).any fun row => row.deleted = false ∧
        (held.client ()).doc.authoritative.get? chatOne = some row) ∧
      (held.client ()).outbound = [] ∧
      (held.step (.push 2000 "b-2" [deleteChatOne])).any fun deleted =>
        (deleted.step (.alarm (31 * Room.dayMs))).any fun purged =>
          ((deleted.room.rows.get? chatOne).any fun tombstone =>
            tombstone.deleted = true ∧ tombstone.seq ≤ purged.room.gcFloor) ∧
          purged.room.rows.get? chatOne = none ∧
          (purged.run (fun _ _ => True) missedDelete).any fun finish =>
            (finish.room.rows.get? chatOne).any (!·.deleted)) = true := by
    decide +kernel
  obtain ⟨held, joined, runs⟩ := (Option.any_eq_true _ _).mp runs
  obtain ⟨synced, quiet, runs⟩ := of_decide_eq_true runs
  obtain ⟨row, found, live⟩ := (Option.any_eq_true _ _).mp synced
  obtain ⟨deleted, pushed, runs⟩ := (Option.any_eq_true _ _).mp runs
  obtain ⟨purged, alarmed, runs⟩ := (Option.any_eq_true _ _).mp runs
  obtain ⟨buried, absent, runs⟩ := of_decide_eq_true runs
  obtain ⟨tombstone, isTombstone, dead⟩ := (Option.any_eq_true _ _).mp buried
  obtain ⟨finish, ran, revived⟩ := (Option.any_eq_true _ _).mp runs
  obtain ⟨back, isBack, alive⟩ := (Option.any_eq_true _ _).mp revived
  refine ⟨held, deleted, purged, finish, joined, ⟨row, found, of_decide_eq_true live⟩, quiet,
    pushed, ⟨tombstone, isTombstone, of_decide_eq_true dead⟩, alarmed, absent, ran, fun stays => ?_⟩
  rw [stays back isBack] at alive
  cases alive

end Zeron.Sync
