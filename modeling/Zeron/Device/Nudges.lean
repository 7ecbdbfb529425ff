import Mathlib

namespace Zeron.Device

/-! # Durable wake receipts

The two tables behind the device room's nudges.  A chat has at most one receipt;
the token of a receipt is drawn anew by every enqueue, and an acknowledgement
erases the receipt only under the token it holds at that moment.
-/

def nudgePage : Nat := 64

def nudgeCap : Nat := 4096

/-- A row of `pending_nudges`, beside the chat that keys it. -/
structure NudgeRow where
  queuedAt : Nat
  token : String
deriving DecidableEq, Repr

structure PendingNudge where
  chatId : String
  token : String
deriving DecidableEq, Repr

structure Nudges where
  pending : AList (fun _ : String => NudgeRow) := ∅
  /-- The single row of `nudge_reconcile`. -/
  reconcile : Option String := none

def enqueueNudge (nudges : Nudges) (chatId : String) (now : Nat) (randomUUID : String) :
    Nudges × Bool :=
  if (nudges.pending.lookup chatId).isNone ∧ nudges.pending.entries.length ≥ nudgeCap then
    ({ nudges with reconcile := some randomUUID }, false)
  else
    ({ nudges with pending := nudges.pending.insert chatId ⟨now, randomUUID⟩ }, true)

/-- `ORDER BY queued_at, chat_id`. -/
def queuedBefore (left right : Sigma fun _ : String => NudgeRow) : Bool :=
  decide (left.2.queuedAt < right.2.queuedAt) ||
    (decide (left.2.queuedAt = right.2.queuedAt) && decide (left.1 ≤ right.1))

def pendingNudges (nudges : Nudges) : List PendingNudge :=
  nudges.reconcile.toList.map (fun token => ⟨"*", token⟩) ++
    ((nudges.pending.entries.mergeSort queuedBefore).take (nudgePage * 2)).map
      (fun row => ⟨row.1, row.2.token⟩)

def acknowledgeNudge (nudges : Nudges) (chatId token : String) : Nudges :=
  if chatId = "*" then
    if nudges.reconcile = some token then { nudges with reconcile := none } else nudges
  else if (nudges.pending.lookup chatId).map NudgeRow.token = some token then
    { nudges with pending := nudges.pending.erase chatId }
  else nudges

namespace Nudges

/-- The token a receipt holds; `*` names the reconciliation. -/
def receipt? (nudges : Nudges) (key : String) : Option String :=
  if key = "*" then nudges.reconcile else (nudges.pending.lookup key).map NudgeRow.token

@[simp] theorem receipt?_empty (key : String) : ({} : Nudges).receipt? key = none := by
  unfold receipt?
  split
  · rfl
  · simp

/-- The receipt an enqueue leaves: the chat's own, or the reconciliation when the queue is full. -/
def issuedKey (chatId : String) (queued : Bool) : String := if queued then chatId else "*"

theorem receipt?_enqueueNudge {nudges : Nudges} {chatId : String} (named : chatId ≠ "*")
    (now : Nat) (randomUUID key : String) :
    (enqueueNudge nudges chatId now randomUUID).1.receipt? key =
      if key = issuedKey chatId (enqueueNudge nudges chatId now randomUUID).2 then some randomUUID
      else nudges.receipt? key := by
  unfold enqueueNudge
  split
  · simp only [receipt?, issuedKey, Bool.false_eq_true, if_false]
    by_cases star : key = "*" <;> simp [star]
  · simp only [receipt?, issuedKey, if_true]
    by_cases here : key = chatId
    · subst here
      simp [named]
    · simp [here, AList.lookup_insert_ne here]

theorem receipt?_acknowledgeNudge (nudges : Nudges) (chatId token key : String) :
    (acknowledgeNudge nudges chatId token).receipt? key =
      if key = chatId ∧ nudges.receipt? chatId = some token then none
      else nudges.receipt? key := by
  unfold acknowledgeNudge
  by_cases star : chatId = "*"
  · subst star
    have looked : nudges.receipt? "*" = nudges.reconcile := if_pos rfl
    rw [if_pos rfl, looked]
    by_cases held : nudges.reconcile = some token
    · by_cases here : key = "*" <;> simp [receipt?, here, held]
    · simp [held]
  · simp only [if_neg star]
    have looked : nudges.receipt? chatId = (nudges.pending.lookup chatId).map NudgeRow.token :=
      if_neg star
    rw [looked]
    split
    · rename_i held
      by_cases here : key = chatId
      · subst here
        simp [held, receipt?, star]
      · simp [here, receipt?, AList.lookup_erase_ne here]
    · rename_i apart
      simp [apart]

/-- An acknowledgement erases a receipt only under the token the receipt holds. -/
theorem receipt?_kept {nudges : Nudges} {chatId token key held : String}
    (found : nudges.receipt? key = some held)
    (other : chatId = key → token ≠ held) :
    (acknowledgeNudge nudges chatId token).receipt? key = some held := by
  rw [receipt?_acknowledgeNudge, if_neg, found]
  rintro ⟨same, named⟩
  subst same
  rw [found] at named
  exact other rfl (Option.some.inj named).symm

/-- A page is empty only when nothing is pending at all. -/
theorem receipt?_of_pendingNudges_nil {nudges : Nudges} (none : pendingNudges nudges = [])
    (key : String) : nudges.receipt? key = .none := by
  obtain ⟨reconciled, queued⟩ := List.append_eq_nil_iff.mp none
  have noReconcile : nudges.reconcile = .none := by
    cases held : nudges.reconcile with
    | none => rfl
    | some token => simp [held] at reconciled
  have noRow : nudges.pending.entries = [] := by
    have short := congrArg List.length queued
    simp only [List.length_map, List.length_take, List.length_mergeSort, List.length_nil,
      nudgePage] at short
    exact List.eq_nil_of_length_eq_zero (by omega)
  unfold receipt?
  split
  · exact noReconcile
  · simp [AList.lookup, noRow]

end Nudges

end Zeron.Device
