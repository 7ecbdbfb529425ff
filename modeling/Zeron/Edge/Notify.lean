import Zeron.Edge.Core

namespace Zeron.Edge

open Std Zeron.Data Zeron.Registry

/-! # When a session change notifies

The rule the room applies to each `sessions` row before and after a push batch,
and the chat row that labels or silences the notification.
-/

/-- A working or awaiting row older than this is dead. -/
def sessionStaleMs : Int := 45000

inductive Indicator where
  | none
  | working
  | awaiting
  | errored
deriving DecidableEq

inductive Category where
  | done
  | input
  | failed
deriving DecidableEq

/-- Staleness-checked indicator of a `sessions` row. -/
def indicatorOf (fields : BTreeMap Json) (now : Int) : Indicator :=
  let stale := now - (Json.num fields["updatedAt"]?).getD 0 > sessionStaleMs
  match fields["status"]? with
  | some (.string "errored") => .errored
  | some (.string "working") => if stale then .none else .working
  | some (.string "awaitingInput") => if stale then .none else .awaiting
  | _ => .none

/-- The notification a `sessions` row change calls for, if any. -/
def notificationFor (before : Option RegistryRow) (after : RegistryRow) (now : Int) :
    Option Category :=
  match before with
  | none => none
  | some before =>
    if before.deleted || after.deleted then none
    else
      let prev := indicatorOf before.fields now
      let next := indicatorOf after.fields now
      if next = .errored ∧ prev ≠ .errored then some .failed
      else if next = .awaiting ∧ prev ≠ .awaiting then some .input
      else
        let turn := Json.str after.fields["lastCompletedTurn"]?
        let fresh := now - (Json.num after.fields["updatedAt"]?).getD 0 ≤ sessionStaleMs
        if fresh ∧ turn ≠ none ∧ turn ≠ Json.str before.fields["lastCompletedTurn"]? then
          some .done
        else none

/-- The characters `String.prototype.trim` removes. -/
def isTrimmed (c : Char) : Bool :=
  let code := c.toNat
  (9 ≤ code && code ≤ 13) || code == 0x20 || code == 0xA0 || code == 0x1680 ||
    (0x2000 ≤ code && code ≤ 0x200A) || code == 0x2028 || code == 0x2029 || code == 0x202F ||
    code == 0x205F || code == 0x3000 || code == 0xFEFF

def trim (text : String) : String :=
  String.ofList ((text.toList.dropWhile isTrimmed).reverse.dropWhile isTrimmed).reverse

/-- Title from the chat row; side chats and archived chats never notify. -/
def chatForNotification (chat : Option RegistryRow) : Option String :=
  let field := fun (name : String) => chat.bind fun row => row.fields[name]?
  if chat.any (·.deleted) then none
  else if (Json.str (field "parentChatId")).isSome then none
  else if field "archived" = some (.bool true) then none
  else
    match (Json.str (field "title")).map trim with
    | none | some "" => some "New session"
    | some title => some title

/-- One notification decided by a push batch. -/
structure Notification where
  chatId : String
  title : String
  category : Category
deriving DecidableEq

end Zeron.Edge
