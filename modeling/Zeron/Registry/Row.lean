import Zeron.Data.Json
import Zeron.Data.KeyedTable
import Zeron.Registry.Hlc

namespace Zeron.Registry

open Std Zeron.Data

/-! # Rows, ops and the merge

The registry stores current state only.  A row is a bag of fields, each field
carries the clock of its last write, and a write applies exactly when its clock
beats the stored one.  `applyOp` is the merge the client replays over its
authoritative rows.
-/

abbrev BTreeMap (α : Type) := ExtTreeMap String α

/-- The primary key of a row. -/
structure RowKey where
  kind : String
  id : String
deriving DecidableEq

instance : Ord RowKey := ⟨compareLex (compareOn RowKey.kind) (compareOn RowKey.id)⟩

instance : TransOrd RowKey :=
  inferInstanceAs (TransCmp (compareLex (compareOn RowKey.kind) (compareOn RowKey.id)))

instance : LawfulEqOrd RowKey where
  eq_of_compare := by
    intro a b same
    have parts := Ordering.then_eq_eq.mp same
    have kind : a.kind = b.kind := LawfulEqCmp.eq_of_compare parts.1
    have id : a.id = b.id := LawfulEqCmp.eq_of_compare parts.2
    cases a
    cases b
    cases kind
    cases id
    rfl

@[ext]
structure RegistryRow where
  kind : String
  id : String
  /-- Server seq of the batch that last touched the row. -/
  seq : Nat
  deleted : Bool
  /-- Tombstone clock: an upsert newer than this revives the row. -/
  delHlc : Option Hlc
  fields : BTreeMap Json
  /-- Per-field last-write clocks. -/
  clocks : BTreeMap Hlc
deriving DecidableEq

namespace RegistryRow

def key (row : RegistryRow) : RowKey := ⟨row.kind, row.id⟩

def tombstone (kind id : String) (hlc : Hlc) : RegistryRow :=
  { kind, id, seq := 0, deleted := true, delHlc := some hlc, fields := ∅, clocks := ∅ }

/-- The newest clock anywhere on the row. -/
def maxClock (row : RegistryRow) : Option Hlc :=
  row.clocks.toList.foldl
    (fun max entry => if max.all (fun held => decide (entry.2 > held)) then some entry.2 else max)
    row.delHlc

end RegistryRow

inductive OpKind where
  /-- Creates, and revives tombstones when newer. -/
  | upsert
  /-- Never creates or revives. -/
  | update
  /-- Tombstones when causally newer than the row. -/
  | delete
deriving DecidableEq

@[ext]
structure RowOp where
  kind : String
  id : String
  op : OpKind
  /-- Field writes; `null` deletes the field but is still a clocked write. -/
  set : Option (BTreeMap Json)
  /-- Clock for every write in `set` without an entry in `clocks`. -/
  hlc : Hlc
  /-- Per-field clock overrides. -/
  clocks : Option (BTreeMap Hlc)
deriving DecidableEq

namespace RowOp

def key (op : RowOp) : RowKey := ⟨op.kind, op.id⟩

def clockFor (op : RowOp) (field : String) : Hlc :=
  (op.clocks.bind (fun clocks => clocks[field]?)).getD op.hlc

/-- The field writes in key order; none when `set` is absent. -/
def writes (op : RowOp) : List (String × Json) := (op.set.map ExtTreeMap.toList).getD []

end RowOp

/-- One turn of the field loop of `applyOp`. -/
def writeField (op : RowOp) (state : RegistryRow × Bool) (entry : String × Json) :
    RegistryRow × Bool :=
  let (base, _) := state
  let (key, value) := entry
  let clock := op.clockFor key
  if !hlcNewer clock base.clocks[key]? then state
  else
    let fields := if value.isNull then base.fields.erase key else base.fields.insert key value
    ({ base with fields, clocks := base.clocks.insert key clock }, true)

/-- The field loop and the last lines of `applyOp`. -/
def writeFields (op : RowOp) (base : RegistryRow) (changed : Bool) : Option RegistryRow × Bool :=
  let (base, changed) := op.writes.foldl (writeField op) (base, changed)
  if changed then (some { base with deleted := false }, true) else (some base, false)

/-- Apply one op to a row.  Returns the new row, `none` only for an update on
a missing row, and whether anything changed. -/
def applyOp (row : Option RegistryRow) (op : RowOp) : Option RegistryRow × Bool :=
  if op.op = .delete then
    match row with
    -- A tombstone on a missing row guards against a late create racing the delete.
    | none => (some (.tombstone op.kind op.id op.hlc), true)
    | some row =>
      let beats :=
        if row.deleted then hlcNewer op.hlc row.delHlc else hlcNewer op.hlc row.maxClock
      if beats then
        (some { row with deleted := true, delHlc := some op.hlc, fields := ∅, clocks := ∅ }, true)
      else (some row, false)
  else
    -- The early returns of the source leave through `error`.
    let base : Except (Option RegistryRow) RegistryRow :=
      match row with
      | none =>
        if op.op = .update then .error none
        else .ok { kind := op.kind, id := op.id, seq := 0, deleted := false, delHlc := none,
                   fields := ∅, clocks := ∅ }
      | some row =>
        if row.deleted then
          if op.op = .update || !hlcNewer op.hlc row.delHlc then .error (some row)
          -- Revival: the tombstone loses wholesale; the upsert's fields are the row.
          else .ok { row with deleted := false, fields := ∅, clocks := ∅ }
        else .ok row
    match base with
    | .error row => (row, false)
    | .ok base => writeFields op base (row.isNone || (row.any (·.deleted) && !base.deleted))

/-- A row as a re-seed op: one upsert carrying the row's original per-field
clocks, or a delete for tombstones. -/
def rowToSeedOp (row : RegistryRow) : RowOp :=
  if row.deleted then
    { kind := row.kind, id := row.id, op := .delete, set := none,
      hlc := row.delHlc.getD (encodeHlc 0 0 "seed"), clocks := none }
  else
    { kind := row.kind, id := row.id, op := .upsert, set := some row.fields,
      hlc := row.maxClock.getD (encodeHlc 0 0 "seed"), clocks := some row.clocks }

/-- A field map from its entries; a repeated field keeps its last value. -/
def fields (entries : List (String × Json)) : BTreeMap Json := ExtTreeMap.ofList entries

/-- The table both sides keep: rows under `(kind, id)`. -/
abbrev RowTable := KeyedTable RowKey RegistryRow RegistryRow.key

end Zeron.Registry
