import Zeron.Transcript.Delta

namespace Zeron.Transcript

/-! # The incremental transcript mirror

A session document is a list of entry maps, each under its container id.  The
tracker keeps a decode of every map, groups the continuations onto their roots,
and shares a joined entry as long as the revisions it was built from stand.
-/

/-- What a `messages` list holds: entry maps, and values that are none. -/
structure Doc (κ raw : Type) where
  items : List (Option (κ × raw))
  distinct : ((items.filterMap id).map Prod.fst).Nodup

structure Dirty (κ : Type) where
  list : Bool := false
  entries : List κ := []

structure Slot (κ value : Type) where
  cid : κ
  /-- A new one with every decode. -/
  rawRev : Nat
  entry : Option (SessionMessageEntry value)

structure AppendHint where
  baseRev : Nat
  partIndex : Nat
deriving DecidableEq, Repr

/-- A joined entry; every `Arc` of one is created with a revision of its own. -/
structure Entry (value : Type) where
  id : String
  rev : Nat
  message : SessionMessageEntry value
  append : Option AppendHint
deriving DecidableEq

structure Tracker (κ value : Type) where
  slots : List (Slot κ value) := []
  joined : List (Entry value) := []
  byRoot : List (κ × List Nat × Entry value) := []
  nextRev : Nat := 0
  initialized : Bool := false

structure TranscriptChange where
  reset : Bool
  changed : List String
deriving DecidableEq, Repr

variable {κ raw value : Type} [DecidableEq κ]

namespace Doc

def maps (doc : Doc κ raw) : List (κ × raw) := doc.items.filterMap id

/-- `get_container`. -/
def container (doc : Doc κ raw) (cid : κ) : Option raw := doc.maps.lookup cid

end Doc

/-! ## Decoding -/

section Decoding

variable (decode : raw → Option (SessionMessageEntry value))

/-- The slots of a changed list; `old` holds those not placed yet. -/
def relist (dirty : List κ) :
    List (Slot κ value) → List (κ × raw) → Nat → List (Slot κ value) × Nat
  | _, [], nextRev => ([], nextRev)
  | old, (cid, content) :: rest, nextRev =>
      let others := old.filter (·.cid ≠ cid)
      match old.find? (·.cid = cid) with
      | some slot =>
          if cid ∈ dirty then
            let later := relist dirty others rest (nextRev + 1)
            (⟨cid, nextRev + 1, decode content⟩ :: later.1, later.2)
          else
            let later := relist dirty others rest nextRev
            (slot :: later.1, later.2)
      | none =>
          let later := relist dirty others rest (nextRev + 1)
          (⟨cid, nextRev + 1, decode content⟩ :: later.1, later.2)

/-- The named entries of an unchanged list, decoded anew; whether there was one. -/
def redecode (doc : Doc κ raw) :
    List κ → List (Slot κ value) → Nat → List (Slot κ value) × Nat × Bool
  | [], slots, nextRev => (slots, nextRev, false)
  | cid :: rest, slots, nextRev =>
      if slots.any (·.cid = cid) then
        match doc.container cid with
        | none => redecode doc rest slots nextRev
        | some content =>
            let slot : Slot κ value := ⟨cid, nextRev + 1, decode content⟩
            let later := redecode doc rest
              (slots.map fun other => if other.cid = cid then slot else other) (nextRev + 1)
            (later.1, later.2.1, true)
      else redecode doc rest slots nextRev

end Decoding

/-! ## Grouping -/

/-- A root with its continuations, each with what it was found under. -/
structure Group (τ value : Type) where
  root : τ × SessionMessageEntry value
  rest : List (τ × SessionMessageEntry value) := []

variable {τ : Type}

def Group.members (group : Group τ value) : List (τ × SessionMessageEntry value) :=
  group.root :: group.rest

def extend (message part : SessionMessageEntry value) : SessionMessageEntry value :=
  { message with
    parts := message.parts ++ part.parts
    durationMs := if part.durationMs.isSome then part.durationMs else message.durationMs }

/-- The message of a group. -/
def Group.message (group : Group τ value) : SessionMessageEntry value :=
  (group.rest.map Prod.snd).foldl extend group.root.2

structure Grouping (τ value : Type) where
  groups : List (Group τ value) := []
  /-- A root id's group; the last root of an id counts. -/
  rootGroup : List (String × Nat) := []

def Grouping.add (grouping : Grouping τ value) (member : τ × SessionMessageEntry value) :
    Grouping τ value :=
  match member.2.continuationOf.bind fun root => grouping.rootGroup.lookup root with
  | some group =>
      { grouping with
        groups := grouping.groups.modify group fun group =>
          { group with rest := group.rest ++ [member] } }
  | none =>
      { groups := grouping.groups ++ [{ root := member }]
        rootGroup :=
          if member.2.continuationOf.isNone then
            (member.2.id, grouping.groups.length) :: grouping.rootGroup
          else grouping.rootGroup }

def groupAll (members : List (τ × SessionMessageEntry value)) : List (Group τ value) :=
  (members.foldl Grouping.add {}).groups

/-! ## Hints -/

variable [DecidableEq value]

/-- A text or a reasoning that is a longer one of the same id. -/
def grows : MessagePart value → MessagePart value → Bool
  | .text oldId old, .text newId new | .reasoning oldId old, .reasoning newId new =>
      oldId = newId && decide (old.utf8ByteSize < new.utf8ByteSize) && (stripPrefix new old).isSome
  | _, _ => false

/-- The loop over the zipped parts from an index on, with the grown part found so far. -/
def grownPart : List (MessagePart value × MessagePart value) → Nat → Option Nat → Option Nat
  | [], _, grown => grown
  | (old, new) :: rest, index, grown =>
      if old = new then grownPart rest (index + 1) grown
      else if grows old new = false ∨ grown.isSome then none
      else grownPart rest (index + 1) (some index)

def appendHint (prev : Entry value) (next : SessionMessageEntry value) : Option AppendHint :=
  let old := prev.message
  if old.id ≠ next.id ∨ old.role ≠ next.role ∨ old.createdAt ≠ next.createdAt ∨
      old.deviceId ≠ next.deviceId ∨ old.status ≠ next.status ∨
      old.durationMs ≠ next.durationMs ∨ old.parts.length ≠ next.parts.length then none
  else
    (grownPart (old.parts.zip next.parts) 0 none).map fun partIndex =>
      let baseRev :=
        match prev.append with
        | some hint => if hint.partIndex = partIndex then hint.baseRev else prev.rev
        | none => prev.rev
      { baseRev, partIndex }

/-! ## Rejoining -/

structure Rejoined (κ value : Type) where
  joined : List (Entry value) := []
  byRoot : List (κ × List Nat × Entry value) := []
  changed : List String := []
  nextRev : Nat

def Group.sig (group : Group (Slot κ value) value) : List Nat :=
  group.members.map (·.1.rawRev)

/-- A group's entry: the one it had, or a new one. -/
def rejoinGroup (before : List (κ × List Nat × Entry value)) (done : Rejoined κ value)
    (group : Group (Slot κ value) value) : Rejoined κ value :=
  let cid := group.root.1.cid
  let previous := before.lookup cid
  match previous.filter (·.1 = group.sig) with
  | some (_, entry) =>
      { done with
        joined := done.joined ++ [entry]
        byRoot := done.byRoot ++ [(cid, group.sig, entry)] }
  | none =>
      let message := group.message
      let rev := done.nextRev + 1
      let entry : Entry value :=
        { id := message.id, rev, message
          append := previous.bind fun previous => appendHint previous.2 message }
      { joined := done.joined ++ [entry]
        byRoot := done.byRoot ++ [(cid, group.sig, entry)]
        changed := done.changed ++ [message.id]
        nextRev := rev }

/-- The slots with a decoded entry, in order. -/
def decoded (slots : List (Slot κ value)) : List (Slot κ value × SessionMessageEntry value) :=
  slots.filterMap fun slot => slot.entry.map fun entry => (slot, entry)

namespace Tracker

variable (decode : raw → Option (SessionMessageEntry value))

def rejoin (tracker : Tracker κ value) (reset : Bool) : Tracker κ value × TranscriptChange :=
  let done := (groupAll (decoded tracker.slots)).foldl (rejoinGroup tracker.byRoot)
    { nextRev := tracker.nextRev }
  ({ tracker with joined := done.joined, byRoot := done.byRoot, nextRev := done.nextRev },
    { reset, changed := done.changed })

def refresh (tracker : Tracker κ value) (doc : Doc κ raw) (dirty : Dirty κ) :
    Tracker κ value × Option TranscriptChange :=
  let first := !tracker.initialized
  if !first && !dirty.list && dirty.entries.isEmpty then (tracker, none)
  else
    let tracker := { tracker with initialized := true }
    if first || dirty.list then
      let (slots, nextRev) := relist decode dirty.entries tracker.slots doc.maps tracker.nextRev
      let (tracker, change) := { tracker with slots, nextRev }.rejoin first
      (tracker, some change)
    else
      let (slots, nextRev, touched) := redecode decode doc dirty.entries tracker.slots tracker.nextRev
      let tracker := { tracker with slots, nextRev }
      if touched then
        let (tracker, change) := tracker.rejoin first
        (tracker, some change)
      else (tracker, none)

/-- A revision taken for an echo. -/
def takeRev (tracker : Tracker κ value) : Tracker κ value :=
  { tracker with nextRev := tracker.nextRev + 1 }

end Tracker

/-! ## The whole decode -/

structure Joining (value : Type) where
  out : List (SessionMessageEntry value) := []
  rootIndex : List (String × Nat) := []

def Joining.add (joining : Joining value) (entry : SessionMessageEntry value) : Joining value :=
  match entry.continuationOf with
  | some root =>
      match joining.rootIndex.lookup root with
      | some index => { joining with out := joining.out.modify index (extend · entry) }
      | none => { joining with out := joining.out ++ [entry] }
  | none =>
      { out := joining.out ++ [entry]
        rootIndex := (entry.id, joining.out.length) :: joining.rootIndex }

def joinContinuationEntries (entries : List (SessionMessageEntry value)) :
    List (SessionMessageEntry value) :=
  if entries.any (·.continuationOf.isSome) then (entries.foldl Joining.add {}).out else entries

/-- The decodable entries of a document, in order. -/
def Doc.decodable (decode : raw → Option (SessionMessageEntry value)) (doc : Doc κ raw) :
    List (κ × SessionMessageEntry value) :=
  doc.maps.filterMap fun (cid, content) => (decode content).map fun entry => (cid, entry)

end Zeron.Transcript
