import Zeron.Registry.Api

namespace Zeron.Registry

open Zeron.Data

/-! # Sidebar pins and sections

Pins are rows of their own with dense order keys, sections carry metadata, and one
location row per session says where it is shown.  Before an edit the clocks of the
rows it touches are observed, so that it is newer than what this device shows.
-/

/-! ## Order keys -/

def maxPinOrderKeyBytes : Nat := 8192

/-- Maximum wire HLC: 13 + 1 + 6 + 1 + 128. -/
def nonceBytes : Nat := 149

def validPinOrderKey (key : String) : Bool :=
  key ≠ "" && decide (key.toList.length ≤ maxPinOrderKeyBytes) &&
    key.toList.all (fun c => c.isDigit || ('a' ≤ c && c ≤ 'f')) &&
    key.toList.getLast?.all (· ≠ '0')

/-- The hexadecimal digits of the nonce's bytes, zeroes after its end. -/
def nonceHex (nonce : String) : List Char :=
  (List.range nonceBytes).flatMap fun index =>
    let byte := (nonce.toList[index]?.map Char.toNat).getD 0
    [Nat.digitChar (byte / 16), Nat.digitChar (byte % 16)]

/-- The value of a hexadecimal digit. -/
def hexDigit (c : Char) : Nat := if c ≤ '9' then c.toNat - '0'.toNat else c.toNat - 'a'.toNat + 10

/-- The loop of `pinOrderKeyBetween`: the digits of the bounds still ahead, and the
key so far. -/
def orderKeyLoop (nonce : String) : Nat → List Char → Option (List Char) → List Char →
    Except String String
  | 0, _, _, _ => .error "Pin ordering key is too long"
  | turns + 1, lower, upper, key =>
    let lo := (lower.head?.map hexDigit).getD 0
    let hi := ((upper.bind List.head?).map hexDigit).getD 16
    if hi > lo + 1 then
      let key := key ++ Nat.digitChar ((lo + hi) / 2) :: (nonceHex nonce ++ ['8'])
      if key.length ≤ maxPinOrderKeyBytes then .ok (String.ofList key)
      else .error "Pin ordering key is too long"
    else
      orderKeyLoop nonce turns lower.tail (if lo ≠ hi then none else upper.map List.tail)
        (key ++ [Nat.digitChar lo])

/-- A key strictly between the bounds, made unique by the nonce. -/
def pinOrderKeyBetween (lower upper : Option String) (nonce : String) : Except String String :=
  if lower.any (fun key => !validPinOrderKey key) || upper.any (fun key => !validPinOrderKey key) ||
      (lower.bind fun a => upper.map fun b => decide (a ≥ b)).getD false ||
      nonce = "" || decide (nonce.toList.length > nonceBytes) ||
      !(nonce.toList.all fun c => decide (c.toNat < 128)) || nonce.toList.any (·.toNat = 0) then
    .error "Invalid pin ordering bounds"
  else
    orderKeyLoop nonce maxPinOrderKeyBytes ((lower.map String.toList).getD [])
      (upper.map String.toList) []

/-! ## Changes -/

structure SidebarSection where
  id : String
  name : String
  sessionIds : List String
  collapsed : Bool
deriving DecidableEq

structure SidebarPreferences where
  pinnedSessionIds : List String
  sections : List SidebarSection
deriving DecidableEq

inductive SidebarSectionChange where
  | create (id name : String)
  | rename (id name : String)
  | collapse (id : String) (collapsed : Bool)
  | delete (id : String)
  | assign (sessionId : String) (sectionId : Option String)
  | import (sections : List SidebarSection)

inductive SidebarPinChange where
  | pin (sessionId : String) (after before : Option String)
  | move (sessionId : String) (after before : Option String)
  | unpin (sessionId : String)
  | section (change : SidebarSectionChange)

/-- Put a pin before its right anchor, else after its left one, else last. -/
def placePin (sessionId : String) (after before : Option String) (ids : List String) :
    List String :=
  let index := (before.bind fun anchor => ids.findIdx? (· == anchor)).or
    (after.bind fun anchor => (ids.findIdx? (· == anchor)).map (· + 1))
  ids.insertIdx (index.getD ids.length) sessionId

/-- A pending intent on the latest projection of the pins. -/
def SidebarPinChange.project (change : SidebarPinChange) (ids : List String) : List String :=
  match change with
  | .section (.assign sessionId _) => ids.filter (· != sessionId)
  | .section _ => ids
  | .pin sessionId after before => placePin sessionId after before (ids.filter (· != sessionId))
  | .move sessionId after before =>
      if ids.contains sessionId then
        placePin sessionId after before (ids.filter (· != sessionId))
      else ids
  | .unpin sessionId => ids.filter (· != sessionId)

/-! ## Observing clocks -/

/-- `str::parse` on an unsigned number up to a limit. -/
def parseUnsigned (limit : Nat) (text : List Char) : Option Nat :=
  let digits := if text.head? = some '+' then text.tail else text
  if digits ≠ [] ∧ digits.all Char.isDigit ∧ Nat.ofDigitChars 10 digits 0 ≤ limit then
    some (Nat.ofDigitChars 10 digits 0)
  else none

/-- The milliseconds and the counter of a clock text, by its first two dashes. -/
def clockPosition (hlc : Hlc) : Option (Nat × Nat) :=
  let ms := hlc.toList.takeWhile (· ≠ '-')
  match hlc.toList.dropWhile (· ≠ '-') with
  | [] => none
  | _ :: rest => do
    return (← parseUnsigned (2 ^ 63 - 1) ms, ← parseUnsigned (2 ^ 32 - 1) (rest.takeWhile (· ≠ '-')))

/-- Move the source up to a clock seen on a row. -/
def HlcClock.observe (clock : HlcClock) (hlc : Hlc) : HlcClock :=
  match clockPosition hlc with
  | none => clock
  | some (ms, counter) =>
    if (ms : Int) > clock.lastMs ∨ (ms : Int) = clock.lastMs ∧ counter > clock.counter then
      ⟨ms, counter⟩
    else clock

namespace RegistryDoc

def observeSidebarRow (doc : RegistryDoc) (kind id : String) : RegistryDoc :=
  match (doc.overlayRow kind id).bind RegistryRow.maxClock with
  | none => doc
  | some hlc => { doc with clock := doc.clock.observe hlc }

/-! ## Reading the sidebar -/

def maxSidebarPins : Nat := 200
def sectionsKind : String := "sidebarSections"
def locationsKind : String := "sidebarLocations"

/-- `Option` order on clocks: an absent one is below every other. -/
def clockAtLeast (left right : Option Hlc) : Bool :=
  match left, right with
  | _, none => true
  | none, some _ => false
  | some left, some right => decide (left ≥ right)

/-- Where a session is shown: the location register, unless an older app has
toggled the pin later. -/
def sidebarLocation (doc : RegistryDoc) (id : String) (pin : Option RegistryRow) : String :=
  let location := doc.overlayRow locationsKind id
  let locationClock := location.bind fun row => row.clocks["location"]?
  let pinClock := pin.bind fun row => row.clocks["pinned"]?
  if locationClock.isSome && clockAtLeast locationClock pinClock then
    ((location.bind fun row => row.fields["location"]?).bind decodeString).getD ""
  else if ((pin.bind fun row => row.fields["pinned"]?).bind decodeBool) = some true then "pinned"
  else ""

def sidebarLocationIsPinned (doc : RegistryDoc) (id : String) (pin : RegistryRow) : Bool :=
  doc.sidebarLocation id (some pin) == "pinned"

def sidebarPinsInitialized (doc : RegistryDoc) : Bool :=
  (doc.overlayRow kindPreferences sidebarPinsStateId).isSome

/-- The pins with their keys, in key order. -/
def orderedSidebarPins (doc : RegistryDoc) (order : IterOrder) : List (String × String) :=
  ((doc.overlayRows order kindSidebarPins).filterMap fun row =>
    if !doc.sidebarLocationIsPinned row.id row then none
    else
      match row.fields["orderKey"]?.bind decodeString with
      | none => none
      | some key => if validPinOrderKey key then some (row.id, key) else none).insertionSort
    fun a b => a.2 < b.2 ∨ a.2 = b.2 ∧ a.1 ≤ b.1

def deletedSection (row : RegistryRow) : Bool := row.fields["deleted"]?.bind decodeBool = some true

/-- Sections by creation stamp, those without one first, then by id. -/
def sectionBefore (a b : RegistryRow) : Bool :=
  let created := fun (row : RegistryRow) => row.fields["createdAt"]?.bind decodeString
  match created a, created b with
  | none, none => decide (a.id ≤ b.id)
  | none, some _ => true
  | some _, none => false
  | some left, some right => decide (left < right ∨ left = right ∧ a.id ≤ b.id)

def sidebarSections (doc : RegistryDoc) (order : IterOrder) : List SidebarSection :=
  let rows := ((doc.overlayRows order sectionsKind).filter fun row => !deletedSection row).insertionSort
    fun a b => sectionBefore a b
  rows.filterMap fun row => do
    let sessionIds := ((doc.overlayRows order locationsKind).filter fun location =>
      doc.sidebarLocation location.id (doc.overlayRow kindSidebarPins location.id) == row.id).map
        RegistryRow.id
    return {
      id := row.id
      name := ← row.fields["name"]?.bind decodeString
      sessionIds := sessionIds.insertionSort (· ≤ ·)
      collapsed := (row.fields["collapsed"]?.bind decodeBool).getD false }

def liveSidebarSection (doc : RegistryDoc) (id : String) : Bool :=
  (doc.overlayRow sectionsKind id).any fun row => !deletedSection row

def sidebarPreferences (doc : RegistryDoc) (order : IterOrder) : Option SidebarPreferences :=
  if doc.sidebarPinsInitialized then
    some {
      sections := doc.sidebarSections order
      pinnedSessionIds := (doc.orderedSidebarPins order).map Prod.fst }
  else none

end RegistryDoc

/-! ## Changing the sidebar -/

/-- A call that may fail after some of its writes.  Each write takes the next run
of wall-clock readings. -/
abbrev SidebarM := ExceptT String (StateM (RegistryDoc × (Nat → Nat → Int)))

namespace SidebarM

def doc : SidebarM RegistryDoc := do
  return (← get).1

/-- A step that takes no reading. -/
def adjust (step : RegistryDoc → RegistryDoc) : SidebarM Unit :=
  modify fun (doc, now) => (step doc, now)

def write (kind id : String) (op : OpKind) (set : BTreeMap Json) : SidebarM Unit :=
  modify fun (doc, now) => (doc.write (now 0) kind id op set, fun index => now (index + 1))

def enqueueOps (ops : List RowOp) : SidebarM Unit :=
  modify fun (doc, now) => (doc.enqueueOps (now 0) ops, fun index => now (index + 1))

def nextHlc : SidebarM Hlc := do
  let (doc, now) ← get
  let (hlc, doc) := doc.nextHlc (now 0 0)
  set (doc, fun index => now (index + 1))
  return hlc

/-- Readiness survives restarts even when the list is empty. -/
def initializeSidebarPins : SidebarM Unit := do
  if !(← doc).sidebarPinsInitialized then
    write kindPreferences sidebarPinsStateId .upsert (fields [("initialized", .bool true)])

def observeSidebarRow (kind id : String) : SidebarM Unit :=
  adjust fun doc => doc.observeSidebarRow kind id

def writeSidebarLocation (id location : String) : SidebarM Unit := do
  observeSidebarRow RegistryDoc.locationsKind id
  observeSidebarRow kindSidebarPins id
  write RegistryDoc.locationsKind id .upsert (fields [("location", .string location)])

/-- 1 to 256 ASCII letters, digits and punctuation of the room's ids. -/
def validId (id : String) : Bool :=
  id ≠ "" && decide (id.toList.length ≤ 256) &&
    id.toList.all fun c => c.isAlphanum || "-_.:@/".toList.contains c

def validSectionId (id : String) : Bool := validId id && id ≠ "pinned"

/-- `char::is_whitespace`. -/
def isWhitespace (c : Char) : Bool :=
  [0x9, 0xA, 0xB, 0xC, 0xD, 0x20, 0x85, 0xA0, 0x1680, 0x2000, 0x2001, 0x2002, 0x2003, 0x2004,
    0x2005, 0x2006, 0x2007, 0x2008, 0x2009, 0x200A, 0x2028, 0x2029, 0x202F, 0x205F,
    0x3000].contains c.toNat

def validName (name : String) : Bool :=
  name.toList.any (fun c => !isWhitespace c) && decide (name.toList.length ≤ 120)

/-- The error of a change that does not pass its checks. -/
def sectionChangeError : SidebarSectionChange → Option String
  | .create id name | .rename id name =>
      if validSectionId id && validName name then none else some "Invalid section name or ID"
  | .collapse id _ | .delete id => if validSectionId id then none else some "Invalid section ID"
  | .assign sessionId sectionId =>
      if validId sessionId && sectionId.all validSectionId then none
      else some "Invalid section membership"
  | .import sections =>
      if sections.all fun held =>
          validSectionId held.id && validName held.name && held.sessionIds.all validId then none
      else some "Invalid section import"

def checkSectionChange (change : SidebarSectionChange) : SidebarM Unit :=
  match sectionChangeError change with
  | some error => throw error
  | none => pure ()

/-- A change of one section's own row. -/
def changeSectionRow (change : SidebarSectionChange) : SidebarM Unit := do
  checkSectionChange change
  initializeSidebarPins
  match change with
  | .create id name =>
      -- Existing ids, deleted sections included, are never resurrected.
      if ((← doc).overlayRow RegistryDoc.sectionsKind id).isNone then
        let created ← nextHlc
        write RegistryDoc.sectionsKind id .upsert (fields [
          ("name", .string name),
          ("collapsed", .bool false),
          ("deleted", .bool false),
          ("createdAt", .string created)])
  | .rename id name =>
      if (← doc).liveSidebarSection id then
        observeSidebarRow RegistryDoc.sectionsKind id
        write RegistryDoc.sectionsKind id .upsert (fields [("name", .string name)])
  | .collapse id collapsed =>
      if (← doc).liveSidebarSection id then
        observeSidebarRow RegistryDoc.sectionsKind id
        write RegistryDoc.sectionsKind id .upsert (fields [("collapsed", .bool collapsed)])
  | .delete id =>
      observeSidebarRow RegistryDoc.sectionsKind id
      write RegistryDoc.sectionsKind id .upsert (fields [("deleted", .bool true)])
  | .assign _ _ | .import _ => pure ()

/-- The sessions of an imported section that nothing has placed yet. -/
def importSessions (order : IterOrder) (held : SidebarSection) : SidebarM Unit :=
  held.sessionIds.forM fun id => do
    let doc ← doc
    if (doc.overlayRow RegistryDoc.locationsKind id).isNone &&
        !(doc.orderedSidebarPins order).any (·.1 == id) &&
        (doc.overlayRow kindChats id).isSome then
      writeSidebarLocation id held.id

def changeSidebarSection (order : IterOrder) (change : SidebarSectionChange) : SidebarM Unit := do
  match change with
  | .assign sessionId sectionId =>
      checkSectionChange change
      initializeSidebarPins
      let doc ← doc
      if sectionId.any fun id => !doc.liveSidebarSection id then
        throw "Section no longer exists"
      if (doc.overlayRow kindChats sessionId).isNone then
        throw "Session no longer exists"
      -- Keep legacy clients from displaying section members as pins.
      observeSidebarRow kindSidebarPins sessionId
      write kindSidebarPins sessionId .upsert (fields [("pinned", .bool false)])
      writeSidebarLocation sessionId (sectionId.getD "")
      match sectionId with
      | some id => changeSectionRow (.collapse id false)
      | none => pure ()
  | .import sections =>
      checkSectionChange change
      initializeSidebarPins
      sections.forM fun held => do
        -- A replayed import must not undo a rename, deletion, collapse or move.
        if ((← doc).overlayRow RegistryDoc.sectionsKind held.id).isNone then
          changeSectionRow (.create held.id held.name)
          importSessions order held
          changeSectionRow (.collapse held.id held.collapsed)
  | change => changeSectionRow change

/-- The end of `changeSidebarPin` for a pin or a move: a key between the new
neighbours, under the clock that is its nonce. -/
def placeSidebarPin (order : IterOrder) (change : SidebarPinChange) (id : String) (pins : Bool)
    (current : List String) : SidebarM Unit := do
  let held := (← doc).orderedSidebarPins order
  let next := change.project current
  let index := next.findIdx (· == id)
  let keyFor := fun (id : String) => (held.find? (·.1 == id)).map Prod.snd
  let lower := (if index = 0 then none else next[index - 1]?).bind keyFor
  let upper := next[index + 1]?.bind keyFor
  let hlc ← nextHlc
  match pinOrderKeyBetween lower upper hlc with
  | .error error => throw error
  | .ok key =>
      if pins then writeSidebarLocation id "pinned"
      enqueueOps [{
        kind := kindSidebarPins, id, op := .upsert
        set := some (fields (("orderKey", .string key) ::
          if pins then [("pinned", .bool true)] else []))
        hlc, clocks := none }]

/-- The checks of `changeSidebarPin`, and its first writes. -/
def openSidebarPin (order : IterOrder) (id : String) (pins : Bool) : SidebarM (List String) := do
  if !validId id then throw "Invalid pinned session ID"
  let current := (((← doc).sidebarPreferences order).map (·.pinnedSessionIds)).getD []
  if pins && !current.contains id && decide (current.length ≥ RegistryDoc.maxSidebarPins) then
    throw "You can pin up to 200 sessions"
  if pins && ((← doc).overlayRow kindChats id).isNone then
    throw "Session no longer exists"
  initializeSidebarPins
  observeSidebarRow RegistryDoc.locationsKind id
  observeSidebarRow kindSidebarPins id
  return current

def changeSidebarPin (order : IterOrder) (change : SidebarPinChange) : SidebarM Unit := do
  match change with
  | .section change => changeSidebarSection order change
  | .unpin id =>
      let current ← openSidebarPin order id false
      if current.contains id then writeSidebarLocation id ""
      write kindSidebarPins id .upsert (fields [("pinned", .bool false)])
  | .move id _ _ =>
      let current ← openSidebarPin order id false
      if current.contains id then placeSidebarPin order change id false current
  | .pin id _ _ =>
      let current ← openSidebarPin order id true
      placeSidebarPin order change id true current

/-- Initialize readiness and clean deleted pins from one authoritative snapshot. -/
def reconcileSidebarPins (codec : EntityCodec) (order : IterOrder) (authoritative : Bool) :
    SidebarM Bool := do
  if !authoritative then return false
  let initialized := (← doc).sidebarPinsInitialized
  initializeSidebarPins
  let doc ← doc
  let known := (doc.readChats codec order).map Chat.id
  let removed := ((doc.orderedSidebarPins order).map Prod.fst).filter fun id => !known.contains id
  removed.forM fun id => changeSidebarPin order (.unpin id)
  return !initialized || !removed.isEmpty

end SidebarM

end Zeron.Registry
