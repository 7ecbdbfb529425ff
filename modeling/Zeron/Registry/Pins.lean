import Zeron.Data.Ranked
import Zeron.Registry.OrderKeys
import Zeron.Registry.SidebarSteps

namespace Zeron.Registry

open Zeron.Data
open RegistryDoc (shown)

/-! # Pins follow their projection

A pin change edits the list by anchors, while the registry keeps a key per pin and
decides membership from two registers.  The two agree as long as the pin's row is not
a tombstone newer than the change.
-/

namespace RegistryDoc

/-! ## What the registers say -/

/-- Where the two registers put a session. -/
def placement (location pinned : Lww.Cell Hlc Json) : String :=
  if location.clock.isSome && clockAtLeast location.clock pinned.clock then
    (location.value.bind decodeString).getD ""
  else if pinned.value.bind decodeBool = some true then "pinned"
  else ""

/-- A field of a row as this device shows it. -/
def cell (doc : RegistryDoc) (kind id field : String) : Lww.Cell Hlc Json :=
  fieldCell (doc.overlayRow kind id) field

theorem sidebarLocation_eq (doc : RegistryDoc) (id : String) (pin : Option RegistryRow) :
    doc.sidebarLocation id pin =
      placement (doc.cell locationsKind id "location") (fieldCell pin "pinned") := by
  unfold sidebarLocation placement cell fieldCell
  cases doc.overlayRow locationsKind id <;> cases pin <;> rfl

/-- The key under which a session is listed as a pin. -/
def pinKey (doc : RegistryDoc) (id : String) : Option String :=
  if placement (doc.cell locationsKind id "location") (doc.cell kindSidebarPins id "pinned") =
      "pinned" then
    ((doc.cell kindSidebarPins id "orderKey").value.bind decodeString).filter validPinOrderKey
  else none

theorem key_of_held {doc : RegistryDoc} {key : RowKey} {row : RegistryRow}
    (isHeld : doc.held key = some row) : row.key = key := by
  have replays : ∀ (ops : List RowOp) (base : Option RegistryRow), (∀ op ∈ ops, op.key = key) →
      (∀ row ∈ base, row.key = key) → ∀ row ∈ replay base ops, row.key = key := by
    intro ops
    induction ops with
    | nil => exact fun base _ keyed => keyed
    | cons op rest ih =>
        intro base mine keyed
        rw [replay_cons]
        have here := mine op List.mem_cons_self
        refine ih _ (fun other member => mine other (List.mem_cons_of_mem _ member)) ?_
        intro row applied
        rw [← here] at keyed ⊢
        exact applyOp_keeps_key keyed applied
  refine replays _ _ (fun op member => ?_) (fun row found => KeyedTable.key_of_get? found) row isHeld
  simpa [rowOps] using (List.mem_filter.mp member).2

theorem id_of_overlayRow {doc : RegistryDoc} {kind id : String} {row : RegistryRow}
    (isShown : doc.overlayRow kind id = some row) : row.id = id := by
  rw [overlayRow_eq_shown] at isShown
  exact congrArg RowKey.id (key_of_held (Option.filter_eq_some_iff.mp isShown).1)

theorem overlayIds_nodup (doc : RegistryDoc) (order : IterOrder) (kind : String) :
    (doc.overlayIds order kind).Nodup := by
  have grows : ∀ (ops : List RowOp) (ids : List String), ids.Nodup →
      (ops.foldl (fun ids op => if ids.contains op.id then ids else ids ++ [op.id]) ids).Nodup := by
    intro ops
    induction ops with
    | nil => exact fun ids nodup => nodup
    | cons op rest ih =>
        intro ids nodup
        apply ih
        dsimp only
        split
        · exact nodup
        · rename_i absent
          simp only [List.contains_iff_mem] at absent
          exact List.concat_eq_append ▸ nodup.concat absent
  refine grows _ _ (List.pairwise_map.mpr ?_)
  rw [(order.perm _).pairwise_iff (fun apart => apart.symm)]
  refine (doc.authoritative.values_distinct.filter _).imp_of_mem ?_
  intro a b memberA memberB apart same
  have kindA : a.kind = kind := by simpa using (List.mem_filter.mp memberA).2
  have kindB : b.kind = kind := by simpa using (List.mem_filter.mp memberB).2
  exact apart (congrArg₂ RowKey.mk (kindA.trans kindB.symm) same)

/-- The pin of a shown row. -/
def pinOf (doc : RegistryDoc) (row : RegistryRow) : Option (String × String) :=
  if !doc.sidebarLocationIsPinned row.id row then none
  else
    match row.fields["orderKey"]?.bind decodeString with
    | none => none
    | some key => if validPinOrderKey key then some (row.id, key) else none

theorem pinOf_overlayRow {doc : RegistryDoc} {id : String} {row : RegistryRow}
    (isShown : doc.overlayRow kindSidebarPins id = some row) :
    doc.pinOf row = (doc.pinKey id).map fun key => (id, key) := by
  have here := id_of_overlayRow isShown
  have cells : ∀ field, doc.cell kindSidebarPins id field = row.cell field := by
    intro field
    rw [cell, isShown]
    rfl
  have register : fieldCell (some row) "pinned" = row.cell "pinned" := rfl
  unfold pinOf pinKey sidebarLocationIsPinned
  rw [here, sidebarLocation_eq, cells, cells, register]
  by_cases pinned :
      placement (doc.cell locationsKind id "location") (row.cell "pinned") = "pinned"
  · rw [if_pos pinned, if_neg (by simp [pinned])]
    change _ = ((row.fields["orderKey"]?.bind decodeString).filter validPinOrderKey).map _
    cases row.fields["orderKey"]?.bind decodeString with
    | none => rfl
    | some key => cases valid : validPinOrderKey key <;> simp [Option.filter, valid]
  · rw [if_neg pinned, if_pos (by simp [pinned])]
    rfl

theorem orderedSidebarPins_eq (doc : RegistryDoc) (order : IterOrder) :
    doc.orderedSidebarPins order =
      ((doc.overlayIds order kindSidebarPins).filterMap fun id =>
        (doc.overlayRow kindSidebarPins id).bind doc.pinOf).insertionSort Ranked.Before := by
  rw [← List.filterMap_filterMap]
  rfl

theorem mem_orderedSidebarPins {doc : RegistryDoc} {order : IterOrder} {id key : String} :
    (id, key) ∈ doc.orderedSidebarPins order ↔ doc.pinKey id = some key := by
  have rows : (id, key) ∈ doc.orderedSidebarPins order ↔
      ∃ row ∈ doc.overlayRows order kindSidebarPins, doc.pinOf row = some (id, key) :=
    (List.mem_insertionSort _).trans List.mem_filterMap
  rw [rows]
  constructor
  · rintro ⟨row, member, isPin⟩
    obtain ⟨other, isShown⟩ := mem_overlayRows.mp member
    rw [pinOf_overlayRow isShown] at isPin
    obtain ⟨held, found, same⟩ := Option.map_eq_some_iff.mp isPin
    cases same
    exact found
  · intro found
    cases isShown : doc.overlayRow kindSidebarPins id with
    | none => simp [pinKey, cell, isShown, fieldCell, Lww.Cell.blank] at found
    | some row =>
        refine ⟨row, mem_overlayRows.mpr ⟨id, isShown⟩, ?_⟩
        rw [pinOf_overlayRow isShown, found]
        rfl

theorem orderedSidebarPins_ranked (doc : RegistryDoc) (order : IterOrder) :
    (doc.orderedSidebarPins order).Pairwise Ranked.Before := by
  rw [orderedSidebarPins_eq]
  exact List.pairwise_insertionSort _ _

theorem orderedSidebarPins_nodup (doc : RegistryDoc) (order : IterOrder) :
    (doc.orderedSidebarPins order).Nodup := by
  rw [orderedSidebarPins_eq, (List.perm_insertionSort _ _).nodup_iff]
  refine (doc.overlayIds_nodup order kindSidebarPins).filterMap fun a b pin inA inB => ?_
  have named : ∀ id, pin ∈ (doc.overlayRow kindSidebarPins id).bind doc.pinOf → pin.1 = id := by
    intro id isPin
    obtain ⟨row, isShown, held⟩ := Option.bind_eq_some_iff.mp isPin
    rw [pinOf_overlayRow isShown] at held
    obtain ⟨key, _, rfl⟩ := Option.map_eq_some_iff.mp held
    rfl
  exact (named a inA).symm.trans (named b inB)

/-- A ranked list of exactly the listed pins is the list of pins. -/
theorem orderedSidebarPins_unique {doc : RegistryDoc} {order : IterOrder}
    {pins : List (String × String)} (ranked : pins.Pairwise Ranked.Before) (nodup : pins.Nodup)
    (listed : ∀ id key, (id, key) ∈ pins ↔ doc.pinKey id = some key) :
    doc.orderedSidebarPins order = pins := by
  apply Ranked.eq_of_same_members (doc.orderedSidebarPins_ranked order) ranked
    (doc.orderedSidebarPins_nodup order) nodup
  rintro ⟨id, key⟩
  rw [mem_orderedSidebarPins, listed]

/-- A session's pin is a matter of its own two rows. -/
theorem pinKey_congr {doc other : RegistryDoc} {id : String}
    (same : ∀ kind, kind ≠ kindPreferences → other.held ⟨kind, id⟩ = doc.held ⟨kind, id⟩) :
    other.pinKey id = doc.pinKey id := by
  unfold pinKey cell
  simp only [overlayRow_eq_shown]
  rw [same locationsKind (by decide), same kindSidebarPins (by decide)]

end RegistryDoc

/-! ## Placing a pin among the others -/

theorem placePin_eq (id : String) (after before : Option String) (ids : List String) :
    ∃ index ≤ ids.length, placePin id after before ids = ids.insertIdx index id := by
  refine ⟨_, ?_, rfl⟩
  have found : ∀ anchor position, ids.findIdx? (· == anchor) = some position →
      position < ids.length := by
    intro anchor position isHere
    exact (List.findIdx?_eq_some_iff_findIdx_eq.mp isHere).1
  cases right : before.bind fun anchor => ids.findIdx? (· == anchor) with
  | some position =>
      obtain ⟨anchor, _, isHere⟩ := Option.bind_eq_some_iff.mp right
      exact (found anchor position isHere).le
  | none =>
      cases left : after.bind fun anchor => (ids.findIdx? (· == anchor)).map (· + 1) with
      | none => exact Nat.le_refl _
      | some position =>
          obtain ⟨anchor, _, isNext⟩ := Option.bind_eq_some_iff.mp left
          obtain ⟨held, isHere, rfl⟩ := Option.map_eq_some_iff.mp isNext
          exact found anchor held isHere

section Placing

variable {pins : List (String × String)} {id : String} {index : Nat}

/-- The pins but one. -/
def others (id : String) (pins : List (String × String)) : List (String × String) :=
  pins.filter (·.1 != id)

theorem not_mem_others : id ∉ (others id pins).map Prod.fst := by
  intro member
  obtain ⟨entry, inOthers, rfl⟩ := List.mem_map.mp member
  simpa using (List.mem_filter.mp inOthers).2

theorem map_others (pins : List (String × String)) (id : String) :
    (pins.map Prod.fst).filter (· != id) = (others id pins).map Prod.fst := by
  rw [List.filter_map]
  rfl

theorem findIdx_placed (inside : index ≤ (others id pins).length) :
    (((others id pins).map Prod.fst).insertIdx index id).findIdx (· == id) = index := by
  have bound : index < (((others id pins).map Prod.fst).insertIdx index id).length := by
    rw [List.length_insertIdx_of_le_length (by simpa using inside), List.length_map]
    omega
  refine (List.findIdx_eq bound).mpr ⟨?_, fun position before => ?_⟩
  · rw [List.getElem_insertIdx_self]
    exact beq_self_eq_true id
  · rw [List.getElem_insertIdx_of_lt before]
    refine Bool.eq_false_iff.mpr fun same => ?_
    exact not_mem_others (eq_of_beq same ▸ List.getElem_mem _)

/-- Looking a listed pin's key up finds it. -/
theorem find?_of_mem (functional : ∀ a ∈ pins, ∀ b ∈ pins, a.1 = b.1 → a = b)
    {entry : String × String} (member : entry ∈ pins) :
    (pins.find? (·.1 == entry.1)).map Prod.snd = some entry.2 := by
  cases found : pins.find? (·.1 == entry.1) with
  | none =>
      have missing := List.find?_eq_none.mp found entry member
      exact absurd (beq_self_eq_true entry.1) missing
  | some held =>
      have same := List.find?_some found
      rw [functional held (List.mem_of_find?_eq_some found) entry member (by simpa using same)]
      rfl

/-- The keys around the new place are those of the pins there. -/
theorem neighbours_placed (functional : ∀ a ∈ pins, ∀ b ∈ pins, a.1 = b.1 → a = b) :
    let next := ((others id pins).map Prod.fst).insertIdx index id
    let keyFor := fun (id : String) => (pins.find? (·.1 == id)).map Prod.snd
    (if index = 0 then none else next[index - 1]?).bind keyFor =
        (if index = 0 then none else (others id pins)[index - 1]?).map Prod.snd ∧
      next[index + 1]?.bind keyFor = (others id pins)[index]?.map Prod.snd := by
  have keys : ∀ position : Nat, (((others id pins).map Prod.fst)[position]?.bind fun (id : String) =>
      (pins.find? (·.1 == id)).map Prod.snd) = (others id pins)[position]?.map Prod.snd := by
    intro position
    rw [List.getElem?_map]
    cases found : (others id pins)[position]? with
    | none => rfl
    | some entry =>
        exact find?_of_mem functional (List.mem_of_mem_filter (List.mem_of_getElem? found))
  constructor
  · by_cases first : index = 0
    · simp [first]
    · rw [if_neg first, if_neg first, List.getElem?_insertIdx_of_lt (by omega)]
      exact keys (index - 1)
  · rw [List.getElem?_insertIdx_of_gt (by omega)]
    exact keys index

end Placing

/-! ## What a change leaves -/

namespace SidebarM

/-- The pins a replica lists; none before it is initialized. -/
def listed (doc : RegistryDoc) (order : IterOrder) : List String :=
  ((doc.sidebarPreferences order).map (·.pinnedSessionIds)).getD []

theorem runs_openSidebarPin {order : IterOrder} {id : String} {pins : Bool} {before after : State}
    {current : List String} (ran : Runs (openSidebarPin order id pins) before current after) :
    current = listed before.1 order ∧ after = observedBoth id (ready before) := by
  unfold openSidebarPin at ran
  obtain ⟨_, ran⟩ := runs_check ran
  obtain ⟨doc, _, read, ran⟩ := runs_bind.mp ran
  obtain ⟨rfl, rfl⟩ := runs_doc.mp read
  obtain ⟨_, ran⟩ := runs_check ran
  obtain ⟨doc, _, again, ran⟩ := runs_bind.mp ran
  obtain ⟨rfl, rfl⟩ := runs_doc.mp again
  obtain ⟨_, ran⟩ := runs_check ran
  simp only [runs_bind, runs_ready, runs_observe, runs_pure] at ran
  obtain ⟨_, _, rfl, _, _, rfl, _, _, rfl, rfl, rfl⟩ := ran
  exact ⟨rfl, rfl⟩

/-- The fields a pin or a move writes. -/
def pinFields (pins : Bool) (key : String) : BTreeMap Json :=
  fields (("orderKey", .string key) :: if pins then [("pinned", .bool true)] else [])

theorem pinFields_orderKey (pins : Bool) (key : String) :
    (pinFields pins key)["orderKey"]? = some (.string key) := by
  cases pins with
  | false => exact (getElem?_fields_one _ _ _).trans (if_pos rfl)
  | true =>
      exact (getElem?_fields_two _ _ _ _ _).trans ((if_neg (by decide)).trans (if_pos rfl))

theorem pinFields_pinned (pins : Bool) (key : String) :
    (pinFields pins key)["pinned"]? = if pins then some (.bool true) else none := by
  cases pins with
  | false => exact (getElem?_fields_one _ _ _).trans (if_neg (by decide))
  | true => exact (getElem?_fields_two _ _ _ _ _).trans (if_pos rfl)

/-- The end of a pin or a move: its clock, its location, and its row. -/
def placed (id : String) (pins : Bool) (key : String) (state : State) : State :=
  let mid := if pins then located id "pinned" (issued state) else issued state
  (mid.1.enqueueOps (mid.2 0) [upsertOp kindSidebarPins id (pinFields pins key) (stamp state)],
    later mid.2)

theorem runs_placeSidebarPin {order : IterOrder} {change : SidebarPinChange} {id : String}
    {pins : Bool} {current : List String} {before after : State} {value : Unit}
    (ran : Runs (placeSidebarPin order change id pins current) before value after) :
    let held := before.1.orderedSidebarPins order
    let next := change.project current
    let index := next.findIdx (· == id)
    let keyFor := fun (id : String) => (held.find? (·.1 == id)).map Prod.snd
    ∃ key, pinOrderKeyBetween ((if index = 0 then none else next[index - 1]?).bind keyFor)
        (next[index + 1]?.bind keyFor) (stamp before) = .ok key ∧
      after = placed id pins key before := by
  unfold placeSidebarPin at ran
  simp only [runs_bind, runs_doc, runs_nextHlc] at ran
  obtain ⟨doc, _, ⟨rfl, rfl⟩, hlc, mid, ⟨rfl, rfl⟩, rest⟩ := ran
  dsimp only
  split at rest
  · exact (not_runs_throw rest).elim
  · rename_i key made
    refine ⟨key, made, ?_⟩
    unfold placed
    cases pins with
    | false =>
        rw [if_neg (by simp)] at rest
        exact runs_enqueueOps.mp rest
    | true =>
        rw [if_pos rfl] at rest
        obtain ⟨_, mid, located, queued⟩ := runs_bind.mp rest
        rw [runs_located.mp located] at queued
        exact runs_enqueueOps.mp queued

theorem pin_ne_location (id : String) :
    (⟨kindSidebarPins, id⟩ : RowKey) ≠ ⟨RegistryDoc.locationsKind, id⟩ :=
  fun same => absurd (congrArg RowKey.kind same) (show ¬ kindSidebarPins = RegistryDoc.locationsKind by decide)

theorem held_placed {state : State} (settled : state.1.Settled) (id : String) (pins : Bool)
    (key : String) :
    (placed id pins key state).1.held = Function.update
      (if pins then (located id "pinned" (issued state)).1.held else state.1.held)
      ⟨kindSidebarPins, id⟩ (applyOp (state.1.held ⟨kindSidebarPins, id⟩)
        (upsertOp kindSidebarPins id (pinFields pins key) (stamp state))).1 := by
  cases pins with
  | false => exact @RegistryDoc.held_enqueueOp (issued state).1 settled _ _
  | true =>
      have queued := RegistryDoc.held_enqueueOp (@settled_located (issued state) settled id "pinned")
        ((located id "pinned" (issued state)).2 0)
        (upsertOp kindSidebarPins id (pinFields true key) (stamp state))
      refine queued.trans ?_
      have same : (located id "pinned" (issued state)).1.held ⟨kindSidebarPins, id⟩ =
          state.1.held ⟨kindSidebarPins, id⟩ := by
        rw [@held_located (issued state) settled, Function.update_of_ne (pin_ne_location id)]
        rfl
      rw [← same]
      rfl

/-- Only the two rows of the session change. -/
theorem held_placed_of_ne {state : State} (settled : state.1.Settled) {id : String} (pins : Bool)
    (key : String) {other : RowKey} (apart : ∀ kind, kind ≠ kindPreferences → other ≠ ⟨kind, id⟩) :
    (placed id pins key state).1.held other = state.1.held other := by
  rw [held_placed settled, Function.update_of_ne (apart _ (by decide))]
  cases pins with
  | false => rfl
  | true =>
      rw [if_pos rfl, @held_located (issued state) settled,
        Function.update_of_ne (apart _ (by decide))]
      rfl

end SidebarM

namespace RegistryDoc

theorem cell_upserted {doc other : RegistryDoc} {kind id : String} {set : BTreeMap Json} {hlc : Hlc}
    (same : other.held ⟨kind, id⟩ =
      (applyOp (doc.held ⟨kind, id⟩) (upsertOp kind id set hlc)).1) (field : String) :
    other.cell kind id field =
      if buried (doc.held ⟨kind, id⟩) hlc then .blank
      else (doc.cell kind id field).apply (set[field]?.map fun value => ⟨value.stored, hlc⟩) := by
  rw [cell, overlayRow_eq_shown, same, fieldCell_upsertOp, ← overlayRow_eq_shown]
  rfl

theorem cell_congr {doc other : RegistryDoc} {kind id : String}
    (same : other.held ⟨kind, id⟩ = doc.held ⟨kind, id⟩) (field : String) :
    other.cell kind id field = doc.cell kind id field := by
  rw [cell, overlayRow_eq_shown, same, ← overlayRow_eq_shown]
  rfl

/-- A clock past a session's row is newer than each of its fields. -/
theorem newer_cell {doc : RegistryDoc} {kind id : String} {hlc : Hlc}
    (outranks : Outranks hlc (doc.overlayRow kind id)) (field : String) :
    Lww.newer hlc (doc.cell kind id field).clock = true := outranks.newer field

end RegistryDoc

/-! ## Membership -/

/-- Pinned by both apps: the register a pin writes, whatever older one survives. -/
theorem placement_pinned {location : Lww.Cell Hlc Json} {hlc later : Hlc} {lost : Bool}
    (newer : Lww.newer hlc location.clock = true) :
    RegistryDoc.placement
      (if lost then .blank else location.apply (some ⟨some (.string "pinned"), later⟩))
      ⟨some (.bool true), some hlc⟩ = "pinned" := by
  cases lost with
  | true => rfl
  | false =>
      simp only [Bool.false_eq_true, if_false, Lww.Cell.apply_some, Lww.Cell.write]
      split
      · unfold RegistryDoc.placement
        split <;> rfl
      · unfold RegistryDoc.placement
        cases stale : location.clock with
        | none => rfl
        | some held =>
            rw [stale, Lww.newer_some, decide_eq_true_eq] at newer
            have behind : RegistryDoc.clockAtLeast (some held) (some hlc) = false :=
              decide_eq_false (not_le.mpr newer)
            simp [behind, decodeBool]

namespace SidebarM

/-- After a pin or a move its session is listed under the new key, unless its row stays
buried. -/
theorem pinKey_placed {latest : Int} {writes : Nat} {id : String} {state : State}
    (opened : Opened latest (writes + 1) id state) {pins : Bool} {key : String}
    (valid : validPinOrderKey key = true)
    (member : pins = true ∨ (state.1.pinKey id).isSome) :
    (placed id pins key state).1.pinKey id =
      if buried (state.1.held ⟨kindSidebarPins, id⟩) (stamp state) then none else some key := by
  have pinRow : (placed id pins key state).1.held ⟨kindSidebarPins, id⟩ =
      (applyOp (state.1.held ⟨kindSidebarPins, id⟩)
        (upsertOp kindSidebarPins id (pinFields pins key) (stamp state))).1 := by
    rw [held_placed opened.fit.settled, Function.update_self]
  have cells := RegistryDoc.cell_upserted pinRow
  have pinNewer := RegistryDoc.newer_cell (opened.fit.outranks opened.pin)
  have locationNewer := RegistryDoc.newer_cell (opened.fit.outranks opened.location)
  cases lost : buried (state.1.held ⟨kindSidebarPins, id⟩) (stamp state) with
  | true =>
      have hidden : (placed id pins key state).1.cell kindSidebarPins id "orderKey" = .blank := by
        rw [cells, lost]
        rfl
      unfold RegistryDoc.pinKey
      rw [hidden]
      split <;> rfl
  | false =>
      have ordered : (placed id pins key state).1.cell kindSidebarPins id "orderKey" =
          ⟨some (.string key), some (stamp state)⟩ := by
        rw [cells, lost, pinFields_orderKey]
        exact apply_newer (pinNewer _) _
      have isPinned : RegistryDoc.placement
          ((placed id pins key state).1.cell RegistryDoc.locationsKind id "location")
          ((placed id pins key state).1.cell kindSidebarPins id "pinned") = "pinned" := by
        rw [cells, lost, pinFields_pinned]
        cases pins with
        | false =>
            -- A move writes neither register.
            have location : (placed id false key state).1.held ⟨RegistryDoc.locationsKind, id⟩ =
                state.1.held ⟨RegistryDoc.locationsKind, id⟩ := by
              rw [held_placed opened.fit.settled, Function.update_of_ne (pin_ne_location id).symm]
              rfl
            rw [RegistryDoc.cell_congr location]
            simp only [Bool.false_eq_true, if_false, Option.map_none, Lww.Cell.apply_none]
            rcases member with pinning | listed
            · cases pinning
            · unfold RegistryDoc.pinKey at listed
              by_contra elsewhere
              rw [if_neg elsewhere] at listed
              cases listed
        | true =>
            have location : (placed id true key state).1.held ⟨RegistryDoc.locationsKind, id⟩ =
                (applyOp (state.1.held ⟨RegistryDoc.locationsKind, id⟩)
                  (upsertOp RegistryDoc.locationsKind id (fields [("location", .string "pinned")])
                    (stamp (observedBoth id (issued state))))).1 := by
              rw [held_placed opened.fit.settled, Function.update_of_ne (pin_ne_location id).symm,
                if_pos rfl, @held_located (issued state) opened.fit.settled, Function.update_self]
              rfl
            rw [RegistryDoc.cell_upserted location, getElem?_fields_one, if_pos rfl]
            simp only [Bool.false_eq_true, if_false, if_true, Option.map_some]
            rw [apply_newer (pinNewer "pinned")]
            exact placement_pinned (locationNewer "location")
      unfold RegistryDoc.pinKey
      rw [if_pos isPinned, ordered]
      simp [decodeString, valid, Option.filter]

/-- The writes of an unpin. -/
def unpinned (id : String) (listed : Bool) (state : State) : State :=
  written kindSidebarPins id (fields [("pinned", .bool false)])
    (if listed then located id "" state else state)

theorem settled_unpinning {state : State} (settled : state.1.Settled) (id : String)
    (listed : Bool) : (if listed then located id "" state else state).1.Settled := by
  cases listed with
  | false => exact settled
  | true => exact settled_located settled id ""

theorem held_unpinned_of_ne {state : State} (settled : state.1.Settled) {id : String}
    (listed : Bool) {other : RowKey} (apart : ∀ kind, kind ≠ kindPreferences → other ≠ ⟨kind, id⟩) :
    (unpinned id listed state).1.held other = state.1.held other := by
  rw [unpinned, held_written (settled_unpinning settled id listed),
    Function.update_of_ne (apart _ (by decide))]
  cases listed with
  | false => rfl
  | true => rw [if_pos rfl, held_located settled, Function.update_of_ne (apart _ (by decide))]

/-- A toggle to false that is newer than the location leaves no pin. -/
theorem pinKey_toggled {latest : Int} {writes : Nat} {id : String} {state : State}
    (fit : Fit latest (writes + 1) state)
    (pin : state.1.clock.Seen (state.1.overlayRow kindSidebarPins id))
    (location : Lww.newer (stamp state)
        (state.1.cell RegistryDoc.locationsKind id "location").clock = true ∨
      (state.1.cell RegistryDoc.locationsKind id "location").value.bind decodeString ≠
        some "pinned") :
    (written kindSidebarPins id (fields [("pinned", .bool false)]) state).1.pinKey id = none := by
  have rows := held_written fit.settled kindSidebarPins id (fields [("pinned", .bool false)])
  have pinRow : (written kindSidebarPins id (fields [("pinned", .bool false)]) state).1.held
      ⟨kindSidebarPins, id⟩ = (applyOp (state.1.held ⟨kindSidebarPins, id⟩)
        (upsertOp kindSidebarPins id (fields [("pinned", .bool false)]) (stamp state))).1 := by
    rw [rows, Function.update_self]
  have locationRow : (written kindSidebarPins id (fields [("pinned", .bool false)]) state).1.held
      ⟨RegistryDoc.locationsKind, id⟩ = state.1.held ⟨RegistryDoc.locationsKind, id⟩ := by
    rw [rows, Function.update_of_ne (pin_ne_location id).symm]
  have cells := RegistryDoc.cell_upserted pinRow
  have newer := RegistryDoc.newer_cell (fit.outranks pin)
  unfold RegistryDoc.pinKey
  rw [cells, cells, RegistryDoc.cell_congr locationRow]
  cases lost : buried (state.1.held ⟨kindSidebarPins, id⟩) (stamp state) with
  | true =>
      simp only [if_true]
      split <;> rfl
  | false =>
      simp only [Bool.false_eq_true, if_false]
      rw [getElem?_fields_one, if_pos rfl, Option.map_some, apply_newer (newer "pinned")]
      refine if_neg fun pinned => ?_
      unfold RegistryDoc.placement at pinned
      split at pinned
      · rename_i later
        simp only [Bool.and_eq_true] at later
        rcases location with older | elsewhere
        · cases stale : (state.1.cell RegistryDoc.locationsKind id "location").clock with
          | none =>
              rw [stale] at later
              cases later.1
          | some held =>
              rw [stale, Lww.newer_some, decide_eq_true_eq] at older
              rw [stale] at later
              exact absurd (of_decide_eq_true later.2) (not_le.mpr older)
        · cases found :
              (state.1.cell RegistryDoc.locationsKind id "location").value.bind decodeString with
          | none =>
              rw [found] at pinned
              exact absurd pinned (by decide)
          | some text =>
              rw [found] at pinned elsewhere
              exact elsewhere (congrArg some pinned)
      · change (if (some false : Option Bool) = some true then "pinned" else "") = "pinned" at pinned
        exact absurd pinned (by decide)

/-- After an unpin no app shows its session as a pin. -/
theorem pinKey_unpinned {latest : Int} {writes : Nat} {id : String} {state : State}
    (opened : Opened latest (writes + 2) id state) (listed : Bool) :
    (unpinned id listed state).1.pinKey id = none := by
  cases listed with
  | false =>
      exact pinKey_toggled opened.fit.fewer opened.pin
        (.inl (RegistryDoc.newer_cell (opened.fit.outranks opened.location) _))
  | true =>
      obtain ⟨fit, since⟩ := opened.located ""
      have rows := held_located opened.fit.settled id ""
      have pinRow : (located id "" state).1.held ⟨kindSidebarPins, id⟩ =
          state.1.held ⟨kindSidebarPins, id⟩ := by
        rw [rows, Function.update_of_ne (pin_ne_location id)]
      have locationRow : (located id "" state).1.held ⟨RegistryDoc.locationsKind, id⟩ =
          (applyOp (state.1.held ⟨RegistryDoc.locationsKind, id⟩)
            (upsertOp RegistryDoc.locationsKind id (fields [("location", .string "")])
              (stamp (observedBoth id state)))).1 := by
        rw [rows, Function.update_self]
      have again := opened.fit.opened opened.clocked
      have newer := RegistryDoc.newer_cell (again.fit.outranks again.location) "location"
      have still : (observedBoth id state).1.cell RegistryDoc.locationsKind id "location" =
          state.1.cell RegistryDoc.locationsKind id "location" :=
        RegistryDoc.cell_congr (by rw [held_observedBoth]) _
      rw [still] at newer
      change (written _ _ _ (located id "" state)).1.pinKey id = none
      refine pinKey_toggled fit ?_ (.inr ?_)
      · rw [RegistryDoc.overlayRow_eq_shown, pinRow, ← RegistryDoc.overlayRow_eq_shown]
        exact opened.pin.mono since
      · rw [RegistryDoc.cell_upserted locationRow, getElem?_fields_one, if_pos rfl,
          Option.map_some, apply_newer newer]
        split
        · exact fun same => by cases same
        · change (some "" : Option String) ≠ some "pinned"
          decide

theorem runs_unpin {order : IterOrder} {id : String} {before after : State} {value : Unit}
    (ran : Runs (changeSidebarPin order (.unpin id)) before value after) :
    after = unpinned id ((listed before.1 order).contains id) (observedBoth id (ready before)) := by
  obtain ⟨current, mid, opened, rest⟩ := runs_bind.mp ran
  obtain ⟨rfl, rfl⟩ := runs_openSidebarPin opened
  unfold unpinned
  dsimp only at rest
  cases isListed : (listed before.1 order).contains id with
  | false =>
      rw [isListed, if_neg (by decide)] at rest
      exact runs_write.mp rest
  | true =>
      rw [isListed, if_pos rfl] at rest
      obtain ⟨_, state, moved, toggled⟩ := runs_bind.mp rest
      rw [runs_located.mp moved] at toggled
      exact runs_write.mp toggled

theorem runs_move {order : IterOrder} {id : String} {left right : Option String}
    {before after : State} {value : Unit}
    (ran : Runs (changeSidebarPin order (.move id left right)) before value after) :
    if (listed before.1 order).contains id then
      Runs (placeSidebarPin order (.move id left right) id false (listed before.1 order))
        (observedBoth id (ready before)) value after
    else after = observedBoth id (ready before) := by
  obtain ⟨current, mid, opened, rest⟩ := runs_bind.mp ran
  obtain ⟨rfl, rfl⟩ := runs_openSidebarPin opened
  cases isListed : (listed before.1 order).contains id with
  | false =>
      rw [isListed] at rest
      exact (runs_pure.mp rest).2.symm
  | true =>
      rw [isListed] at rest
      exact rest

theorem runs_pin {order : IterOrder} {id : String} {left right : Option String}
    {before after : State} {value : Unit}
    (ran : Runs (changeSidebarPin order (.pin id left right)) before value after) :
    Runs (placeSidebarPin order (.pin id left right) id true (listed before.1 order))
      (observedBoth id (ready before)) value after := by
  obtain ⟨current, mid, opened, rest⟩ := runs_bind.mp ran
  obtain ⟨rfl, rfl⟩ := runs_openSidebarPin opened
  exact rest

/-! ## Agreement -/

end SidebarM

def SidebarPinChange.pins : SidebarPinChange → Bool
  | .pin _ _ _ => true
  | _ => false

def SidebarPinChange.moves : SidebarPinChange → Bool
  | .move _ _ _ => true
  | _ => false

/-- The session of a pin, a move or an unpin. -/
def SidebarPinChange.session? : SidebarPinChange → Option String
  | .pin id _ _ | .move id _ _ | .unpin id => some id
  | .section _ => none

namespace SidebarM

def readyKey : RowKey := ⟨kindPreferences, sidebarPinsStateId⟩

/-- What a change needs for the list to become its projection: no tombstone newer than
the writes stands in their way, and no pin shows up just because the list is now
initialized. -/
structure Unobstructed (change : SidebarPinChange) (id : String) (state : State) : Prop where
  readies : state.1.sidebarPinsInitialized = true ∨
    buried (state.1.held readyKey) (stamp state) = false
  fresh : state.1.sidebarPinsInitialized = true ∨
    ∀ other, (state.1.pinKey other).isSome → other = id ∧ change.moves = false
  lands : change.pins = true → buried (state.1.held ⟨kindSidebarPins, id⟩)
    (stamp (observedBoth id (ready state))) = false

theorem sidebarPinsInitialized_eq (doc : RegistryDoc) :
    doc.sidebarPinsInitialized = (shown (doc.held readyKey)).isSome := by
  rw [RegistryDoc.sidebarPinsInitialized, RegistryDoc.overlayRow_eq_shown]
  rfl

/-- A call initializes the list unless its readiness row stays buried. -/
theorem initialized_ready {state : State} (settled : state.1.Settled) :
    (ready state).1.sidebarPinsInitialized = true ↔
      state.1.sidebarPinsInitialized = true ∨
        buried (state.1.held readyKey) (stamp state) = false := by
  unfold ready
  cases already : state.1.sidebarPinsInitialized with
  | true => simp [already]
  | false =>
      have row : (state.1.write (state.2 0) kindPreferences sidebarPinsStateId .upsert
          (fields [("initialized", .bool true)])).held readyKey = (applyOp (state.1.held readyKey)
            (upsertOp kindPreferences sidebarPinsStateId (fields [("initialized", .bool true)])
              (stamp state))).1 := by
        rw [RegistryDoc.held_write settled]
        exact Function.update_self _ _ _
      rw [if_neg (by decide), sidebarPinsInitialized_eq, row]
      cases lost : buried (state.1.held readyKey) (stamp state) with
      | true => simp [(applyOp_upsertOp_buried lost _ _ _).1, (applyOp_upsertOp_buried lost
          kindPreferences sidebarPinsStateId (fields [("initialized", .bool true)])).2]
      | false => simp [shown_upsertOp lost]

theorem listed_eq (doc : RegistryDoc) (order : IterOrder) :
    listed doc order = if doc.sidebarPinsInitialized then
      (doc.orderedSidebarPins order).map Prod.fst else [] := by
  unfold listed RegistryDoc.sidebarPreferences
  split <;> rfl

theorem mem_pinned {doc : RegistryDoc} {order : IterOrder} {id : String} :
    id ∈ (doc.orderedSidebarPins order).map Prod.fst ↔ (doc.pinKey id).isSome := by
  rw [List.mem_map, Option.isSome_iff_exists]
  constructor
  · rintro ⟨⟨name, key⟩, member, rfl⟩
    exact ⟨key, RegistryDoc.mem_orderedSidebarPins.mp member⟩
  · rintro ⟨key, found⟩
    exact ⟨(id, key), RegistryDoc.mem_orderedSidebarPins.mpr found, rfl⟩

end SidebarM

namespace RegistryDoc

theorem orderedSidebarPins_functional (doc : RegistryDoc) (order : IterOrder) :
    ∀ a ∈ doc.orderedSidebarPins order, ∀ b ∈ doc.orderedSidebarPins order, a.1 = b.1 → a = b := by
  rintro ⟨name, key⟩ first ⟨other, held⟩ second rfl
  have one := mem_orderedSidebarPins.mp first
  have two := mem_orderedSidebarPins.mp second
  rw [one] at two
  exact congrArg _ (Option.some.inj two)

/-- The order a map is read in does not show. -/
theorem orderedSidebarPins_congr {doc other : RegistryDoc} (order again : IterOrder)
    (same : ∀ id, other.pinKey id = doc.pinKey id) :
    other.orderedSidebarPins again = doc.orderedSidebarPins order :=
  orderedSidebarPins_unique (doc.orderedSidebarPins_ranked order)
    (doc.orderedSidebarPins_nodup order)
    fun id key => by rw [mem_orderedSidebarPins, same]

/-- Without a session's pin the others stay as they were. -/
theorem orderedSidebarPins_dropped {doc after : RegistryDoc} {id : String} (order later : IterOrder)
    (gone : after.pinKey id = none)
    (rest : ∀ other, other ≠ id → after.pinKey other = doc.pinKey other) :
    after.orderedSidebarPins later = others id (doc.orderedSidebarPins order) := by
  apply orderedSidebarPins_unique
  · exact (doc.orderedSidebarPins_ranked order).filter _
  · exact (doc.orderedSidebarPins_nodup order).filter _
  · intro other key
    rw [others, List.mem_filter, mem_orderedSidebarPins, bne_iff_ne]
    by_cases same : other = id
    · subst same
      simp [gone]
    · simp [rest other same, same]

/-- A new key between the neighbours of a place puts the pin there. -/
theorem orderedSidebarPins_placed {doc after : RegistryDoc} {id key : String} {index : Nat}
    (order later : IterOrder) (inside : index ≤ (others id (doc.orderedSidebarPins order)).length)
    (above : ∀ low ∈ (if index = 0 then none
      else (others id (doc.orderedSidebarPins order))[index - 1]?).map Prod.snd, low < key)
    (below : ∀ high ∈ (others id (doc.orderedSidebarPins order))[index]?.map Prod.snd, key < high)
    (listed : after.pinKey id = some key)
    (rest : ∀ other, other ≠ id → after.pinKey other = doc.pinKey other) :
    after.orderedSidebarPins later =
      (others id (doc.orderedSidebarPins order)).insertIdx index (id, key) := by
  have absent : (id, key) ∉ others id (doc.orderedSidebarPins order) := fun member =>
    not_mem_others (List.mem_map.mpr ⟨(id, key), member, rfl⟩)
  apply orderedSidebarPins_unique
  · apply Ranked.pairwise_insertIdx ((doc.orderedSidebarPins_ranked order).filter _) inside
    · intro position isHere left found
      apply above
      rw [if_neg (by omega), show index - 1 = position by omega]
      exact Option.mem_map_of_mem _ found
    · intro right found
      exact below _ (Option.mem_map_of_mem _ found)
  · have perm := List.perm_insertIdx (id, key) (others id (doc.orderedSidebarPins order)) inside
    rw [perm.nodup_iff, List.nodup_cons]
    exact ⟨absent, (doc.orderedSidebarPins_nodup order).filter _⟩
  · intro other held
    rw [List.mem_insertIdx inside, others, List.mem_filter, mem_orderedSidebarPins, bne_iff_ne]
    by_cases same : other = id
    · subst same
      simp [listed, eq_comm]
    · simp [rest other same, same]

end RegistryDoc

namespace SidebarM

/-- The list afterwards is the projection of the list before. -/
def Projected (order later : IterOrder) (change : SidebarPinChange) (before after : State) : Prop :=
  (after.1.sidebarPreferences later).map (·.pinnedSessionIds) =
    some (change.project (listed before.1 order))

theorem projected_iff {order later : IterOrder} {change : SidebarPinChange} {before after : State}
    (settled : before.1.Settled)
    (readiness : after.1.held readyKey = (ready before).1.held readyKey) :
    Projected order later change before after ↔
      (before.1.sidebarPinsInitialized = true ∨
        buried (before.1.held readyKey) (stamp before) = false) ∧
      (after.1.orderedSidebarPins later).map Prod.fst =
        change.project (listed before.1 order) := by
  have initialized : after.1.sidebarPinsInitialized = (ready before).1.sidebarPinsInitialized := by
    rw [sidebarPinsInitialized_eq, readiness, ← sidebarPinsInitialized_eq]
  rw [← initialized_ready settled, ← initialized, Projected, RegistryDoc.sidebarPreferences]
  cases after.1.sidebarPinsInitialized with
  | true => simp
  | false => simp

/-- The rows of the call are those before it, the readiness row apart. -/
theorem pinKey_opened {before : State} (settled : before.1.Settled) (id other : String) :
    (observedBoth id (ready before)).1.pinKey other = before.1.pinKey other := by
  apply RegistryDoc.pinKey_congr
  intro kind notReady
  rw [held_observedBoth, held_ready settled]
  exact fun same => notReady (congrArg RowKey.kind same)

theorem readyKey_ne (id : String) : ∀ kind, kind ≠ kindPreferences → readyKey ≠ ⟨kind, id⟩ :=
  fun _ other same => other (congrArg RowKey.kind same).symm

/-- Another session's rows. -/
theorem rowKey_ne {other id kind : String} (apart : other ≠ id) :
    ∀ held, held ≠ kindPreferences → (⟨kind, other⟩ : RowKey) ≠ ⟨held, id⟩ :=
  fun _ _ same => apart (congrArg RowKey.id same)

theorem opened_of_fit {latest : Int} {id : String} {before : State} (fit : Fit latest 4 before)
    (clocked : Clocked latest before.1 id) :
    Opened latest 3 id (observedBoth id (ready before)) := by
  refine fit.ready.opened (clocked.congr fun kind notReady => ?_)
  exact held_ready fit.settled fun same => notReady (congrArg RowKey.kind same)

theorem unpin_projected_iff {latest : Int} {order : IterOrder} {id : String} {before after : State}
    (fit : Fit latest 4 before) (clocked : Clocked latest before.1 id)
    (ran : Runs (changeSidebarPin order (.unpin id)) before () after) (later : IterOrder) :
    Projected order later (.unpin id) before after ↔ Unobstructed (.unpin id) id before := by
  have opened := opened_of_fit fit clocked
  have isAfter := runs_unpin ran
  generalize (listed before.1 order).contains id = isListed at isAfter
  have gone : after.1.pinKey id = none := isAfter ▸ pinKey_unpinned opened isListed
  have rest : ∀ other, other ≠ id → after.1.pinKey other = before.1.pinKey other := by
    intro other apart
    rw [← pinKey_opened fit.settled id, isAfter]
    exact RegistryDoc.pinKey_congr fun kind _ =>
      held_unpinned_of_ne opened.fit.settled isListed (rowKey_ne apart)
  have readiness : after.1.held readyKey = (ready before).1.held readyKey := by
    rw [isAfter, held_unpinned_of_ne opened.fit.settled isListed (readyKey_ne id),
      held_observedBoth]
  rw [projected_iff fit.settled readiness,
    RegistryDoc.orderedSidebarPins_dropped order later gone rest]
  have projection : (SidebarPinChange.unpin id).project (listed before.1 order) =
      (listed before.1 order).filter (· != id) := rfl
  rw [projection, listed_eq]
  cases already : before.1.sidebarPinsInitialized with
  | true =>
      rw [if_pos rfl, map_others]
      exact ⟨fun ⟨readies, _⟩ => ⟨.inl already, .inl already, by rintro ⟨⟩⟩,
        fun _ => ⟨.inl rfl, rfl⟩⟩
  | false =>
      rw [if_neg (by decide), List.filter_nil, List.map_eq_nil_iff]
      constructor
      · rintro ⟨readies, empty⟩
        refine ⟨already ▸ readies, .inr fun other isPin => ?_, by rintro ⟨⟩⟩
        by_contra apart
        have other_ne : other ≠ id := fun same => apart ⟨same, rfl⟩
        obtain ⟨key, found⟩ := Option.isSome_iff_exists.mp isPin
        have member : (other, key) ∈ others id (before.1.orderedSidebarPins order) :=
          List.mem_filter.mpr ⟨RegistryDoc.mem_orderedSidebarPins.mpr found, by simpa using other_ne⟩
        rw [empty] at member
        exact List.not_mem_nil member
      · rintro ⟨readies, fresh, _⟩
        refine ⟨already ▸ readies, List.eq_nil_iff_forall_not_mem.mpr ?_⟩
        rintro ⟨other, key⟩ member
        obtain ⟨isPin, apart⟩ := List.mem_filter.mp member
        rw [RegistryDoc.mem_orderedSidebarPins] at isPin
        rcases fresh with initialized | only
        · rw [already] at initialized
          cases initialized
        · exact absurd (only other (by rw [isPin]; rfl)).1 (by simpa using apart)

/-- The key a call makes lies between the pins around the projected place. -/
theorem between_neighbours {doc : RegistryDoc} {order : IterOrder} {id : String}
    {left right : Option String} {next : List String} {nonce key : String}
    (placing : next = placePin id left right
      (((doc.orderedSidebarPins order).map Prod.fst).filter (· != id)))
    (made : pinOrderKeyBetween
      ((if next.findIdx (· == id) = 0 then none else next[next.findIdx (· == id) - 1]?).bind
        fun (id : String) => ((doc.orderedSidebarPins order).find? (·.1 == id)).map Prod.snd)
      (next[next.findIdx (· == id) + 1]?.bind
        fun (id : String) => ((doc.orderedSidebarPins order).find? (·.1 == id)).map Prod.snd)
      nonce = .ok key) :
    ∃ index ≤ (others id (doc.orderedSidebarPins order)).length,
      next = ((others id (doc.orderedSidebarPins order)).map Prod.fst).insertIdx index id ∧
      (∀ low ∈ (if index = 0 then none
        else (others id (doc.orderedSidebarPins order))[index - 1]?).map Prod.snd, low < key) ∧
      ∀ high ∈ (others id (doc.orderedSidebarPins order))[index]?.map Prod.snd, key < high := by
  rw [map_others] at placing
  obtain ⟨index, inside, isNext⟩ := placePin_eq id left right
    ((others id (doc.orderedSidebarPins order)).map Prod.fst)
  rw [List.length_map] at inside
  rw [isNext] at placing
  subst placing
  rw [findIdx_placed inside] at made
  obtain ⟨lower, upper⟩ := @neighbours_placed (doc.orderedSidebarPins order) id index
    (doc.orderedSidebarPins_functional order)
  obtain ⟨_, above, below⟩ := pinOrderKeyBetween_spec made
  refine ⟨index, inside, rfl, ?_, ?_⟩
  · rw [← lower]
    exact above
  · rw [← upper]
    exact below

theorem valid_of_made {lower upper : Option String} {nonce key : String}
    (made : pinOrderKeyBetween lower upper nonce = .ok key) : validPinOrderKey key = true :=
  (pinOrderKeyBetween_spec made).1

/-- A placed pin stands in the list where its change projects it. -/
theorem placed_projects {before mid : State} {order later : IterOrder} {id key : String}
    {left right : Option String} {next : List String} {pins : Bool} {nonce : String}
    (settled : before.1.Settled) (isMid : mid = observedBoth id (ready before))
    (listed : (placed id pins key mid).1.pinKey id = some key)
    (placing : next = placePin id left right
      (((before.1.orderedSidebarPins order).map Prod.fst).filter (· != id)))
    (made : pinOrderKeyBetween
      ((if next.findIdx (· == id) = 0 then none else next[next.findIdx (· == id) - 1]?).bind
        fun (id : String) => ((mid.1.orderedSidebarPins order).find? (·.1 == id)).map Prod.snd)
      (next[next.findIdx (· == id) + 1]?.bind
        fun (id : String) => ((mid.1.orderedSidebarPins order).find? (·.1 == id)).map Prod.snd)
      nonce = .ok key) :
    ((placed id pins key mid).1.orderedSidebarPins later).map Prod.fst = next := by
  have same : mid.1.orderedSidebarPins order = before.1.orderedSidebarPins order :=
    RegistryDoc.orderedSidebarPins_congr order order fun other => isMid ▸ pinKey_opened settled id other
  have midSettled : mid.1.Settled := by
    rw [isMid]
    refine settled_observedBoth ?_ id
    unfold ready
    split
    · exact settled
    · exact RegistryDoc.settled_write settled _ _ _ _ _
  rw [← same] at placing
  obtain ⟨index, inside, isNext, above, below⟩ := between_neighbours placing made
  have rest : ∀ other, other ≠ id → (placed id pins key mid).1.pinKey other = mid.1.pinKey other :=
    fun other apart => RegistryDoc.pinKey_congr fun kind _ =>
      held_placed_of_ne midSettled pins key (rowKey_ne apart)
  rw [RegistryDoc.orderedSidebarPins_placed order later inside above below listed rest, isNext,
    List.map_insertIdx]

theorem shown_of_pinKey {doc : RegistryDoc} {id : String} (isPin : (doc.pinKey id).isSome)
    (hlc : Hlc) : buried (doc.held ⟨kindSidebarPins, id⟩) hlc = false := by
  cases isShown : shown (doc.held ⟨kindSidebarPins, id⟩) with
  | none =>
      have blank : ∀ field, doc.cell kindSidebarPins id field = .blank := by
        intro field
        rw [RegistryDoc.cell, RegistryDoc.overlayRow_eq_shown, isShown]
        rfl
      unfold RegistryDoc.pinKey at isPin
      rw [blank "orderKey"] at isPin
      split at isPin <;> cases isPin
  | some row => exact not_buried_of_shown isShown hlc

theorem held_readyKey_placed {before mid : State} {id key : String} {pins : Bool}
    (settled : mid.1.Settled) (isMid : mid = observedBoth id (ready before)) :
    (placed id pins key mid).1.held readyKey = (ready before).1.held readyKey := by
  rw [held_placed_of_ne settled pins key (readyKey_ne id), isMid, held_observedBoth]

theorem move_projected_iff {latest : Int} {order : IterOrder} {id : String}
    {left right : Option String} {before after : State} (fit : Fit latest 4 before)
    (clocked : Clocked latest before.1 id)
    (ran : Runs (changeSidebarPin order (.move id left right)) before () after)
    (later : IterOrder) :
    Projected order later (.move id left right) before after ↔
      Unobstructed (.move id left right) id before := by
  have opened := opened_of_fit fit clocked
  have outcome := runs_move ran
  cases isListed : (listed before.1 order).contains id with
  | true =>
      rw [isListed, if_pos rfl] at outcome
      obtain ⟨key, made, rfl⟩ := runs_placeSidebarPin outcome
      have already : before.1.sidebarPinsInitialized = true := by
        by_contra fresh
        rw [listed_eq, if_neg fresh] at isListed
        cases isListed
      have isCurrent : listed before.1 order = (before.1.orderedSidebarPins order).map Prod.fst := by
        rw [listed_eq, if_pos already]
      have isPin : (before.1.pinKey id).isSome := by
        rw [isCurrent, List.contains_iff_mem] at isListed
        exact mem_pinned.mp isListed
      have midPin : ((observedBoth id (ready before)).1.pinKey id).isSome := by
        rw [pinKey_opened fit.settled]
        exact isPin
      have inPlace := @pinKey_placed _ _ id _ opened false key (valid_of_made made) (.inr midPin)
      rw [shown_of_pinKey midPin] at inPlace
      have placing : (SidebarPinChange.move id left right).project (listed before.1 order) =
          placePin id left right
            (((before.1.orderedSidebarPins order).map Prod.fst).filter (· != id)) := by
        rw [SidebarPinChange.project, isListed, if_pos rfl, isCurrent]
      rw [projected_iff fit.settled (held_readyKey_placed opened.fit.settled rfl),
        placed_projects fit.settled rfl inPlace placing made]
      exact ⟨fun _ => ⟨.inl already, .inl already, by rintro ⟨⟩⟩, fun _ => ⟨.inl already, rfl⟩⟩
  | false =>
      rw [isListed, if_neg (by decide)] at outcome
      subst outcome
      have same := @RegistryDoc.orderedSidebarPins_congr before.1
        (observedBoth id (ready before)).1 order later (pinKey_opened fit.settled id)
      have still : (SidebarPinChange.move id left right).project (listed before.1 order) =
          listed before.1 order := by
        rw [SidebarPinChange.project, isListed, if_neg (by decide)]
      rw [projected_iff fit.settled (by rw [held_observedBoth]), same, still, listed_eq]
      cases already : before.1.sidebarPinsInitialized with
      | true =>
          rw [if_pos rfl]
          exact ⟨fun _ => ⟨.inl already, .inl already, by rintro ⟨⟩⟩, fun _ => ⟨.inl rfl, rfl⟩⟩
      | false =>
          rw [if_neg (by decide), List.map_eq_nil_iff]
          constructor
          · rintro ⟨readies, empty⟩
            refine ⟨already ▸ readies, .inr fun other isPin => ?_, by rintro ⟨⟩⟩
            have member := (@mem_pinned _ order _).mpr isPin
            rw [empty] at member
            cases member
          · rintro ⟨readies, fresh, _⟩
            refine ⟨already ▸ readies, List.eq_nil_iff_forall_not_mem.mpr ?_⟩
            rintro ⟨other, key⟩ member
            rw [RegistryDoc.mem_orderedSidebarPins] at member
            rcases fresh with initialized | only
            · rw [already] at initialized
              cases initialized
            · have still := (only other (by rw [member]; rfl)).2
              cases still

theorem pin_projected_iff {latest : Int} {order : IterOrder} {id : String}
    {left right : Option String} {before after : State} (fit : Fit latest 4 before)
    (clocked : Clocked latest before.1 id)
    (ran : Runs (changeSidebarPin order (.pin id left right)) before () after)
    (later : IterOrder) :
    Projected order later (.pin id left right) before after ↔
      Unobstructed (.pin id left right) id before := by
  have opened := opened_of_fit fit clocked
  obtain ⟨key, made, rfl⟩ := runs_placeSidebarPin (runs_pin ran)
  have inPlace := @pinKey_placed _ _ id _ opened true key (valid_of_made made) (.inl rfl)
  have rest : ∀ other, other ≠ id →
      (placed id true key (observedBoth id (ready before))).1.pinKey other =
        before.1.pinKey other := by
    intro other apart
    rw [← pinKey_opened fit.settled id]
    exact RegistryDoc.pinKey_congr fun kind _ =>
      held_placed_of_ne opened.fit.settled true key (rowKey_ne apart)
  have row : (observedBoth id (ready before)).1.held ⟨kindSidebarPins, id⟩ =
      before.1.held ⟨kindSidebarPins, id⟩ := by
    rw [held_observedBoth, held_ready fit.settled]
    exact fun same => absurd (congrArg RowKey.kind same)
      (show ¬ kindSidebarPins = kindPreferences by decide)
  rw [row] at inPlace
  have projection : (SidebarPinChange.pin id left right).project (listed before.1 order) =
      placePin id left right ((listed before.1 order).filter (· != id)) := rfl
  have appears : id ∈ (SidebarPinChange.pin id left right).project (listed before.1 order) := by
    obtain ⟨index, inside, isPlaced⟩ :=
      placePin_eq id left right ((listed before.1 order).filter (· != id))
    rw [projection, isPlaced, List.mem_insertIdx inside]
    exact .inl rfl
  rw [projected_iff fit.settled (held_readyKey_placed opened.fit.settled rfl)]
  cases lost : buried (before.1.held ⟨kindSidebarPins, id⟩)
      (stamp (observedBoth id (ready before))) with
  | true =>
      rw [lost] at inPlace
      constructor
      · rintro ⟨_, same⟩
        rw [← same, mem_pinned, inPlace] at appears
        cases appears
      · rintro ⟨_, _, lands⟩
        rw [lands rfl] at lost
        cases lost
  | false =>
      rw [lost] at inPlace
      cases already : before.1.sidebarPinsInitialized with
      | true =>
          have isCurrent :
              listed before.1 order = (before.1.orderedSidebarPins order).map Prod.fst := by
            rw [listed_eq, if_pos already]
          have placing : (SidebarPinChange.pin id left right).project (listed before.1 order) =
              placePin id left right
                (((before.1.orderedSidebarPins order).map Prod.fst).filter (· != id)) := by
            rw [projection, isCurrent]
          rw [placed_projects fit.settled rfl inPlace placing made]
          exact ⟨fun _ => ⟨.inl already, .inl already, fun _ => lost⟩, fun _ => ⟨.inl rfl, rfl⟩⟩
      | false =>
          have alone : (SidebarPinChange.pin id left right).project (listed before.1 order) = [id] := by
            obtain ⟨index, inside, isPlaced⟩ := placePin_eq id left right []
            rw [List.length_nil, Nat.le_zero] at inside
            rw [projection, listed_eq, already, if_neg (by decide), List.filter_nil, isPlaced, inside]
            rfl
          rw [alone]
          constructor
          · rintro ⟨readies, same⟩
            refine ⟨already ▸ readies, .inr fun other isPin => ?_, fun _ => lost⟩
            by_contra apart
            have other_ne : other ≠ id := fun equal => apart ⟨equal, rfl⟩
            rw [← rest other other_ne] at isPin
            have member := (@mem_pinned _ later _).mpr isPin
            rw [same] at member
            exact other_ne (List.mem_singleton.mp member)
          · rintro ⟨readies, fresh, _⟩
            refine ⟨already ▸ readies, ?_⟩
            rw [@RegistryDoc.orderedSidebarPins_unique _ later [(id, key)]
              (List.pairwise_singleton _ _) (List.nodup_singleton _)]
            · rfl
            · intro other held
              by_cases same : other = id
              · subst same
                simp [inPlace, eq_comm]
              · rw [rest other same]
                constructor
                · intro member
                  exact absurd (congrArg Prod.fst (List.mem_singleton.mp member)) same
                · intro found
                  rcases fresh with initialized | only
                  · rw [already] at initialized
                    cases initialized
                  · exact absurd (only other (by rw [found]; rfl)).1 same

theorem runs_of_ok {call : SidebarM Unit} {before : State}
    (ok : (call.run before).1.toBool = true) : Runs call before () (call.run before).2 := by
  unfold Runs
  cases ran : call.run before with
  | mk outcome after =>
      rw [ran] at ok
      cases outcome with
      | ok value => rfl
      | error error => cases ok

/-- A registry with one chat, and the readiness row. -/
def pinnableDoc : RegistryDoc :=
  { RegistryDoc.new "dev-a" with
    authoritative := KeyedTable.putAll .empty [
      { kind := kindChats, id := "s1", seq := 1, deleted := false, delHlc := none
        fields := fields [("id", .string "s1")]
        clocks := Std.ExtTreeMap.ofList [("id", encodeHlc 900 0 "dev-a")] },
      { kind := kindPreferences, id := sidebarPinsStateId, seq := 2, deleted := false, delHlc := none
        fields := fields [("initialized", .bool true)]
        clocks := Std.ExtTreeMap.ofList [("initialized", encodeHlc 900 1 "dev-a")] }]
    serverSeq := 2 }

/-- The session's pin row is a tombstone from a device whose clock runs ahead. -/
def aheadPinDoc : RegistryDoc :=
  pinnableDoc.putAuthoritative (.tombstone kindSidebarPins "s1" (encodeHlc 9000 0 "dev-b"))

end SidebarM

end Zeron.Registry
