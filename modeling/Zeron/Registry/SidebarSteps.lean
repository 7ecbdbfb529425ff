import Zeron.Registry.Stamps

namespace Zeron.Registry

open Zeron.Data
open RegistryDoc (shown)

/-! # What the sidebar's steps do

Every step of a sidebar change observes a row, issues a clock, or writes one row.
Rows are followed as a table of their own, tombstones included: an observation leaves
it as it is, and a write replaces the one row it is for.
-/

/-! ## Successful runs -/

namespace SidebarM

/-- The replica and the readings still to be taken. -/
abbrev State := RegistryDoc × (Nat → Nat → Int)

/-- The call succeeds with a value, and leaves this state. -/
def Runs {α : Type} (call : SidebarM α) (before : State) (value : α) (after : State) : Prop :=
  call.run before = (.ok value, after)

theorem runs_pure {α : Type} {value result : α} {before after : State} :
    Runs (pure value : SidebarM α) before result after ↔ value = result ∧ before = after := by
  constructor
  · rintro ⟨⟩
    exact ⟨rfl, rfl⟩
  · rintro ⟨rfl, rfl⟩
    rfl

theorem runs_bind {α β : Type} {call : SidebarM α} {next : α → SidebarM β} {before after : State}
    {result : β} : Runs (call >>= next) before result after ↔
      ∃ value mid, Runs call before value mid ∧ Runs (next value) mid result after := by
  have unfolded : (call >>= next).run before =
      match call.run before with
      | (.ok value, mid) => (next value).run mid
      | (.error error, mid) => (.error error, mid) := by
    change (ExceptT.bind call next).run before = _
    simp only [ExceptT.run, ExceptT.bind, ExceptT.mk, bind, StateT.bind]
    cases call before with
    | mk outcome mid => cases outcome <;> rfl
  unfold Runs
  rw [unfolded]
  cases ran : call.run before with
  | mk outcome mid =>
      cases outcome with
      | ok value =>
          constructor
          · exact fun rest => ⟨value, mid, rfl, rest⟩
          · rintro ⟨other, state, same, rest⟩
            cases same
            exact rest
      | error error =>
          constructor
          · intro failed
            cases failed
          · rintro ⟨other, state, same, rest⟩
            cases same

theorem not_runs_throw {α : Type} {error : String} {before after : State} {value : α} :
    ¬ Runs (throw error : SidebarM α) before value after := by
  intro ran
  cases ran

/-- A check that fails ends the call. -/
theorem runs_check {α : Type} {test : Prop} [Decidable test] {error : String} {rest : SidebarM α}
    {before after : State} {value : α}
    (ran : Runs (if test then throw error >>= fun (_ : PUnit) => rest else rest) before value after) :
    ¬ test ∧ Runs rest before value after := by
  by_cases failed : test
  · rw [if_pos failed, runs_bind] at ran
    obtain ⟨_, _, thrown, _⟩ := ran
    exact (not_runs_throw thrown).elim
  · rw [if_neg failed] at ran
    exact ⟨failed, ran⟩

theorem runs_doc {before after : State} {value : RegistryDoc} :
    Runs doc before value after ↔ value = before.1 ∧ after = before := by
  constructor
  · rintro ⟨⟩
    exact ⟨rfl, rfl⟩
  · rintro ⟨rfl, rfl⟩
    rfl

theorem runs_adjust {step : RegistryDoc → RegistryDoc} {before after : State} {value : Unit} :
    Runs (adjust step) before value after ↔ after = (step before.1, before.2) := by
  constructor
  · rintro ⟨⟩
    rfl
  · rintro rfl
    rfl

/-- The next run of readings. -/
def later (now : Nat → Nat → Int) : Nat → Nat → Int := fun index => now (index + 1)

theorem runs_write {kind id : String} {op : OpKind} {set : BTreeMap Json} {before after : State}
    {value : Unit} : Runs (write kind id op set) before value after ↔
      after = (before.1.write (before.2 0) kind id op set, later before.2) := by
  constructor
  · rintro ⟨⟩
    rfl
  · rintro rfl
    rfl

theorem runs_enqueueOps {ops : List RowOp} {before after : State} {value : Unit} :
    Runs (enqueueOps ops) before value after ↔
      after = (before.1.enqueueOps (before.2 0) ops, later before.2) := by
  constructor
  · rintro ⟨⟩
    rfl
  · rintro rfl
    rfl

theorem runs_nextHlc {before after : State} {hlc : Hlc} :
    Runs nextHlc before hlc after ↔
      hlc = (before.1.nextHlc (before.2 0 0)).1 ∧
        after = ((before.1.nextHlc (before.2 0 0)).2, later before.2) := by
  constructor
  · rintro ⟨⟩
    exact ⟨rfl, rfl⟩
  · rintro ⟨rfl, rfl⟩
    rfl

theorem runs_observe {kind id : String} {before after : State} {value : Unit} :
    Runs (observeSidebarRow kind id) before value after ↔
      after = (before.1.observeSidebarRow kind id, before.2) := runs_adjust

/-! ## The steps as functions of the state -/

/-- `initializeSidebarPins`. -/
def ready (state : State) : State :=
  if state.1.sidebarPinsInitialized then state
  else (state.1.write (state.2 0) kindPreferences sidebarPinsStateId .upsert
    (fields [("initialized", .bool true)]), later state.2)

def observed (kind id : String) (state : State) : State :=
  (state.1.observeSidebarRow kind id, state.2)

/-- Both rows of a session. -/
def observedBoth (id : String) (state : State) : State :=
  observed kindSidebarPins id (observed RegistryDoc.locationsKind id state)

def written (kind id : String) (set : BTreeMap Json) (state : State) : State :=
  (state.1.write (state.2 0) kind id .upsert set, later state.2)

/-- `writeSidebarLocation`. -/
def located (id location : String) (state : State) : State :=
  written RegistryDoc.locationsKind id (fields [("location", .string location)])
    (observedBoth id state)

/-- The clock the next call of the source would answer with. -/
def stamp (state : State) : Hlc := (state.1.nextHlc (state.2 0 0)).1

theorem runs_ready {before after : State} {value : Unit} :
    Runs initializeSidebarPins before value after ↔ after = ready before := by
  unfold initializeSidebarPins ready
  simp only [runs_bind, runs_doc]
  constructor
  · rintro ⟨doc, mid, ⟨rfl, rfl⟩, rest⟩
    cases initialized : mid.1.sidebarPinsInitialized with
    | true =>
        rw [initialized] at rest
        exact (runs_pure.mp rest).2.symm
    | false =>
        rw [initialized] at rest
        exact runs_write.mp rest
  · rintro rfl
    refine ⟨_, _, ⟨rfl, rfl⟩, ?_⟩
    cases initialized : before.1.sidebarPinsInitialized with
    | true => exact runs_pure.mpr ⟨rfl, rfl⟩
    | false => exact runs_write.mpr rfl

theorem runs_located {id location : String} {before after : State} {value : Unit} :
    Runs (writeSidebarLocation id location) before value after ↔
      after = located id location before := by
  unfold writeSidebarLocation
  simp only [runs_bind, runs_observe, runs_write]
  constructor
  · rintro ⟨_, _, rfl, _, _, rfl, rfl⟩
    rfl
  · rintro rfl
    exact ⟨(), _, rfl, (), _, rfl, rfl⟩

end SidebarM

/-! ## Rows under one write -/

theorem getElem?_insert_field (set : BTreeMap Json) (name : String) (value : Json)
    (field : String) :
    (set.insert name value)[field]? = if name = field then some value else set[field]? := by
  rw [Std.ExtTreeMap.getElem?_insert]
  by_cases same : name = field
  · subst same
    rw [if_pos rfl, if_pos Std.ReflCmp.compare_self]
  · rw [if_neg same, if_neg fun equal => same (Std.LawfulEqCmp.eq_of_compare equal)]

theorem getElem?_fields_one (name : String) (value : Json) (field : String) :
    (fields [(name, value)])[field]? = if name = field then some value else none := by
  rw [fields, Std.ExtTreeMap.ofList_singleton, getElem?_insert_field]
  rfl

theorem getElem?_fields_two (first second : String) (one two : Json) (field : String) :
    (fields [(first, one), (second, two)])[field]? =
      if second = field then some two else if first = field then some one else none := by
  rw [fields, Std.ExtTreeMap.ofList_cons, Std.ExtTreeMap.insertMany_list_singleton,
    getElem?_insert_field, getElem?_insert_field]
  rfl

/-- The upsert of a sidebar write. -/
def upsertOp (kind id : String) (set : BTreeMap Json) (hlc : Hlc) : RowOp :=
  { kind, id, op := .upsert, set := some set, hlc, clocks := none }

/-- A tombstone as new as the clock: an upsert under it is lost. -/
def buried (row : Option RegistryRow) (hlc : Hlc) : Bool :=
  row.any fun held => held.deleted && !hlcNewer hlc held.delHlc

/-- A field of a row that may not be there. -/
def fieldCell (row : Option RegistryRow) (field : String) : Lww.Cell Hlc Json :=
  (row.map fun held => held.cell field).getD .blank

theorem lands_upsertOp {row : Option RegistryRow} {hlc : Hlc} (lost : buried row hlc = false)
    (kind id : String) (set : BTreeMap Json) : (upsertOp kind id set hlc).lands row = true := by
  cases row with
  | none => rfl
  | some held =>
      simp only [buried, Option.any_some, Bool.and_eq_false_iff, Bool.not_eq_false'] at lost
      cases gone : held.deleted with
      | false => simp [RowOp.lands, upsertOp, gone]
      | true =>
          rcases lost with live | newer
          · rw [gone] at live
            cases live
          · simp [RowOp.lands, upsertOp, gone, newer]

theorem shown_upsertOp {row : Option RegistryRow} {hlc : Hlc} (lost : buried row hlc = false)
    (kind id : String) (set : BTreeMap Json) :
    shown (applyOp row (upsertOp kind id set hlc)).1 =
      some ((upsertOp kind id set hlc).writeOver ((upsertOp kind id set hlc).base row)) := by
  have live : ((upsertOp kind id set hlc).writeOver ((upsertOp kind id set hlc).base row)).deleted =
      false := by rw [(RowOp.writeOver_header _ _).deleted, RowOp.base_deleted]
  rw [applyOp_of_lands (lands_upsertOp lost kind id set), shown, Option.filter_some, live]
  rfl

theorem applyOp_upsertOp_buried {row : Option RegistryRow} {hlc : Hlc}
    (lost : buried row hlc = true) (kind id : String) (set : BTreeMap Json) :
    (applyOp row (upsertOp kind id set hlc)).1 = row ∧ shown row = none := by
  cases row with
  | none => cases lost
  | some held =>
      simp only [buried, Option.any_some, Bool.and_eq_true, Bool.not_eq_true'] at lost
      refine ⟨?_, by simp [shown, lost.1]⟩
      rw [applyOp_of_inert]
      · simp [RowOp.lands, upsertOp, lost.1, lost.2]
      · simp [RowOp.buries, upsertOp]

theorem fieldCell_base (row : Option RegistryRow) (op : RowOp) (field : String) :
    (op.base row).cell field = fieldCell (shown row) field := by
  cases row with
  | none => simp [RowOp.base, RegistryRow.cell, fieldCell, shown, Lww.Cell.blank]
  | some held =>
      cases gone : held.deleted with
      | true =>
          simp [RowOp.base, RegistryRow.cell, fieldCell, shown, Lww.Cell.blank, Option.filter, gone]
      | false => simp [RowOp.base, fieldCell, shown, Option.filter, gone]

theorem write?_upsertOp (kind id : String) (set : BTreeMap Json) (hlc : Hlc) (field : String) :
    (upsertOp kind id set hlc).write? field =
      set[field]?.map fun value => ⟨value.stored, hlc⟩ := rfl

/-- A field of a row after a write: the write reaches it unless the row is buried. -/
theorem fieldCell_upsertOp (row : Option RegistryRow) (kind id : String) (set : BTreeMap Json)
    (hlc : Hlc) (field : String) :
    fieldCell (shown (applyOp row (upsertOp kind id set hlc)).1) field =
      if buried row hlc then .blank
      else (fieldCell (shown row) field).apply (set[field]?.map fun value => ⟨value.stored, hlc⟩) := by
  cases lost : buried row hlc with
  | true =>
      obtain ⟨same, hidden⟩ := applyOp_upsertOp_buried lost kind id set
      rw [same, hidden]
      rfl
  | false =>
      rw [shown_upsertOp lost]
      simp only [Bool.false_eq_true, if_false]
      rw [← fieldCell_base row (upsertOp kind id set hlc), ← write?_upsertOp kind id]
      exact RowOp.writeOver_cell _ _ _

/-- Newer than everything a row shows. -/
def Outranks (hlc : Hlc) (row : Option RegistryRow) : Prop :=
  ∀ held ∈ row, hlcNewer hlc held.maxClock = true

theorem Outranks.newer {hlc : Hlc} {row : Option RegistryRow} (outranks : Outranks hlc row)
    (field : String) : Lww.newer hlc (fieldCell row field).clock = true := by
  cases row with
  | none => rfl
  | some held =>
      rw [← hlcNewer_eq_newer]
      exact (hlcNewer_maxClock.mp (outranks held rfl)).2 field

/-- A newer write of a value sets the field. -/
theorem apply_newer {cell : Lww.Cell Hlc Json} {hlc : Hlc}
    (newer : Lww.newer hlc cell.clock = true) (value : Option Json) :
    cell.apply (some ⟨value, hlc⟩) = ⟨value, some hlc⟩ := by
  simp [Lww.Cell.write, newer]

theorem not_buried_of_shown {row : Option RegistryRow} {held : RegistryRow}
    (isShown : shown row = some held) (hlc : Hlc) : buried row hlc = false := by
  obtain ⟨same, live⟩ := Option.filter_eq_some_iff.mp isShown
  rw [same]
  simp only [buried, Option.any_some, Bool.not_eq_true'] at live ⊢
  rw [live]
  rfl

namespace RegistryDoc

theorem held_enqueueOp {doc : RegistryDoc} (settled : doc.Settled) (now : Nat → Int) (op : RowOp) :
    (doc.enqueueOps now [op]).held =
      Function.update doc.held op.key (applyOp (doc.held op.key) op).1 := by
  funext key
  rw [held_enqueueOps settled]
  by_cases mine : key = op.key
  · subst mine
    simp [rowOps, replay_cons]
  · have other : ¬ op.key = key := fun same => mine same.symm
    simp [rowOps, other, Function.update_of_ne mine]

theorem held_write {doc : RegistryDoc} (settled : doc.Settled) (now : Nat → Int) (kind id : String)
    (set : BTreeMap Json) :
    (doc.write now kind id .upsert set).held = Function.update doc.held ⟨kind, id⟩
      (applyOp (doc.held ⟨kind, id⟩) (upsertOp kind id set (doc.nextHlc (now 0)).1)).1 :=
  @held_enqueueOp (doc.nextHlc (now 0)).2 settled _ _

theorem settled_write {doc : RegistryDoc} (settled : doc.Settled) (now : Nat → Int)
    (kind id : String) (op : OpKind) (set : BTreeMap Json) :
    (doc.write now kind id op set).Settled :=
  @Settled.enqueueOps (doc.nextHlc (now 0)).2 settled _ _

end RegistryDoc

/-! ## Clocks behind the source -/

/-- A clock of the room's format the source has reached. -/
def HlcClock.Behind (clock : HlcClock) (hlc : Hlc) : Prop :=
  ∃ ms counter device, hlc = encodeHlc ms counter device ∧ 0 ≤ ms ∧ clock.Reached ms counter

theorem HlcClock.Behind.mono {before after : HlcClock} {hlc : Hlc} (behind : before.Behind hlc)
    (since : after.Since before) : after.Behind hlc := by
  obtain ⟨ms, counter, device, isHlc, start, reached⟩ := behind
  exact ⟨ms, counter, device, isHlc, start, reached.trans since⟩

/-- The row's newest clock has the room's format and is no later than `latest`. -/
def RegistryRow.ClockedBy (latest : Int) (row : RegistryRow) : Prop :=
  ∀ hlc, row.maxClock = some hlc → ∃ ms counter device, hlc = encodeHlc ms counter device ∧
    0 ≤ ms ∧ ms ≤ latest ∧ counter < HlcClock.counterLimit

/-- The source has reached everything a row shows. -/
def HlcClock.Seen (clock : HlcClock) (row : Option RegistryRow) : Prop :=
  ∀ held ∈ row, ∀ hlc, held.maxClock = some hlc → clock.Behind hlc

theorem HlcClock.Seen.mono {before after : HlcClock} {row : Option RegistryRow}
    (seen : before.Seen row) (since : after.Since before) : after.Seen row :=
  fun held isHeld hlc newest => (seen held isHeld hlc newest).mono since

namespace SidebarM

/-- A state with room for so many writes: a local-only replica queues nothing, and
neither the clock nor a reading comes near the end of the format. -/
structure Fit (latest : Int) (writes : Nat) (state : State) : Prop where
  settled : state.1.Settled
  readings : ∀ call index, state.2 call index ≤ latest
  start : 0 ≤ state.1.clock.lastMs
  room : max latest state.1.clock.lastMs +
    (writes * (state.1.pending.length + 3 + writes) : Nat) < HlcClock.msLimit

theorem Fit.step {latest : Int} {writes : Nat} {before after : State}
    (fit : Fit latest (writes + 1) before) (settled : after.1.Settled)
    (readings : ∀ call index, after.2 call index ≤ latest)
    (spends : RegistryDoc.Spends latest (before.1.pending.length + 3) 1 before.1 after.1) :
    Fit latest writes after := by
  refine ⟨settled, readings, ?_, ?_⟩
  · have start := fit.start
    have since := spends.clock.since
    unfold HlcClock.Since HlcClock.Reached at since
    omega
  · have room := fit.room
    have bounded := spends.clock.bounded
    have queued := spends.pending
    have grown : writes * (after.1.pending.length + 3 + writes) ≤
        writes * (before.1.pending.length + 1 + 3 + writes) := Nat.mul_le_mul_left _ (by omega)
    have split : (writes + 1) * (before.1.pending.length + 3 + (writes + 1)) =
        writes * (before.1.pending.length + 1 + 3 + writes) +
          (before.1.pending.length + 4 + writes) := by ring
    rw [split] at room
    omega

theorem Fit.written {latest : Int} {writes : Nat} {state : State}
    (fit : Fit latest (writes + 1) state) (kind id : String) (set : BTreeMap Json) :
    Fit latest writes (written kind id set state) :=
  fit.step (RegistryDoc.settled_write fit.settled _ _ _ _ _) (fun call => fit.readings (call + 1))
    (state.1.write_spends (fit.readings 0) _ _ _ _)

/-- The state once a clock is issued on its own. -/
def issued (state : State) : State := ((state.1.nextHlc (state.2 0 0)).2, later state.2)

/-- A clock behind the source is older than the next one. -/
theorem Fit.lt_stamp {latest : Int} {writes : Nat} {state : State} {hlc : Hlc}
    (fit : Fit latest (writes + 1) state) (behind : state.1.clock.Behind hlc) :
    hlc < stamp state := by
  obtain ⟨ms, counter, device, rfl, start, reached⟩ := behind
  refine HlcClock.next_newer reached start ?_ _ _
  have bounded := (state.1.clock.advance_runs (fit.readings 0 0)).bounded
  have room := fit.room
  have cost : 1 ≤ (writes + 1) * (state.1.pending.length + 3 + (writes + 1)) :=
    Nat.mul_pos (by omega) (by omega)
  omega

theorem Fit.outranks {latest : Int} {writes : Nat} {state : State} {row : Option RegistryRow}
    (fit : Fit latest (writes + 1) state) (seen : state.1.clock.Seen row) :
    Outranks (stamp state) row := by
  intro held isHeld
  cases newest : held.maxClock with
  | none => rfl
  | some hlc => exact decide_eq_true (fit.lt_stamp (seen held isHeld hlc newest))

theorem written_since {latest : Int} {writes : Nat} {state : State}
    (fit : Fit latest writes state) (kind id : String) (set : BTreeMap Json) :
    (written kind id set state).1.clock.Since (issued state).1.clock :=
  (@RegistryDoc.enqueueOps_spends latest (state.1.nextHlc (state.2 0 0)).2 _
    (fun index => fit.readings 0 (index + 1)) _).clock.since

/-! ## Observing -/

theorem observed_eq (kind id : String) (state : State) :
    ∃ clock : HlcClock, clock.Since state.1.clock ∧
      observed kind id state = ({ state.1 with clock }, state.2) := by
  unfold observed RegistryDoc.observeSidebarRow
  split
  · exact ⟨state.1.clock, state.1.clock.since_refl, rfl⟩
  · exact ⟨_, state.1.clock.observe_since _, rfl⟩

theorem held_observed (kind id : String) (state : State) :
    (observed kind id state).1.held = state.1.held := by
  obtain ⟨clock, _, same⟩ := observed_eq kind id state
  rw [same]
  rfl

/-- A row in range is behind the source once it is observed. -/
theorem Fit.observed {latest : Int} {writes : Nat} {state : State}
    (fit : Fit latest (writes + 1) state) {kind id : String}
    (clocked : ∀ row ∈ state.1.overlayRow kind id, row.ClockedBy latest) :
    Fit latest (writes + 1) (observed kind id state) ∧
      (observed kind id state).1.clock.Seen (state.1.overlayRow kind id) := by
  unfold SidebarM.observed RegistryDoc.observeSidebarRow
  split
  · rename_i unclocked
    refine ⟨fit, fun held isHeld hlc newest => ?_⟩
    rw [isHeld, Option.bind_some, newest] at unclocked
    cases unclocked
  · rename_i hlc isNewest
    obtain ⟨row, isRow, newest⟩ := Option.bind_eq_some_iff.mp isNewest
    obtain ⟨ms, counter, device, rfl, start, early, small⟩ := clocked row isRow hlc newest
    have room := fit.room
    have msFits : ms < HlcClock.msLimit := by omega
    refine ⟨⟨fit.settled, fit.readings, ?_, ?_⟩, fun held isHeld other itsNewest => ?_⟩
    · have since := state.1.clock.observe_since (encodeHlc ms counter device)
      have from_ := fit.start
      unfold HlcClock.Since HlcClock.Reached at since
      simp only
      omega
    · have moved : (state.1.clock.observe (encodeHlc ms counter device)).lastMs ≤
          max latest state.1.clock.lastMs := by
        rw [HlcClock.observe, clockPosition_encodeHlc device start msFits small]
        simp only
        split
        · simp only
          omega
        · exact le_max_right _ _
      simp only
      omega
    · rw [isRow] at isHeld
      cases isHeld
      rw [newest] at itsNewest
      cases itsNewest
      exact ⟨ms, counter, device, rfl, start,
        state.1.clock.observe_reached device start msFits small⟩

theorem Fit.fewer {latest : Int} {writes : Nat} {state : State}
    (fit : Fit latest (writes + 1) state) : Fit latest writes state := by
  refine ⟨fit.settled, fit.readings, fit.start, ?_⟩
  have room := fit.room
  have less : writes * (state.1.pending.length + 3 + writes) ≤
      (writes + 1) * (state.1.pending.length + 3 + (writes + 1)) :=
    Nat.mul_le_mul (by omega) (by omega)
  omega

theorem Fit.ready {latest : Int} {writes : Nat} {state : State}
    (fit : Fit latest (writes + 1) state) : Fit latest writes (ready state) := by
  unfold SidebarM.ready
  split
  · exact fit.fewer
  · exact fit.written _ _ _

theorem held_written {state : State} (settled : state.1.Settled) (kind id : String)
    (set : BTreeMap Json) : (written kind id set state).1.held =
      Function.update state.1.held ⟨kind, id⟩
        (applyOp (state.1.held ⟨kind, id⟩) (upsertOp kind id set (stamp state))).1 :=
  RegistryDoc.held_write settled _ _ _ _

/-- Only the readiness row may change on the way in. -/
theorem held_ready {state : State} (settled : state.1.Settled) {key : RowKey}
    (other : key ≠ ⟨kindPreferences, sidebarPinsStateId⟩) :
    (ready state).1.held key = state.1.held key := by
  unfold ready
  split
  · rfl
  · rw [RegistryDoc.held_write settled, Function.update_of_ne other]

theorem held_observedBoth (id : String) (state : State) :
    (observedBoth id state).1.held = state.1.held := by
  rw [observedBoth, held_observed, held_observed]

/-- The rows of a session are in range. -/
structure Clocked (latest : Int) (doc : RegistryDoc) (id : String) : Prop where
  location : ∀ row ∈ doc.overlayRow RegistryDoc.locationsKind id, row.ClockedBy latest
  pin : ∀ row ∈ doc.overlayRow kindSidebarPins id, row.ClockedBy latest

theorem Clocked.congr {latest : Int} {doc other : RegistryDoc} {id : String}
    (clocked : Clocked latest doc id) (same : ∀ kind, kind ≠ kindPreferences →
      other.held ⟨kind, id⟩ = doc.held ⟨kind, id⟩) : Clocked latest other id := by
  refine ⟨?_, ?_⟩
  · rw [RegistryDoc.overlayRow_eq_shown, same _ (by decide), ← RegistryDoc.overlayRow_eq_shown]
    exact clocked.location
  · rw [RegistryDoc.overlayRow_eq_shown, same _ (by decide), ← RegistryDoc.overlayRow_eq_shown]
    exact clocked.pin

/-- Once both rows are observed the source is past everything they show. -/
theorem Fit.observedBoth {latest : Int} {writes : Nat} {state : State} {id : String}
    (fit : Fit latest (writes + 1) state) (clocked : Clocked latest state.1 id) :
    Fit latest (writes + 1) (observedBoth id state) ∧
      (observedBoth id state).1.clock.Seen (state.1.overlayRow RegistryDoc.locationsKind id) ∧
      (observedBoth id state).1.clock.Seen (state.1.overlayRow kindSidebarPins id) := by
  obtain ⟨first, location⟩ := fit.observed clocked.location
  have same : (SidebarM.observed RegistryDoc.locationsKind id state).1.overlayRow kindSidebarPins id =
      state.1.overlayRow kindSidebarPins id := by
    rw [RegistryDoc.overlayRow_eq_shown, held_observed, ← RegistryDoc.overlayRow_eq_shown]
  obtain ⟨second, pin⟩ := first.observed (by rw [same]; exact clocked.pin)
  rw [same] at pin
  obtain ⟨clock, since, moved⟩ :=
    observed_eq kindSidebarPins id (SidebarM.observed RegistryDoc.locationsKind id state)
  refine ⟨second, ?_, pin⟩
  rw [SidebarM.observedBoth, moved]
  exact location.mono since

theorem observed_since (kind id : String) (state : State) :
    (observed kind id state).1.clock.Since state.1.clock := by
  obtain ⟨clock, since, same⟩ := observed_eq kind id state
  rw [same]
  exact since

theorem observedBoth_since (id : String) (state : State) :
    (observedBoth id state).1.clock.Since state.1.clock :=
  (observed_since _ _ _).trans (observed_since _ _ _)

/-- A session's rows are in range, and the source is past everything they show. -/
structure Opened (latest : Int) (writes : Nat) (id : String) (state : State) : Prop where
  fit : Fit latest writes state
  clocked : Clocked latest state.1 id
  location : state.1.clock.Seen (state.1.overlayRow RegistryDoc.locationsKind id)
  pin : state.1.clock.Seen (state.1.overlayRow kindSidebarPins id)

theorem Fit.opened {latest : Int} {writes : Nat} {state : State} {id : String}
    (fit : Fit latest (writes + 1) state) (clocked : Clocked latest state.1 id) :
    Opened latest (writes + 1) id (SidebarM.observedBoth id state) := by
  have same : ∀ kind, (SidebarM.observedBoth id state).1.overlayRow kind id =
      state.1.overlayRow kind id := by
    intro kind
    rw [RegistryDoc.overlayRow_eq_shown, held_observedBoth, ← RegistryDoc.overlayRow_eq_shown]
  obtain ⟨still, location, pin⟩ := fit.observedBoth clocked
  refine ⟨still, clocked.congr fun kind _ => by rw [held_observedBoth], ?_, ?_⟩
  · rw [same]
    exact location
  · rw [same]
    exact pin

theorem settled_observedBoth {state : State} (settled : state.1.Settled) (id : String) :
    (observedBoth id state).1.Settled := by
  obtain ⟨first, _, one⟩ := observed_eq RegistryDoc.locationsKind id state
  obtain ⟨second, _, two⟩ := observed_eq kindSidebarPins id
    (observed RegistryDoc.locationsKind id state)
  rw [observedBoth, two, one]
  exact settled

theorem settled_located {state : State} (settled : state.1.Settled) (id location : String) :
    (located id location state).1.Settled :=
  RegistryDoc.settled_write (settled_observedBoth settled id) _ _ _ _ _

theorem held_located {state : State} (settled : state.1.Settled) (id location : String) :
    (located id location state).1.held = Function.update state.1.held
      ⟨RegistryDoc.locationsKind, id⟩ (applyOp (state.1.held ⟨RegistryDoc.locationsKind, id⟩)
        (upsertOp RegistryDoc.locationsKind id (fields [("location", .string location)])
          (stamp (observedBoth id state)))).1 := by
  rw [located, held_written (settled_observedBoth settled id), held_observedBoth]

theorem Opened.located {latest : Int} {writes : Nat} {state : State} {id : String}
    (opened : Opened latest (writes + 1) id state) (location : String) :
    Fit latest writes (located id location state) ∧
      (SidebarM.located id location state).1.clock.Since state.1.clock := by
  have again := opened.fit.opened opened.clocked
  refine ⟨again.fit.written _ _ _, ?_⟩
  refine ((written_since again.fit _ _ _).trans ?_).trans (observedBoth_since id state)
  exact HlcClock.advance_since _ _

end SidebarM

end Zeron.Registry
