import Zeron.Edge.ClockOrder

namespace Zeron.Edge

open Zeron.Data Zeron.Registry

/-! # The client's merge and the room's

The room runs the merge over JavaScript objects and strings.  On an op it accepts
the string order makes no difference; a field named like an inherited member does,
unless the row has such a field already and the op's own clocks name it too.
-/

/-! ## What the room has accepted -/

theorem hlcRe_of_clocks {op : RowOp} (valid : Valid op) {own : BTreeMap Hlc}
    (held : op.clocks = some own) {name : String} {hlc : Hlc} (member : own[name]? = some hlc) :
    hlcRe hlc = true := by
  have entry := List.findSome?_eq_none_iff.mp valid.clocks (name, hlc)
    (by simpa [held, Std.ExtTreeMap.mem_toList_iff_getElem?_eq_some] using member)
  cases bad : hlcRe hlc with
  | true => rfl
  | false =>
      simp only [bad] at entry
      split at entry <;> cases entry

/-! ## Inherited members -/

def inheritedNames : List String :=
  ["constructor", "hasOwnProperty", "isPrototypeOf", "propertyIsEnumerable", "toLocaleString",
    "toString", "valueOf"]

theorem mem_inheritedNames {name text : String} (held : inherited name = some text) :
    name ∈ inheritedNames := by
  unfold inherited at held
  split at held
  · rename_i constructor
    simp [constructor, inheritedNames]
  · split at held
    · rename_i member
      simp only [List.contains_iff_mem] at member
      exact List.mem_cons_of_mem _ member
    · cases held

/-- Every inherited text is ASCII and starts like a function. -/
theorem inherited_text {name text : String} (held : inherited name = some text) :
    Ascii text ∧ text.toList.head? = some 'f' := by
  have all : (inheritedNames.all fun member => (inherited member).all fun text =>
      (text.toList.all fun c => decide (c.toNat < 128)) &&
        decide (text.toList.head? = some 'f')) = true := by
    rfl
  have here := List.all_eq_true.mp all name (mem_inheritedNames held)
  rw [held] at here
  simp only [Option.all_some, Bool.and_eq_true, List.all_eq_true, decide_eq_true_eq] at here
  exact here

/-- A clock starts with a digit, below the source text of every function. -/
theorem lt_inherited {hlc : Hlc} (accepted : hlcRe hlc = true) {name text : String}
    (held : inherited name = some text) : hlc < text := by
  have head := List.eq_cons_of_mem_head? (inherited_text held).2
  simp only [hlcRe, Bool.and_eq_true, decide_eq_true_eq, List.all_eq_true] at accepted
  obtain ⟨⟨⟨⟨⟨⟨⟨length, ms⟩, _⟩, _⟩, _⟩, _⟩, _⟩, _⟩ := accepted
  have order : hlc.toList < text.toList := by
    rw [head]
    cases chars : hlc.toList with
    | nil => exact List.nil_lt_cons _ _
    | cons c others =>
        have digit : c.isDigit = true := ms c (by simp [chars])
        have below : c < 'f' := by
          simp only [Char.isDigit, Bool.and_eq_true, decide_eq_true_eq] at digit
          exact lt_of_le_of_lt digit.2 (by decide)
        exact List.cons_lt_cons_iff.mpr (.inl below)
  exact order

/-! ## The order makes no difference -/

theorem ascii_clockFor {op : RowOp} (valid : Valid op) (field : String) :
    Ascii (clockFor op field) := by
  unfold clockFor
  cases own : op.clocks with
  | none => exact ascii_of_hlcRe (valid.hlc)
  | some clocks =>
      simp only [Option.bind_some, property]
      cases held : clocks[field]? with
      | some hlc => exact ascii_of_hlcRe (hlcRe_of_clocks valid own held)
      | none =>
          cases text : inherited field with
          | none => exact ascii_of_hlcRe (valid.hlc)
          | some text => exact (inherited_text ‹_›).1

theorem hlcNewerBy_ascii {a : Hlc} (ascii : Ascii a) (b : Option Hlc) :
    hlcNewerBy byCodeUnit a b = hlcNewerBy byCodePoint a b := by
  cases b with
  | none => rfl
  | some b => exact byCodeUnit_eq ascii b

/-- On an op it accepts, the room's merge is the same in either order. -/
theorem applyOpBy_byCodeUnit {op : RowOp} (valid : Valid op)
    (row : Option RegistryRow) : applyOpBy byCodeUnit row op = applyOp row op := by
  have hlc := ascii_of_hlcRe (valid.hlc)
  have turn : writeFieldBy byCodeUnit op = writeFieldBy byCodePoint op := by
    funext state entry
    simp only [writeFieldBy, hlcNewerBy_ascii (ascii_clockFor valid entry.1)]
  unfold applyOp applyOpBy
  simp only [turn, hlcNewerBy_maxClockBy_eq hlc]
  simp only [hlcNewerBy_ascii hlc]

/-! ## Reading a field both ways -/

/-- An inherited member is out of the way at this field: the row has the field's
own clock, and the op names its own or the row's beats the member's text. -/
def Shadowed (op : RowOp) (clocks : BTreeMap Hlc) (name : String) : Prop :=
  ∀ text ∈ inherited name, ∃ held ∈ clocks[name]?,
    (∀ own ∈ op.clocks, name ∈ own) ∨ ¬ text > held

/-- What the room's loop leaves as a field's clock. -/
theorem writeFieldBy_keyed (op : RowOp) :
    KeyedStep (writeFieldBy byCodePoint op) (fun state field => state.2.1[field]?)
      (fun field _ held =>
        if hlcNewer (clockFor op field) (held.or (inherited field)) then some (clockFor op field)
        else held) where
  here := by
    intro state key value
    have newer : ∀ a b, hlcNewerBy byCodePoint a b = hlcNewer a b := fun _ _ => rfl
    simp only [writeFieldBy, newer, property]
    cases hlcNewer (clockFor op key) (state.2.1[key]?.or (inherited key)) <;> simp
  elsewhere := by
    intro state key value other apart
    simp only [writeFieldBy]
    split
    · rfl
    · simp [Std.ExtTreeMap.getElem?_insert, apart.symm]

theorem sameRead_of_shadowed {op : RowOp} (valid : Valid op) {clocks : BTreeMap Hlc} {name : String}
    (shadowed : Shadowed op clocks name) : SameRead op clocks name := by
  cases member : inherited name with
  | none => exact sameRead_of_ordinary member op clocks
  | some text =>
      obtain ⟨held, isHeld, cases_⟩ := shadowed text member
      have isHeld : clocks[name]? = some held := isHeld
      have read : property clocks name = clocks[name]? := by simp [property, isHeld]
      by_cases named : ∀ own ∈ op.clocks, name ∈ own
      · have clock : clockFor op name = op.clockFor name := by
          unfold clockFor RowOp.clockFor
          cases own : op.clocks with
          | none => rfl
          | some own_ =>
              have here := named own_ own
              simp [property, Std.ExtTreeMap.getElem?_eq_some_getElem here]
        exact ⟨by rw [clock, read], fun _ => clock⟩
      · -- Both sides lose: the op's clock and the member's text are below the row's.
        have below : ¬ text > held := cases_.resolve_left named
        obtain ⟨own, isOwn, absent⟩ : ∃ own ∈ op.clocks, name ∉ own := by simpa using named
        have isOwn : op.clocks = some own := isOwn
        have absent : own[name]? = none := by simpa using absent
        have roomClock : clockFor op name = text := by simp [clockFor, isOwn, property, absent, member]
        have clientClock : op.clockFor name = op.hlc := by simp [RowOp.clockFor, isOwn, absent]
        have stale : ¬ op.hlc > held := fun beats =>
          below (lt_trans beats (lt_inherited valid.hlc member))
        constructor
        · simp [roomClock, clientClock, read, isHeld, hlcNewer, below, stale]
        · simp [clientClock, isHeld, hlcNewer, stale]

/-- Where the member shows, the two sides leave different clocks. -/
theorem clocks_ne_of_shows {op : RowOp} (valid : Valid op) {clocks : BTreeMap Hlc} {name : String}
    (shows : ¬ Shadowed op clocks name) :
    (if hlcNewer (clockFor op name) (clocks[name]?.or (inherited name)) then some (clockFor op name)
      else clocks[name]?) ≠
    if hlcNewer (op.clockFor name) clocks[name]? then some (op.clockFor name) else clocks[name]? := by
  simp only [Shadowed, not_forall] at shows
  obtain ⟨text, member, shows⟩ := shows
  have member : inherited name = some text := member
  have clientAccepted : hlcRe (op.clockFor name) = true := by
    unfold RowOp.clockFor
    cases own : op.clocks with
    | none => exact valid.hlc
    | some own_ =>
        cases held : own_[name]? with
        | none => simpa [held] using valid.hlc
        | some hlc => simpa [held] using hlcRe_of_clocks valid own held
  have clientBelow := lt_inherited clientAccepted member
  have roomClock : clockFor op name = op.clockFor name ∨ clockFor op name = text := by
    unfold clockFor RowOp.clockFor
    cases own : op.clocks with
    | none => exact .inl rfl
    | some own_ =>
        cases held : own_[name]? with
        | none => exact .inr (by simp [property, held, member])
        | some hlc => exact .inl (by simp [property, held])
  cases held : clocks[name]? with
  | none =>
      -- The client writes the field; the room's write loses to the member.
      have loses : hlcNewer (clockFor op name) (some text) = false := by
        rcases roomClock with same | same
        · rw [same]
          exact decide_eq_false (lt_asymm clientBelow)
        · rw [same]
          exact decide_eq_false (lt_irrefl text)
      rw [Option.none_or, member, loses]
      simp [hlcNewer]
  | some stored =>
      have shows : ¬ ((∀ own ∈ op.clocks, name ∈ own) ∨ ¬ text > stored) := fun either =>
        shows ⟨stored, held, either⟩
      simp only [not_or, not_not] at shows
      obtain ⟨unnamed, beats⟩ := shows
      -- The room writes the member's text; the client holds a clock below it.
      have isText : clockFor op name = text := by
        obtain ⟨own, isOwn, absent⟩ : ∃ own ∈ op.clocks, name ∉ own := by simpa using unnamed
        have isOwn : op.clocks = some own := isOwn
        have absent : own[name]? = none := by simpa using absent
        simp [clockFor, isOwn, property, absent, member]
      have wins : hlcNewer text (some stored) = true := decide_eq_true beats
      rw [isText, Option.some_or, wins, if_pos rfl]
      split
      · exact fun same => lt_irrefl _ (Option.some.inj same ▸ clientBelow)
      · exact fun same => lt_irrefl _ (Option.some.inj same ▸ beats)

/-! ## Where the merges agree -/

/-- No inherited member shows in a field the op writes. -/
def Undisturbed (row : Option RegistryRow) (op : RowOp) : Prop :=
  op.lands row = true → ∀ entry ∈ op.writes, Shadowed op (op.base row).clocks entry.1

theorem undisturbed_of_ordinary {op : RowOp} (ordinary : Ordinary op) (row : Option RegistryRow) :
    Undisturbed row op := by
  intro _ entry member text isText
  have none_ : inherited entry.1 = none := ordinary entry member
  rw [none_] at isText
  cases isText

theorem applyOp_eq_iff {op : RowOp} (valid : Valid op) (row : Option RegistryRow) :
    applyOp row op = Registry.applyOp row op ↔ Undisturbed row op := by
  constructor
  · intro same lands entry member
    by_contra shows
    apply clocks_ne_of_shows valid shows
    have room := (writeFieldBy_keyed op).foldl_of_mem (distinct_writes op) member
      ((op.base row).fields, (op.base row).clocks, startsChanged row)
    have client := congrArg Lww.Cell.clock (op.writeOver_cell (op.base row) entry.1)
    have write : op.write? entry.1 = some ⟨entry.2.stored, op.clockFor entry.1⟩ :=
      RowOp.write?_eq_some_iff.mpr ⟨entry.2, member, rfl⟩
    have rows := congrArg Prod.fst same
    rw [applyOp_landing lands, applyOp_of_lands lands, Option.some.injEq] at rows
    have clocks : (landed op row).2.1[entry.1]? = (op.writeOver (op.base row)).clocks[entry.1]? :=
      congrArg (fun held => held.clocks[entry.1]?) rows
    rw [landed, room] at clocks
    rw [clocks]
    rw [write, Lww.Cell.apply_some, Lww.Cell.write] at client
    simp only [hlcNewer_eq_newer]
    simp only [RegistryRow.cell] at client
    rw [client]
    exact apply_ite Lww.Cell.clock _ _ _
  · intro undisturbed
    exact applyOp_eq_of_sameRead fun lands entry member =>
      sameRead_of_shadowed valid (undisturbed lands entry member)

theorem rowToSeedOp_eq_iff (row : RegistryRow) :
    rowToSeedOpBy byCodeUnit row = rowToSeedOp row ↔ row.deleted = true ∨ NewestAgrees row := by
  rw [← maxClockBy_agrees_iff]
  cases gone : row.deleted with
  | true => simp [rowToSeedOpBy, rowToSeedOp, gone]
  | false =>
      simp only [rowToSeedOpBy, rowToSeedOp, gone, Bool.false_eq_true, if_false, false_or,
        RowOp.mk.injEq, true_and, and_true]
      constructor
      · intro same
        have empty : maxClockBy byCodeUnit row = none ↔ row.maxClock = none := by
          rw [byCodeUnit_eq_byRank, maxClockBy_eq_none_iff]
          exact (maxClockBy_eq_none_iff id row).symm
        cases units : maxClockBy byCodeUnit row with
        | none => exact (empty.mp units).symm
        | some most =>
            cases points : row.maxClock with
            | none => rw [empty.mpr points] at units; cases units
            | some other => simpa [units, points] using same
      · intro same
        rw [same]

end Zeron.Edge
