import Zeron.Registry.Coalesce

namespace Zeron.Edge

open Std Zeron.Data Zeron.Registry

/-! # The room's merge core

The server's own copy of the merge, written over JavaScript objects, and the
validation every op passes before it is merged.  `hlcNewer` and `maxClock` are
the client's, line for line.
-/

/-! ## Validation -/

/-- `^[-A-Za-z0-9_.:@/]{1,256}$`. -/
def idRe (text : String) : Bool :=
  text.toList ≠ [] && decide (text.toList.length ≤ 256) &&
    text.toList.all fun c => c.isAlphanum || "-_.:@/".toList.contains c

/-- `^[a-z][a-zA-Z0-9]{0,31}$`. -/
def kindRe (text : String) : Bool :=
  match text.toList with
  | [] => false
  | first :: rest => first.isLower && decide (rest.length ≤ 31) && rest.all Char.isAlphanum

/-- `^[a-zA-Z][a-zA-Z0-9]{0,63}$`. -/
def fieldRe (text : String) : Bool :=
  match text.toList with
  | [] => false
  | first :: rest => first.isAlpha && decide (rest.length ≤ 63) && rest.all Char.isAlphanum

/-- `^\d{13}-\d{6}-[A-Za-z0-9_-]{1,128}$`. -/
def hlcRe (text : String) : Bool :=
  let chars := text.toList
  let digits := fun (count : Nat) (part : List Char) =>
    decide (part.length = count) && part.all Char.isDigit
  let device := chars.drop 21
  digits 13 (chars.take 13) && chars[13]? = some '-' &&
    digits 6 ((chars.drop 14).take 6) && chars[20]? = some '-' &&
    device ≠ [] && decide (device.length ≤ 128) &&
    device.all fun c => c.isAlphanum || c = '_' || c = '-'

/-- `^[0-9a-f]*[1-9a-f]$`. -/
def orderKeyRe (text : String) : Bool :=
  let hex := fun (c : Char) => c.isDigit || ('a' ≤ c && c ≤ 'f')
  text.toList.all hex && text.toList.getLast?.any (· ≠ '0')

def validPinField : String × Json → Bool
  | ("pinned", .bool _) => true
  | ("orderKey", .string value) =>
      decide (utf16Length value.toList ≤ 8192) && orderKeyRe value
  | _ => false

/-- The check of an op's `set` member. -/
def validateSet (op : RowOp) : Option String :=
  match op.op, op.set with
  | .delete, none => none
  | .delete, some _ => some "delete carries set"
  | _, none => some "missing set"
  | _, some set =>
      set.toList.findSome? fun entry =>
        if fieldRe entry.1 then none else some ("bad field: " ++ entry.1)

def validateClocks (op : RowOp) : Option String :=
  ((op.clocks.map ExtTreeMap.toList).getD []).findSome? fun entry =>
    if !fieldRe entry.1 then some ("bad clock field: " ++ entry.1)
    else if !hlcRe entry.2 then some ("bad clock: " ++ entry.1)
    else none

def validatePin (op : RowOp) : Option String :=
  if op.kind ≠ "sidebarPins" then none
  else if op.op = .delete then some "pins use explicit membership, not row deletion"
  else if op.writes.all validPinField then none
  else some "invalid sidebar pin field"

/-- Structural validation of an op off the wire: an error text, or none.  The
size is measured in UTF-16 code units. -/
def validateOp (op : RowOp) : Option String :=
  if !kindRe op.kind then some "bad kind"
  else if !idRe op.id then some "bad id"
  else if !hlcRe op.hlc then some "bad hlc"
  else
    validateSet op <|> validateClocks op <|>
      (if utf16Length op.toJson.render > maxOpBytes then some "op too large" else none) <|>
      validatePin op

/-- Every check of `validateOp` passed. -/
structure Valid (op : RowOp) : Prop where
  kind : kindRe op.kind = true
  id : idRe op.id = true
  hlc : hlcRe op.hlc = true
  set : validateSet op = none
  clocks : validateClocks op = none
  size : utf16Length op.toJson.render ≤ maxOpBytes
  pin : validatePin op = none

theorem validateOp_eq_none_iff {op : RowOp} : validateOp op = none ↔ Valid op := by
  have chain : ∀ first second : Option String, (first <|> second) = none ↔ first = none ∧ second = none := by
    intro first second
    cases first <;> simp
  unfold validateOp
  constructor
  · intro valid
    split at valid
    · cases valid
    · split at valid
      · cases valid
      · split at valid
        · cases valid
        · simp only [chain, ite_eq_right_iff, reduceCtorEq, imp_false] at valid
          obtain ⟨set, clocks, size, pin⟩ := valid
          exact ⟨by simp_all, by simp_all, by simp_all, set, clocks, by omega, pin⟩
  · rintro ⟨kind, id, hlc, set, clocks, size, pin⟩
    simp [kind, id, hlc, set, clocks, pin, Nat.not_lt.mpr size]
/-! ## Applying one op -/

/-- The members every object inherits whose names pass `fieldRe`.  Reading one
off a record that does not hold it yields a function, which compares as its
source text. -/
def inherited (name : String) : Option String :=
  if name = "constructor" then some "function Object() \x7b [native code] \x7d"
  else if ["hasOwnProperty", "isPrototypeOf", "propertyIsEnumerable", "toLocaleString",
      "toString", "valueOf"].contains name then
    some ("function " ++ name ++ "() \x7b [native code] \x7d")
  else none

/-- `record[name]`, as a comparison sees it. -/
def property (record : BTreeMap Hlc) (name : String) : Option Hlc :=
  record[name]?.or (inherited name)

/-- `op.clocks?.[field] ?? op.hlc`. -/
def clockFor (op : RowOp) (field : String) : Hlc :=
  (op.clocks.bind fun clocks => property clocks field).getD op.hlc

/-- `a > b` on clock strings.  JavaScript compares UTF-16 code units and Rust
compares bytes, which is the order of code points. -/
abbrev Greater := Hlc → Hlc → Bool

def byCodePoint : Greater := fun a b => decide (a > b)

/-- `hlcNewer`. -/
def hlcNewerBy (greater : Greater) (a : Hlc) (b : Option Hlc) : Bool :=
  match b with
  | none => true
  | some b => greater a b

/-- `maxClock`. -/
def maxClockBy (greater : Greater) (row : RegistryRow) : Option Hlc :=
  row.clocks.toList.foldl
    (fun max entry => if max.all (fun held => greater entry.2 held) then some entry.2 else max)
    row.delHlc

/-- One turn of the field loop of `applyOp`: fields, clocks, changed. -/
def writeFieldBy (greater : Greater) (op : RowOp) (state : BTreeMap Json × BTreeMap Hlc × Bool)
    (entry : String × Json) : BTreeMap Json × BTreeMap Hlc × Bool :=
  let (fields, clocks, _) := state
  let (key, value) := entry
  let clock := clockFor op key
  if !hlcNewerBy greater clock (property clocks key) then state
  else
    (if value = .null then fields.erase key else fields.insert key value,
      clocks.insert key clock, true)

/-- Apply one op to a row, absent being `none`. -/
def applyOpBy (greater : Greater) (row : Option RegistryRow) (op : RowOp) :
    Option RegistryRow × Bool :=
  if op.op = .delete then
    match row with
    | none => (some (.tombstone op.kind op.id op.hlc), true)
    | some row =>
      if (if row.deleted then hlcNewerBy greater op.hlc row.delHlc
          else hlcNewerBy greater op.hlc (maxClockBy greater row)) then
        (some { row with deleted := true, delHlc := some op.hlc, fields := ∅, clocks := ∅ }, true)
      else (some row, false)
  else
    let base : Except (Option RegistryRow) RegistryRow :=
      match row with
      | none =>
        if op.op = .update then .error none
        else .ok { kind := op.kind, id := op.id, seq := 0, deleted := false, delHlc := none,
                   fields := ∅, clocks := ∅ }
      | some row =>
        if row.deleted then
          if op.op = .update then .error (some row)
          else if !hlcNewerBy greater op.hlc row.delHlc then .error (some row)
          else .ok { row with deleted := false, fields := ∅, clocks := ∅ }
        else .ok row
    match base with
    | .error row => (row, false)
    | .ok base =>
      let start := row.isNone || (row.any (·.deleted) && !base.deleted)
      let (fields, clocks, changed) :=
        op.writes.foldl (writeFieldBy greater op) (base.fields, base.clocks, start)
      if !changed then (some base, false)
      else (some { base with deleted := false, fields, clocks }, true)

/-- A row as a re-seed op. -/
def rowToSeedOpBy (greater : Greater) (row : RegistryRow) : RowOp :=
  if row.deleted then
    { kind := row.kind, id := row.id, op := .delete, set := none,
      hlc := row.delHlc.getD (encodeHlc 0 0 "seed"), clocks := none }
  else
    { kind := row.kind, id := row.id, op := .upsert, set := some row.fields,
      hlc := (maxClockBy greater row).getD (encodeHlc 0 0 "seed"), clocks := some row.clocks }

/-- The room's merge in the order of code points, which is its own order on
every op it accepts. -/
def applyOp : Option RegistryRow → RowOp → Option RegistryRow × Bool := applyOpBy byCodePoint

/-- The merge over the client's comparisons. -/
theorem applyOp_def (row : Option RegistryRow) (op : RowOp) :
    applyOp row op =
      if op.op = .delete then
        match row with
        | none => (some (.tombstone op.kind op.id op.hlc), true)
        | some row =>
          if (if row.deleted then hlcNewer op.hlc row.delHlc else hlcNewer op.hlc row.maxClock) then
            (some { row with deleted := true, delHlc := some op.hlc, fields := ∅, clocks := ∅ }, true)
          else (some row, false)
      else
        let base : Except (Option RegistryRow) RegistryRow :=
          match row with
          | none =>
            if op.op = .update then .error none
            else .ok { kind := op.kind, id := op.id, seq := 0, deleted := false, delHlc := none,
                       fields := ∅, clocks := ∅ }
          | some row =>
            if row.deleted then
              if op.op = .update then .error (some row)
              else if !hlcNewer op.hlc row.delHlc then .error (some row)
              else .ok { row with deleted := false, fields := ∅, clocks := ∅ }
            else .ok row
        match base with
        | .error row => (row, false)
        | .ok base =>
          let start := row.isNone || (row.any (·.deleted) && !base.deleted)
          let (fields, clocks, changed) :=
            op.writes.foldl (writeFieldBy byCodePoint op) (base.fields, base.clocks, start)
          if !changed then (some base, false)
          else (some { base with deleted := false, fields, clocks }, true) :=
  rfl

/-! ## The two merges agree -/

/-- At this field the loop reads what the client's reads: both take the write
under one clock, or neither takes it. -/
structure SameRead (op : RowOp) (clocks : BTreeMap Hlc) (name : String) : Prop where
  wins : hlcNewer (clockFor op name) (property clocks name) =
    hlcNewer (op.clockFor name) clocks[name]?
  clock : hlcNewer (op.clockFor name) clocks[name]? = true → clockFor op name = op.clockFor name

theorem SameRead.insert {op : RowOp} {clocks : BTreeMap Hlc} {name other : String}
    (same : SameRead op clocks name) (apart : other ≠ name) (hlc : Hlc) :
    SameRead op (clocks.insert other hlc) name := by
  have kept : (clocks.insert other hlc)[name]? = clocks[name]? := by
    simp [ExtTreeMap.getElem?_insert, apart]
  constructor
  · rw [property, kept]
    exact same.wins
  · rw [kept]
    exact same.clock

theorem foldl_writeField_eq (op : RowOp) (base : RegistryRow) {entries : List (String × Json)}
    (distinct : entries.Pairwise fun a b => a.1 ≠ b.1) (fields : BTreeMap Json)
    (clocks : BTreeMap Hlc) (changed : Bool)
    (same : ∀ entry ∈ entries, SameRead op clocks entry.1) :
    let ends := entries.foldl (writeFieldBy byCodePoint op) (fields, clocks, changed)
    entries.foldl (Registry.writeField op) ({ base with fields, clocks }, changed) =
      ({ base with fields := ends.1, clocks := ends.2.1 }, ends.2.2) := by
  induction entries generalizing fields clocks changed with
  | nil => rfl
  | cons entry rest ih =>
      obtain ⟨apart, restDistinct⟩ := List.pairwise_cons.mp distinct
      have here := same entry (by simp)
      have null : (entry.2 = .null) ↔ entry.2.isNull = true := by
        cases entry.2 <;> simp [Json.isNull]
      have newer : ∀ a b, hlcNewerBy byCodePoint a b = hlcNewer a b := fun _ _ => rfl
      simp only [List.foldl_cons]
      by_cases wins : hlcNewer (op.clockFor entry.1) clocks[entry.1]? = true
      · have later : ∀ other ∈ rest,
            SameRead op (clocks.insert entry.1 (op.clockFor entry.1)) other.1 := fun other member =>
          (same other (List.mem_cons_of_mem _ member)).insert (apart other member) _
        have read := here.wins.trans wins
        rw [here.clock wins] at read
        simpa [writeFieldBy, newer, Registry.writeField, here.clock wins, read, wins, null]
          using ih restDistinct _ _ true later
      · have later : ∀ other ∈ rest, SameRead op clocks other.1 := fun other member =>
          same other (List.mem_cons_of_mem _ member)
        simpa [writeFieldBy, newer, Registry.writeField, here.wins, wins]
          using ih restDistinct fields clocks changed later

/-- The flag only ever rises, and while it stays down nothing was written. -/
theorem foldl_writeFieldBy_unchanged (op : RowOp) (entries : List (String × Json))
    {state : BTreeMap Json × BTreeMap Hlc × Bool}
    (still : (entries.foldl (writeFieldBy byCodePoint op) state).2.2 = false) :
    entries.foldl (writeFieldBy byCodePoint op) state = state := by
  induction entries generalizing state with
  | nil => rfl
  | cons entry rest ih =>
      rw [List.foldl_cons] at still ⊢
      have same := ih still
      rw [same] at still ⊢
      simp only [writeFieldBy] at still ⊢
      split
      · rfl
      · rename_i wins
        simp [wins] at still

/-- The field loop over the row a landing op writes over: fields, clocks,
changed. -/
def landed (op : RowOp) (row : Option RegistryRow) : BTreeMap Json × BTreeMap Hlc × Bool :=
  op.writes.foldl (writeFieldBy byCodePoint op)
    ((op.base row).fields, (op.base row).clocks, startsChanged row)

theorem applyOp_landing {op : RowOp} {row : Option RegistryRow} (lands : op.lands row = true) :
    applyOp row op =
      (some { op.base row with fields := (landed op row).1, clocks := (landed op row).2.1 },
        (landed op row).2.2) := by
  have live := op.base_deleted row
  have unfolded : applyOp row op =
      if !(landed op row).2.2 then (some (op.base row), false)
      else (some { op.base row with
        deleted := false, fields := (landed op row).1, clocks := (landed op row).2.1 }, true) := by
    rw [applyOp_def]
    cases row with
    | none =>
        have upsert : op.op = .upsert := by simpa [RowOp.lands] using lands
        simp [upsert, landed, RowOp.base, startsChanged]
    | some row =>
        cases gone : row.deleted with
        | true =>
            simp only [RowOp.lands, gone, if_true, Bool.and_eq_true, decide_eq_true_eq] at lands
            simp [lands.1, lands.2, gone, landed, RowOp.base, startsChanged]
        | false =>
            have writes : op.op ≠ .delete := by simpa [RowOp.lands, gone] using lands
            simp [writes, gone, landed, RowOp.base, startsChanged]
  rw [unfolded]
  cases raised : (landed op row).2.2 with
  | true =>
      exact Prod.ext (congrArg some (RegistryRow.ext rfl rfl rfl live.symm rfl rfl rfl)) rfl
  | false =>
      have kept : landed op row = _ := foldl_writeFieldBy_unchanged op _ raised
      rw [kept]
      rfl

/-- An op that does not land meets no field, and the merges do the same. -/
theorem applyOp_of_misses {op : RowOp} {row : Option RegistryRow} (misses : op.lands row = false) :
    applyOp row op = Registry.applyOp row op := by
  rw [applyOp_def]
  unfold Registry.applyOp
  by_cases delete : op.op = .delete
  · cases row <;> simp [delete]
  · simp only [delete, if_false]
    cases row with
    | none =>
        have update : op.op = .update := by cases kind : op.op <;> simp_all [RowOp.lands]
        simp [update]
    | some row =>
        cases gone : row.deleted with
        | false => simp [RowOp.lands, gone, delete] at misses
        | true =>
            by_cases update : op.op = .update
            · simp [gone, update]
            · have upsert : op.op = .upsert := by cases kind : op.op <;> simp_all
              have stale : hlcNewer op.hlc row.delHlc = false := by
                simpa [RowOp.lands, gone, upsert] using misses
              simp [gone, update, stale]

theorem distinct_writes (op : RowOp) : op.writes.Pairwise fun a b => a.1 ≠ b.1 := by
  unfold RowOp.writes
  cases op.set with
  | none => exact .nil
  | some set => exact toList_keys_distinct set

/-- The merges agree where every written field is read alike. -/
theorem applyOp_eq_of_sameRead {op : RowOp} {row : Option RegistryRow}
    (same : op.lands row = true → ∀ entry ∈ op.writes, SameRead op (op.base row).clocks entry.1) :
    applyOp row op = Registry.applyOp row op := by
  cases lands : op.lands row with
  | false => exact applyOp_of_misses lands
  | true =>
      have loops := foldl_writeField_eq op (op.base row) (distinct_writes op) (op.base row).fields
        (op.base row).clocks (startsChanged row) (same lands)
      have first : (Registry.applyOp row op).1 = some (op.writeOver (op.base row)) :=
        applyOp_of_lands lands
      have row_ := foldl_writeField_fst op op.writes (op.base row) (startsChanged row) false
      have flag : (Registry.applyOp row op).2 =
          (op.writes.foldl (Registry.writeField op) (op.base row, startsChanged row)).2 := by
        rw [applyOp_eq_writeFields lands, writeFields]
        generalize op.writes.foldl (Registry.writeField op) (op.base row, startsChanged row) = ends
        obtain ⟨held, changed⟩ := ends
        cases changed <;> rfl
      simp only at loops
      rw [applyOp_landing lands]
      refine Prod.ext ?_ ?_
      · rw [first, RowOp.writeOver, ← row_, loops]
        rfl
      · rw [flag, loops]
        rfl

/-- The op writes no field named like a member every object inherits. -/
def Ordinary (op : RowOp) : Prop := ∀ entry ∈ op.writes, inherited entry.1 = none

instance (op : RowOp) : Decidable (Ordinary op) :=
  inferInstanceAs (Decidable (∀ entry ∈ op.writes, _))

theorem property_of_ordinary {name : String} (own : inherited name = none)
    (record : BTreeMap Hlc) : property record name = record[name]? := by
  simp [property, own]

theorem sameRead_of_ordinary {name : String} (own : inherited name = none) (op : RowOp)
    (clocks : BTreeMap Hlc) : SameRead op clocks name := by
  have clock : clockFor op name = op.clockFor name := by
    simp [clockFor, RowOp.clockFor, property_of_ordinary own]
  exact ⟨by rw [clock, property_of_ordinary own], fun _ => clock⟩

/-- The room merges an ordinary op exactly as the client does. -/
theorem applyOp_eq {op : RowOp} (ordinary : Ordinary op) (row : Option RegistryRow) :
    applyOp row op = Registry.applyOp row op :=
  applyOp_eq_of_sameRead fun _ entry member => sameRead_of_ordinary (ordinary entry member) op _

end Zeron.Edge
