import Zeron.Registry.Merge

namespace Zeron.Registry

open Std Zeron.Data

/-! # One op for two

`coalesceOps a b` is one op with exactly the effect of `a` then `b` on any row
state, or nothing when no single op can express the pair.  Per-field writes
always merge; what can break exactness is existence.
-/

/-! ## The wire form of an op and its size -/

def OpKind.wireName : OpKind → String
  | .upsert => "upsert"
  | .update => "update"
  | .delete => "delete"

/-- The serialized op: absent members are skipped, not printed as `null`. -/
def RowOp.toJson (op : RowOp) : Json :=
  .object <|
    [("kind", .string op.kind), ("id", .string op.id), ("op", .string op.op.wireName)] ++
    (op.set.map fun set => ("set", Json.object set.toList)).toList ++
    [("hlc", .string op.hlc)] ++
    (op.clocks.map fun clocks =>
      ("clocks", Json.object (clocks.toList.map fun entry => (entry.1, .string entry.2)))).toList

/-- Per-op serialized budget. -/
def maxOpBytes : Nat := 16 * 1024

/-- Whether the op passes the room's size check, measured in UTF-8 bytes. -/
def fitsOpBudget (op : RowOp) : Bool := utf8Length op.toJson.render ≤ maxOpBytes

/-! ## Coalescing -/

/-- `b` writes every field `a` writes, each with a strictly newer clock. -/
def shadows (b a : RowOp) : Bool :=
  a.writes.all fun entry =>
    b.set.any (fun set => set.contains entry.1) &&
      hlcNewer (b.clockFor entry.1) (some (a.clockFor entry.1))

/-- The kind and revival clock of the merged op, when existence allows one. -/
def coalesceKind (a b : RowOp) : Option (OpKind × Hlc) :=
  match a.op, b.op with
  | .delete, _ | _, .delete => none
  | _, .update => some (a.op, a.hlc)
  | .upsert, .upsert =>
    if b.hlc ≤ a.hlc ∨ shadows b a then some (.upsert, max a.hlc b.hlc) else none
  | .update, .upsert => if shadows b a then some (.upsert, b.hlc) else none

/-- The first loop of `coalesceOps`: every write of `a` with its clock. -/
def recordWrite (a : RowOp) (writes : BTreeMap (Json × Hlc)) (entry : String × Json) :
    BTreeMap (Json × Hlc) :=
  writes.insert entry.1 (entry.2, a.clockFor entry.1)

/-- The second loop: a write of `b` replaces an older one. -/
def overwrite (b : RowOp) (writes : BTreeMap (Json × Hlc)) (entry : String × Json) :
    BTreeMap (Json × Hlc) :=
  let clock := b.clockFor entry.1
  if writes[entry.1]?.all (fun prev => hlcNewer clock (some prev.2)) then
    writes.insert entry.1 (entry.2, clock)
  else writes

/-- The last loop: only clocks differing from the op's own need an override. -/
def splitWrite (hlc : Hlc) (state : BTreeMap Json × BTreeMap Hlc)
    (entry : String × (Json × Hlc)) : BTreeMap Json × BTreeMap Hlc :=
  let (key, value, clock) := entry
  let clocks := if clock ≠ hlc then state.2.insert key clock else state.2
  (state.1.insert key value, clocks)

/-- The op both sets of writes merge into, each write keeping its original clock. -/
def mergedOp (a b : RowOp) (op : OpKind) (hlc : Hlc) : RowOp :=
  let writes := b.writes.foldl (overwrite b) (a.writes.foldl (recordWrite a) ∅)
  let (set, clocks) := writes.toList.foldl (splitWrite hlc) (∅, ∅)
  { kind := a.kind, id := a.id, op, set := some set, hlc,
    clocks := if clocks.isEmpty then none else some clocks }

def coalesceOps (a b : RowOp) : Option RowOp :=
  if a.kind ≠ b.kind ∨ a.id ≠ b.id then none
  else
    match coalesceKind a b with
    | none => none
    | some (op, hlc) =>
      let merged := mergedOp a b op hlc
      if fitsOpBudget merged then some merged else none

/-! ## The merged writes, field by field -/

/-- An op's raw write to one field: the value as sent, and its clock. -/
def RowOp.entry? (op : RowOp) (field : String) : Option (Json × Hlc) :=
  (op.set.bind (fun set => set[field]?)).map fun value => (value, op.clockFor field)

theorem RowOp.write?_eq_entry? (op : RowOp) (field : String) :
    op.write? field = (op.entry? field).map fun entry => ⟨entry.1.stored, entry.2⟩ := by
  simp only [RowOp.write?, RowOp.entry?, Option.map_map]
  rfl

/-- A loop over an op's writes, read at one field. -/
theorem RowOp.foldl_writes {σ β : Type} {step : σ → String × Json → σ}
    {observe : σ → String → β} {update : String → Json → β → β}
    (keyed : KeyedStep step observe update) (op : RowOp) (state : σ) (field : String) :
    observe (op.writes.foldl step state) field =
      match op.set.bind (fun set => set[field]?) with
      | none => observe state field
      | some value => update field value (observe state field) := by
  unfold RowOp.writes
  cases op.set with
  | none => rfl
  | some set =>
      simp only [Option.map_some, Option.getD_some, Option.bind_some]
      rw [keyed.foldl_toList set state field]
      cases set[field]? <;> rfl

theorem recordWrite_keyed (a : RowOp) :
    KeyedStep (recordWrite a) (fun writes field => writes[field]?)
      (fun field value _ => some (value, a.clockFor field)) where
  here := by simp [recordWrite]
  elsewhere := by
    intro writes key value other apart
    have differs : compare key other ≠ .eq :=
      fun same => apart (LawfulEqCmp.eq_of_compare same).symm
    simp [recordWrite, ExtTreeMap.getElem?_insert, differs]

theorem overwrite_keyed (b : RowOp) :
    KeyedStep (overwrite b) (fun writes field => writes[field]?)
      (fun field value held =>
        if held.all (fun prev => hlcNewer (b.clockFor field) (some prev.2)) then
          some (value, b.clockFor field)
        else held) where
  here := by
    intro writes key value
    simp only [overwrite]
    split <;> simp_all
  elsewhere := by
    intro writes key value other apart
    have differs : compare key other ≠ .eq :=
      fun same => apart (LawfulEqCmp.eq_of_compare same).symm
    simp only [overwrite]
    split
    · simp [ExtTreeMap.getElem?_insert, differs]
    · rfl

theorem splitWrite_keyed (hlc : Hlc) :
    KeyedStep (splitWrite hlc) (fun state field => (state.1[field]?, state.2[field]?))
      (fun _ entry held => (some entry.1, if entry.2 ≠ hlc then some entry.2 else held.2)) where
  here := by
    intro state key entry
    simp only [splitWrite]
    split <;> simp_all
  elsewhere := by
    intro state key entry other apart
    have differs : compare key other ≠ .eq :=
      fun same => apart (LawfulEqCmp.eq_of_compare same).symm
    simp only [splitWrite]
    split <;> simp [ExtTreeMap.getElem?_insert, differs]

theorem coalescedWrites_entry (a b : RowOp) (field : String) :
    ((b.writes.foldl (overwrite b) (a.writes.foldl (recordWrite a) ∅))[field]?).map
        (fun entry => (⟨entry.1.stored, entry.2⟩ : Lww.Write Hlc Json)) =
      Lww.followedBy (a.write? field) (b.write? field) := by
  have first := a.foldl_writes (recordWrite_keyed a) ∅ field
  have second := b.foldl_writes (overwrite_keyed b) (a.writes.foldl (recordWrite a) ∅) field
  rw [second, first]
  simp only [RowOp.write?]
  cases a.set.bind (fun set => set[field]?) with
  | none => cases b.set.bind (fun set => set[field]?) <;> simp [Lww.followedBy]
  | some left =>
      cases b.set.bind (fun set => set[field]?) with
      | none => simp [Lww.followedBy]
      | some right =>
          simp only [Option.all_some, Option.map_some, Lww.followedBy, Lww.Write.followedBy,
            hlcNewer_eq_newer]
          split <;> simp

/-- A merged op's writes read back with the clocks they were recorded with. -/
theorem mergedOp_write? (a b : RowOp) (op : OpKind) (hlc : Hlc) (field : String) :
    (mergedOp a b op hlc).write? field = Lww.followedBy (a.write? field) (b.write? field) := by
  rw [← coalescedWrites_entry]
  simp only [mergedOp, RowOp.write?, RowOp.clockFor, Option.bind_some]
  generalize b.writes.foldl (overwrite b) (a.writes.foldl (recordWrite a) ∅) = writes
  have split := (splitWrite_keyed hlc).foldl_toList writes (∅, ∅) field
  generalize writes.toList.foldl (splitWrite hlc) (∅, ∅) = result at split ⊢
  -- An empty override map answers like an absent one.
  have override : ((if result.2.isEmpty then none else some result.2).bind
      (fun clocks => clocks[field]?)).getD hlc = (result.2[field]?).getD hlc := by
    cases empty : result.2.isEmpty with
    | false => rfl
    | true => simp [ExtTreeMap.isEmpty_iff.mp empty]
  rw [override]
  cases found : writes[field]? with
  | none =>
      simp only [found, ExtTreeMap.getElem?_empty, Prod.mk.injEq] at split
      simp [split.1]
  | some entry =>
      simp only [found, ExtTreeMap.getElem?_empty, Prod.mk.injEq] at split
      rw [split.1, split.2]
      by_cases same : entry.2 = hlc
      · simp [same]
      · simp [same]

/-- A field both ops send with one value is sent with that value. -/
theorem mergedOp_set_of_same {a b : RowOp} {field : String}
    (same : a.set.bind (fun set => set[field]?) = b.set.bind (fun set => set[field]?))
    (op : OpKind) (hlc : Hlc) :
    (mergedOp a b op hlc).set.bind (fun set => set[field]?) =
      a.set.bind (fun set => set[field]?) := by
  have first := a.foldl_writes (recordWrite_keyed a) ∅ field
  have second := b.foldl_writes (overwrite_keyed b) (a.writes.foldl (recordWrite a) ∅) field
  simp only [mergedOp, Option.bind_some]
  generalize b.writes.foldl (overwrite b) (a.writes.foldl (recordWrite a) ∅) = writes at second ⊢
  have split := (splitWrite_keyed hlc).foldl_toList writes (∅, ∅) field
  have value := congrArg Prod.fst split
  simp only at value
  rw [value, second, first, ← same]
  cases a.set.bind (fun set => set[field]?) with
  | none => simp
  | some value =>
      simp only [Option.all_some]
      cases hlcNewer (b.clockFor field) (some (a.clockFor field)) <;> rfl

/-- What `coalesceOps` guarantees of the op it returns. -/
structure Coalesced (a b merged : RowOp) : Prop where
  sameKind : a.kind = b.kind
  sameId : a.id = b.id
  kind : merged.kind = a.kind
  id : merged.id = a.id
  existence : coalesceKind a b = some (merged.op, merged.hlc)
  writes : ∀ field, merged.write? field = Lww.followedBy (a.write? field) (b.write? field)
  set : ∀ {field : String},
    a.set.bind (fun set => set[field]?) = b.set.bind (fun set => set[field]?) →
    merged.set.bind (fun set => set[field]?) = a.set.bind (fun set => set[field]?)
  fits : fitsOpBudget merged = true

theorem coalesceOps_spec {a b merged : RowOp} (coalesced : coalesceOps a b = some merged) :
    Coalesced a b merged := by
  unfold coalesceOps at coalesced
  by_cases other : a.kind ≠ b.kind ∨ a.id ≠ b.id
  · simp [other] at coalesced
  · rw [if_neg other] at coalesced
    simp only [ne_eq, not_or, not_not] at other
    cases existence : coalesceKind a b with
    | none => simp [existence] at coalesced
    | some decided =>
        simp only [existence, Option.ite_none_right_eq_some, Option.some.injEq] at coalesced
        obtain ⟨fits, same⟩ := coalesced
        subst same
        exact ⟨other.1, other.2, rfl, rfl, existence, mergedOp_write? a b _ _,
          fun same => mergedOp_set_of_same same _ _, fits⟩

/-! ## Exactness -/

theorem RowOp.base_congr {left right : RowOp} (kind : left.kind = right.kind)
    (id : left.id = right.id) (row : Option RegistryRow) : left.base row = right.base row := by
  cases row with
  | none => simp [RowOp.base, kind, id]
  | some row => rfl

theorem Coalesced.writeOver {a b merged : RowOp} (spec : Coalesced a b merged)
    (base : RegistryRow) : merged.writeOver base = b.writeOver (a.writeOver base) := by
  refine RegistryRow.ext_cells ?_ (fun field => ?_)
  · have left := merged.writeOver_header base
    have right := (b.writeOver_header (a.writeOver base)).trans (a.writeOver_header base)
    exact ⟨left.kind.trans right.kind.symm, left.id.trans right.id.symm,
      left.seq.trans right.seq.symm, left.deleted.trans right.deleted.symm,
      left.delHlc.trans right.delHlc.symm⟩
  · rw [merged.writeOver_cell, b.writeOver_cell, a.writeOver_cell, spec.writes,
      Lww.Cell.apply_followedBy]

theorem shadows_write? {a b : RowOp} (shadowed : shadows b a = true) {field : String}
    {first : Lww.Write Hlc Json} (wrote : a.write? field = some first) :
    ∃ second, b.write? field = some second ∧ first.clock < second.clock := by
  obtain ⟨value, member, rfl⟩ := RowOp.write?_eq_some_iff.mp wrote
  have covered := List.all_eq_true.mp shadowed (field, value) member
  simp only [Bool.and_eq_true, hlcNewer_eq_newer, Lww.newer_some, decide_eq_true_eq] at covered
  obtain ⟨replacement, present⟩ := RowOp.set_contains_iff.mp covered.1
  exact ⟨_, RowOp.write?_eq_some_iff.mpr ⟨replacement, present, rfl⟩, covered.2⟩

/-- Whatever `a` left, a shadowing `b` replaces. -/
theorem Coalesced.writeOver_of_shadows {a b merged : RowOp} (spec : Coalesced a b merged)
    (shadowed : shadows b a = true) (base : RegistryRow) :
    merged.writeOver base = b.writeOver base := by
  refine RegistryRow.ext_cells ?_ (fun field => ?_)
  · exact (merged.writeOver_header base).trans (b.writeOver_header base).symm
  · rw [merged.writeOver_cell, b.writeOver_cell, spec.writes]
    cases wrote : a.write? field with
    | none => rfl
    | some first =>
        obtain ⟨second, replaces, later⟩ := shadows_write? shadowed wrote
        simp [replaces, Lww.followedBy, Lww.Write.followedBy, later]

/-- A pair that merges decides existence like one op: where `a` lands so does
the merged op, and where `a` does not, the merged op lands exactly where `b`
does and then `b` shadows `a`. -/
theorem Coalesced.lands {a b merged : RowOp} (spec : Coalesced a b merged)
    (row : Option RegistryRow) :
    a.op ≠ .delete ∧ b.op ≠ .delete ∧ merged.op ≠ .delete ∧
    (a.lands row = true → merged.lands row = true) ∧
    (a.lands row = false → merged.lands row = b.lands row ∧
      (b.lands row = true → shadows b a = true)) := by
  have existence := spec.existence
  unfold coalesceKind at existence
  cases first : a.op with
  | delete => simp [first] at existence
  | update =>
      cases second : b.op with
      | delete => simp [first, second] at existence
      | update =>
          simp only [first, second, Option.some.injEq, Prod.mk.injEq] at existence
          obtain ⟨op, hlc⟩ := existence
          refine ⟨by simp, by simp, by simp [← op], ?_, ?_⟩
          · cases row <;> simp [RowOp.lands, first, ← op]
          · cases row with
            | none => simp [RowOp.lands, second, ← op]
            | some row => cases gone : row.deleted <;> simp [RowOp.lands, first, second, ← op, gone]
      | upsert =>
          simp only [first, second, Option.ite_none_right_eq_some, Option.some.injEq,
            Prod.mk.injEq] at existence
          obtain ⟨shadowed, op, hlc⟩ := existence
          refine ⟨by simp, by simp, by simp [← op], ?_, ?_⟩
          · cases row <;> simp [RowOp.lands, first, ← op, ← hlc]
            intro live
            simp [live]
          · exact fun _ => ⟨by cases row <;> simp [RowOp.lands, second, ← op, ← hlc],
              fun _ => shadowed⟩
  | upsert =>
      cases second : b.op with
      | delete => simp [first, second] at existence
      | update =>
          simp only [first, second, Option.some.injEq, Prod.mk.injEq] at existence
          obtain ⟨op, hlc⟩ := existence
          refine ⟨by simp, by simp, by simp [← op], ?_, ?_⟩
          · cases row <;> simp [RowOp.lands, first, ← op, ← hlc]
          · cases row with
            | none => simp [RowOp.lands, first]
            | some row => cases gone : row.deleted <;> simp [RowOp.lands, first, second, ← op, ← hlc, gone]
      | upsert =>
          simp only [first, second, Option.ite_none_right_eq_some, Option.some.injEq,
            Prod.mk.injEq] at existence
          obtain ⟨covers, op, hlc⟩ := existence
          refine ⟨by simp, by simp, by simp [← op], ?_, ?_⟩
          · cases row with
            | none => simp [RowOp.lands, ← op]
            | some row =>
                cases gone : row.deleted with
                | false => simp [RowOp.lands, ← op, gone]
                | true =>
                    simp only [RowOp.lands, gone, if_true, first, ← op, ← hlc, decide_true,
                      Bool.true_and, hlcNewer_eq_newer]
                    exact fun newer => Lww.newer_trans newer (le_max_left _ _)
          · cases row with
            | none => simp [RowOp.lands, first]
            | some row =>
                cases gone : row.deleted with
                | false => simp [RowOp.lands, first, gone]
                | true =>
                    simp only [RowOp.lands, gone, if_true, first, second, ← op, ← hlc,
                      decide_true, Bool.true_and, hlcNewer_eq_newer]
                    intro loses
                    rcases covers with older | shadowed
                    · have bothLose : Lww.newer b.hlc row.delHlc = false := by
                        by_contra wins
                        simp only [Bool.not_eq_false] at wins
                        rw [Lww.newer_trans wins older] at loses
                        cases loses
                      simp [max_eq_left older, loses, bothLose]
                    · refine ⟨?_, fun _ => shadowed⟩
                      rcases le_total a.hlc b.hlc with below | above
                      · rw [max_eq_right below]
                      · rw [max_eq_left above, loses]
                        by_contra wins
                        simp only [Bool.false_eq, Bool.not_eq_false] at wins
                        rw [Lww.newer_trans wins above] at loses
                        cases loses

theorem RowOp.lands_of_live {op : RowOp} {row : RegistryRow} (writes : op.op ≠ .delete)
    (live : row.deleted = false) : op.lands (some row) = true := by
  simp [RowOp.lands, live, writes]

theorem RowOp.buries_of_write {op : RowOp} (writes : op.op ≠ .delete)
    (row : Option RegistryRow) : op.buries row = false := by
  cases row <;> simp [RowOp.buries, writes]

theorem RowOp.base_of_live {op : RowOp} {row : RegistryRow} (live : row.deleted = false) :
    op.base (some row) = row := by
  simp [RowOp.base, live]

theorem Coalesced.exact {a b merged : RowOp} (spec : Coalesced a b merged)
    (row : Option RegistryRow) :
    (applyOp row merged).1 = (applyOp (applyOp row a).1 b).1 := by
  obtain ⟨aWrites, bWrites, mergedWrites, follows, otherwise⟩ := spec.lands row
  cases landsA : a.lands row with
  | true =>
      have live : (a.writeOver (a.base row)).deleted = false :=
        (a.writeOver_header _).deleted.trans (a.base_deleted row)
      rw [applyOp_of_lands landsA, applyOp_of_lands (RowOp.lands_of_live bWrites live),
        applyOp_of_lands (follows landsA), RowOp.base_of_live live,
        RowOp.base_congr spec.kind spec.id, spec.writeOver]
  | false =>
      obtain ⟨together, shadowed⟩ := otherwise landsA
      rw [applyOp_of_inert landsA (RowOp.buries_of_write aWrites row)]
      cases landsB : b.lands row with
      | true =>
          rw [applyOp_of_lands landsB, applyOp_of_lands (together.trans landsB),
            RowOp.base_congr (spec.kind.trans spec.sameKind) (spec.id.trans spec.sameId),
            spec.writeOver_of_shadows (shadowed landsB)]
      | false =>
          rw [applyOp_of_inert landsB (RowOp.buries_of_write bWrites row),
            applyOp_of_inert (together.trans landsB) (RowOp.buries_of_write mergedWrites row)]

/-- A coalesced op stands for its pair on every row state: missing, live or
tombstoned, whatever the row's fields and clocks. -/
theorem coalesceOps_exact {a b merged : RowOp} (coalesced : coalesceOps a b = some merged)
    (row : Option RegistryRow) :
    (applyOp row merged).1 = (applyOp (applyOp row a).1 b).1 :=
  (coalesceOps_spec coalesced).exact row

/-- A chat created and then renamed, before either op was pushed. -/
def createThenRename : RowOp × RowOp :=
  ({ kind := "chats", id := "chat-1", op := .upsert, hlc := encodeHlc 1000 0 "dev-a",
     set := some (fields [("title", .string "hello"), ("archived", .bool false)]),
     clocks := none },
   { kind := "chats", id := "chat-1", op := .update, hlc := encodeHlc 2000 0 "dev-a",
     set := some (fields [("title", .string "renamed"), ("cwd", .null)]), clocks := none })

theorem coalesceOps_exact_createThenRename :
    ∃ merged, coalesceOps createThenRename.1 createThenRename.2 = some merged ∧
      (applyOp none merged).1 =
        (applyOp (applyOp none createThenRename.1).1 createThenRename.2).1 := by
  have coalesces : (coalesceOps createThenRename.1 createThenRename.2).isSome = true := by
    decide +kernel
  exact ⟨_, (Option.some_get coalesces).symm,
    coalesceOps_exact (Option.some_get coalesces).symm none⟩

end Zeron.Registry
