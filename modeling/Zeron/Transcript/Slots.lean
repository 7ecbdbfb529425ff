import Zeron.Transcript.Groups

namespace Zeron.Transcript

/-! # Slots after a refresh

A refresh gives every map of the list its decode, old or new, and every new
decode a revision no slot has had.
-/

variable {κ raw value : Type} {decode : raw → Option (SessionMessageEntry value)}

/-- The slots decode the maps, in order, under revisions of their own. -/
structure SlotsOf (decode : raw → Option (SessionMessageEntry value)) (maps : List (κ × raw))
    (slots : List (Slot κ value)) (nextRev : Nat) : Prop where
  content : slots.map (fun slot => (slot.cid, slot.entry)) =
    maps.map fun item => (item.1, decode item.2)
  revs : (slots.map Slot.rawRev).Nodup
  bound : ∀ slot ∈ slots, slot.rawRev ≤ nextRev

/-- The new slots are old ones or newly decoded ones, and old ones not named stay. -/
structure Follows (dirty : List κ) (before after : List (Slot κ value)) (floor : Nat) : Prop where
  origin : ∀ slot ∈ after, slot ∈ before ∨ floor < slot.rawRev
  kept : ∀ slot ∈ before, slot.cid ∉ dirty → slot.cid ∈ after.map Slot.cid → slot ∈ after

theorem SlotsOf.cids {maps : List (κ × raw)} {slots : List (Slot κ value)} {nextRev : Nat}
    (sound : SlotsOf decode maps slots nextRev) : slots.map Slot.cid = maps.map Prod.fst := by
  have firsts := congrArg (List.map Prod.fst) sound.content
  simpa [Function.comp_def] using firsts

variable [DecidableEq κ]

theorem relist_spec {dirty : List κ} {maps : List (κ × raw)} {old : List (Slot κ value)}
    {nextRev : Nat} (distinct : (maps.map Prod.fst).Nodup) (cids : (old.map Slot.cid).Nodup)
    (revs : (old.map Slot.rawRev).Nodup)
    (bound : ∀ slot ∈ old, slot.rawRev ≤ nextRev)
    (right : ∀ slot ∈ old, slot.cid ∉ dirty → ∀ content, (slot.cid, content) ∈ maps →
      slot.entry = decode content) :
    nextRev ≤ (relist decode dirty old maps nextRev).2 ∧
      SlotsOf decode maps (relist decode dirty old maps nextRev).1
        (relist decode dirty old maps nextRev).2 ∧
      Follows dirty old (relist decode dirty old maps nextRev).1 nextRev := by
  induction maps generalizing old nextRev with
  | nil => refine ⟨le_rfl, ⟨rfl, List.nodup_nil, ?_⟩, ⟨?_, ?_⟩⟩ <;> intros <;> contradiction
  | cons item rest ih =>
      obtain ⟨cid, content⟩ := item
      obtain ⟨absent, distinct⟩ := List.nodup_cons.mp distinct
      -- the slots left for the rest of the list
      have sublist : (old.filter (·.cid ≠ cid)).Sublist old := List.filter_sublist
      have left : ∀ slot ∈ old.filter (·.cid ≠ cid), slot.cid ∉ dirty →
          ∀ content, (slot.cid, content) ∈ rest → slot.entry = decode content :=
        fun slot member quiet content inside =>
          right slot (sublist.subset member) quiet content (List.mem_cons_of_mem _ inside)
      -- a slot decoded anew in front of the rest
      have renewed : nextRev ≤ (relist decode dirty (old.filter (·.cid ≠ cid)) rest (nextRev + 1)).2 ∧
          SlotsOf decode ((cid, content) :: rest)
            (⟨cid, nextRev + 1, decode content⟩ ::
              (relist decode dirty (old.filter (·.cid ≠ cid)) rest (nextRev + 1)).1)
            (relist decode dirty (old.filter (·.cid ≠ cid)) rest (nextRev + 1)).2 ∧
          ((∀ slot ∈ old, slot.cid = cid → slot.cid ∈ dirty) →
            Follows dirty old (⟨cid, nextRev + 1, decode content⟩ ::
              (relist decode dirty (old.filter (·.cid ≠ cid)) rest (nextRev + 1)).1) nextRev) := by
        obtain ⟨later, ⟨same, apart, below⟩, ⟨origin, kept⟩⟩ := @ih _ (nextRev + 1) distinct
          (cids.sublist (sublist.map _)) (revs.sublist (sublist.map _))
          (fun slot member => (bound slot (sublist.subset member)).trans (Nat.le_succ _)) left
        refine ⟨by omega, ⟨?_, ?_, ?_⟩, fun gone => ⟨?_, ?_⟩⟩
        · rw [List.map_cons, same, List.map_cons]
        · refine List.nodup_cons.mpr ⟨fun taken => ?_, apart⟩
          obtain ⟨slot, member, rev⟩ := List.mem_map.mp taken
          have rev : slot.rawRev = nextRev + 1 := rev
          rcases origin slot member with early | late
          · have low := bound slot (sublist.subset early)
            omega
          · omega
        · intro slot member
          rcases List.mem_cons.mp member with rfl | inside
          · exact later
          · exact below slot inside
        · intro slot member
          rcases List.mem_cons.mp member with rfl | inside
          · exact .inr (Nat.lt_succ_self _)
          · rcases origin slot inside with early | late
            · exact .inl (sublist.subset early)
            · exact .inr (by omega)
        · intro slot member quiet listed
          have other : slot.cid ≠ cid := fun here => quiet (gone slot member here)
          refine List.mem_cons_of_mem _ (kept slot ?_ quiet ?_)
          · exact List.mem_filter.mpr ⟨member, by simpa using other⟩
          · simpa [other] using listed
      unfold relist
      cases found : old.find? (·.cid = cid) with
      | none =>
          have unknown : ∀ slot ∈ old, slot.cid ≠ cid := by simpa using found
          exact ⟨renewed.1, renewed.2.1,
            renewed.2.2 fun slot member here => absurd here (unknown slot member)⟩
      | some slot =>
          have member := List.mem_of_find?_eq_some found
          have here : slot.cid = cid := by simpa using List.find?_some found
          have only : ∀ other ∈ old, other.cid = cid → other = slot := by
            intro other inside same
            exact List.inj_on_of_nodup_map cids inside member (same.trans here.symm)
          by_cases named : cid ∈ dirty
          · simp only [named, if_true]
            exact ⟨renewed.1, renewed.2.1, renewed.2.2 fun other _ same => same ▸ named⟩
          · simp only [named, if_false]
            obtain ⟨later, ⟨same, apart, below⟩, ⟨origin, kept⟩⟩ := @ih _ nextRev distinct
              (cids.sublist (sublist.map _)) (revs.sublist (sublist.map _))
              (fun slot member => bound slot (sublist.subset member)) left
            refine ⟨later, ⟨?_, ?_, ?_⟩, ⟨?_, ?_⟩⟩
            · rw [List.map_cons, same, List.map_cons, here,
                right slot member (here ▸ named) content (by rw [here]; exact List.mem_cons_self)]
            · refine List.nodup_cons.mpr ⟨fun taken => ?_, apart⟩
              obtain ⟨other, inside, rev⟩ := List.mem_map.mp taken
              rcases origin other inside with early | late
              · have equal := List.inj_on_of_nodup_map revs (sublist.subset early) member rev
                have different := (List.mem_filter.mp early).2
                rw [equal] at different
                simp [here] at different
              · have low := bound slot member
                omega
            · intro other inside
              rcases List.mem_cons.mp inside with rfl | inside
              · exact (bound _ member).trans later
              · exact below other inside
            · intro other inside
              rcases List.mem_cons.mp inside with rfl | inside
              · exact .inl member
              · exact (origin other inside).imp_left fun early => sublist.subset early
            · intro other inside quiet listed
              by_cases same : other.cid = cid
              · rw [only other inside same]
                exact List.mem_cons_self
              · refine List.mem_cons_of_mem _ (kept other ?_ quiet ?_)
                · exact List.mem_filter.mpr ⟨inside, by simpa using same⟩
                · simpa [here, same] using listed

theorem Doc.mem_maps_of_container {doc : Doc κ raw} {cid : κ} {content : raw}
    (found : doc.container cid = some content) : (cid, content) ∈ doc.maps := by
  obtain ⟨front, back, split, _⟩ := List.lookup_eq_some_iff.mp found
  rw [split]
  exact List.mem_append_right _ List.mem_cons_self

theorem Doc.container_isSome {doc : Doc κ raw} {cid : κ} {content : raw}
    (member : (cid, content) ∈ doc.maps) : doc.container cid ≠ none := by
  intro none
  have absent := List.lookup_eq_none_iff.mp none (cid, content) member
  simp at absent

omit [DecidableEq κ] in
/-- A container id has one content. -/
theorem Doc.content_unique {doc : Doc κ raw} {cid : κ} {first second : raw}
    (here : (cid, first) ∈ doc.maps) (there : (cid, second) ∈ doc.maps) : first = second :=
  congrArg Prod.snd (List.inj_on_of_nodup_map doc.distinct here there rfl)

omit [DecidableEq κ] in
theorem content_of_right {slots : List (Slot κ value)} {maps : List (κ × raw)}
    (cids : slots.map Slot.cid = maps.map Prod.fst)
    (right : ∀ slot ∈ slots, ∀ content, (slot.cid, content) ∈ maps → slot.entry = decode content) :
    slots.map (fun slot => (slot.cid, slot.entry)) =
      maps.map fun item => (item.1, decode item.2) := by
  induction slots generalizing maps with
  | nil =>
      rw [List.map_eq_nil_iff.mp cids.symm]
      rfl
  | cons slot rest ih =>
      cases maps with
      | nil => cases cids
      | cons item maps =>
          obtain ⟨here, later⟩ := List.cons.inj cids
          rw [List.map_cons, List.map_cons, here,
            right slot List.mem_cons_self item.2 (here ▸ List.mem_cons_self),
            ih later fun other member content inside =>
              right other (List.mem_cons_of_mem _ member) content (List.mem_cons_of_mem _ inside)]

/-- A slot replaced under its container id. -/
def replaceSlot (new : Slot κ value) (slots : List (Slot κ value)) : List (Slot κ value) :=
  slots.map fun other => if other.cid = new.cid then new else other

theorem cids_replaceSlot (new : Slot κ value) (slots : List (Slot κ value)) :
    (replaceSlot new slots).map Slot.cid = slots.map Slot.cid := by
  rw [replaceSlot, List.map_map]
  apply List.map_congr_left
  intro slot _
  by_cases same : slot.cid = new.cid <;> simp [same]

theorem mem_replaceSlot {new slot : Slot κ value} {slots : List (Slot κ value)}
    (member : slot ∈ replaceSlot new slots) : slot = new ∨ slot ∈ slots ∧ slot.cid ≠ new.cid := by
  obtain ⟨old, inside, same⟩ := List.mem_map.mp member
  by_cases here : old.cid = new.cid
  · exact .inl (by simpa [here] using same.symm)
  · rw [if_neg here] at same
    exact .inr (same ▸ ⟨inside, here⟩)

/-- The new revision is above all others, and only one slot takes it. -/
theorem revs_replaceSlot {new : Slot κ value} {slots : List (Slot κ value)}
    (cids : (slots.map Slot.cid).Nodup) (revs : (slots.map Slot.rawRev).Nodup)
    (above : ∀ slot ∈ slots, slot.rawRev < new.rawRev) :
    ((replaceSlot new slots).map Slot.rawRev).Nodup := by
  induction slots with
  | nil => exact List.nodup_nil
  | cons slot rest ih =>
      obtain ⟨alone, cids⟩ := List.nodup_cons.mp cids
      obtain ⟨apart, revs⟩ := List.nodup_cons.mp revs
      have later := ih cids revs fun other member => above other (List.mem_cons_of_mem _ member)
      rw [replaceSlot, List.map_cons, List.map_cons]
      refine List.nodup_cons.mpr ⟨fun taken => ?_, later⟩
      obtain ⟨other, member, rev⟩ := List.mem_map.mp taken
      rcases mem_replaceSlot member with rfl | ⟨inside, different⟩
      · by_cases here : slot.cid = other.cid
        · -- no slot of the rest has that id
          have kept : replaceSlot other rest = rest := by
            have same : ∀ next ∈ rest, (if next.cid = other.cid then other else next) = next := by
              intro next listed
              apply if_neg
              intro equal
              exact alone (List.mem_map.mpr ⟨next, listed, equal.trans here.symm⟩)
            simpa [replaceSlot] using List.map_congr_left same
          have low := above other (List.mem_cons_of_mem _ (kept ▸ member))
          omega
        · rw [if_neg here] at rev
          have low := above slot List.mem_cons_self
          omega
      · by_cases here : slot.cid = new.cid
        · rw [if_pos here] at rev
          have low := above other (List.mem_cons_of_mem _ inside)
          omega
        · rw [if_neg here] at rev
          exact apart (List.mem_map.mpr ⟨other, inside, rev⟩)

/-- What holds while the named entries are gone through. -/
structure Redecoding (decode : raw → Option (SessionMessageEntry value)) (doc : Doc κ raw)
    (left : List κ) (slots : List (Slot κ value)) (nextRev : Nat) : Prop where
  cids : slots.map Slot.cid = doc.maps.map Prod.fst
  right : ∀ slot ∈ slots, slot.cid ∈ left ∨
    ∀ content, (slot.cid, content) ∈ doc.maps → slot.entry = decode content
  revs : (slots.map Slot.rawRev).Nodup
  bound : ∀ slot ∈ slots, slot.rawRev ≤ nextRev

theorem redecode_spec {doc : Doc κ raw} {left : List κ} {slots : List (Slot κ value)}
    {nextRev : Nat} (going : Redecoding decode doc left slots nextRev) :
    nextRev ≤ (redecode decode doc left slots nextRev).2.1 ∧
      SlotsOf decode doc.maps (redecode decode doc left slots nextRev).1
        (redecode decode doc left slots nextRev).2.1 ∧
      Follows left slots (redecode decode doc left slots nextRev).1 nextRev ∧
      ((redecode decode doc left slots nextRev).2.2 = false →
        (redecode decode doc left slots nextRev).1 = slots) := by
  induction left generalizing slots nextRev with
  | nil =>
      obtain ⟨cids, right, revs, bound⟩ := going
      refine ⟨le_rfl, ⟨?_, revs, bound⟩, ⟨fun slot member => .inl member, fun slot member _ _ => member⟩,
        fun _ => rfl⟩
      exact content_of_right cids fun slot member => (right slot member).resolve_left nofun
  | cons cid rest ih =>
      obtain ⟨cids, right, revs, bound⟩ := going
      -- a name that is passed over stays out of the result
      have passed : (∀ slot ∈ slots, slot.cid = cid → ∀ content, (slot.cid, content) ∉ doc.maps) →
          Redecoding decode doc rest slots nextRev := by
        intro gone
        refine ⟨cids, fun slot member => ?_, revs, bound⟩
        rcases right slot member with named | settled
        · rcases List.mem_cons.mp named with here | later
          · exact .inr fun content inside => absurd inside (gone slot member here content)
          · exact .inl later
        · exact .inr settled
      have widen : ∀ result floor, Follows rest slots result floor →
          Follows (cid :: rest) slots result floor :=
        fun result floor follows => ⟨follows.origin, fun slot member quiet =>
          follows.kept slot member fun named => quiet (List.mem_cons_of_mem _ named)⟩
      unfold redecode
      split
      · rename_i placed
        cases found : doc.container cid with
        | none =>
            obtain ⟨later, sound, follows, untouched⟩ := ih (passed fun slot _ here content inside =>
              Doc.container_isSome (here ▸ inside) found)
            exact ⟨later, sound, widen _ _ follows, untouched⟩
        | some content =>
            have listed := Doc.mem_maps_of_container found
            have going : Redecoding decode doc rest
                (replaceSlot ⟨cid, nextRev + 1, decode content⟩ slots) (nextRev + 1) := by
              refine ⟨(cids_replaceSlot _ slots).trans cids, ?_, ?_, ?_⟩
              · intro slot member
                rcases mem_replaceSlot member with rfl | ⟨inside, different⟩
                · exact .inr fun other there => by rw [Doc.content_unique there listed]
                · exact (right slot inside).imp_left fun named =>
                    (List.mem_cons.mp named).resolve_left different
              · exact revs_replaceSlot (cids ▸ doc.distinct) revs
                  fun slot member => Nat.lt_succ_of_le (bound slot member)
              · intro slot member
                rcases mem_replaceSlot member with rfl | ⟨inside, _⟩
                · exact le_rfl
                · exact (bound slot inside).trans (Nat.le_succ _)
            obtain ⟨later, sound, ⟨origin, kept⟩, _⟩ := ih going
            refine ⟨by exact (Nat.le_succ _).trans later, sound, ⟨?_, ?_⟩, by intros; contradiction⟩
            · intro slot member
              rcases origin slot member with early | late
              · rcases mem_replaceSlot early with rfl | ⟨inside, _⟩
                · exact .inr (Nat.lt_succ_self _)
                · exact .inl inside
              · exact .inr (Nat.lt_of_succ_lt late)
            · intro slot member quiet inside
              obtain ⟨here, later⟩ := not_or.mp (List.mem_cons.not.mp quiet)
              refine kept slot ?_ later inside
              exact List.mem_map.mpr ⟨slot, member, if_neg here⟩
      · rename_i absent
        have unknown : ∀ slot ∈ slots, slot.cid ≠ cid := by simpa using absent
        obtain ⟨later, sound, follows, untouched⟩ := ih (passed fun slot member here =>
          absurd here (unknown slot member))
        exact ⟨later, sound, widen _ _ follows, untouched⟩

end Zeron.Transcript
