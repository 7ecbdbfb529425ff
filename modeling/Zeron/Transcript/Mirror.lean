import Zeron.Data.Runs
import Zeron.Transcript.Hints
import Zeron.Transcript.Rejoin

namespace Zeron.Transcript

open Zeron.Data

/-! # The mirror equals a full decode

A run of refreshes over documents that change as their dirty sets say, with
revisions taken for echoes in between.
-/

variable {κ raw value : Type} [DecidableEq κ] [DecidableEq value]
  {decode : raw → Option (SessionMessageEntry value)}

/-- The dirty set names every changed entry, and the list where its maps changed. -/
structure Names (dirty : Dirty κ) (before after : Doc κ raw) : Prop where
  list : dirty.list = false → after.maps.map Prod.fst = before.maps.map Prod.fst
  entries : ∀ cid old new, (cid, old) ∈ before.maps → (cid, new) ∈ after.maps → old ≠ new →
    cid ∈ dirty.entries

/-- A tracker as it is before any refresh, or as a refresh over `doc` leaves it. -/
inductive Mirrors (decode : raw → Option (SessionMessageEntry value)) (tracker : Tracker κ value) :
    Option (Doc κ raw) → Prop
  | blank (initialized : tracker.initialized = false) (slots : tracker.slots = [])
      (described : Described tracker) : Mirrors decode tracker none
  | after (doc : Doc κ raw) (initialized : tracker.initialized = true)
      (slots : SlotsOf decode doc.maps tracker.slots tracker.nextRev)
      (described : Described tracker) : Mirrors decode tracker (some doc)

/-- What a refresh leaves, seen from the tracker it found. -/
structure Refreshed (decode : raw → Option (SessionMessageEntry value)) (dirty : Dirty κ)
    (before after : Tracker κ value) (doc : Doc κ raw) : Prop where
  mirrors : Mirrors decode after (some doc)
  follows : Follows dirty.entries before.slots after.slots before.nextRev
  later : before.nextRev ≤ after.nextRev
  made : List.Forall₂ (Made before.byRoot before.nextRev) (groupAll (decoded after.slots))
    after.joined

omit [DecidableEq κ] [DecidableEq value] in
theorem Mirrors.described {tracker : Tracker κ value} {doc : Option (Doc κ raw)}
    (mirrors : Mirrors decode tracker doc) : Described tracker := by
  cases mirrors <;> assumption

omit [DecidableEq κ] [DecidableEq value] in
theorem Mirrors.revs {tracker : Tracker κ value} {doc : Option (Doc κ raw)}
    (mirrors : Mirrors decode tracker doc) : (tracker.slots.map Slot.rawRev).Nodup ∧
      (tracker.slots.map Slot.cid).Nodup ∧ ∀ slot ∈ tracker.slots, slot.rawRev ≤ tracker.nextRev := by
  cases mirrors with
  | blank _ slots _ =>
      rw [slots]
      exact ⟨List.nodup_nil, List.nodup_nil, by intros; contradiction⟩
  | after doc _ slots _ => exact ⟨slots.revs, slots.cids ▸ doc.distinct, slots.bound⟩

/-- A rejoin over slots that follow the ones before. -/
theorem Mirrors.rejoined {before tracker : Tracker κ value} {last : Option (Doc κ raw)}
    {doc : Doc κ raw} {dirty : Dirty κ} (mirrors : Mirrors decode before last) (reset : Bool)
    (initialized : tracker.initialized = true)
    (slots : SlotsOf decode doc.maps tracker.slots tracker.nextRev)
    (follows : Follows dirty.entries before.slots tracker.slots before.nextRev)
    (table : tracker.byRoot = before.byRoot) (later : before.nextRev ≤ tracker.nextRev) :
    Refreshed decode dirty before (tracker.rejoin reset).1 doc := by
  obtain ⟨revs, _, bound⟩ := mirrors.revs
  obtain ⟨described, above, made⟩ := rejoin_described reset mirrors.described revs bound follows
    table later
  refine ⟨.after doc initialized ⟨slots.content, slots.revs, fun slot member => ?_⟩ described, follows,
    later.trans above, made.imp fun _ _ made => made.lower later⟩
  exact (slots.bound slot member).trans above

omit [DecidableEq κ] [DecidableEq value] in
theorem cids_groups {slots : List (Slot κ value)} (cids : (slots.map Slot.cid).Nodup) :
    ((groupAll (decoded slots)).map (·.root.1.cid)).Nodup := by
  have all : ((decoded slots).map (·.1.cid)).Sublist (slots.map Slot.cid) := by
    induction slots with
    | nil => exact .slnil
    | cons slot rest ih =>
        have later := ih (List.nodup_cons.mp cids).2
        cases held : slot.entry with
        | none => simpa [decoded, held] using later.cons _
        | some entry => simpa [decoded, held] using later.cons_cons slot.cid
  have roots := ((roots_sublist (decoded slots)).map (·.1.cid)).trans all
  rw [List.map_map] at roots
  exact cids.sublist roots

/-- Where nothing was decoded, every entry is its group's as before. -/
theorem Described.reused {tracker : Tracker κ value} (described : Described tracker)
    (cids : (tracker.slots.map Slot.cid).Nodup) (floor : Nat) :
    List.Forall₂ (Made tracker.byRoot floor) (groupAll (decoded tracker.slots)) tracker.joined := by
  refine List.forall₂_iff_zip.mpr ⟨described.entries.length_eq, fun inside => ?_⟩
  apply Made.reused
  rw [described.table]
  exact lookup_tableOf (cids_groups cids) inside

omit [DecidableEq κ] [DecidableEq value] in
theorem SlotsOf.content_of_slot {maps : List (κ × raw)} {slots : List (Slot κ value)} {nextRev : Nat}
    (sound : SlotsOf decode maps slots nextRev) {slot : Slot κ value} (member : slot ∈ slots) :
    ∃ content, (slot.cid, content) ∈ maps ∧ slot.entry = decode content := by
  have pair : (slot.cid, slot.entry) ∈ maps.map fun item => (item.1, decode item.2) :=
    sound.content ▸ List.mem_map_of_mem member
  obtain ⟨⟨cid, content⟩, inside, same⟩ := List.mem_map.mp pair
  obtain ⟨rfl, entry⟩ := Prod.mk.inj same
  exact ⟨content, inside, entry.symm⟩

omit [DecidableEq κ] [DecidableEq value] in
/-- A slot whose entry is not named still decodes its map. -/
theorem Mirrors.quiet {tracker : Tracker κ value} {last : Option (Doc κ raw)} {doc : Doc κ raw}
    {dirty : Dirty κ} (mirrors : Mirrors decode tracker last)
    (names : ∀ before, last = some before → Names dirty before doc) {slot : Slot κ value}
    (member : slot ∈ tracker.slots) (unnamed : slot.cid ∉ dirty.entries) {content : raw}
    (inside : (slot.cid, content) ∈ doc.maps) : slot.entry = decode content := by
  cases mirrors with
  | blank _ slots _ =>
      rw [slots] at member
      cases member
  | after before _ slots _ =>
      obtain ⟨old, was, entry⟩ := slots.content_of_slot member
      by_contra changed
      apply unnamed
      apply (names before rfl).entries slot.cid old content was inside
      intro same
      exact changed (same ▸ entry)

theorem refresh_spec {tracker : Tracker κ value} {last : Option (Doc κ raw)} {doc : Doc κ raw}
    {dirty : Dirty κ} (mirrors : Mirrors decode tracker last)
    (names : ∀ before, last = some before → Names dirty before doc) :
    Refreshed decode dirty tracker (tracker.refresh decode doc dirty).1 doc := by
  obtain ⟨revs, cids, bound⟩ := mirrors.revs
  have listed : Refreshed decode dirty tracker
      ({ tracker with
        initialized := true
        slots := (relist decode dirty.entries tracker.slots doc.maps tracker.nextRev).1
        nextRev := (relist decode dirty.entries tracker.slots doc.maps tracker.nextRev).2 }.rejoin
          (!tracker.initialized)).1 doc := by
    obtain ⟨later, slots, follows⟩ := relist_spec doc.distinct cids revs bound
      fun slot member unnamed content inside => mirrors.quiet names member unnamed inside
    exact mirrors.rejoined _ rfl slots follows rfl later
  unfold Tracker.refresh
  cases mirrors with
  | blank initialized _ _ =>
      simp only [initialized, Bool.not_false, Bool.not_true, Bool.false_and, Bool.false_eq_true,
        if_false, Bool.true_or, if_true]
      simpa [initialized] using listed
  | after before initialized slots described =>
      have named := names before rfl
      by_cases list : dirty.list = true
      · simpa [initialized, list] using listed
      have still : doc.maps.map Prod.fst = before.maps.map Prod.fst := named.list (by simpa using list)
      have mirrors : Mirrors decode tracker (some before) := .after before initialized slots described
      have going : Redecoding decode doc dirty.entries tracker.slots tracker.nextRev := by
        refine ⟨slots.cids.trans still.symm, fun slot member => ?_, revs, bound⟩
        by_cases unnamed : slot.cid ∈ dirty.entries
        · exact .inl unnamed
        · exact .inr fun content inside => mirrors.quiet names member unnamed inside
      obtain ⟨later, sound, follows, untouched⟩ := redecode_spec going
      -- no slot decoded anew: nothing of the tracker changes but the count
      have idle : ∀ nextRev, tracker.nextRev ≤ nextRev →
          SlotsOf decode doc.maps tracker.slots nextRev → Refreshed decode dirty tracker
            { tracker with nextRev } doc := by
        intro nextRev grown sound
        refine ⟨.after doc initialized sound ⟨described.entries, described.table, fun entry member =>
          (described.bound entry member).trans grown⟩, ⟨fun slot member => .inl member,
          fun slot member _ _ => member⟩, grown, described.reused cids _⟩
      by_cases none : dirty.entries.isEmpty = true
      · simp only [List.isEmpty_iff.mp none, redecode] at sound
        have nothing : (!!tracker.initialized && !dirty.list && dirty.entries.isEmpty) = true := by
          simp [initialized, list, none]
        simp only [nothing, if_true]
        exact idle _ le_rfl sound
      · cases touched : (redecode decode doc dirty.entries tracker.slots tracker.nextRev).2.2 with
        | true =>
            have rejoined := @Mirrors.rejoined κ raw value _ _ decode tracker { tracker with
              slots := (redecode decode doc dirty.entries tracker.slots tracker.nextRev).1
              nextRev := (redecode decode doc dirty.entries tracker.slots tracker.nextRev).2.1 }
              (some before) doc dirty mirrors false initialized sound follows rfl later
            simpa [initialized, list, none, touched] using rejoined
        | false =>
            rw [untouched touched] at sound
            simpa [initialized, list, none, touched, untouched touched] using idle _ later sound

/-! ## The joined messages -/

omit [DecidableEq κ] [DecidableEq value] in
theorem SlotsOf.decodable {doc : Doc κ raw} {slots : List (Slot κ value)} {nextRev : Nat}
    (sound : SlotsOf decode doc.maps slots nextRev) :
    (decoded slots).map (fun member => (member.1.cid, member.2)) = doc.decodable decode := by
  have pairs := congrArg (List.filterMap fun pair : κ × Option (SessionMessageEntry value) =>
    pair.2.map fun entry => (pair.1, entry)) sound.content
  rw [List.filterMap_map, List.filterMap_map] at pairs
  rw [Doc.decodable, ← show List.filterMap _ doc.maps = _ from rfl]
  rw [decoded, List.map_filterMap]
  simpa [Function.comp_def] using pairs

/-- The tracker's groups are those of the decodable entries. -/
theorem Refreshed.groups {dirty : Dirty κ} {before after : Tracker κ value} {doc : Doc κ raw}
    (refreshed : Refreshed decode dirty before after doc) :
    (groupAll (decoded after.slots)).map (Group.mapTag Slot.cid) =
      groupAll (doc.decodable decode) := by
  cases refreshed.mirrors with
  | after _ _ slots _ => rw [groupAll_mapTag, ← slots.decodable]

end Zeron.Transcript
