import Zeron.Transcript.Mirror

namespace Zeron.Transcript

open Zeron.Data

/-! # Runs of a watched document

Between refreshes the document changes and revisions are taken for echoes.  Every
entry a refresh has joined may still be held by someone.
-/

variable {κ raw value : Type} [DecidableEq κ] [DecidableEq value]
  (decode : raw → Option (SessionMessageEntry value))

structure Watch (κ raw value : Type) where
  /-- The documents refreshed from, the last one first. -/
  docs : List (Doc κ raw) := []
  tracker : Tracker κ value := {}
  /-- Every entry that was ever joined. -/
  published : List (Entry value) := []

inductive Event (κ raw : Type) where
  | refresh (doc : Doc κ raw) (dirty : Dirty κ)
  | takeRev

def Watch.step (watch : Watch κ raw value) : Event κ raw → Option (Watch κ raw value)
  | .refresh doc dirty =>
      let tracker := (watch.tracker.refresh decode doc dirty).1
      some { docs := doc :: watch.docs, tracker, published := watch.published ++ tracker.joined }
  | .takeRev => some { watch with tracker := watch.tracker.takeRev }

/-- The groups of a document. -/
def Doc.groups (doc : Doc κ raw) : List (Group κ value) := groupAll (doc.decodable decode)

/-- Where one text of a joined entry grows, its `continuation_of` stays. -/
def Steady (before after : Doc κ raw) : Prop :=
  ∀ old ∈ before.groups decode, ∀ new ∈ after.groups decode, old.root.1 = new.root.1 →
    (∃ part, GrowsIn part { old.message with continuationOf := new.message.continuationOf }
      new.message) →
    old.message.continuationOf = new.message.continuationOf

/-- The dirty set of a refresh names what has changed. -/
def Watch.named (watch : Watch κ raw value) : Event κ raw → Prop
  | .refresh doc dirty => ∀ last ∈ watch.docs.head?, Names dirty last doc
  | .takeRev => True

/-- No joined entry goes over to another root while one of its texts grows. -/
def Watch.steady (watch : Watch κ raw value) : Event κ raw → Prop
  | .refresh doc _ => ∀ last ∈ watch.docs.head?, Steady decode last doc
  | .takeRev => True

/-- The ids of the entries are distinct in every document so far. -/
def Watch.distinct (watch : Watch κ raw value) : Prop :=
  ∀ doc ∈ watch.docs, ((doc.decodable decode).map (·.2.id)).Nodup

/-- The last document with its joined entries, and every entry that may be held. -/
structure Watch.Mirrored (watch : Watch κ raw value) : Prop where
  whole : ∀ doc ∈ watch.docs.head?, watch.tracker.joined.map Entry.message =
    joinContinuationEntries ((doc.decodable decode).map Prod.snd)
  kept : ∀ doc ∈ watch.docs.head?, ∀ next dirty, Names dirty doc next →
    ∀ group ∈ next.groups decode, (∀ member ∈ group.members, member.1 ∉ dirty.entries) →
    ∀ entry, (group, entry) ∈ (doc.groups decode).zip watch.tracker.joined →
      (group, entry) ∈ (next.groups decode).zip (watch.tracker.refresh decode next dirty).1.joined
  hints : watch.distinct decode → ∀ entry ∈ watch.tracker.joined, ∀ hint ∈ entry.append,
    ∀ held ∈ watch.published, held.id = entry.id → hint.baseRev ≤ held.rev →
      HeldGrew hint.partIndex held.message entry.message

variable {decode}

/-! ## Entries kept -/

omit [DecidableEq κ] [DecidableEq value] in
/-- Slots of one container are one slot. -/
theorem group_of_slots {before after : List (Slot κ value)} {dirty : List κ} {floor : Nat}
    (follows : Follows dirty before after floor) (cids : (after.map Slot.cid).Nodup)
    {old new : Group (Slot κ value) value} (was : old ∈ groupAll (decoded before))
    (is : new ∈ groupAll (decoded after))
    (same : old.mapTag Slot.cid = new.mapTag Slot.cid)
    (quiet : ∀ member ∈ old.members, member.1.cid ∉ dirty) : new = old := by
  have tags : ∀ group : Group (Slot κ value) value, (group.mapTag Slot.cid).members =
      group.members.map fun member => (member.1.cid, member.2) := fun _ => rfl
  have projected : new.members.map (fun member => (member.1.cid, member.2)) =
      old.members.map fun member => (member.1.cid, member.2) := by
    rw [← tags, ← tags, same]
  have members : new.members = old.members := by
    apply eq_of_map_eq projected
    intro first inside second standing pair
    obtain ⟨cid, entry⟩ := Prod.mk.inj pair
    obtain ⟨placed, _⟩ := mem_decoded (members_of_group _ new is first inside)
    obtain ⟨stood, _⟩ := mem_decoded (members_of_group _ old was second standing)
    have kept := follows.kept second.1 stood (quiet second standing)
      (cid ▸ List.mem_map_of_mem placed)
    exact Prod.ext (List.inj_on_of_nodup_map cids placed kept cid) entry
  obtain ⟨root, rest⟩ := List.cons.inj members
  cases old
  cases new
  exact congrArg₂ _ root rest

omit [DecidableEq κ] [DecidableEq value] in
theorem mem_zip_mapTag {groups : List (Group (Slot κ value) value)} {entries : List (Entry value)}
    {group : Group κ value} {entry : Entry value}
    (inside : (group, entry) ∈ (groups.map (Group.mapTag Slot.cid)).zip entries) :
    ∃ slots, slots.mapTag Slot.cid = group ∧ (slots, entry) ∈ groups.zip entries := by
  rw [List.zip_map_left] at inside
  obtain ⟨⟨slots, other⟩, placed, same⟩ := List.mem_map.mp inside
  obtain ⟨tagged, rfl⟩ := Prod.mk.inj same
  exact ⟨slots, tagged, placed⟩

theorem exists_of_forall₂ {α β : Type} {related : α → β → Prop} {first : List α}
    {second : List β} (all : List.Forall₂ related first second) {a : α} (inside : a ∈ first) :
    ∃ b, (a, b) ∈ first.zip second ∧ related a b := by
  rw [← List.map_fst_zip all.length_eq.le] at inside
  obtain ⟨⟨_, b⟩, placed, rfl⟩ := List.mem_map.mp inside
  exact ⟨b, placed, (List.forall₂_iff_zip.mp all).2 placed⟩

theorem exists_of_forall₂_right {α β : Type} {related : α → β → Prop} {first : List α}
    {second : List β} (all : List.Forall₂ related first second) {b : β} (inside : b ∈ second) :
    ∃ a, (a, b) ∈ first.zip second ∧ related a b := by
  rw [← List.map_snd_zip all.length_eq.ge] at inside
  obtain ⟨⟨a, _⟩, placed, rfl⟩ := List.mem_map.mp inside
  exact ⟨a, placed, (List.forall₂_iff_zip.mp all).2 placed⟩

omit [DecidableEq κ] [DecidableEq value] in
theorem Mirrors.groups {tracker : Tracker κ value} {doc : Doc κ raw}
    (mirrors : Mirrors decode tracker (some doc)) :
    (groupAll (decoded tracker.slots)).map (Group.mapTag Slot.cid) = doc.groups decode := by
  cases mirrors with
  | after _ _ slots _ => rw [groupAll_mapTag, Doc.groups, ← slots.decodable]

/-- A group whose entries are not named keeps its entry. -/
theorem Mirrors.kept {tracker : Tracker κ value} {doc next : Doc κ raw} {dirty : Dirty κ}
    (mirrors : Mirrors decode tracker (some doc)) (names : Names dirty doc next)
    {group : Group κ value} (stands : group ∈ next.groups decode)
    (quiet : ∀ member ∈ group.members, member.1 ∉ dirty.entries) {entry : Entry value}
    (inside : (group, entry) ∈ (doc.groups decode).zip tracker.joined) :
    (group, entry) ∈ (next.groups decode).zip (tracker.refresh decode next dirty).1.joined := by
  have refreshed := refresh_spec mirrors fun before same => Option.some.inj same ▸ names
  obtain ⟨_, cids, _⟩ := refreshed.mirrors.revs
  obtain ⟨_, oldCids, _⟩ := mirrors.revs
  rw [← mirrors.groups] at inside
  rw [← refreshed.mirrors.groups] at stands ⊢
  obtain ⟨old, tagged, placed⟩ := mem_zip_mapTag inside
  obtain ⟨new, standing, retagged⟩ := List.mem_map.mp stands
  have same : new = old := by
    apply group_of_slots refreshed.follows cids (List.of_mem_zip placed).1 standing
      (tagged.trans retagged.symm)
    intro member listed
    apply quiet (member.1.cid, member.2)
    rw [← tagged]
    exact List.mem_map_of_mem (f := fun member => (member.1.cid, member.2)) listed
  subst same
  obtain ⟨other, together, made⟩ := exists_of_forall₂ refreshed.made standing
  have held : tracker.byRoot.lookup new.root.1.cid = some (new.sig, entry) := by
    rw [mirrors.described.table]
    exact lookup_tableOf (cids_groups oldCids) placed
  have equal : other = entry := by
    cases made with
    | reused found => exact (Prod.mk.inj (Option.some.inj (found.symm.trans held))).2
    | fresh fresh => exact absurd rfl (fresh.stale _ held)
  rw [List.zip_map_left]
  exact List.mem_map.mpr ⟨(new, entry), equal ▸ together, by rw [← retagged]; rfl⟩

/-! ## Hints of a run -/

/-- What a refresh says of every entry it joins, with the groups of the documents. -/
theorem Refreshed.joined {dirty : Dirty κ} {before after : Tracker κ value}
    {last : Option (Doc κ raw)} {doc : Doc κ raw} (mirrors : Mirrors decode before last)
    (refreshed : Refreshed decode dirty before after doc) {entry : Entry value}
    (inside : entry ∈ after.joined) :
    entry ∈ before.joined ∨ before.nextRev < entry.rev ∧ ∀ hint ∈ entry.append,
      ∃ previous ∈ before.joined, appendHint previous entry.message = some hint ∧
        ∃ old ∈ last, ∃ was ∈ old.groups decode, ∃ is ∈ doc.groups decode,
          was.root.1 = is.root.1 ∧ was.message = previous.message ∧ is.message = entry.message := by
  obtain ⟨group, placed, made⟩ := exists_of_forall₂_right refreshed.made inside
  have described := mirrors.described
  cases made with
  | reused held =>
      have row := mem_of_lookup held
      rw [described.table] at row
      obtain ⟨old, other, together, same⟩ := mem_tableOf row
      simp only [Prod.mk.injEq] at same
      exact .inl (same.2.2 ▸ (List.of_mem_zip together).2)
  | fresh fresh =>
      refine .inr ⟨fresh.rev, fun hint hinted => ?_⟩
      rw [fresh.append] at hinted
      obtain ⟨⟨sig, previous⟩, found, given⟩ := Option.bind_eq_some_iff.mp hinted
      have row := mem_of_lookup found
      rw [described.table] at row
      obtain ⟨old, other, together, same⟩ := mem_tableOf row
      simp only [Prod.mk.injEq] at same
      obtain ⟨cid, _, rfl⟩ := same
      obtain ⟨stood, joined⟩ := List.of_mem_zip together
      refine ⟨previous, joined, fresh.message ▸ given, ?_⟩
      obtain ⟨message, _⟩ := (List.forall₂_iff_zip.mp described.entries).2 together
      cases mirrors with
      | blank _ slots _ =>
          rw [slots] at stood
          cases stood
      | after doc' initialized slots described =>
          have groups := (Mirrors.after doc' initialized slots described).groups
          refine ⟨doc', rfl, old.mapTag Slot.cid, ?_, group.mapTag Slot.cid, ?_, cid.symm, ?_, ?_⟩
          · rw [← groups]
            exact List.mem_map_of_mem stood
          · rw [← refreshed.mirrors.groups]
            exact List.mem_map_of_mem (List.of_mem_zip placed).1
          · rw [Group.message_mapTag, message]
          · rw [Group.message_mapTag, fresh.message]

omit [DecidableEq κ] [DecidableEq value] in
/-- With distinct ids, a joined entry is known by its id. -/
theorem Mirrors.ids {tracker : Tracker κ value} {doc : Doc κ raw}
    (mirrors : Mirrors decode tracker (some doc))
    (distinct : ((doc.decodable decode).map (·.2.id)).Nodup) :
    (tracker.joined.map Entry.id).Nodup := by
  have roots := (roots_sublist (doc.decodable decode)).map (·.2.id)
  have same : tracker.joined.map Entry.id =
      ((groupAll (doc.decodable decode)).map Group.root).map (·.2.id) := by
    rw [show groupAll (doc.decodable decode) = doc.groups decode from rfl, ← mirrors.groups,
      List.map_map, List.map_map]
    apply List.ext_getElem
    · simpa using mirrors.described.entries.length_eq.symm
    · intro index within other
      have pair := (List.forall₂_iff_get.mp mirrors.described.entries).2 index
        (by simpa using other) (by simpa using within)
      simpa [Group.mapTag] using pair.2.trans (Group.id_message _)
  rw [same]
  exact distinct.sublist roots

theorem HeldGrew.of_hint {previous : Entry value} {next : SessionMessageEntry value}
    {hint : AppendHint} (given : appendHint previous next = some hint)
    (steady : (∃ part, GrowsIn part
      { previous.message with continuationOf := next.continuationOf } next) →
      previous.message.continuationOf = next.continuationOf) :
    GrowsIn hint.partIndex previous.message next ∧ (hint.baseRev = previous.rev ∨
      ∃ earlier ∈ previous.append, earlier.partIndex = hint.partIndex ∧
        hint.baseRev = earlier.baseRev) := by
  obtain ⟨grown, base⟩ := appendHint_spec given
  rw [← steady ⟨_, grown⟩] at grown
  exact ⟨grown, base⟩

/-- What every run keeps. -/
structure Watch.Kept (decode : raw → Option (SessionMessageEntry value))
    (watch : Watch κ raw value) : Prop where
  mirrors : Mirrors decode watch.tracker watch.docs.head?
  listed : ∀ entry ∈ watch.tracker.joined, entry ∈ watch.published
  bound : ∀ held ∈ watch.published, held.rev ≤ watch.tracker.nextRev
  ids : ∀ entry ∈ watch.tracker.joined, entry.id = entry.message.id
  newest : watch.distinct decode → ∀ held ∈ watch.published, ∀ entry ∈ watch.tracker.joined,
    held.id = entry.id → held = entry ∨ held.rev < entry.rev
  hints : watch.distinct decode → ∀ entry ∈ watch.tracker.joined, ∀ hint ∈ entry.append,
    ∀ held ∈ watch.published, held.id = entry.id → hint.baseRev ≤ held.rev →
      HeldGrew hint.partIndex held.message entry.message

theorem Watch.Kept.refresh {watch : Watch κ raw value} {doc : Doc κ raw} {dirty : Dirty κ}
    {after : Tracker κ value} (kept : watch.Kept decode)
    (refreshed : Refreshed decode dirty watch.tracker after doc)
    (steady : ∀ last ∈ watch.docs.head?, Steady decode last doc) :
    Watch.Kept decode ⟨doc :: watch.docs, after, watch.published ++ after.joined⟩ := by
  have described := refreshed.mirrors.described
  have earlier : Watch.distinct decode ⟨doc :: watch.docs, after, watch.published ++ after.joined⟩ →
      watch.distinct decode :=
    fun distinct old member => distinct old (List.mem_cons_of_mem _ member)
  have apart : Watch.distinct decode ⟨doc :: watch.docs, after, watch.published ++ after.joined⟩ →
      ∀ held ∈ after.joined, ∀ entry ∈ after.joined, held.id = entry.id → held = entry := by
    intro distinct held joined entry inside same
    exact List.inj_on_of_nodup_map (refreshed.mirrors.ids (distinct doc List.mem_cons_self))
      joined inside same
  refine ⟨refreshed.mirrors, fun entry inside => List.mem_append_right _ inside, ?_, ?_, ?_, ?_⟩
  · intro held member
    rcases List.mem_append.mp member with old | new
    · exact (kept.bound held old).trans refreshed.later
    · exact described.bound held new
  · intro entry inside
    obtain ⟨group, _, message, id⟩ := exists_of_forall₂_right described.entries inside
    rw [id, message]
  · intro distinct held member entry inside same
    rcases List.mem_append.mp member with old | new
    · rcases refreshed.joined kept.mirrors inside with reused | ⟨fresh, _⟩
      · exact kept.newest (earlier distinct) held old entry reused same
      · exact .inr ((kept.bound held old).trans_lt fresh)
    · exact .inl (apart distinct held new entry inside same)
  · intro distinct entry inside hint hinted held member same base
    rcases List.mem_append.mp member with old | new
    swap
    · rw [apart distinct held new entry inside same]
      exact .inl rfl
    rcases refreshed.joined kept.mirrors inside with reused | ⟨_, made⟩
    · exact kept.hints (earlier distinct) entry reused hint hinted held old same base
    obtain ⟨previous, joined, given, last, current, was, stood, is, stands, root, wasMessage,
      isMessage⟩ := made hint hinted
    have going := steady last current was stood is stands root
    rw [wasMessage, isMessage] at going
    obtain ⟨grown, from_⟩ := HeldGrew.of_hint given going
    have entryId : entry.id = entry.message.id := by
      obtain ⟨group, _, message, id⟩ := exists_of_forall₂_right described.entries inside
      rw [id, message]
    have known : held.id = previous.id := by
      rw [same, entryId, kept.ids previous joined, grown.others]
    rcases from_ with own | ⟨chained, before, part, base'⟩
    · rcases kept.newest (earlier distinct) held old previous joined known with rfl | below
      · exact .inr grown
      · omega
    · have held' := kept.hints (earlier distinct) previous joined chained before held old known
        (base' ▸ base)
      exact (part ▸ held').grows grown

theorem Watch.Kept.step {watch after : Watch κ raw value} {event : Event κ raw}
    (kept : watch.Kept decode) (named : watch.named event) (steady : watch.steady decode event)
    (stepped : watch.step decode event = some after) : after.Kept decode := by
  cases event with
  | refresh doc dirty =>
      cases stepped
      exact kept.refresh (refresh_spec kept.mirrors named) steady
  | takeRev =>
      cases stepped
      obtain ⟨mirrors, listed, bound, ids, newest, hints⟩ := kept
      refine ⟨?_, listed, fun held member => (bound held member).trans (Nat.le_succ _), ids, newest,
        hints⟩
      have described : Described watch.tracker.takeRev :=
        ⟨mirrors.described.entries, mirrors.described.table, fun entry inside =>
          (mirrors.described.bound entry inside).trans (Nat.le_succ _)⟩
      generalize watch.docs.head? = last at mirrors
      cases mirrors with
      | blank initialized slots _ => exact .blank initialized slots described
      | after doc initialized slots _ =>
          exact .after doc initialized ⟨slots.content, slots.revs, fun slot member =>
            (slots.bound slot member).trans (Nat.le_succ _)⟩ described

theorem Watch.Kept.mirrored {watch : Watch κ raw value} (kept : watch.Kept decode) :
    watch.Mirrored decode := by
  refine ⟨fun doc last => ?_, fun doc last next dirty names group stands quiet entry inside => ?_,
    kept.hints⟩
  · have mirrors := kept.mirrors
    rw [last] at mirrors
    rw [joinContinuationEntries_eq_groups]
    show _ = (doc.groups decode).map Group.message
    rw [← mirrors.groups, List.map_map]
    apply List.ext_getElem
    · simpa using mirrors.described.entries.length_eq.symm
    · intro index within other
      have pair := (List.forall₂_iff_get.mp mirrors.described.entries).2 index
        (by simpa using other) (by simpa using within)
      simpa using pair.1
  · have mirrors := kept.mirrors
    rw [last] at mirrors
    exact mirrors.kept names stands quiet inside

variable (decode) in
/-- In every run whose refreshes are told of what changed, the mirror is the whole decode. -/
theorem mirrored_of_steady (watch : Watch κ raw value)
    (runs : Reaches (Watch.step decode) (fun watch event => watch.named event ∧
      watch.steady decode event) {} watch) : watch.Mirrored decode := by
  apply Watch.Kept.mirrored
  apply runs.keeps
  · have described : Described ({} : Tracker κ value) := ⟨.nil, rfl, by intros; contradiction⟩
    refine ⟨.blank rfl rfl described, ?_, ?_, ?_, ?_, ?_⟩ <;> intros <;> contradiction
  · intro before event after kept permitted stepped
    exact kept.step permitted.1 permitted.2 stepped

/-! ## A document of one entry -/

instance [DecidableEq raw] (dirty : Dirty κ) (before after : Doc κ raw) :
    Decidable (Names dirty before after) :=
  decidable_of_iff ((dirty.list = false → after.maps.map Prod.fst = before.maps.map Prod.fst) ∧
      ∀ old ∈ before.maps, ∀ new ∈ after.maps, old.1 = new.1 → old.2 ≠ new.2 →
        old.1 ∈ dirty.entries) <| by
    constructor
    · rintro ⟨list, entries⟩
      exact ⟨list, fun cid old new was is => entries (cid, old) was (cid, new) is rfl⟩
    · rintro ⟨list, entries⟩
      refine ⟨list, fun old was new is same => entries old.1 old.2 new.2 was ?_⟩
      rw [same]
      exact is

instance (watch : Watch κ raw value) : Decidable (watch.distinct decode) :=
  inferInstanceAs (Decidable (∀ doc ∈ watch.docs, ((doc.decodable decode).map (·.2.id)).Nodup))

instance [DecidableEq raw] (watch : Watch κ raw value) (event : Event κ raw) :
    Decidable (watch.named event) :=
  match event with
  | .refresh doc dirty => inferInstanceAs (Decidable (∀ last ∈ watch.docs.head?, Names dirty last doc))
  | .takeRev => .isTrue trivial

omit [DecidableEq κ] [DecidableEq value] in
/-- Between documents without continuations nothing goes over to another root. -/
theorem Steady.of_roots {before after : Doc κ raw}
    (old : ∀ entry ∈ before.decodable decode, entry.2.continuationOf = none)
    (new : ∀ entry ∈ after.decodable decode, entry.2.continuationOf = none) :
    Steady decode before after := by
  have alone : ∀ doc : Doc κ raw, (∀ entry ∈ doc.decodable decode, entry.2.continuationOf = none) →
      ∀ group ∈ doc.groups decode, group.message.continuationOf = none := by
    intro doc roots group member
    rw [Group.continuationOf_message]
    exact roots _ ((roots_sublist _).subset (List.mem_map_of_mem member))
  intro was stood is stands _ _
  rw [alone before old was stood, alone after new is stands]

def Event.docs : Event κ raw → List (Doc κ raw)
  | .refresh doc _ => [doc]
  | .takeRev => []

omit [DecidableEq κ] [DecidableEq value] in
theorem Watch.steady_of_roots {watch : Watch κ raw value} {event : Event κ raw}
    (roots : ∀ doc ∈ watch.docs ++ event.docs, ∀ entry ∈ doc.decodable decode,
      entry.2.continuationOf = none) : watch.steady decode event := by
  cases event with
  | takeRev => trivial
  | refresh doc dirty =>
      intro last member
      have old : last ∈ watch.docs := List.mem_of_mem_head? member
      exact Steady.of_roots (roots last (List.mem_append_left _ old))
        (roots doc (List.mem_append_right _ List.mem_cons_self))

def oneEntry (continuationOf : Option String) (text : String) : Doc Nat (SessionMessageEntry Unit) where
  items := [some (1, ⟨"entry", .assistant, [.text "part" text], 0, "device", none, continuationOf, none⟩)]
  distinct := List.nodup_singleton _

/-- The mirror of a streamed text, with the hint it has published. -/
theorem mirrored_of_steady_streamed : ∃ watch : Watch Nat (SessionMessageEntry Unit) Unit,
    watch.tracker.joined.map Entry.append = [some ⟨2, 0⟩] ∧ watch.Mirrored some := by
  have ran : (runAll (Watch.step some) (fun watch event => decide (watch.named event ∧
      ∀ doc ∈ watch.docs ++ event.docs, ∀ entry ∈ doc.decodable some,
        entry.2.continuationOf = none))
      ({} : Watch Nat (SessionMessageEntry Unit) Unit)
      [.refresh (oneEntry none "he") { list := true }, .takeRev,
        .refresh (oneEntry none "hell") { entries := [1] },
        .refresh (oneEntry none "hello") { entries := [1] }]).map
      (·.tracker.joined.map Entry.append) = some [some ⟨2, 0⟩] := by
    decide
  obtain ⟨watch, ran, held⟩ := Option.map_eq_some_iff.mp ran
  refine ⟨watch, held, mirrored_of_steady some watch ?_⟩
  refine (reaches_of_runAll ran).mono fun watch event permitted => ?_
  obtain ⟨named, roots⟩ := of_decide_eq_true permitted
  exact ⟨named, Watch.steady_of_roots roots⟩

/-- An orphan goes over to another root while its text grows: the hint tells only of the text. -/
theorem not_mirrored_of_moved : ∃ watch : Watch Nat (SessionMessageEntry Unit) Unit,
    Reaches (Watch.step some) (fun watch event => watch.named event) {} watch ∧
      ¬ watch.Mirrored some := by
  have ran : (runAll (Watch.step some) (fun watch event => decide (watch.named event))
      ({} : Watch Nat (SessionMessageEntry Unit) Unit)
      [.refresh (oneEntry (some "first") "he") { list := true },
        .refresh (oneEntry (some "second") "hell") { entries := [1] }]).map (fun watch =>
      decide (watch.distinct some ∧ ∃ entry ∈ watch.tracker.joined, ∃ hint ∈ entry.append,
        ∃ held ∈ watch.published, held.id = entry.id ∧ hint.baseRev ≤ held.rev ∧
          held.message.continuationOf ≠ entry.message.continuationOf)) = some true := by
    decide
  obtain ⟨watch, ran, held⟩ := Option.map_eq_some_iff.mp ran
  obtain ⟨distinct, entry, joined, hint, hinted, old, published, id, base, moved⟩ :=
    of_decide_eq_true held
  refine ⟨watch, (reaches_of_runAll ran).mono fun _ _ named => of_decide_eq_true named, ?_⟩
  intro mirrored
  rcases mirrored.hints distinct entry joined hint hinted old published id base with same | grown
  · exact moved (by rw [same])
  · exact moved (by rw [grown.others])

end Zeron.Transcript
