import Zeron.Transcript.Slots

namespace Zeron.Transcript

/-! # Rejoining

After a refresh there is one joined entry for every group: the entry the root
had, where the group's revisions stand, or a new one of the group's message.
-/

variable {κ value : Type}

abbrev ByRoot (κ value : Type) := List (κ × List Nat × Entry value)

/-- The table over groups and their entries. -/
def tableOf (groups : List (Group (Slot κ value) value)) (entries : List (Entry value)) :
    ByRoot κ value :=
  (groups.zip entries).map fun pair => (pair.1.root.1.cid, pair.1.sig, pair.2)

theorem mem_tableOf {groups : List (Group (Slot κ value) value)} {entries : List (Entry value)}
    {row : κ × List Nat × Entry value} (member : row ∈ tableOf groups entries) :
    ∃ group entry, (group, entry) ∈ groups.zip entries ∧
      row = (group.root.1.cid, group.sig, entry) := by
  obtain ⟨⟨group, entry⟩, inside, rfl⟩ := List.mem_map.mp member
  exact ⟨group, entry, inside, rfl⟩

theorem mem_decoded {slots : List (Slot κ value)} {member : Slot κ value × SessionMessageEntry value}
    (inside : member ∈ decoded slots) : member.1 ∈ slots ∧ member.1.entry = some member.2 := by
  obtain ⟨slot, placed, same⟩ := List.mem_filterMap.mp inside
  obtain ⟨entry, held, rfl⟩ := Option.map_eq_some_iff.mp same
  exact ⟨placed, held⟩

theorem eq_of_map_eq {α β : Type} {project : α → β} {first second : List α}
    (same : first.map project = second.map project)
    (injective : ∀ a ∈ first, ∀ b ∈ second, project a = project b → a = b) : first = second := by
  induction first generalizing second with
  | nil => exact (List.map_eq_nil_iff.mp same.symm).symm
  | cons a rest ih =>
      cases second with
      | nil => cases same
      | cons b others =>
          obtain ⟨here, later⟩ := List.cons.inj same
          rw [injective a List.mem_cons_self b List.mem_cons_self here,
            ih later fun a inside b listed =>
              injective a (List.mem_cons_of_mem _ inside) b (List.mem_cons_of_mem _ listed)]

variable [DecidableEq κ]

theorem mem_of_lookup {table : ByRoot κ value} {cid : κ} {row : List Nat × Entry value}
    (found : table.lookup cid = some row) : (cid, row) ∈ table := by
  obtain ⟨front, back, split, _⟩ := List.lookup_eq_some_iff.mp found
  exact split ▸ List.mem_append_right _ List.mem_cons_self

variable [DecidableEq value]

/-- A new entry for a group, made at a revision above `floor`. -/
structure Fresh (before : ByRoot κ value) (floor : Nat) (group : Group (Slot κ value) value)
    (entry : Entry value) : Prop where
  stale : ∀ row, before.lookup group.root.1.cid = some row → row.1 ≠ group.sig
  rev : floor < entry.rev
  message : entry.message = group.message
  id : entry.id = group.message.id
  append : entry.append =
    (before.lookup group.root.1.cid).bind fun previous => appendHint previous.2 group.message

/-- The entry of a group after a rejoin. -/
inductive Made (before : ByRoot κ value) (floor : Nat) (group : Group (Slot κ value) value)
    (entry : Entry value) : Prop
  | reused (held : before.lookup group.root.1.cid = some (group.sig, entry))
  | fresh (fresh : Fresh before floor group entry)

theorem Made.lower {before : ByRoot κ value} {floor lower : Nat}
    {group : Group (Slot κ value) value} {entry : Entry value} (made : Made before floor group entry)
    (below : lower ≤ floor) : Made before lower group entry := by
  cases made with
  | reused held => exact .reused held
  | fresh fresh => exact .fresh { fresh with rev := below.trans_lt fresh.rev }

/-- What a rejoin over some groups adds to what was done. -/
structure Rejoins (before : ByRoot κ value) (done after : Rejoined κ value)
    (groups : List (Group (Slot κ value) value)) (entries : List (Entry value)) : Prop where
  joined : after.joined = done.joined ++ entries
  byRoot : after.byRoot = done.byRoot ++ tableOf groups entries
  made : List.Forall₂ (Made before done.nextRev) groups entries
  later : done.nextRev ≤ after.nextRev
  bound : ∀ entry ∈ entries, entry.rev ≤ after.nextRev

theorem rejoinGroup_spec {before : ByRoot κ value} {done : Rejoined κ value}
    (old : ∀ row ∈ before, row.2.2.rev ≤ done.nextRev) (group : Group (Slot κ value) value) :
    ∃ entry, Rejoins before done (rejoinGroup before done group) [group] [entry] := by
  unfold rejoinGroup
  dsimp only
  cases held : (before.lookup group.root.1.cid).filter (·.1 = group.sig) with
  | some previous =>
      obtain ⟨sig, entry⟩ := previous
      obtain ⟨found, same⟩ := Option.filter_eq_some_iff.mp held
      obtain rfl : sig = group.sig := by simpa using same
      refine ⟨entry, rfl, rfl, .cons (.reused found) .nil, le_rfl, fun other member => ?_⟩
      obtain ⟨front, back, split, _⟩ := List.lookup_eq_some_iff.mp found
      rw [List.mem_singleton.mp member]
      exact old (group.root.1.cid, group.sig, entry)
        (split ▸ List.mem_append_right _ List.mem_cons_self)
  | none =>
      have stale : ∀ row, before.lookup group.root.1.cid = some row → row.1 ≠ group.sig := by
        intro row found
        simpa [found] using held
      refine ⟨_, rfl, rfl, .cons (.fresh ⟨stale, Nat.lt_succ_self _, rfl, rfl, rfl⟩) .nil,
        Nat.le_succ _, fun other member => ?_⟩
      rw [List.mem_singleton.mp member]

theorem rejoin_spec {before : ByRoot κ value} (groups : List (Group (Slot κ value) value))
    {done : Rejoined κ value} (old : ∀ row ∈ before, row.2.2.rev ≤ done.nextRev) :
    ∃ entries, Rejoins before done (groups.foldl (rejoinGroup before) done) groups entries := by
  induction groups generalizing done with
  | nil => exact ⟨[], by simp, by simp [tableOf], .nil, le_rfl, by intros; contradiction⟩
  | cons group rest ih =>
      obtain ⟨entry, first⟩ := rejoinGroup_spec old group
      obtain ⟨entries, later⟩ := @ih (rejoinGroup before done group)
        fun row member => (old row member).trans first.later
      refine ⟨entry :: entries, ?_, ?_, ?_, first.later.trans later.later, ?_⟩
      · rw [List.foldl_cons, later.joined, first.joined, List.append_assoc]
        rfl
      · rw [List.foldl_cons, later.byRoot, first.byRoot, List.append_assoc]
        rfl
      · obtain ⟨made, _⟩ := List.forall₂_cons.mp first.made
        exact .cons made (later.made.imp fun _ _ made => made.lower first.later)
      · intro other member
        rcases List.mem_cons.mp member with rfl | inside
        · exact (first.bound other List.mem_cons_self).trans later.later
        · exact later.bound other inside

/-! ## The tracker's state -/

/-- The joined entries and the table are those of the slots' groups. -/
structure Described (tracker : Tracker κ value) : Prop where
  entries : List.Forall₂ (fun group entry => entry.message = group.message ∧
    entry.id = group.message.id) (groupAll (decoded tracker.slots)) tracker.joined
  table : tracker.byRoot = tableOf (groupAll (decoded tracker.slots)) tracker.joined
  bound : ∀ entry ∈ tracker.joined, entry.rev ≤ tracker.nextRev

omit [DecidableEq κ] [DecidableEq value] in
/-- Revisions tell a group: where its signature stands, nothing of it has changed. -/
theorem group_of_sig {dirty : List κ} {before after : List (Slot κ value)} {floor : Nat}
    (revs : (before.map Slot.rawRev).Nodup) (bound : ∀ slot ∈ before, slot.rawRev ≤ floor)
    (follows : Follows dirty before after floor) {old new : Group (Slot κ value) value}
    (was : old ∈ groupAll (decoded before)) (is : new ∈ groupAll (decoded after))
    (same : new.sig = old.sig) : new = old := by
  have members : new.members = old.members := by
    apply eq_of_map_eq same
    intro first inside second standing rev
    obtain ⟨placed, entry⟩ := mem_decoded (members_of_group _ new is first inside)
    obtain ⟨stood, oldEntry⟩ := mem_decoded (members_of_group _ old was second standing)
    have low := bound second.1 stood
    have kept : first.1 ∈ before := by
      rcases follows.origin first.1 placed with early | late
      · exact early
      · omega
    have slot := List.inj_on_of_nodup_map revs kept stood rev
    rw [slot, oldEntry] at entry
    exact Prod.ext slot (Option.some.inj entry).symm
  obtain ⟨root, rest⟩ := List.cons.inj members
  cases old
  cases new
  exact congrArg₂ _ root rest

/-- The entries of a rejoin describe the new groups, whether reused or made. -/
theorem rejoin_described {dirty : List κ} {before tracker : Tracker κ value} (reset : Bool)
    (described : Described before)
    (revs : (before.slots.map Slot.rawRev).Nodup)
    (bound : ∀ slot ∈ before.slots, slot.rawRev ≤ before.nextRev)
    (follows : Follows dirty before.slots tracker.slots before.nextRev)
    (table : tracker.byRoot = before.byRoot) (later : before.nextRev ≤ tracker.nextRev) :
    Described (tracker.rejoin reset).1 ∧ tracker.nextRev ≤ (tracker.rejoin reset).1.nextRev ∧
      List.Forall₂ (Made before.byRoot tracker.nextRev) (groupAll (decoded tracker.slots))
        (tracker.rejoin reset).1.joined := by
  have old : ∀ row ∈ tracker.byRoot, row.2.2.rev ≤ tracker.nextRev := by
    intro row member
    rw [table, described.table] at member
    obtain ⟨group, entry, inside, rfl⟩ := mem_tableOf member
    exact (described.bound entry (List.of_mem_zip inside).2).trans later
  obtain ⟨entries, joined, byRoot, made, above, below⟩ := rejoin_spec
    (groupAll (decoded tracker.slots)) (show ∀ row ∈ tracker.byRoot, row.2.2.rev ≤
      ({ nextRev := tracker.nextRev } : Rejoined κ value).nextRev from old)
  have joined : (tracker.rejoin reset).1.joined = entries := joined
  have byRoot : (tracker.rejoin reset).1.byRoot =
    tableOf (groupAll (decoded tracker.slots)) entries := byRoot
  rw [table] at made
  refine ⟨⟨?_, ?_, ?_⟩, above, ?_⟩
  · rw [joined]
    show List.Forall₂ _ (groupAll (decoded tracker.slots)) entries
    have listed : ∀ group ∈ groupAll (decoded tracker.slots), ∀ entry,
        Made before.byRoot tracker.nextRev group entry →
        entry.message = group.message ∧ entry.id = group.message.id := by
      intro group member entry made
      cases made with
      | fresh fresh => exact ⟨fresh.message, fresh.id⟩
      | reused held =>
          have row := mem_of_lookup held
          rw [described.table] at row
          obtain ⟨oldGroup, oldEntry, inside, same⟩ := mem_tableOf row
          simp only [Prod.mk.injEq] at same
          obtain ⟨_, sig, rfl⟩ := same
          rw [group_of_sig revs bound follows (List.of_mem_zip inside).1 member sig]
          exact List.forall₂_iff_zip.mp described.entries |>.2 inside
    exact List.forall₂_iff_zip.mpr ⟨made.length_eq, fun inside =>
      listed _ (List.of_mem_zip inside).1 _ ((List.forall₂_iff_zip.mp made).2 inside)⟩
  · rw [joined]
    exact byRoot
  · rw [joined]
    exact below
  · rw [joined]
    exact made

omit [DecidableEq value] in
/-- An entry is found under its group's root. -/
theorem lookup_tableOf {groups : List (Group (Slot κ value) value)} {entries : List (Entry value)}
    (distinct : (groups.map (·.root.1.cid)).Nodup) {group : Group (Slot κ value) value}
    {entry : Entry value} (inside : (group, entry) ∈ groups.zip entries) :
    (tableOf groups entries).lookup group.root.1.cid = some (group.sig, entry) := by
  induction groups generalizing entries with
  | nil => cases inside
  | cons first rest ih =>
      cases entries with
      | nil => cases inside
      | cons other entries =>
          obtain ⟨alone, distinct⟩ := List.nodup_cons.mp distinct
          rcases List.mem_cons.mp inside with here | later
          · obtain ⟨rfl, rfl⟩ := Prod.mk.inj here
            exact List.lookup_cons_self
          · have different : group.root.1.cid ≠ first.root.1.cid := by
              intro same
              exact alone (List.mem_map.mpr ⟨group, (List.of_mem_zip later).1, same⟩)
            show List.lookup _ ((first.root.1.cid, first.sig, other) :: tableOf rest entries) = _
            rw [List.lookup_cons, beq_false_of_ne different]
            exact ih distinct later

end Zeron.Transcript
