import Zeron.Transcript.Groups
import Mathlib.Data.List.Forall2

namespace Zeron.Doc

open Zeron.Transcript

/-! # Joined continuations

Joining puts every entry in one group, in list order.  A list that is joined without its
first entries shows the same messages where every continuation still finds its root.
-/

variable {value : Type}

/-! ## Groups of a list -/

/-- The entries with their places. -/
def placed (entries : List (SessionMessageEntry value)) : List (Nat × SessionMessageEntry value) :=
  entries.mapIdx fun place entry => (place, entry)

/-- Every entry is in one group, in list order, and continues the root of its group. -/
structure Joins (members : List (Nat × SessionMessageEntry value))
    (groups : List (Group Nat value)) : Prop where
  once : (groups.flatMap Group.members).Perm members
  order : ∀ group ∈ groups, group.members.Sublist members
  parts : ∀ group ∈ groups, group.message.parts = group.members.flatMap fun member => member.2.parts
  continues : ∀ group ∈ groups, ∀ member ∈ group.rest,
    member.2.continuationOf = some group.root.2.id
  root : ∀ group ∈ groups, group.rest ≠ [] → group.root.2.continuationOf = none
  /-- A continuation is alone only where no root of its id is before it. -/
  alone : ∀ group ∈ groups, ∀ root, group.root.2.continuationOf = some root →
    ∀ member ∈ members, member.1 < group.root.1 → member.2.continuationOf = none →
      member.2.id ≠ root

/-- The join keeps every part once. -/
def JoinsInOrder (entries : List (SessionMessageEntry value)) : Prop :=
  ∃ groups, joinContinuationEntries entries = groups.map Group.message ∧
    Joins (placed entries) groups

/-- The groups of the members so far, with their table of roots. -/
structure Grouped (members : List (Nat × SessionMessageEntry value)) (grouping : Grouping Nat value) :
    Prop where
  joins : Joins members grouping.groups
  found : ∀ root index, grouping.rootGroup.lookup root = some index →
    ∃ group, grouping.groups[index]? = some group ∧ group.root.2.id = root ∧
      group.root.2.continuationOf = none
  missing : ∀ root, grouping.rootGroup.lookup root = none → ∀ member ∈ members,
    member.2.continuationOf = none → member.2.id ≠ root

theorem parts_foldl (members : List (Nat × SessionMessageEntry value))
    (message : SessionMessageEntry value) :
    ((members.map Prod.snd).foldl extend message).parts =
      message.parts ++ members.flatMap fun member => member.2.parts := by
  induction members generalizing message with
  | nil => simp
  | cons member rest ih =>
      rw [List.map_cons, List.foldl_cons, ih]
      simp [extend]

theorem Group.parts_message (group : Group Nat value) :
    group.message.parts = group.members.flatMap fun member => member.2.parts :=
  parts_foldl group.rest group.root.2

theorem flatMap_modify {groups : List (Group Nat value)} {index : Nat} {group : Group Nat value}
    (member : Nat × SessionMessageEntry value) (isThere : groups[index]? = some group) :
    ((groups.modify index fun group => { group with rest := group.rest ++ [member] }).flatMap
      Group.members).Perm (groups.flatMap Group.members ++ [member]) := by
  induction groups generalizing index with
  | nil => cases isThere
  | cons first rest ih =>
      cases index with
      | zero =>
          rw [List.modify_zero_cons, List.flatMap_cons, List.flatMap_cons]
          simp only [Group.members, List.cons_append, List.append_assoc, List.nil_append]
          exact ((List.perm_append_singleton _ _).symm.append_left _).cons _
      | succ index =>
          rw [List.modify_succ_cons, List.flatMap_cons, List.flatMap_cons, List.append_assoc]
          exact (ih isThere).append_left _

theorem mem_modify_at {α : Type} {elements : List α} {index : Nat} {change : α → α} {element : α}
    (member : element ∈ elements.modify index change) :
    element ∈ elements ∨ ∃ old, elements[index]? = some old ∧ element = change old := by
  obtain ⟨place, isThere⟩ := List.mem_iff_getElem?.mp member
  rw [List.getElem?_modify] at isThere
  obtain ⟨old, isOld, rfl⟩ := Option.map_eq_some_iff.mp isThere
  by_cases same : index = place
  · rw [if_pos same]
    exact .inr ⟨old, same ▸ isOld, rfl⟩
  · rw [if_neg same]
    exact .inl (List.mem_of_getElem? isOld)

theorem Grouped.add {members : List (Nat × SessionMessageEntry value)} {grouping : Grouping Nat value}
    {member : Nat × SessionMessageEntry value} (grouped : Grouped members grouping)
    (later : ∀ other ∈ members, other.1 < member.1) :
    Grouped (members ++ [member]) (grouping.add member) := by
  have rootOf : ∀ group ∈ grouping.groups, group.root ∈ members := by
    intro group inside
    exact (grouped.joins.order group inside).subset List.mem_cons_self
  have alone : ∀ group ∈ grouping.groups, ∀ root, group.root.2.continuationOf = some root →
      ∀ other ∈ members ++ [member], other.1 < group.root.1 → other.2.continuationOf = none →
        other.2.id ≠ root := by
    intro group inside root isRoot other listed before isNone
    rcases List.mem_append.mp listed with old | new
    · exact grouped.joins.alone group inside root isRoot other old before isNone
    · rw [List.mem_singleton.mp new] at before
      have after := later group.root (rootOf group inside)
      omega
  cases isFound : member.2.continuationOf.bind fun root => grouping.rootGroup.lookup root with
  | some index =>
      obtain ⟨root, isRoot, isIndex⟩ := Option.bind_eq_some_iff.mp isFound
      obtain ⟨group, isGroup, isId, isNone⟩ := grouped.found root index isIndex
      have added : grouping.add member = { grouping with
          groups := grouping.groups.modify index fun group =>
            { group with rest := group.rest ++ [member] } } := by
        unfold Grouping.add
        rw [isFound]
      rw [added]
      refine ⟨⟨?_, ?_, ?_, ?_, ?_, ?_⟩, ?_, ?_⟩
      · exact (flatMap_modify member isGroup).trans (grouped.joins.once.append_right _)
      · intro joined inside
        rcases mem_modify_at inside with old | ⟨old, isOld, rfl⟩
        · exact (grouped.joins.order joined old).trans (List.sublist_append_left _ _)
        · have order := grouped.joins.order old (List.mem_of_getElem? isOld)
          exact (order.append (List.Sublist.refl [member]) :)
      · exact fun joined _ => Group.parts_message joined
      · intro joined inside other rest
        rcases mem_modify_at inside with old | ⟨old, isOld, rfl⟩
        · exact grouped.joins.continues joined old other rest
        · rcases List.mem_append.mp rest with before | new
          · exact grouped.joins.continues old (List.mem_of_getElem? isOld) other before
          · rw [isGroup] at isOld
            cases isOld
            rw [List.mem_singleton.mp new, isRoot, ← isId]
      · intro joined inside rest
        rcases mem_modify_at inside with old | ⟨old, isOld, rfl⟩
        · exact grouped.joins.root joined old rest
        · rw [isGroup] at isOld
          cases isOld
          exact isNone
      · intro joined inside
        rcases mem_modify_at inside with old | ⟨old, isOld, rfl⟩
        · exact alone joined old
        · exact alone old (List.mem_of_getElem? isOld)
      · intro name place isPlace
        obtain ⟨old, isOld, named, open_⟩ := grouped.found name place isPlace
        rw [List.getElem?_modify, isOld]
        refine ⟨_, rfl, ?_⟩
        split <;> exact ⟨named, open_⟩
      · intro name missing other listed open_
        rcases List.mem_append.mp listed with old | new
        · exact grouped.missing name missing other old open_
        · rw [List.mem_singleton.mp new, isRoot] at open_
          cases open_
  | none =>
      have added : grouping.add member =
          { groups := grouping.groups ++ [{ root := member }]
            rootGroup :=
              if member.2.continuationOf.isNone then
                (member.2.id, grouping.groups.length) :: grouping.rootGroup
              else grouping.rootGroup } := by
        unfold Grouping.add
        rw [isFound]
      have table : ∀ name, (grouping.add member).rootGroup.lookup name =
          if member.2.continuationOf = none ∧ name = member.2.id then some grouping.groups.length
          else grouping.rootGroup.lookup name := by
        intro name
        rw [added]
        cases member.2.continuationOf with
        | none =>
            by_cases same : name = member.2.id
            · simp [same]
            · simp [List.lookup_cons, beq_false_of_ne same, same]
        | some root => simp
      rw [added] at table ⊢
      refine ⟨⟨?_, ?_, ?_, ?_, ?_, ?_⟩, ?_, ?_⟩
      · rw [List.flatMap_append]
        exact grouped.joins.once.append_right [member]
      · intro joined inside
        rcases List.mem_append.mp inside with old | new
        · exact (grouped.joins.order joined old).trans (List.sublist_append_left _ _)
        · rw [List.mem_singleton.mp new]
          exact List.sublist_append_right members [member]
      · exact fun joined _ => Group.parts_message joined
      · intro joined inside
        rcases List.mem_append.mp inside with old | new
        · exact grouped.joins.continues joined old
        · rw [List.mem_singleton.mp new]
          intros; contradiction
      · intro joined inside rest
        rcases List.mem_append.mp inside with old | new
        · exact grouped.joins.root joined old rest
        · rw [List.mem_singleton.mp new] at rest
          exact absurd rfl rest
      · intro joined inside
        rcases List.mem_append.mp inside with old | new
        · exact alone joined old
        · rw [List.mem_singleton.mp new]
          intro root isRoot other listed before open_
          rcases List.mem_append.mp listed with old | same
          · rw [isRoot] at isFound
            exact grouped.missing root isFound other old open_
          · rw [List.mem_singleton.mp same] at before
            exact absurd before (lt_irrefl _)
      · intro name place isPlace
        rw [table] at isPlace
        split at isPlace
        · rename_i new
          cases isPlace
          rw [List.getElem?_concat_length]
          exact ⟨_, rfl, new.2.symm, new.1⟩
        · obtain ⟨old, isOld, named⟩ := grouped.found name place isPlace
          exact ⟨old, List.getElem?_append_left (List.getElem?_eq_some_iff.mp isOld).1 ▸ isOld, named⟩
      · intro name missing other listed open_
        rw [table] at missing
        split at missing
        · cases missing
        · rename_i old
          rcases List.mem_append.mp listed with before | new
          · exact grouped.missing name missing other before open_
          · rw [List.mem_singleton.mp new] at open_ ⊢
            exact fun same => old ⟨open_, same.symm⟩

theorem Grouped.foldl {done : List (Nat × SessionMessageEntry value)} {grouping : Grouping Nat value}
    (grouped : Grouped done grouping) (members : List (Nat × SessionMessageEntry value))
    (increasing : (done ++ members).Pairwise fun first second => first.1 < second.1) :
    Grouped (done ++ members) (members.foldl Grouping.add grouping) := by
  induction members generalizing done grouping with
  | nil =>
      rw [List.append_nil]
      exact grouped
  | cons member rest ih =>
      rw [List.append_cons] at increasing ⊢
      have later : ∀ other ∈ done, other.1 < member.1 := by
        intro other inside
        have before := (List.pairwise_append.mp (List.pairwise_append.mp increasing).1).2.2
        exact before other inside member (List.mem_singleton.mpr rfl)
      exact ih (grouped.add later) increasing

theorem placed_increasing (entries : List (SessionMessageEntry value)) :
    (placed entries).Pairwise fun first second => first.1 < second.1 := by
  unfold placed
  rw [List.pairwise_iff_getElem]
  intro first second _ _ before
  rw [List.getElem_mapIdx, List.getElem_mapIdx]
  exact before

theorem map_snd_placed (entries : List (SessionMessageEntry value)) :
    (placed entries).map Prod.snd = entries := by
  unfold placed
  apply List.ext_getElem?
  intro place
  rw [List.getElem?_map, List.getElem?_mapIdx, Option.map_map]
  exact Option.map_id'

theorem joinsInOrder (entries : List (SessionMessageEntry value)) : JoinsInOrder entries := by
  have start : Grouped [] ({} : Grouping Nat value) := by
    refine ⟨⟨List.Perm.nil, ?_, ?_, ?_, ?_, ?_⟩, ?_, ?_⟩ <;> intros <;> contradiction
  refine ⟨groupAll (placed entries), ?_, ?_⟩
  · rw [← joinContinuationEntries_eq_groups, map_snd_placed]
  · exact (start.foldl (placed entries) (placed_increasing entries)).joins

/-- The parts of what is joined are those of the entries. -/
theorem parts_perm (entries : List (SessionMessageEntry value)) :
    ((joinContinuationEntries entries).flatMap fun entry => entry.parts).Perm
      (entries.flatMap fun entry => entry.parts) := by
  obtain ⟨groups, isJoin, joins⟩ := joinsInOrder entries
  have listed : (placed entries).flatMap (fun member => member.2.parts) =
      entries.flatMap fun entry => entry.parts := by
    conv => rhs; rw [← map_snd_placed entries]
    rw [List.flatMap_map]
  rw [isJoin, List.flatMap_map, ← listed]
  have grouped : groups.flatMap (fun group => group.message.parts) =
      (groups.flatMap Group.members).flatMap fun member => member.2.parts := by
    rw [List.flatMap_assoc]
    exact List.flatMap_congr joins.parts
  rw [grouped]
  exact joins.once.flatMap_right _

/-! ## The end of a list -/

/-- A message shows the end of another. -/
structure Shows (shown whole : SessionMessageEntry value) : Prop where
  id : shown.id = whole.id
  parts : shown.parts <:+ whole.parts

theorem sublistForall₂_of_places {α β : Type} {related : α → β → Prop} {elements : List α}
    {others : List β} (place : Nat → Nat)
    (increasing : ∀ first second, first < second → second < elements.length →
      place first < place second)
    (held : ∀ index element, elements[index]? = some element →
      ∃ other, others[place index]? = some other ∧ related element other) :
    List.SublistForall₂ related elements others := by
  induction others generalizing elements place with
  | nil =>
      cases elements with
      | nil => exact .nil
      | cons element rest =>
          obtain ⟨_, isOther, _⟩ := held 0 element rfl
          cases isOther
  | cons other others ih =>
      cases elements with
      | nil => exact .nil
      | cons element rest =>
          by_cases isFirst : place 0 = 0
          · obtain ⟨found, isFound, fits⟩ := held 0 element rfl
            rw [isFirst] at isFound
            cases isFound
            refine .cons fits (ih (fun index => place (index + 1) - 1) ?_ ?_)
            · intro first second before inside
              have positive := increasing 0 (first + 1) (by omega) (by simp; omega)
              have step := increasing (first + 1) (second + 1) (by omega) (by simp; omega)
              omega
            · intro index found isFound
              obtain ⟨other, isOther, fits⟩ := held (index + 1) found isFound
              have inside := (List.getElem?_eq_some_iff.mp isFound).1
              have positive := increasing 0 (index + 1) (by omega) (by simp; omega)
              refine ⟨other, ?_, fits⟩
              obtain ⟨before, isBefore⟩ : ∃ before, place (index + 1) = before + 1 :=
                ⟨place (index + 1) - 1, by omega⟩
              rw [isBefore] at isOther ⊢
              exact isOther
          · refine .cons_right (ih (fun index => place index - 1) ?_ ?_)
            · intro first second before inside
              have step := increasing first second before inside
              have positive : place 0 ≤ place first := by
                cases first with
                | zero => exact le_refl _
                | succ first => exact (increasing 0 (first + 1) (by omega) (by omega)).le
              omega
            · intro index found isFound
              obtain ⟨other, isOther, fits⟩ := held index found isFound
              have inside := (List.getElem?_eq_some_iff.mp isFound).1
              have positive : place 0 ≤ place index := by
                cases index with
                | zero => exact le_refl _
                | succ index => exact (increasing 0 (index + 1) (by omega) inside).le
              refine ⟨other, ?_, fits⟩
              obtain ⟨before, isBefore⟩ : ∃ before, place index = before + 1 :=
                ⟨place index - 1, by omega⟩
              rw [isBefore] at isOther ⊢
              exact isOther

/-- What is joined of a list without its first entries, beside what is joined of it all. -/
structure Shadow (shown whole : Joining value) (place : Nat → Nat) : Prop where
  increasing : ∀ first second, first < second → second < shown.out.length →
    place first < place second
  held : ∀ index message, shown.out[index]? = some message →
    ∃ full, whole.out[place index]? = some full ∧ Shows message full
  roots : ∀ root index, shown.rootIndex.lookup root = some index →
    index < shown.out.length ∧ whole.rootIndex.lookup root = some (place index)

/-- A table of roots names the messages it points to. -/
def Rooted (joining : Joining value) : Prop :=
  ∀ root index, joining.rootIndex.lookup root = some index →
    ∃ message, joining.out[index]? = some message ∧ message.id = root

/-- What an entry needs of the roots before it to be joined the same. -/
def FindsRoot (shown whole : Joining value) (seen entry : SessionMessageEntry value) : Prop :=
  (∃ root index, entry.continuationOf = some root ∧ shown.rootIndex.lookup root = some index) ∨
    seen.id = entry.id ∧
      ∀ root, entry.continuationOf = some root → whole.rootIndex.lookup root = none

theorem lookup_push (joining : Joining value) (entry : SessionMessageEntry value)
    (isRoot : entry.continuationOf = none) (name : String) :
    (joining.add entry).rootIndex.lookup name =
      if name = entry.id then some joining.out.length else joining.rootIndex.lookup name := by
  unfold Joining.add
  rw [isRoot]
  dsimp only
  rw [List.lookup_cons]
  by_cases same : name = entry.id
  · simp [same]
  · simp [beq_false_of_ne same, same]

theorem add_root (joining : Joining value) {entry : SessionMessageEntry value}
    (isRoot : entry.continuationOf = none) : (joining.add entry).out = joining.out ++ [entry] := by
  unfold Joining.add
  rw [isRoot]

theorem add_orphan {joining : Joining value} {entry : SessionMessageEntry value} {root : String}
    (continues : entry.continuationOf = some root)
    (isMissing : joining.rootIndex.lookup root = none) :
    joining.add entry = { joining with out := joining.out ++ [entry] } := by
  unfold Joining.add
  rw [continues]
  dsimp only
  rw [isMissing]

theorem add_joined {joining : Joining value} {entry : SessionMessageEntry value} {root : String}
    {index : Nat} (continues : entry.continuationOf = some root)
    (isFound : joining.rootIndex.lookup root = some index) :
    joining.add entry = { joining with out := joining.out.modify index (extend · entry) } := by
  unfold Joining.add
  rw [continues]
  dsimp only
  rw [isFound]

theorem Rooted.add {joining : Joining value} (rooted : Rooted joining)
    (entry : SessionMessageEntry value) : Rooted (joining.add entry) := by
  intro name index isIndex
  cases continues : entry.continuationOf with
  | none =>
      rw [lookup_push joining entry continues] at isIndex
      rw [add_root joining continues]
      split at isIndex
      · rename_i same
        cases isIndex
        exact ⟨entry, List.getElem?_concat_length, same.symm⟩
      · obtain ⟨message, isMessage, named⟩ := rooted name index isIndex
        exact ⟨message, List.getElem?_append_left (List.getElem?_eq_some_iff.mp isMessage).1 ▸ isMessage,
          named⟩
  | some root =>
      cases isFound : joining.rootIndex.lookup root with
      | none =>
          rw [add_orphan continues isFound] at isIndex ⊢
          obtain ⟨message, isMessage, named⟩ := rooted name index isIndex
          exact ⟨message, List.getElem?_append_left (List.getElem?_eq_some_iff.mp isMessage).1 ▸ isMessage,
            named⟩
      | some place =>
          rw [add_joined continues isFound] at isIndex ⊢
          obtain ⟨message, isMessage, named⟩ := rooted name index isIndex
          dsimp only
          rw [List.getElem?_modify, isMessage]
          refine ⟨_, rfl, ?_⟩
          split
          · exact named
          · exact named

theorem Rooted.foldl {joining : Joining value} (rooted : Rooted joining)
    (entries : List (SessionMessageEntry value)) : Rooted (entries.foldl Joining.add joining) := by
  induction entries generalizing joining with
  | nil => exact rooted
  | cons entry rest ih => exact ih (rooted.add entry)

theorem Shadow.below {shown whole : Joining value} {place : Nat → Nat}
    (shadow : Shadow shown whole place) {index : Nat} (inside : index < shown.out.length) :
    place index < whole.out.length := by
  obtain ⟨full, isFull, _⟩ := shadow.held index _ (List.getElem?_eq_getElem inside)
  exact (List.getElem?_eq_some_iff.mp isFull).1

theorem lookup_add (joining : Joining value) (entry : SessionMessageEntry value) (root : String) :
    ((joining.add entry).rootIndex.lookup root).isSome = true ↔
      (joining.rootIndex.lookup root).isSome = true ∨
        entry.continuationOf = none ∧ entry.id = root := by
  cases continues : entry.continuationOf with
  | none =>
      rw [lookup_push joining entry continues]
      by_cases same : root = entry.id
      · simp [same]
      · simp [same, Ne.symm same]
  | some name =>
      cases isFound : joining.rootIndex.lookup name with
      | none => simp [add_orphan continues isFound]
      | some index => simp [add_joined continues isFound]

/-- The roots that a table knows. -/
theorem lookup_foldl (entries : List (SessionMessageEntry value)) (joining : Joining value)
    (root : String) :
    ((entries.foldl Joining.add joining).rootIndex.lookup root).isSome = true ↔
      (joining.rootIndex.lookup root).isSome = true ∨
        ∃ entry ∈ entries, entry.continuationOf = none ∧ entry.id = root := by
  induction entries generalizing joining with
  | nil => simp
  | cons entry rest ih =>
      rw [List.foldl_cons, ih, lookup_add, List.exists_mem_cons_iff, or_assoc]

theorem ids_add_joined {joining : Joining value} {entry : SessionMessageEntry value} {root : String}
    {index : Nat} (continues : entry.continuationOf = some root)
    (isFound : joining.rootIndex.lookup root = some index) :
    (joining.add entry).out.map (·.id) = joining.out.map (·.id) := by
  have kept : ∀ message : SessionMessageEntry value,
      (extend message entry).id = id message.id := fun _ => rfl
  rw [add_joined continues isFound]
  dsimp only
  rw [map_modify_of_eq kept, List.modify_id]

/-- The ids of what is joined: an entry that finds no root adds its own. -/
theorem ids_add (joining : Joining value) (entry : SessionMessageEntry value) :
    (∃ root index, entry.continuationOf = some root ∧ joining.rootIndex.lookup root = some index) ∧
        (joining.add entry).out.map (·.id) = joining.out.map (·.id) ∨
      (joining.add entry).out.map (·.id) = joining.out.map (·.id) ++ [entry.id] := by
  cases continues : entry.continuationOf with
  | none =>
      refine .inr ?_
      rw [add_root joining continues, List.map_append]
      rfl
  | some root =>
      cases isFound : joining.rootIndex.lookup root with
      | none =>
          refine .inr ?_
          rw [add_orphan continues isFound, List.map_append]
          rfl
      | some index => exact .inl ⟨⟨root, index, rfl, isFound⟩, ids_add_joined continues isFound⟩

theorem ids_begin (entries : List (SessionMessageEntry value)) (joining : Joining value) :
    joining.out.map (·.id) <+: (entries.foldl Joining.add joining).out.map (·.id) := by
  induction entries generalizing joining with
  | nil => exact List.prefix_refl _
  | cons entry rest ih =>
      refine List.IsPrefix.trans ?_ (ih (joining.add entry))
      rcases ids_add joining entry with ⟨_, same⟩ | added
      · rw [same]
      · rw [added]
        exact List.prefix_append _ _

theorem ids_sublist (entries : List (SessionMessageEntry value)) (joining : Joining value) :
    ((entries.foldl Joining.add joining).out.map (·.id)).Sublist
      (joining.out.map (·.id) ++ entries.map (·.id)) := by
  induction entries generalizing joining with
  | nil => simp
  | cons entry rest ih =>
      refine (ih (joining.add entry)).trans ?_
      rw [List.map_cons]
      rcases ids_add joining entry with ⟨_, same⟩ | added
      · rw [same]
        exact (List.sublist_cons_self _ _).append_left _
      · rw [added, List.append_assoc, List.singleton_append]

/-- Of a continuation that finds its root only the parts and the duration count. -/
theorem add_same {joining : Joining value} {seen entry : SessionMessageEntry value} {root : String}
    {index : Nat} (continues : seen.continuationOf = entry.continuationOf)
    (same : seen.parts = entry.parts) (duration : seen.durationMs = entry.durationMs)
    (isRoot : entry.continuationOf = some root)
    (isFound : joining.rootIndex.lookup root = some index) :
    joining.add seen = joining.add entry := by
  rw [add_joined (continues.trans isRoot) isFound, add_joined isRoot isFound]
  unfold extend
  rw [same, duration]

/-- Where the messages of the window are after one that both lists append. -/
def placeNext (shown whole : Joining value) (place : Nat → Nat) (index : Nat) : Nat :=
  if index < shown.out.length then place index else whole.out.length

theorem Shadow.push {shown whole : Joining value} {place : Nat → Nat}
    (shadow : Shadow shown whole place) {seen entry : SessionMessageEntry value}
    (shows : Shows seen entry) {table full : List (String × Nat)}
    (roots : ∀ root index, table.lookup root = some index →
      index < shown.out.length + 1 ∧
        full.lookup root = some (placeNext shown whole place index)) :
    Shadow ⟨shown.out ++ [seen], table⟩ ⟨whole.out ++ [entry], full⟩
      (placeNext shown whole place) := by
  constructor
  · intro first second before inside
    rw [List.length_append, List.length_singleton] at inside
    unfold placeNext
    rw [if_pos (by omega)]
    split
    · rename_i old
      exact shadow.increasing first second before old
    · exact shadow.below (by omega)
  · intro index message isMessage
    unfold placeNext
    by_cases old : index < shown.out.length
    · rw [List.getElem?_append_left old] at isMessage
      obtain ⟨found, isFound, fits⟩ := shadow.held index message isMessage
      rw [if_pos old]
      exact ⟨found, List.getElem?_append_left (shadow.below old) ▸ isFound, fits⟩
    · rw [if_neg old]
      rw [List.getElem?_append_right (by omega), List.getElem?_singleton] at isMessage
      split at isMessage
      · cases isMessage
        exact ⟨entry, List.getElem?_concat_length, shows⟩
      · cases isMessage
  · intro root index isIndex
    rw [List.length_append, List.length_singleton]
    exact roots root index isIndex

theorem Shows.extend {message full seen entry : SessionMessageEntry value}
    (shows : Shows message full) (same : seen.parts = entry.parts) :
    Shows (extend message seen) (extend full entry) := by
  obtain ⟨before, isWhole⟩ := shows.parts
  refine ⟨shows.id, before, ?_⟩
  unfold Zeron.Transcript.extend
  rw [same, ← isWhole, List.append_assoc]

theorem Shadow.add {shown whole : Joining value} {place : Nat → Nat}
    (shadow : Shadow shown whole place) {seen entry : SessionMessageEntry value}
    (continues : seen.continuationOf = entry.continuationOf) (same : seen.parts = entry.parts)
    (finds : FindsRoot shown whole seen entry) :
    ∃ place, Shadow (shown.add seen) (whole.add entry) place := by
  rcases finds with ⟨root, index, isRoot, isIndex⟩ | ⟨sameId, isMissing⟩
  · obtain ⟨inside, isPlace⟩ := shadow.roots root index isIndex
    rw [add_joined (continues.trans isRoot) isIndex, add_joined isRoot isPlace]
    refine ⟨place, ?_, ?_, ?_⟩
    · intro first second before inside
      rw [List.length_modify] at inside
      exact shadow.increasing first second before inside
    · intro other message isMessage
      dsimp only at isMessage ⊢
      rw [List.getElem?_modify] at isMessage
      obtain ⟨old, isOld, rfl⟩ := Option.map_eq_some_iff.mp isMessage
      obtain ⟨full, isFull, shows⟩ := shadow.held other old isOld
      rw [List.getElem?_modify, isFull]
      refine ⟨_, rfl, ?_⟩
      dsimp only
      by_cases here : index = other
      · rw [if_pos here, if_pos (congrArg place here)]
        exact shows.extend same
      · have apart : place index ≠ place other := by
          have old := (List.getElem?_eq_some_iff.mp isOld).1
          rcases Nat.lt_or_gt_of_ne here with before | after
          · have := shadow.increasing index other before old
            omega
          · have := shadow.increasing other index after inside
            omega
        rw [if_neg here, if_neg apart]
        exact shows
    · intro name other isOther
      dsimp only
      rw [List.length_modify]
      exact shadow.roots name other isOther
  · have shows : Shows seen entry := ⟨sameId, same ▸ List.suffix_refl _⟩
    have old : ∀ name index, shown.rootIndex.lookup name = some index →
        index < shown.out.length + 1 ∧
          whole.rootIndex.lookup name = some (placeNext shown whole place index) := by
      intro name index isIndex
      obtain ⟨inside, isPlace⟩ := shadow.roots name index isIndex
      refine ⟨by omega, ?_⟩
      unfold placeNext
      rw [if_pos inside]
      exact isPlace
    cases isRoot : entry.continuationOf with
    | some root =>
        have isNone : shown.rootIndex.lookup root = none := by
          cases isFound : shown.rootIndex.lookup root with
          | none => rfl
          | some index =>
              have isPlace := (shadow.roots root index isFound).2
              rw [isMissing root isRoot] at isPlace
              cases isPlace
        rw [add_orphan (continues.trans isRoot) isNone, add_orphan isRoot (isMissing root isRoot)]
        exact ⟨_, shadow.push shows old⟩
    | none =>
        refine ⟨placeNext shown whole place, ?_⟩
        have pushed := @Shadow.push value shown whole place shadow seen entry shows
          (shown.add seen).rootIndex (whole.add entry).rootIndex ?_
        · rw [← add_root shown (continues.trans isRoot), ← add_root whole isRoot] at pushed
          exact pushed
        · intro name index isIndex
          rw [lookup_push shown seen (continues.trans isRoot)] at isIndex
          rw [lookup_push whole entry isRoot, ← sameId]
          split at isIndex
          · rename_i new
            cases isIndex
            rw [if_pos new]
            unfold placeNext
            rw [if_neg (lt_irrefl _)]
            exact ⟨Nat.lt_succ_self _, rfl⟩
          · rename_i other
            rw [if_neg other]
            exact old name index isIndex

/-- The loop over the rest of the window. -/
theorem Shadow.foldl {shown whole : Joining value} {place : Nat → Nat}
    (shadow : Shadow shown whole place)
    (pairs : List (SessionMessageEntry value × SessionMessageEntry value))
    (alike : ∀ pair ∈ pairs, pair.1.continuationOf = pair.2.continuationOf ∧
      pair.1.parts = pair.2.parts)
    (finds : ∀ mid pair rest, pairs = mid ++ pair :: rest →
      FindsRoot ((mid.map Prod.fst).foldl Joining.add shown)
        ((mid.map Prod.snd).foldl Joining.add whole) pair.1 pair.2) :
    ∃ place, Shadow ((pairs.map Prod.fst).foldl Joining.add shown)
      ((pairs.map Prod.snd).foldl Joining.add whole) place := by
  induction pairs generalizing shown whole place with
  | nil => exact ⟨place, shadow⟩
  | cons pair rest ih =>
      obtain ⟨continues, same⟩ := alike pair List.mem_cons_self
      obtain ⟨next, added⟩ := shadow.add continues same (finds [] pair rest rfl)
      apply ih added fun other inside => alike other (List.mem_cons_of_mem _ inside)
      intro mid other later split
      exact finds (pair :: mid) other later (by rw [split, List.cons_append])

/-- The first entry of the window: a root, or a continuation under the name of its root. -/
theorem Shadow.first {whole : Joining value} (rooted : Rooted whole)
    {seen entry : SessionMessageEntry value} (opens : seen.continuationOf = none)
    (ends : seen.parts <:+ entry.parts)
    (named : (entry.continuationOf = none ∧ seen.id = entry.id) ∨
      ∃ index, entry.continuationOf = some seen.id ∧ whole.rootIndex.lookup seen.id = some index) :
    ∃ place, Shadow (({} : Joining value).add seen) (whole.add entry) place := by
  have shown : ({} : Joining value).add seen = ⟨[seen], [(seen.id, 0)]⟩ := by
    unfold Joining.add
    rw [opens]
    rfl
  have only : ∀ {index : Nat} {message : SessionMessageEntry value},
      [seen][index]? = some message → index = 0 ∧ message = seen := by
    intro index message isMessage
    rw [List.getElem?_singleton] at isMessage
    split at isMessage
    · rename_i isFirst
      cases isMessage
      exact ⟨isFirst, rfl⟩
    · cases isMessage
  have onlyRoot : ∀ {name : String} {index : Nat},
      List.lookup name [(seen.id, 0)] = some index → name = seen.id ∧ index = 0 := by
    intro name index isIndex
    rw [List.lookup_cons] at isIndex
    split at isIndex
    · rename_i same
      cases isIndex
      exact ⟨eq_of_beq same, rfl⟩
    · cases isIndex
  rw [shown]
  rcases named with ⟨isRoot, sameId⟩ | ⟨index, continues, isIndex⟩
  · refine ⟨fun _ => whole.out.length, ?_, ?_, ?_⟩
    · intro first second before inside
      rw [List.length_singleton] at inside
      omega
    · intro place message isMessage
      rw [add_root whole isRoot, (only isMessage).2]
      exact ⟨entry, List.getElem?_concat_length, sameId, ends⟩
    · intro name place isPlace
      obtain ⟨rfl, rfl⟩ := onlyRoot isPlace
      rw [lookup_push whole entry isRoot, if_pos sameId]
      exact ⟨Nat.zero_lt_one, rfl⟩
  · obtain ⟨message, isMessage, isNamed⟩ := rooted seen.id index isIndex
    rw [add_joined continues isIndex]
    refine ⟨fun _ => index, ?_, ?_, ?_⟩
    · intro first second before inside
      rw [List.length_singleton] at inside
      omega
    · intro place shownMessage isShown
      dsimp only
      rw [List.getElem?_modify, isMessage, (only isShown).2]
      refine ⟨_, rfl, ?_⟩
      dsimp only
      rw [if_pos rfl]
      exact ⟨isNamed.symm, ends.trans (List.suffix_append _ _)⟩
    · intro name place isPlace
      obtain ⟨rfl, rfl⟩ := onlyRoot isPlace
      exact ⟨Nat.zero_lt_one, isIndex⟩

theorem joinContinuationEntries_eq_foldl (entries : List (SessionMessageEntry value)) :
    joinContinuationEntries entries = (entries.foldl Joining.add {}).out := by
  unfold joinContinuationEntries
  split
  · rfl
  · rename_i none
    rw [foldl_joining_of_roots]
    · rfl
    · intro entry member
      by_contra continues
      exact none (List.any_eq_true.mpr ⟨entry, member, Option.isSome_iff_ne_none.mpr continues⟩)

theorem Shadow.sublist {shown whole : Joining value} {place : Nat → Nat}
    (shadow : Shadow shown whole place) : List.SublistForall₂ Shows shown.out whole.out :=
  sublistForall₂_of_places place shadow.increasing shadow.held

end Zeron.Doc
