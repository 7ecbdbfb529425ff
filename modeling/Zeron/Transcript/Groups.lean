import Zeron.Transcript.Tracker

namespace Zeron.Transcript

/-! # Groups and the whole decode

The tracker's grouping and the join of a whole list are one loop over the same
table of roots: what one appends to a group the other appends to its message.
-/

variable {κ raw value τ υ : Type}

/-! ## Both loops -/

theorem map_modify_of_eq {α β : Type} {project : α → β} {change : α → α} {effect : β → β}
    (same : ∀ element, project (change element) = effect (project element)) (elements : List α)
    (index : Nat) :
    (elements.modify index change).map project = (elements.map project).modify index effect := by
  induction elements generalizing index with
  | nil => cases index <;> rfl
  | cons element rest ih =>
      cases index with
      | zero => simp [List.modify, same]
      | succ index => simp [List.modify_succ_cons, ih]

theorem mem_modify {α : Type} {elements : List α} {index : Nat} {change : α → α} {element : α}
    (member : element ∈ elements.modify index change) :
    element ∈ elements ∨ ∃ old ∈ elements, element = change old := by
  induction elements generalizing index with
  | nil => simp at member
  | cons first rest ih =>
      cases index with
      | zero =>
          rw [List.modify_zero_cons] at member
          rcases List.mem_cons.mp member with rfl | later
          · exact .inr ⟨first, List.mem_cons_self, rfl⟩
          · exact .inl (List.mem_cons_of_mem _ later)
      | succ index =>
          rw [List.modify_succ_cons] at member
          rcases List.mem_cons.mp member with rfl | later
          · exact .inl List.mem_cons_self
          · rcases ih later with old | ⟨old, inside, same⟩
            · exact .inl (List.mem_cons_of_mem _ old)
            · exact .inr ⟨old, List.mem_cons_of_mem _ inside, same⟩

theorem Group.message_snoc (group : Group τ value) (member : τ × SessionMessageEntry value) :
    ({ group with rest := group.rest ++ [member] } : Group τ value).message =
      extend group.message member.2 := by
  simp [Group.message]

/-- The two loops in step. -/
structure InStep (grouping : Grouping τ value) (joining : Joining value) : Prop where
  out : joining.out = grouping.groups.map Group.message
  roots : joining.rootIndex = grouping.rootGroup

theorem InStep.add {grouping : Grouping τ value} {joining : Joining value}
    (inStep : InStep grouping joining) (member : τ × SessionMessageEntry value) :
    InStep (grouping.add member) (joining.add member.2) := by
  obtain ⟨out, roots⟩ := inStep
  have length : joining.out.length = grouping.groups.length := by rw [out, List.length_map]
  have alone : ({ root := member } : Group τ value).message = member.2 := rfl
  cases continues : member.2.continuationOf with
  | none =>
      constructor
      · simp [Joining.add, Grouping.add, continues, out, alone]
      · simp [Joining.add, Grouping.add, continues, roots, length]
  | some root =>
      cases found : grouping.rootGroup.lookup root with
      | none =>
          constructor
          · simp [Joining.add, Grouping.add, continues, roots, found, out, alone]
          · simp [Joining.add, Grouping.add, continues, roots, found]
      | some index =>
          constructor
          · simp only [Joining.add, Grouping.add, continues, roots, found, out, Option.bind_some]
            exact (map_modify_of_eq (fun group => group.message_snoc member) _ _).symm
          · simp [Joining.add, Grouping.add, continues, roots, found]

theorem InStep.foldl {grouping : Grouping τ value} {joining : Joining value}
    (inStep : InStep grouping joining) (members : List (τ × SessionMessageEntry value)) :
    InStep (members.foldl Grouping.add grouping)
      ((members.map Prod.snd).foldl Joining.add joining) := by
  induction members generalizing grouping joining with
  | nil => exact inStep
  | cons member rest ih => exact ih (inStep.add member)

/-- Without continuations the join changes nothing. -/
theorem foldl_joining_of_roots {entries : List (SessionMessageEntry value)}
    (roots : ∀ entry ∈ entries, entry.continuationOf = none) (joining : Joining value) :
    (entries.foldl Joining.add joining).out = joining.out ++ entries := by
  induction entries generalizing joining with
  | nil => simp
  | cons entry rest ih =>
      rw [List.foldl_cons, ih fun other member => roots other (List.mem_cons_of_mem _ member)]
      simp [Joining.add, roots entry List.mem_cons_self]

theorem joinContinuationEntries_eq_groups (members : List (τ × SessionMessageEntry value)) :
    joinContinuationEntries (members.map Prod.snd) = (groupAll members).map Group.message := by
  have inStep : InStep (members.foldl Grouping.add {})
      ((members.map Prod.snd).foldl Joining.add {}) := InStep.foldl ⟨rfl, rfl⟩ members
  rw [groupAll, ← inStep.out, joinContinuationEntries]
  split
  · rfl
  · rename_i none
    rw [foldl_joining_of_roots]
    · rfl
    · intro entry member
      by_contra continues
      exact none (List.any_eq_true.mpr ⟨entry, member, Option.isSome_iff_ne_none.mpr continues⟩)

/-! ## Under other names -/

def Group.mapTag (rename : τ → υ) (group : Group τ value) : Group υ value where
  root := (rename group.root.1, group.root.2)
  rest := group.rest.map fun member => (rename member.1, member.2)

def Grouping.mapTag (rename : τ → υ) (grouping : Grouping τ value) : Grouping υ value :=
  { grouping with groups := grouping.groups.map (Group.mapTag rename) }

@[simp] theorem Group.message_mapTag (rename : τ → υ) (group : Group τ value) :
    (group.mapTag rename).message = group.message := by
  simp [Group.message, Group.mapTag, Function.comp_def]

theorem Grouping.mapTag_add (rename : τ → υ) (grouping : Grouping τ value)
    (member : τ × SessionMessageEntry value) :
    (grouping.add member).mapTag rename =
      (grouping.mapTag rename).add (rename member.1, member.2) := by
  unfold Grouping.add
  simp only [Grouping.mapTag]
  cases member.2.continuationOf.bind fun root => grouping.rootGroup.lookup root with
  | none => simp [Group.mapTag]
  | some index =>
      simp only [Grouping.mk.injEq, and_true]
      apply map_modify_of_eq
      intro group
      simp [Group.mapTag]

theorem groupAll_mapTag (rename : τ → υ) (members : List (τ × SessionMessageEntry value)) :
    (groupAll members).map (Group.mapTag rename) =
      groupAll (members.map fun member => (rename member.1, member.2)) := by
  have folded : ∀ grouping : Grouping τ value, (members.foldl Grouping.add grouping).mapTag rename =
      (members.map fun member => (rename member.1, member.2)).foldl Grouping.add
        (grouping.mapTag rename) := by
    intro grouping
    induction members generalizing grouping with
    | nil => rfl
    | cons member rest ih => rw [List.foldl_cons, ih, Grouping.mapTag_add]; rfl
  exact congrArg Grouping.groups (folded {})

/-! ## Roots and members -/

theorem map_root_modify (groups : List (Group τ value)) (index : Nat)
    (change : Group τ value → Group τ value) (same : ∀ group, (change group).root = group.root) :
    (groups.modify index change).map Group.root = groups.map Group.root := by
  have kept : ∀ group, (change group).root = id group.root := same
  rw [map_modify_of_eq kept, List.modify_id]

/-- Roots stand in the order of the list. -/
theorem roots_sublist (members : List (τ × SessionMessageEntry value)) :
    ((groupAll members).map Group.root).Sublist members := by
  have folded : ∀ grouping : Grouping τ value,
      ((members.foldl Grouping.add grouping).groups.map Group.root).Sublist
        (grouping.groups.map Group.root ++ members) := by
    intro grouping
    induction members generalizing grouping with
    | nil => simp
    | cons member rest ih =>
        refine (ih (grouping.add member)).trans ?_
        unfold Grouping.add
        split
        · rw [map_root_modify]
          · exact List.Sublist.append_left (List.sublist_cons_self member rest) _
          · exact fun _ => rfl
        · simp
  exact folded {}

theorem members_of_group (members : List (τ × SessionMessageEntry value)) :
    ∀ group ∈ groupAll members, ∀ member ∈ group.members, member ∈ members := by
  have folded : ∀ (all : List (τ × SessionMessageEntry value)) (grouping : Grouping τ value),
      (∀ group ∈ grouping.groups, ∀ member ∈ group.members, member ∈ all) →
      (∀ member ∈ members, member ∈ all) →
      ∀ group ∈ (members.foldl Grouping.add grouping).groups, ∀ member ∈ group.members,
        member ∈ all := by
    intro all grouping known
    induction members generalizing grouping with
    | nil => exact fun _ => known
    | cons first rest ih =>
        intro listed
        apply ih _ _ fun member inside => listed member (List.mem_cons_of_mem _ inside)
        have here := listed first List.mem_cons_self
        intro group placed member inside
        unfold Grouping.add at placed
        split at placed
        · rcases mem_modify placed with old | ⟨old, standing, rfl⟩
          · exact known group old member inside
          · rw [Group.members, ← List.cons_append] at inside
            rcases List.mem_append.mp inside with before | new
            · exact known old standing member before
            · rw [List.mem_singleton.mp new]
              exact here
        · rcases List.mem_append.mp placed with old | new
          · exact known group old member inside
          · rw [List.mem_singleton.mp new] at inside
            rw [List.mem_singleton.mp inside]
            exact here
  exact folded members {} (by simp) fun _ inside => inside

theorem Group.id_message (group : Group τ value) : group.message.id = group.root.2.id := by
  have folded : ∀ (parts : List (SessionMessageEntry value)) (message : SessionMessageEntry value),
      (parts.foldl extend message).id = message.id := by
    intro parts
    induction parts with
    | nil => exact fun _ => rfl
    | cons part rest ih => exact fun message => (ih (extend message part)).trans rfl
  exact folded _ _

theorem Group.continuationOf_message (group : Group τ value) :
    group.message.continuationOf = group.root.2.continuationOf := by
  have folded : ∀ (parts : List (SessionMessageEntry value)) (message : SessionMessageEntry value),
      (parts.foldl extend message).continuationOf = message.continuationOf := by
    intro parts
    induction parts with
    | nil => exact fun _ => rfl
    | cons part rest ih => exact fun message => (ih (extend message part)).trans rfl
  exact folded _ _

end Zeron.Transcript
