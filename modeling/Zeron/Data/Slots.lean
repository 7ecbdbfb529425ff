import Zeron.Data.Splits

namespace Zeron.Data

/-! # Slots filled by index

A value arrives in pieces, each with the index of the slot it belongs to.  Pieces of
different slots never overwrite each other, and as many of them as there are slots
fill every slot.
-/

variable {α β : Type} {blank value : α} {count index : Nat} {pieces : List (Nat × α)}

/-- The slots after the pieces came in, in the order they came. -/
def slots (blank : α) (count : Nat) (pieces : List (Nat × α)) : List α :=
  pieces.foldl (fun parts piece => parts.set piece.1 piece.2) (List.replicate count blank)

theorem slots_concat (blank : α) (count : Nat) (pieces : List (Nat × α)) (piece : Nat × α) :
    slots blank count (pieces ++ [piece]) = (slots blank count pieces).set piece.1 piece.2 := by
  rw [slots, List.foldl_append]
  rfl

@[simp] theorem length_slots (blank : α) (count : Nat) (pieces : List (Nat × α)) :
    (slots blank count pieces).length = count := by
  induction pieces using List.reverseRecOn with
  | nil => exact List.length_replicate
  | append_singleton pieces piece ih => rw [slots_concat, List.length_set, ih]

/-- Pieces of different slots. -/
structure Apart (count : Nat) (pieces : List (Nat × α)) : Prop where
  distinct : (pieces.map Prod.fst).Nodup
  inside : ∀ piece ∈ pieces, piece.1 < count

theorem Apart.nil (count : Nat) : Apart count ([] : List (Nat × α)) :=
  ⟨List.nodup_nil, fun _ member => absurd member List.not_mem_nil⟩

theorem Apart.concat (apart : Apart count pieces) (value : α) (inside : index < count)
    (fresh : index ∉ pieces.map Prod.fst) : Apart count (pieces ++ [(index, value)]) := by
  constructor
  · rw [List.map_append]
    refine List.nodup_append.mpr ⟨apart.distinct, List.nodup_singleton _, ?_⟩
    intro key old other new same
    rw [same, List.mem_singleton.mp new] at old
    exact fresh old
  · intro piece member
    rcases List.mem_append.mp member with old | new
    · exact apart.inside piece old
    · cases List.mem_singleton.mp new
      exact inside

theorem Apart.init {piece : Nat × α} (apart : Apart count (pieces ++ [piece])) :
    Apart count pieces ∧ piece.1 < count ∧ piece.1 ∉ pieces.map Prod.fst := by
  have distinct := apart.distinct
  rw [List.map_append] at distinct
  obtain ⟨before, -, apartKeys⟩ := List.nodup_append.mp distinct
  refine ⟨⟨before, fun earlier member => ?_⟩, ?_, fun member => ?_⟩
  · exact apart.inside earlier (List.mem_append_left _ member)
  · exact apart.inside piece (List.mem_append_right _ (List.mem_singleton_self piece))
  · exact apartKeys _ member _ (List.mem_singleton_self _) rfl

theorem getElem?_slots_of_not_mem (inside : index < count)
    (empty : index ∉ pieces.map Prod.fst) : (slots blank count pieces)[index]? = some blank := by
  induction pieces using List.reverseRecOn with
  | nil => exact List.getElem?_replicate_of_lt inside
  | append_singleton pieces piece ih =>
      rw [List.map_append, List.mem_append, not_or] at empty
      rw [slots_concat, List.getElem?_set_ne, ih empty.1]
      exact fun same => empty.2 (List.mem_singleton.mpr same.symm)

/-- A slot holds the piece that came for it. -/
theorem Apart.getElem?_slots (apart : Apart count pieces) (blank : α)
    (member : (index, value) ∈ pieces) :
    (slots blank count pieces)[index]? = some value := by
  induction pieces using List.reverseRecOn with
  | nil => exact absurd member List.not_mem_nil
  | append_singleton pieces piece ih =>
      obtain ⟨before, inside, fresh⟩ := apart.init
      rw [slots_concat]
      rcases List.mem_append.mp member with old | new
      · have different : piece.1 ≠ index :=
          fun same => fresh (same ▸ List.mem_map_of_mem (f := Prod.fst) old)
        rw [List.getElem?_set_ne different]
        exact ih before old
      · cases List.mem_singleton.mp new
        exact List.getElem?_set_self (by rwa [length_slots])

/-- There are no more pieces than slots. -/
theorem Apart.length_le (apart : Apart count pieces) : pieces.length ≤ count := by
  have within : (pieces.map Prod.fst).toFinset ⊆ Finset.range count := by
    intro key member
    obtain ⟨piece, inPieces, rfl⟩ := List.mem_map.mp (List.mem_toFinset.mp member)
    exact Finset.mem_range.mpr (apart.inside piece inPieces)
  have bounded := Finset.card_le_card within
  rwa [List.toFinset_card_of_nodup apart.distinct, List.length_map, Finset.card_range] at bounded

/-- As many pieces as slots leave no slot out. -/
theorem Apart.covers (apart : Apart count pieces) (full : count ≤ pieces.length)
    (inside : index < count) : ∃ value, (index, value) ∈ pieces := by
  by_contra missing
  have fresh : index ∉ pieces.map Prod.fst := by
    intro member
    obtain ⟨⟨key, value⟩, inPieces, rfl⟩ := List.mem_map.mp member
    exact missing ⟨value, inPieces⟩
  have crowded := fun value => (apart.concat value inside fresh).length_le
  cases pieces with
  | nil =>
      rw [List.length_nil] at full
      omega
  | cons piece rest =>
      have tooMany := crowded piece.2
      rw [List.length_append, List.length_singleton] at tooMany
      omega

/-- The slots hold as much as all the pieces. -/
theorem Apart.length_flatten {pieces : List (Nat × List β)} (apart : Apart count pieces) :
    (slots [] count pieces).flatten.length = (pieces.map fun piece => piece.2.length).sum := by
  induction pieces using List.reverseRecOn with
  | nil => simp [slots]
  | append_singleton pieces piece ih =>
      obtain ⟨earlier, inside, fresh⟩ := apart.init
      have blank : (slots [] count pieces)[piece.1]? = some [] :=
        getElem?_slots_of_not_mem inside fresh
      obtain ⟨before, after, split, place⟩ := exists_append_of_getElem? blank
      have filled := ih earlier
      rw [split] at filled
      rw [slots_concat, split, ← place, List.set_append_right _ _ le_rfl, Nat.sub_self, List.set_cons_zero]
      simp only [List.flatten_append, List.flatten_cons, List.length_append, List.length_nil,
        List.map_append, List.sum_append, List.map_cons, List.map_nil, List.sum_singleton] at *
      omega

end Zeron.Data
