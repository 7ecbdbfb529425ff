import Mathlib

namespace Zeron.Data

open Std

/-! # Loops over the entries of a map

A loop that visits every entry of a map, and at entry `(k, v)` touches only
what its state holds at `k`, is determined key by key.  The visiting order
then plays no role, and neither does the rest of the map.
-/

section KeyedFold

variable {σ : Type u} {κ : Type v} {ν : Type w} {β : Type x}

/-- At `(k, v)` the step rewrites the observation at `k` and no other. -/
structure KeyedStep (step : σ → κ × ν → σ) (observe : σ → κ → β)
    (update : κ → ν → β → β) : Prop where
  here : ∀ state key value,
    observe (step state (key, value)) key = update key value (observe state key)
  elsewhere : ∀ state key value other, other ≠ key →
    observe (step state (key, value)) other = observe state other

variable {step : σ → κ × ν → σ} {observe : σ → κ → β} {update : κ → ν → β → β}

theorem KeyedStep.foldl_of_not_mem (keyed : KeyedStep step observe update)
    {entries : List (κ × ν)} {key : κ} (absent : ∀ entry ∈ entries, entry.1 ≠ key)
    (state : σ) : observe (entries.foldl step state) key = observe state key := by
  induction entries generalizing state with
  | nil => rfl
  | cons entry rest ih =>
      obtain ⟨first, value⟩ := entry
      rw [List.foldl_cons, ih (fun entry member => absent entry (List.mem_cons_of_mem _ member))]
      exact keyed.elsewhere state first value key (absent (first, value) (by simp)).symm

theorem KeyedStep.foldl_of_mem (keyed : KeyedStep step observe update)
    {entries : List (κ × ν)} (distinct : entries.Pairwise (fun a b => a.1 ≠ b.1))
    {key : κ} {value : ν} (member : (key, value) ∈ entries) (state : σ) :
    observe (entries.foldl step state) key = update key value (observe state key) := by
  induction entries generalizing state with
  | nil => cases member
  | cons entry rest ih =>
      obtain ⟨apart, restDistinct⟩ := List.pairwise_cons.mp distinct
      rw [List.foldl_cons]
      rcases List.mem_cons.mp member with same | inRest
      · subst same
        rw [keyed.foldl_of_not_mem (fun entry inRest => (apart entry inRest).symm)]
        exact keyed.here state key value
      · obtain ⟨first, firstValue⟩ := entry
        rw [ih restDistinct inRest]
        rw [keyed.elsewhere state first firstValue key (apart _ inRest).symm]

end KeyedFold

section Map

variable {σ : Type u} {κ : Type v} {ν : Type w} {β : Type x}
variable {cmp : κ → κ → Ordering} [TransCmp cmp] [LawfulEqCmp cmp]

theorem toList_keys_distinct (map : ExtTreeMap κ ν cmp) :
    map.toList.Pairwise (fun a b => a.1 ≠ b.1) := by
  refine map.distinct_keys_toList.imp ?_
  intro a b apart same
  exact apart (by rw [same]; exact ReflCmp.compare_self)

/-- The spec of a keyed loop over a map: each key is updated once, by its own
entry, or left alone. -/
theorem KeyedStep.foldl_toList {step : σ → κ × ν → σ} {observe : σ → κ → β}
    {update : κ → ν → β → β} (keyed : KeyedStep step observe update)
    (map : ExtTreeMap κ ν cmp) (state : σ) (key : κ) :
    observe (map.toList.foldl step state) key =
      match map[key]? with
      | none => observe state key
      | some value => update key value (observe state key) := by
  cases found : map[key]? with
  | none =>
      refine keyed.foldl_of_not_mem (fun entry member same => ?_) state
      have held := ExtTreeMap.mem_toList_iff_getElem?_eq_some.mp
        (show (entry.1, entry.2) ∈ map.toList from member)
      rw [same, found] at held
      cases held
  | some value =>
      exact keyed.foldl_of_mem (toList_keys_distinct map)
        (ExtTreeMap.mem_toList_iff_getElem?_eq_some.mpr found) state

end Map

end Zeron.Data
