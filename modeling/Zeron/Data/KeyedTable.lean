import Zeron.Data.KeyedFold

namespace Zeron.Data

open Std

/-! # Tables whose rows carry their own key

The rows of a relation with a primary key: every row is stored under the key
it names itself.  The table carries that fact, so a lookup always answers with
a row of the key asked for.
-/

structure KeyedTable (κ : Type u) (ρ : Type v) (key : ρ → κ) [Ord κ] [TransOrd κ] where
  rows : ExtTreeMap κ ρ
  keyed : ∀ {k : κ} {row : ρ}, rows[k]? = some row → key row = k

namespace KeyedTable

variable {κ : Type u} {ρ : Type v} {key : ρ → κ} [Ord κ] [TransOrd κ] [LawfulEqOrd κ]

instance [DecidableEq ρ] : DecidableEq (KeyedTable κ ρ key) := fun left right =>
  if same : left.rows = right.rows then
    .isTrue (by cases left; cases right; cases same; rfl)
  else
    .isFalse (fun equal => same (congrArg KeyedTable.rows equal))

def get? (table : KeyedTable κ ρ key) (k : κ) : Option ρ := table.rows[k]?

@[ext] theorem ext {left right : KeyedTable κ ρ key}
    (same : ∀ k, left.get? k = right.get? k) : left = right := by
  cases left with
  | mk leftRows leftKeyed =>
      cases right with
      | mk rightRows rightKeyed =>
          have rows : leftRows = rightRows := ExtTreeMap.ext_getElem? (fun {k} => same k)
          subst rows
          rfl

omit [LawfulEqOrd κ] in
theorem key_of_get? {table : KeyedTable κ ρ key} {k : κ} {row : ρ}
    (found : table.get? k = some row) : key row = k :=
  table.keyed found

def empty : KeyedTable κ ρ key where
  rows := ∅
  keyed := by simp

omit [LawfulEqOrd κ] in
@[simp] theorem get?_empty (k : κ) : (empty : KeyedTable κ ρ key).get? k = none := by
  simp [empty, get?]

/-- Insert a row under its own key, replacing what was there. -/
def put (table : KeyedTable κ ρ key) (row : ρ) : KeyedTable κ ρ key where
  rows := table.rows.insert (key row) row
  keyed := by
    intro k held found
    rw [ExtTreeMap.getElem?_insert] at found
    split at found
    · rename_i same
      cases found
      exact LawfulEqCmp.eq_of_compare same
    · exact table.keyed found

theorem get?_put [DecidableEq κ] (table : KeyedTable κ ρ key) (row : ρ) (k : κ) :
    (table.put row).get? k = if key row = k then some row else table.get? k := by
  simp only [put, get?, ExtTreeMap.getElem?_insert]
  by_cases same : key row = k
  · simp [same]
  · have apart : compare (key row) k ≠ .eq := fun equal => same (LawfulEqCmp.eq_of_compare equal)
    simp [same, apart]

@[simp] theorem get?_put_self (table : KeyedTable κ ρ key) (row : ρ) :
    (table.put row).get? (key row) = some row := by
  simp [put, get?]

theorem get?_put_of_ne (table : KeyedTable κ ρ key) {row : ρ} {k : κ} (apart : key row ≠ k) :
    (table.put row).get? k = table.get? k := by
  classical
  rw [get?_put, if_neg apart]

/-- Insert rows one after the other; a later row of the same key wins. -/
def putAll (table : KeyedTable κ ρ key) (rows : List ρ) : KeyedTable κ ρ key :=
  rows.foldl put table

@[simp] theorem putAll_nil (table : KeyedTable κ ρ key) : table.putAll [] = table := rfl

@[simp] theorem putAll_cons (table : KeyedTable κ ρ key) (row : ρ) (rows : List ρ) :
    table.putAll (row :: rows) = (table.put row).putAll rows := rfl

theorem get?_putAll_of_not_mem {rows : List ρ} {k : κ}
    (absent : ∀ row ∈ rows, key row ≠ k) (table : KeyedTable κ ρ key) :
    (table.putAll rows).get? k = table.get? k := by
  induction rows generalizing table with
  | nil => rfl
  | cons row rest ih =>
      rw [putAll_cons, ih (fun other member => absent other (List.mem_cons_of_mem _ member)),
        get?_put_of_ne _ (absent row (by simp))]

theorem mem_or_get?_of_putAll {rows : List ρ} {table : KeyedTable κ ρ key} {k : κ} {row : ρ}
    (found : (table.putAll rows).get? k = some row) : row ∈ rows ∨ table.get? k = some row := by
  induction rows generalizing table with
  | nil => exact .inr found
  | cons first rest ih =>
      rcases ih found with later | held
      · exact .inl (List.mem_cons_of_mem _ later)
      · by_cases here : key first = k
        · subst here
          rw [get?_put_self] at held
          cases held
          exact .inl (by simp)
        · rw [get?_put_of_ne _ here] at held
          exact .inr held

theorem get?_putAll_of_mem {rows : List ρ}
    (distinct : rows.Pairwise (fun a b => key a ≠ key b)) {row : ρ} (member : row ∈ rows)
    (table : KeyedTable κ ρ key) : (table.putAll rows).get? (key row) = some row := by
  induction rows generalizing table with
  | nil => cases member
  | cons first rest ih =>
      obtain ⟨apart, restDistinct⟩ := List.pairwise_cons.mp distinct
      rw [putAll_cons]
      rcases List.mem_cons.mp member with same | inRest
      · subst same
        rw [get?_putAll_of_not_mem (fun other inRest => (apart other inRest).symm),
          get?_put_self]
      · exact ih restDistinct inRest _

/-- The rows in key order. -/
def values (table : KeyedTable κ ρ key) : List ρ := table.rows.toList.map Prod.snd

theorem mem_values {table : KeyedTable κ ρ key} {row : ρ} :
    row ∈ table.values ↔ table.get? (key row) = some row := by
  simp only [values, List.mem_map, Prod.exists, ExtTreeMap.mem_toList_iff_getElem?_eq_some,
    get?, exists_eq_right]
  constructor
  · rintro ⟨k, found⟩
    rwa [table.keyed found]
  · exact fun found => ⟨_, found⟩

theorem values_distinct (table : KeyedTable κ ρ key) :
    table.values.Pairwise (fun a b => key a ≠ key b) := by
  rw [values, List.pairwise_map]
  refine (toList_keys_distinct table.rows).imp_of_mem ?_
  intro a b memberA memberB apart same
  have keyA := table.keyed (ExtTreeMap.mem_toList_iff_getElem?_eq_some.mp memberA)
  have keyB := table.keyed (ExtTreeMap.mem_toList_iff_getElem?_eq_some.mp memberB)
  exact apart (by rw [← keyA, ← keyB, same])

theorem values_sorted (table : KeyedTable κ ρ key) :
    table.values.Pairwise (fun a b => compare (key a) (key b) = .lt) := by
  rw [values, List.pairwise_map]
  refine table.rows.ordered_keys_toList.imp_of_mem ?_
  intro a b memberA memberB before
  rwa [table.keyed (ExtTreeMap.mem_toList_iff_getElem?_eq_some.mp memberA),
    table.keyed (ExtTreeMap.mem_toList_iff_getElem?_eq_some.mp memberB)]

/-- Keep the rows a predicate accepts. -/
def filter (table : KeyedTable κ ρ key) (keep : ρ → Bool) : KeyedTable κ ρ key where
  rows := table.rows.filter fun _ row => keep row
  keyed := by
    intro k row found
    rw [ExtTreeMap.getElem?_filter'] at found
    exact table.keyed (Option.filter_eq_some_iff.mp found).1

theorem get?_filter (table : KeyedTable κ ρ key) (keep : ρ → Bool) (k : κ) :
    (table.filter keep).get? k = (table.get? k).filter keep := by
  simp only [filter, get?, ExtTreeMap.getElem?_filter']

/-- Rewrite every row in place; the rewriting keeps the rows' keys. -/
def map (table : KeyedTable κ ρ key) (rewrite : ρ → ρ)
    (keeps : ∀ row, key (rewrite row) = key row) : KeyedTable κ ρ key where
  rows := table.rows.map fun _ row => rewrite row
  keyed := by
    intro k row found
    rw [ExtTreeMap.getElem?_map] at found
    obtain ⟨held, stored, same⟩ := Option.map_eq_some_iff.mp found
    rw [← same, keeps, table.keyed stored]

theorem get?_map (table : KeyedTable κ ρ key) (rewrite : ρ → ρ)
    (keeps : ∀ row, key (rewrite row) = key row) (k : κ) :
    (table.map rewrite keeps).get? k = (table.get? k).map rewrite := by
  simp only [map, get?, ExtTreeMap.getElem?_map]

end KeyedTable

end Zeron.Data
