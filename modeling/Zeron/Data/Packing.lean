import Mathlib

namespace Zeron.Data

/-! # Greedy packing

Items go into the last chunk while they fit its limit; one that does not begins a new
chunk, unless the last chunk weighs nothing.
-/

/-- The chunks so far, the last one apart with its weight. -/
structure Packing (item : Type) where
  done : List (List item)
  last : List item
  bytes : Nat
deriving DecidableEq

namespace Packing

variable {item : Type}

def empty : Packing item := { done := [], last := [], bytes := 0 }

def chunks (packing : Packing item) : List (List item) := packing.done ++ [packing.last]

variable (size : item → Nat) (limit : Nat)

def push (packing : Packing item) (next : item) : Packing item :=
  if packing.bytes > 0 ∧ packing.bytes + size next > limit then
    { done := packing.done ++ [packing.last], last := [next], bytes := size next }
  else
    { packing with last := packing.last ++ [next], bytes := packing.bytes + size next }

/-- A chunk within the limit, or one whose only item of any weight is beyond it. -/
def Bounded (chunk : List item) : Prop :=
  (chunk.map size).sum ≤ limit ∨
    ∃ single, chunk.filter (fun item => 0 < size item) = [single] ∧ limit < size single

/-- Every chunk is bounded, and only the first may hold nothing. -/
structure Packed (packing : Packing item) : Prop where
  bytes : packing.bytes = (packing.last.map size).sum
  last : Bounded size limit packing.last
  done : ∀ chunk ∈ packing.done, Bounded size limit chunk ∧ chunk ≠ []
  first : packing.last = [] → packing.done = []

variable {size : item → Nat} {limit : Nat} {packing : Packing item}

theorem flatten_chunks_push (next : item) :
    (packing.push size limit next).chunks.flatten = packing.chunks.flatten ++ [next] := by
  unfold push
  split <;> simp [chunks]

theorem packed_empty : Packed size limit (empty : Packing item) where
  bytes := rfl
  last := .inl (Nat.zero_le _)
  done := by simp [empty]
  first _ := rfl

theorem filter_eq_nil_of_sum {chunk : List item} (weightless : (chunk.map size).sum = 0) :
    chunk.filter (fun item => 0 < size item) = [] := by
  rw [List.filter_eq_nil_iff]
  intro item inside
  have part := List.single_le_sum (fun _ _ => Nat.zero_le _) (size item) (List.mem_map_of_mem inside)
  simp only [decide_eq_true_eq]
  omega

/-- An item after weightless ones. -/
theorem bounded_append {chunk : List item} (weightless : (chunk.map size).sum = 0) (next : item) :
    Bounded size limit (chunk ++ [next]) := by
  by_cases fits : size next ≤ limit
  · left
    rw [List.map_append, List.sum_append, weightless]
    simpa using fits
  · right
    refine ⟨next, ?_, by omega⟩
    have weighs : 0 < size next := by omega
    rw [List.filter_append, filter_eq_nil_of_sum weightless]
    simp [weighs]

theorem Packed.push (packed : Packed size limit packing) (next : item) :
    Packed size limit (packing.push size limit next) := by
  have sum := packed.bytes
  unfold Packing.push
  split
  · rename_i full
    constructor
    · simp
    · exact @bounded_append item size limit [] rfl next
    · intro chunk inside
      rcases List.mem_append.mp inside with old | new
      · exact packed.done chunk old
      · rw [List.mem_singleton.mp new]
        refine ⟨packed.last, ?_⟩
        intro nothing
        rw [nothing, List.map_nil, List.sum_nil] at sum
        omega
    · simp
  · rename_i fits
    constructor
    · simp [sum]
    · by_cases weightless : packing.bytes = 0
      · exact bounded_append (sum ▸ weightless) next
      · left
        rw [List.map_append, List.sum_append, ← sum]
        simp only [List.map_cons, List.map_nil, List.sum_singleton]
        omega
    · exact packed.done
    · simp

theorem Packed.bounded (packed : Packed size limit packing) :
    ∀ chunk ∈ packing.chunks, Bounded size limit chunk := by
  intro chunk inside
  rcases List.mem_append.mp inside with old | new
  · exact (packed.done chunk old).1
  · rw [List.mem_singleton.mp new]
    exact packed.last

/-- A chunk that holds nothing is the only one. -/
theorem Packed.nothing (packed : Packed size limit packing) {index : Nat}
    (isEmpty : packing.chunks[index]? = some []) : index = 0 ∧ packing.chunks.flatten = [] := by
  have inside := List.mem_of_getElem? isEmpty
  rcases List.mem_append.mp inside with old | new
  · exact absurd rfl (packed.done [] old).2
  · have isLast := (List.mem_singleton.mp new).symm
    have alone := packed.first isLast
    have below := (List.getElem?_eq_some_iff.mp isEmpty).1
    rw [chunks, alone, isLast] at below ⊢
    simp only [List.nil_append, List.length_singleton] at below
    exact ⟨by omega, rfl⟩

end Packing

end Zeron.Data
