import Mathlib

namespace Zeron.Data

/-! # Claims against a ledger

Tasks claim keys.  A ledger of claimed keys only grows, a task holds the claim it
made until it spends or drops it, and a key is claimed once.
-/

variable {κ : Type} {held : ℕ → Option κ} {ledger spent : List κ} {index : ℕ} {key : κ}

/-- Every claim is recorded, held by one task and not spent before. -/
structure ClaimsOnce (held : ℕ → Option κ) (ledger spent : List κ) : Prop where
  recorded : ∀ index key, held index = some key → key ∈ ledger
  unspent : ∀ index key, held index = some key → key ∉ spent
  alone : ∀ left right key, held left = some key → held right = some key → left = right
  spentRecorded : ∀ key ∈ spent, key ∈ ledger
  once : spent.Nodup

namespace ClaimsOnce

theorem nothing : ClaimsOnce (fun _ => (none : Option κ)) [] [] where
  recorded := by simp
  unspent := by simp
  alone := by simp
  spentRecorded := by simp
  once := .nil

theorem congr {other : ℕ → Option κ} (sound : ClaimsOnce held ledger spent)
    (same : ∀ index, other index = held index) : ClaimsOnce other ledger spent := by
  rw [funext same]
  exact sound

/-- A task gives its claim up; the key stays recorded. -/
theorem drop (sound : ClaimsOnce held ledger spent) (index : ℕ) :
    ClaimsOnce (Function.update held index none) ledger spent := by
  have kept : ∀ other key, Function.update held index none other = some key →
      held other = some key := by
    intro other key holds
    by_cases same : other = index
    · subst same
      simp at holds
    · rwa [Function.update_of_ne same] at holds
  exact {
    recorded := fun other key holds => sound.recorded other key (kept other key holds)
    unspent := fun other key holds => sound.unspent other key (kept other key holds)
    alone := fun left right key first second =>
      sound.alone left right key (kept left key first) (kept right key second)
    spentRecorded := sound.spentRecorded
    once := sound.once }

/-- Every task is gone; what was recorded and spent stays. -/
theorem forget (sound : ClaimsOnce held ledger spent) :
    ClaimsOnce (fun _ => none) ledger spent where
  recorded := by simp
  unspent := by simp
  alone := by simp
  spentRecorded := sound.spentRecorded
  once := sound.once

theorem record {wider : List κ} (sound : ClaimsOnce held ledger spent)
    (wide : ∀ key ∈ ledger, key ∈ wider) : ClaimsOnce held wider spent where
  recorded := fun index key holds => wide key (sound.recorded index key holds)
  unspent := sound.unspent
  alone := sound.alone
  spentRecorded := fun key member => wide key (sound.spentRecorded key member)
  once := sound.once

/-- A key that was never recorded is claimed. -/
theorem claim {wider : List κ} (sound : ClaimsOnce held ledger spent) (fresh : key ∉ ledger)
    (wide : ∀ key ∈ ledger, key ∈ wider) (recorded : key ∈ wider) (index : ℕ) :
    ClaimsOnce (Function.update held index (some key)) wider spent := by
  have before : ∀ other, Function.update held index (some key) other = some key →
      other = index := by
    intro other holds
    by_contra different
    rw [Function.update_of_ne different] at holds
    exact fresh (sound.recorded other key holds)
  constructor
  · intro other found holds
    by_cases same : other = index
    · subst same
      rw [Function.update_self] at holds
      cases holds
      exact recorded
    · rw [Function.update_of_ne same] at holds
      exact wide found (sound.recorded other found holds)
  · intro other found holds
    by_cases same : other = index
    · subst same
      rw [Function.update_self] at holds
      cases holds
      exact fun spentBefore => fresh (sound.spentRecorded key spentBefore)
    · rw [Function.update_of_ne same] at holds
      exact sound.unspent other found holds
  · intro left right found first second
    by_cases claimed : found = key
    · subst claimed
      rw [before left first, before right second]
    · have other : ∀ side, Function.update held index (some key) side = some found →
          held side = some found := by
        intro side holds
        by_cases same : side = index
        · subst same
          rw [Function.update_self] at holds
          exact absurd (Option.some.inj holds).symm claimed
        · rwa [Function.update_of_ne same] at holds
      exact sound.alone left right found (other left first) (other right second)
  · exact fun found member => wide found (sound.spentRecorded found member)
  · exact sound.once

/-- The holder of a claim spends it. -/
theorem spend (sound : ClaimsOnce held ledger spent) (holds : held index = some key) :
    ClaimsOnce (Function.update held index none) ledger (spent ++ [key]) := by
  have dropped := sound.drop index
  constructor
  · exact dropped.recorded
  · intro other found holdsOther member
    rcases List.mem_append.mp member with before | now
    · exact dropped.unspent other found holdsOther before
    · rw [List.mem_singleton] at now
      subst now
      by_cases same : other = index
      · subst same
        simp at holdsOther
      · rw [Function.update_of_ne same] at holdsOther
        exact same (sound.alone other index found holdsOther holds)
  · exact dropped.alone
  · intro found member
    rcases List.mem_append.mp member with before | now
    · exact sound.spentRecorded found before
    · rw [List.mem_singleton.mp now]
      exact sound.recorded index key holds
  · apply List.nodup_append.mpr
    refine ⟨sound.once, List.nodup_singleton key, ?_⟩
    intro found before other now
    rw [List.mem_singleton.mp now]
    rintro rfl
    exact sound.unspent index found holds before

end ClaimsOnce

end Zeron.Data
