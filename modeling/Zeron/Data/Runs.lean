import Mathlib

namespace Zeron.Data

/-! # Runs of a step function

A system is a partial step function over states and actions.  A run is any order
of actions, each of them allowed in the state it is taken in.
-/

variable {σ α : Type} {step : σ → α → Option σ} {allowed : σ → α → Prop} {start finish : σ}

/-- The states some run leads to. -/
def Reaches (step : σ → α → Option σ) (allowed : σ → α → Prop) : σ → σ → Prop :=
  Relation.ReflTransGen fun before after =>
    ∃ action, allowed before action ∧ step before action = some after

/-- What every allowed step keeps holds at the end of every run. -/
theorem Reaches.keeps {inv : σ → Prop} (runs : Reaches step allowed start finish)
    (begins : inv start)
    (keeps : ∀ before action after, inv before → allowed before action →
      step before action = some after → inv after) : inv finish := by
  induction runs with
  | refl => exact begins
  | tail _ stepped ih =>
      obtain ⟨action, permitted, taken⟩ := stepped
      exact keeps _ action _ ih permitted taken

theorem Reaches.mono {wider : σ → α → Prop} (runs : Reaches step allowed start finish)
    (wide : ∀ s action, allowed s action → wider s action) : Reaches step wider start finish := by
  induction runs with
  | refl => exact .refl
  | tail _ stepped ih =>
      obtain ⟨action, permitted, taken⟩ := stepped
      exact ih.tail ⟨action, wide _ _ permitted, taken⟩

/-- The actions of a run, one after the other, each checked where it is taken. -/
def runAll (step : σ → α → Option σ) (allowed : σ → α → Bool) (start : σ) (actions : List α) :
    Option σ :=
  actions.foldlM (fun s action => if allowed s action then step s action else none) start

theorem reaches_of_runAll {check : σ → α → Bool} {actions : List α}
    (ran : runAll step check start actions = some finish) :
    Reaches step (fun s action => check s action = true) start finish := by
  induction actions generalizing start with
  | nil =>
      cases ran
      exact .refl
  | cons action rest ih =>
      rw [runAll, List.foldlM_cons] at ran
      obtain ⟨next, stepped, ran⟩ := Option.bind_eq_some_iff.mp ran
      obtain ⟨permitted, stepped⟩ := Option.ite_none_right_eq_some.mp stepped
      exact .head ⟨action, permitted, stepped⟩ (ih ran)

end Zeron.Data
