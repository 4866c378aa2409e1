import Mathlib.Logic.Relation

set_option autoImplicit false

/- Runs of so many steps of a machine, and machines that never stop. Nothing here depends on
the machine. -/
namespace CountedRuns

variable {σ : Type} (step : σ → σ → Prop)

inductive Steps : Nat → σ → σ → Prop
  | none (s : σ) : Steps 0 s s
  | more {k : Nat} {s t u : σ} (first : step s t) (rest : Steps k t u) : Steps (k + 1) s u

/-- There is no step behind which the machine stands still. -/
def Endless (s : σ) : Prop :=
  ∀ k, ∃ t, Steps step k s t

variable {step} {s t u : σ} {k n : Nat}

theorem Steps.trans (first : Steps step k s t) (rest : Steps step n t u) :
    Steps step (k + n) s u := by
  induction first with
  | none s =>
      rw [Nat.zero_add]
      exact rest
  | more taken _ ih =>
      rw [Nat.add_right_comm]
      exact .more taken (ih rest)

theorem Steps.of_run (run : Relation.ReflTransGen step s t) : ∃ k, Steps step k s t := by
  induction run using Relation.ReflTransGen.head_induction_on with
  | refl => exact ⟨0, .none t⟩
  | head taken _ ih =>
      obtain ⟨k, rest⟩ := ih
      exact ⟨k + 1, .more taken rest⟩

/-- A run that leads elsewhere takes a step. -/
theorem Steps.of_ne (run : Relation.ReflTransGen step s t) (other : s ≠ t) :
    ∃ k, Steps step (k + 1) s t := by
  obtain ⟨k, steps⟩ := Steps.of_run run
  cases steps with
  | none => exact absurd rfl other
  | more taken rest => exact ⟨_, .more taken rest⟩

theorem Steps.take (steps : Steps step n s u) (fewer : k ≤ n) : ∃ t, Steps step k s t := by
  induction steps generalizing k with
  | none s =>
      obtain rfl := Nat.le_zero.mp fewer
      exact ⟨s, .none s⟩
  | more taken _ ih =>
      cases k with
      | zero => exact ⟨_, .none _⟩
      | succ k =>
          obtain ⟨t, rest⟩ := ih (Nat.le_of_succ_le_succ fewer)
          exact ⟨t, .more taken rest⟩

theorem Steps.last (steps : Steps step (k + 1) s u) : ∃ t, Steps step k s t ∧ step t u := by
  induction k generalizing s with
  | zero =>
      cases steps with
      | more taken rest =>
          cases rest
          exact ⟨s, .none s, taken⟩
  | succ k ih =>
      cases steps with
      | more taken rest =>
          obtain ⟨t, before, last⟩ := ih rest
          exact ⟨t, .more taken before, last⟩

/-- Runs that grow beyond every length are the beginning of one that has no end. -/
theorem endless_of_longer (longer : ∀ k, ∃ n t, k ≤ n ∧ Steps step n s t) : Endless step s := by
  intro k
  obtain ⟨n, t, enough, steps⟩ := longer k
  exact steps.take enough

end CountedRuns
