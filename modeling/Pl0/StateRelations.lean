import Pl0.StateExcept

set_option autoImplicit false

/- Two programs with errors and a state that run alike, from states that differ in what neither
of them looks at. Nothing here depends on what the programs compute. -/
namespace StateExcept

variable {ε σ τ α β : Type}

/-- Both runs returned the same value, or both threw the same error. -/
def EndAlike (R : σ → τ → Prop) : EStateM.Result ε σ α → EStateM.Result ε τ α → Prop
  | .ok a s, .ok b t => a = b ∧ R s t
  | .error e s, .error e' t => e = e' ∧ R s t
  | .ok _ _, .error _ _ => False
  | .error _ _, .ok _ _ => False

section EndAlike

variable {R : σ → τ → Prop} {s : σ} {t : τ}

theorem EndAlike.mono {R' : σ → τ → Prop} {x : EStateM.Result ε σ α} {y : EStateM.Result ε τ α}
    (alike : EndAlike R x y) (implies : ∀ s t, R s t → R' s t) : EndAlike R' x y := by
  cases x with
  | ok a s =>
      cases y with
      | ok b t => exact ⟨alike.1, implies s t alike.2⟩
      | error e t => exact alike
  | error e s =>
      cases y with
      | ok b t => exact alike
      | error e' t => exact ⟨alike.1, implies s t alike.2⟩

theorem EndAlike.bind {x : EStateM ε σ α} {y : EStateM ε τ α} {f : α → EStateM ε σ β}
    {g : α → EStateM ε τ β} (first : EndAlike R (x s) (y t))
    (next : ∀ a s' t', R s' t' → EndAlike R (f a s') (g a t')) :
    EndAlike R ((x >>= f) s) ((y >>= g) t) := by
  cases left : x s with
  | ok a s' =>
      cases right : y t with
      | ok b t' =>
          rw [left, right] at first
          obtain ⟨rfl, related⟩ := first
          rw [bind_of_ok left, bind_of_ok right]
          exact next a s' t' related
      | error e t' =>
          rw [left, right] at first
          exact first.elim
  | error e s' =>
      cases right : y t with
      | ok b t' =>
          rw [left, right] at first
          exact first.elim
      | error e' t' =>
          rw [left, right] at first
          rw [bind_of_error left, bind_of_error right]
          exact first

theorem EndAlike.get {f : σ → EStateM ε σ α} {g : τ → EStateM ε τ α}
    (next : EndAlike R (f s s) (g t t)) :
    EndAlike R ((MonadState.get >>= f) s) ((MonadState.get >>= g) t) := next

/-- To look at the cases of the program that both run. -/
theorem EndAlike.chosen {R : σ → σ → Prop} {s t : σ} {x : EStateM ε σ α}
    (each : ∀ y, x = y → EndAlike R (y s) (y t)) : EndAlike R (x s) (x t) :=
  each x rfl

end EndAlike

/-- The program does the same from related states. -/
def Respects (R : σ → σ → Prop) (x : EStateM ε σ α) : Prop :=
  ∀ s t, R s t → EndAlike R (x s) (x t)

namespace Respects

variable {R : σ → σ → Prop}

theorem pure (a : α) : Respects R (Pure.pure a : EStateM ε σ α) :=
  fun _ _ related => ⟨rfl, related⟩

theorem throw (e : ε) : Respects R (MonadExcept.throw e : EStateM ε σ α) :=
  fun _ _ related => ⟨rfl, related⟩

theorem modify {f : σ → σ} (keeps : ∀ s t, R s t → R (f s) (f t)) :
    Respects R (modify f : EStateM ε σ PUnit) :=
  fun s t related => ⟨rfl, keeps s t related⟩

theorem bind {x : EStateM ε σ α} {f : α → EStateM ε σ β} (first : Respects R x)
    (next : ∀ a, Respects R (f a)) : Respects R (x >>= f) :=
  fun s t related => EndAlike.bind (first s t related) fun a s' t' => next a s' t'

/-- What is done with the state that was got is the same in both states. -/
theorem get_alike {f : σ → EStateM ε σ β} {s t : σ} (related : R s t) (same : f s = f t)
    (next : Respects R (f t)) : EndAlike R ((get >>= f) s) ((get >>= f) t) := by
  change EndAlike R (f s s) (f t t)
  rw [same]
  exact next s t related

theorem get_bind {f : σ → EStateM ε σ β} (same : ∀ s t, R s t → f s = f t)
    (next : ∀ s, Respects R (f s)) : Respects R (get >>= f) :=
  fun s t related => get_alike related (same s t related) (next t)

theorem ite {c : Prop} [Decidable c] {x y : EStateM ε σ α} (yes : Respects R x)
    (no : Respects R y) : Respects R (if c then x else y) := by
  split
  · exact yes
  · exact no

end Respects

end StateExcept
