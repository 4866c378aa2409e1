import Mathlib.Logic.Basic

set_option autoImplicit false

/- Inversion and execution rules for programs with errors and a state. Nothing
here depends on what the programs compute. -/

namespace Except

variable {ε α β : Type}

theorem bind_eq_ok {x : Except ε α} {f : α → Except ε β} {b : β} :
    (x >>= f) = .ok b ↔ ∃ a, x = .ok a ∧ f a = .ok b := by
  cases x with
  | error e => simp [bind, Except.bind]
  | ok a => simp [bind, Except.bind]

theorem bind_of_ok {x : Except ε α} {a : α} (returned : x = .ok a) (f : α → Except ε β) :
    (x >>= f) = f a := by
  rw [returned]
  rfl

theorem pure_eq_ok {a b : α} : (pure a : Except ε α) = .ok b ↔ a = b := by
  simp [pure, Except.pure]

end Except

namespace StateExcept

variable {ε σ α β : Type}

/-- The state a computation stops in, whether it returned or threw. -/
def stateOf : EStateM.Result ε σ α → σ
  | .ok _ s => s
  | .error _ s => s

@[simp] theorem stateOf_ok (a : α) (s : σ) : stateOf (.ok a s : EStateM.Result ε σ α) = s := rfl
/-- What `f` makes of the value and the state that were returned, if any were. -/
def returned? (f : α → σ → β) : EStateM.Result ε σ α → Option β
  | .ok a s => some (f a s)
  | .error _ _ => none

theorem returned?_eq_some {f : α → σ → β} {result : EStateM.Result ε σ α} {b : β} :
    returned? f result = some b ↔ ∃ a s, result = .ok a s ∧ f a s = b := by
  cases result with
  | error e s => simp [returned?]
  | ok a s =>
      constructor
      · intro made
        exact ⟨a, s, rfl, Option.some.inj made⟩
      · rintro ⟨_, _, ⟨rfl, rfl⟩, rfl⟩
        rfl

theorem bind_eq_ok {x : EStateM ε σ α} {f : α → EStateM ε σ β} {s s'' : σ} {b : β} :
    (x >>= f) s = .ok b s'' ↔ ∃ a s', x s = .ok a s' ∧ f a s' = .ok b s'' := by
  change EStateM.bind x f s = _ ↔ _
  unfold EStateM.bind
  cases x s with
  | error e s' => simp
  | ok a s' =>
      constructor
      · intro next
        exact ⟨a, s', rfl, next⟩
      · rintro ⟨_, _, ⟨rfl, rfl⟩, next⟩
        exact next

theorem bind_of_ok {x : EStateM ε σ α} {s s' : σ} {a : α} (returned : x s = .ok a s')
    (f : α → EStateM ε σ β) : (x >>= f) s = f a s' := by
  change EStateM.bind x f s = _
  simp only [EStateM.bind, returned]

theorem bind_of_error {x : EStateM ε σ α} {s s' : σ} {e : ε} (threw : x s = .error e s')
    (f : α → EStateM ε σ β) : (x >>= f) s = .error e s' := by
  change EStateM.bind x f s = _
  simp only [EStateM.bind, threw]

theorem pure_eq_ok {a b : α} {s s' : σ} :
    (pure a : EStateM ε σ α) s = .ok b s' ↔ a = b ∧ s = s' := by
  change EStateM.Result.ok a s = .ok b s' ↔ _
  simp

theorem get_eq_ok {s s' t : σ} : (get : EStateM ε σ σ) s = .ok t s' ↔ s = t ∧ s = s' := by
  change EStateM.Result.ok s s = .ok t s' ↔ _
  simp

theorem modify_eq_ok {f : σ → σ} {s s' : σ} {u : PUnit} :
    (modify f : EStateM ε σ PUnit) s = .ok u s' ↔ f s = s' := by
  change EStateM.Result.ok PUnit.unit (f s) = .ok u s' ↔ _
  simp

theorem throw_ne_ok {e : ε} {a : α} {s s' : σ} :
    (throw e : EStateM ε σ α) s = .ok a s' ↔ False := by
  change EStateM.Result.error e s = .ok a s' ↔ _
  simp

/-- Two programs that start alike and go on alike from every state between. -/
theorem bind_congr {x y : EStateM ε σ α} {f g : α → EStateM ε σ β} {s : σ} (same : x s = y s)
    (next : ∀ a s', x s = .ok a s' → f a s' = g a s') : (x >>= f) s = (y >>= g) s := by
  cases run : x s with
  | ok a s' =>
      rw [bind_of_ok run, bind_of_ok (same ▸ run)]
      exact next a s' run
  | error e s' => rw [bind_of_error run, bind_of_error (same ▸ run)]

section Guarded

variable {ι : Type} (measure : σ → Nat)

/-- Where `x` makes calls, it makes them in states of a smaller measure than its own,
as long as the calls do not raise the measure themselves. -/
def Guarded (x : (ι → EStateM ε σ α) → EStateM ε σ β) : Prop :=
  ∀ s calls calls', (∀ i s', measure (stateOf (calls i s')) ≤ measure s') →
    (∀ i s', measure s' < measure s → calls i s' = calls' i s') → x calls s = x calls' s

end Guarded

/-- Started where `P` holds, the computation returns where `Q` holds or throws where
`E` holds. -/
def Triple (P : σ → Prop) (x : EStateM ε σ α) (Q : α → σ → Prop) (E : ε → σ → Prop) : Prop :=
  ∀ s, P s → match x s with
    | .ok a s' => Q a s'
    | .error e s' => E e s'

section Triple

variable {P P' : σ → Prop} {Q : α → σ → Prop} {R : β → σ → Prop} {E : ε → σ → Prop}

theorem Triple.ok {x : EStateM ε σ α} (triple : Triple P x Q E) {s s' : σ} {a : α} (holds : P s)
    (returned : x s = .ok a s') : Q a s' := by
  have result := triple s holds
  rw [returned] at result
  exact result

theorem Triple.error {x : EStateM ε σ α} (triple : Triple P x Q E) {s s' : σ} {e : ε} (holds : P s)
    (threw : x s = .error e s') : E e s' := by
  have result := triple s holds
  rw [threw] at result
  exact result

theorem Triple.pure {a : α} (holds : ∀ s, P s → Q a s) :
    Triple P (Pure.pure a : EStateM ε σ α) Q E := holds

theorem Triple.throw {e : ε} (holds : ∀ s, P s → E e s) :
    Triple P (MonadExcept.throw e : EStateM ε σ α) Q E := holds

theorem Triple.modify {f : σ → σ} {Q : PUnit → σ → Prop} (holds : ∀ s, P s → Q ⟨⟩ (f s)) :
    Triple P (modify f : EStateM ε σ PUnit) Q E := holds

theorem Triple.bind {x : EStateM ε σ α} {f : α → EStateM ε σ β} (first : Triple P x Q E)
    (next : ∀ a, Triple (Q a) (f a) R E) : Triple P (x >>= f) R E := by
  intro s holds
  cases run : x s with
  | ok a s' =>
      rw [bind_of_ok run]
      exact next a s' (first.ok holds run)
  | error e s' =>
      rw [bind_of_error run]
      exact first.error holds run

/-- What follows a `get` may use that it sees the current state. -/
theorem Triple.get_bind {f : σ → EStateM ε σ β} (next : ∀ t, P t → Triple (· = t) (f t) R E) :
    Triple P (get >>= f) R E := by
  intro s holds
  exact next s holds s rfl

theorem Triple.weaken {x : EStateM ε σ α} (triple : Triple P x Q E) (weaker : ∀ s, P' s → P s) :
    Triple P' x Q E :=
  fun s holds => triple s (weaker s holds)

/-- The postconditions may be given up for weaker ones. -/
theorem Triple.mono {x : EStateM ε σ α} {Q' : α → σ → Prop} {E' : ε → σ → Prop}
    (triple : Triple P x Q E) (returned : ∀ a s, Q a s → Q' a s) (threw : ∀ e s, E e s → E' e s) :
    Triple P x Q' E' := by
  intro s holds
  cases run : x s with
  | ok a s' => exact returned a s' (triple.ok holds run)
  | error e s' => exact threw e s' (triple.error holds run)

theorem Triple.exists {ι : Type} {P : ι → σ → Prop} {Q : ι → α → σ → Prop} {x : EStateM ε σ α}
    (triple : ∀ i, Triple (P i) x (Q i) E) :
    Triple (fun s => ∃ i, P i s) x (fun a s => ∃ i, Q i a s) E := by
  rintro s ⟨i, holds⟩
  cases run : x s with
  | ok a s' => exact ⟨i, (triple i).ok holds run⟩
  | error e s' => exact (triple i).error holds run

theorem Triple.ite {c : Prop} [Decidable c] {x y : EStateM ε σ α} (yes : Triple P x Q E)
    (no : Triple P y Q E) : Triple P (if c then x else y) Q E := by
  split
  · exact yes
  · exact no

end Triple

end StateExcept
