import Mathlib.Logic.Relation

set_option autoImplicit false

/- Runs of a machine whose steps are calls, returns or local steps, and which
keeps a stack of open activations. Nothing here depends on the machine. -/
namespace CallRuns

inductive Kind
  | call
  | ret
  | inner
  deriving DecidableEq

variable {σ α : Type}

/-- The activation stack follows the kind of each step: a call pushes, a return
pops, and a local step may only change the newest activation. -/
structure Discipline (step : σ → σ → Prop) (kind : σ → Kind) (stack : σ → List α) : Prop where
  call : ∀ {s t}, step s t → kind s = .call → (stack t).tail = stack s
  ret : ∀ {s t}, step s t → kind s = .ret → stack t = (stack s).tail
  inner : ∀ {s t}, step s t → kind s = .inner → (stack t).tail = (stack s).tail

variable (step : σ → σ → Prop) (kind : σ → Kind)

/-- Runs in which every call that was made has returned. -/
inductive Balanced : σ → σ → Prop
  | refl (s : σ) : Balanced s s
  | inner {s t u : σ} : Balanced s t → step t u → kind t = .inner → Balanced s u
  | call {s t u v w : σ} : Balanced s t → step t u → kind t = .call → Balanced u v →
      step v w → kind v = .ret → Balanced s w

variable {step kind} {stack : σ → List α}

theorem Balanced.tail_eq (disciplined : Discipline step kind stack) {s t : σ}
    (balanced : Balanced step kind s t) : (stack t).tail = (stack s).tail := by
  induction balanced with
  | refl => rfl
  | inner _ taken local_ ih => exact (disciplined.inner taken local_).trans ih
  | call _ called isCall _ returned isRet outer inside =>
      have popped := disciplined.ret returned isRet
      have pushed := disciplined.call called isCall
      rw [popped, inside, pushed, outer]

/-- What local steps never change of the newest activation is as it was when the
balanced run began. -/
theorem Balanced.head_eq {β : Type} {key : α → β} (disciplined : Discipline step kind stack)
    (keyed : ∀ {s t}, step s t → kind s = .inner →
      (stack t).head?.map key = (stack s).head?.map key)
    {s t : σ} (balanced : Balanced step kind s t) :
    (stack t).head?.map key = (stack s).head?.map key := by
  induction balanced with
  | refl => rfl
  | inner _ taken local_ ih => exact (keyed taken local_).trans ih
  | call _ called isCall inside returned isRet outer _ =>
      have popped := disciplined.ret returned isRet
      have pushed := disciplined.call called isCall
      rw [popped, inside.tail_eq disciplined, pushed, outer]

/-- Every open activation but the oldest was opened by a call of the run, and
the run since that call is balanced. -/
def Opened (step : σ → σ → Prop) (kind : σ → Kind) (stack : σ → List α) (start : σ) :
    List α → σ → Prop
  | [], _ => True
  | _ :: rest, s => rest = [] ∨ ∃ before after, Relation.ReflTransGen step start before ∧
      step before after ∧ kind before = .call ∧ Balanced step kind after s ∧
      stack before = rest ∧ Opened step kind stack start rest before

theorem opened_step (disciplined : Discipline step kind stack) {start s t : σ}
    (reached : Relation.ReflTransGen step start s) (nonempty : stack s ≠ [])
    (opened : Opened step kind stack start (stack s) s) (taken : step s t) :
    Opened step kind stack start (stack t) t := by
  cases action : kind s with
  | call =>
      have pushed := disciplined.call taken action
      cases after : stack t with
      | nil => trivial
      | cons newest rest =>
          rw [after, List.tail_cons] at pushed
          refine Or.inr ⟨s, t, reached, taken, action, .refl t, pushed.symm, ?_⟩
          rw [pushed]
          exact opened
  | inner =>
      have kept := disciplined.inner taken action
      cases before : stack s with
      | nil => exact absurd before nonempty
      | cons newest rest =>
          cases after : stack t with
          | nil => trivial
          | cons newest' rest' =>
              rw [before, after, List.tail_cons, List.tail_cons] at kept
              subst kept
              rw [before] at opened
              rcases opened with bottom | ⟨c, c', reach, called, isCall, balanced, same, older⟩
              · exact Or.inl bottom
              · exact Or.inr
                  ⟨c, c', reach, called, isCall, .inner balanced taken action, same, older⟩
  | ret =>
      have popped := disciplined.ret taken action
      cases before : stack s with
      | nil => exact absurd before nonempty
      | cons newest rest =>
          rw [before, List.tail_cons] at popped
          rw [before] at opened
          rw [popped]
          rcases opened with bottom | ⟨c, c', reach, called, isCall, balanced, same, older⟩
          · rw [bottom]
            trivial
          · cases rest with
            | nil => trivial
            | cons caller older' =>
                -- The caller was open at the call, so its own call is still the matching one.
                rcases older with bottom |
                  ⟨d, d', reach', called', isCall', balanced', same', older'⟩
                · exact Or.inl bottom
                · exact Or.inr ⟨d, d', reach', called', isCall',
                    .call balanced' called isCall balanced taken action, same', older'⟩

/-- In every state of a run that keeps an activation open, the newest activation
above the oldest has its matching call behind it. -/
theorem matching_call (disciplined : Discipline step kind stack) {start s : σ}
    (single : (stack start).tail = [])
    (open_ : ∀ u t, Relation.ReflTransGen step start u → step u t → stack u ≠ [])
    (reached : Relation.ReflTransGen step start s) (called : (stack s).tail ≠ []) :
    ∃ before after, Relation.ReflTransGen step start before ∧ step before after ∧
      kind before = .call ∧ Balanced step kind after s ∧ stack before = (stack s).tail := by
  have opened : Opened step kind stack start (stack s) s := by
    clear called
    induction reached with
    | refl =>
        cases whole : stack start with
        | nil => trivial
        | cons newest rest =>
            rw [whole, List.tail_cons] at single
            exact Or.inl single
    | tail reached taken ih =>
        exact opened_step disciplined reached (open_ _ _ reached taken) ih taken
  cases whole : stack s with
  | nil => simp [whole] at called
  | cons newest rest =>
      rw [whole, List.tail_cons] at called
      rw [whole] at opened
      rcases opened with bottom | ⟨c, c', reach, taken, isCall, balanced, same, _⟩
      · exact absurd bottom called
      · exact ⟨c, c', reach, taken, isCall, balanced, same⟩

end CallRuns
