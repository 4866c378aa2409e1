import Mathlib.Data.Int.Basic
import Pl0.AstNode

set_option autoImplicit false

namespace Pl0

/- What the trees of expressions and conditions mean. An environment gives the value of
each name that has one. -/

/-- An operator between terms, on exact integers. -/
def addOperate (op : Token) (x y : Int) : Option Int :=
  match op with
  | .plussym => some (x + y)
  | .minussym => some (x - y)
  | _ => none

/-- An operator between factors; division truncates, and there is none by zero. -/
def mulOperate (op : Token) (x y : Int) : Option Int :=
  match op with
  | .multsym => some (x * y)
  | .slashsym => if y = 0 then none else some (x.tdiv y)
  | _ => none

/-- A minus in front of a value; any other token is no sign. -/
def signed (preop : Token) (x : Int) : Int :=
  if preop = .minussym then -x else x

section Exact

variable (env : Name → Option Int)

/- The operators associate to the left: `before` is the value of what came before, and
`none` at the first factor or term. -/
mutual
def factorValue : FactorNode → Option Int
  | .ident name => env name
  | .digit value => some value
  | .exp e => termsValue e none

def factorsValue : FactorExp → Option Int → Option Int
  | .nil, before => before
  | .cons _ factor next, none => do
      let x ← factorValue factor
      factorsValue next (some x)
  | .cons op factor next, some x => do
      let y ← factorValue factor
      let z ← mulOperate op x y
      factorsValue next (some z)

/-- The sign of an expression is that of its whole first term. -/
def termsValue : TermExp → Option Int → Option Int
  | .nil, before => before
  | .cons op term next, none => do
      let x ← factorsValue term none
      termsValue next (some (signed op x))
  | .cons op term next, some x => do
      let y ← factorsValue term none
      let z ← addOperate op x y
      termsValue next (some z)
end

def expressionValue (e : TermExp) : Option Int := termsValue env e none

def compared (op : Token) (x y : Int) : Option Bool :=
  match op with
  | .eqlsym => some (x = y)
  | .neqsym => some (x ≠ y)
  | .lessym => some (x < y)
  | .leqsym => some (x ≤ y)
  | .gtrsym => some (x > y)
  | .geqsym => some (x ≥ y)
  | _ => none

def conditionValue : ConditionNode → Option Bool
  | .odd right => (expressionValue env right).map fun x => decide (x % 2 = 1)
  | .relOp op left right => do
      let x ← expressionValue env left
      let y ← expressionValue env right
      compared op x y

end Exact

/-- The result of an operation, where it is an `int`. -/
def intOnly (x : Int) : Option Int :=
  if InInt x then some x else none

def signedInt (preop : Token) (x : Int) : Option Int :=
  if preop = .minussym then intOnly (-x) else some x

section InRange

variable (env : Name → Option Int)

/- The same values where every result is an `int`; here the minus belongs to the first
factor of the first term. -/
mutual
def factorInt : FactorNode → Option Int
  | .ident name => env name
  | .digit value => some value
  | .exp e => termsInt e none

def factorsInt : FactorExp → Token → Option Int → Option Int
  | .nil, _, before => before
  | .cons _ factor next, preop, none => do
      let x ← factorInt factor
      let x ← signedInt preop x
      factorsInt next .unset (some x)
  | .cons op factor next, preop, some x => do
      let y ← factorInt factor
      let z ← mulOperate op x y
      let z ← intOnly z
      factorsInt next preop (some z)

def termsInt : TermExp → Option Int → Option Int
  | .nil, before => before
  | .cons op term next, none => do
      let x ← factorsInt term op none
      termsInt next (some x)
  | .cons op term next, some x => do
      let y ← factorsInt term .unset none
      let z ← addOperate op x y
      let z ← intOnly z
      termsInt next (some z)
end

def expressionInt (e : TermExp) : Option Int := termsInt env e none

/-- No result on the way to the value of a condition leaves the type `int`. -/
def conditionInt : ConditionNode → Prop
  | .odd right => (expressionInt env right).isSome
  | .relOp _ left right => (expressionInt env left).isSome ∧ (expressionInt env right).isSome

instance (cond : ConditionNode) : Decidable (conditionInt env cond) := by
  cases cond
  · exact inferInstanceAs (Decidable (_ = true))
  · exact inferInstanceAs (Decidable (_ ∧ _))

end InRange

theorem intOnly_eq_some {x y : Int} (inside : intOnly x = some y) : InInt x ∧ y = x := by
  unfold intOnly at inside
  split at inside
  · rename_i small
    exact ⟨small, (Option.some.inj inside).symm⟩
  · cases inside

theorem signedInt_eq_some {preop : Token} {x y : Int} (sign : signedInt preop x = some y) :
    y = signed preop x := by
  unfold signedInt at sign
  unfold signed
  by_cases minus : preop = .minussym
  · rw [if_pos minus] at sign ⊢
    exact (intOnly_eq_some sign).2
  · rw [if_neg minus] at sign ⊢
    exact (Option.some.inj sign).symm

/-- Multiplication and division take the sign of the left operand. -/
theorem mulOperate_signed {op preop : Token} {x y z : Int}
    (result : mulOperate op (signed preop x) y = some z) :
    ∃ w, mulOperate op x y = some w ∧ z = signed preop w := by
  unfold signed at result ⊢
  by_cases minus : preop = .minussym
  · rw [if_pos minus] at result
    cases op with
    | multsym =>
        refine ⟨x * y, rfl, ?_⟩
        rw [if_pos minus, ← Int.neg_mul]
        exact (Option.some.inj result).symm
    | slashsym =>
        unfold mulOperate at result ⊢
        dsimp only at result ⊢
        by_cases zero : y = 0
        · rw [if_pos zero] at result
          cases result
        · rw [if_neg zero] at result
          refine ⟨x.tdiv y, if_neg zero, ?_⟩
          rw [if_pos minus, ← Int.neg_tdiv]
          exact (Option.some.inj result).symm
    | _ => cases result
  · rw [if_neg minus] at result
    exact ⟨z, result, (if_neg minus).symm⟩

section Agreement

variable {env : Name → Option Int}

/- Where no result leaves the type, the machine's values are the exact ones: the sign of
the first factor goes over to the whole term. -/
mutual
theorem factorInt_value : ∀ (f : FactorNode) {v : Int}, factorInt env f = some v →
    factorValue env f = some v
  | .ident _, _, value => value
  | .digit _, _, value => value
  | .exp e, _, value => termsInt_value e value

theorem factorsInt_rest : ∀ (e : FactorExp) {preop sign : Token} {x v : Int},
    factorsInt env e preop (some (signed sign x)) = some v →
      ∃ w, factorsValue env e (some x) = some w ∧ v = signed sign w
  | .nil, _, sign, x, v, value => ⟨x, rfl, (Option.some.inj value).symm⟩
  | .cons op factor next, preop, sign, x, v, value => by
      unfold factorsInt at value
      obtain ⟨y, right, value⟩ := Option.bind_eq_some_iff.mp value
      obtain ⟨z, result, value⟩ := Option.bind_eq_some_iff.mp value
      obtain ⟨z', small, value⟩ := Option.bind_eq_some_iff.mp value
      obtain ⟨w, exact_, opposite⟩ := mulOperate_signed result
      rw [(intOnly_eq_some small).2, opposite] at value
      obtain ⟨last, rest, same⟩ := factorsInt_rest next value
      refine ⟨last, ?_, same⟩
      unfold factorsValue
      exact Option.bind_eq_some_iff.mpr ⟨y, factorInt_value factor right,
        Option.bind_eq_some_iff.mpr ⟨w, exact_, rest⟩⟩

theorem factorsInt_value : ∀ (e : FactorExp) {preop : Token} {v : Int},
    factorsInt env e preop none = some v →
      ∃ w, factorsValue env e none = some w ∧ v = signed preop w
  | .nil, _, _, value => by cases value
  | .cons op factor next, preop, v, value => by
      unfold factorsInt at value
      obtain ⟨x, first, value⟩ := Option.bind_eq_some_iff.mp value
      obtain ⟨y, sign, value⟩ := Option.bind_eq_some_iff.mp value
      rw [signedInt_eq_some sign] at value
      obtain ⟨w, rest, same⟩ := factorsInt_rest next value
      refine ⟨w, ?_, same⟩
      unfold factorsValue
      exact Option.bind_eq_some_iff.mpr ⟨x, factorInt_value factor first, rest⟩

theorem termsInt_rest : ∀ (e : TermExp) {x v : Int}, termsInt env e (some x) = some v →
    termsValue env e (some x) = some v
  | .nil, _, _, value => value
  | .cons op term next, x, v, value => by
      unfold termsInt at value
      obtain ⟨y, right, value⟩ := Option.bind_eq_some_iff.mp value
      obtain ⟨z, result, value⟩ := Option.bind_eq_some_iff.mp value
      obtain ⟨z', small, value⟩ := Option.bind_eq_some_iff.mp value
      obtain ⟨w, exact_, unsigned⟩ := factorsInt_value term right
      rw [(intOnly_eq_some small).2] at value
      have plain : y = w := unsigned
      rw [plain] at result
      unfold termsValue
      exact Option.bind_eq_some_iff.mpr ⟨w, exact_, Option.bind_eq_some_iff.mpr
        ⟨z, result, termsInt_rest next value⟩⟩

theorem termsInt_value : ∀ (e : TermExp) {v : Int}, termsInt env e none = some v →
    termsValue env e none = some v
  | .nil, _, value => by cases value
  | .cons op term next, v, value => by
      unfold termsInt at value
      obtain ⟨x, first, value⟩ := Option.bind_eq_some_iff.mp value
      obtain ⟨w, exact_, rfl⟩ := factorsInt_value term first
      unfold termsValue
      exact Option.bind_eq_some_iff.mpr ⟨w, exact_, termsInt_rest next value⟩
end

theorem expressionInt_value {e : TermExp} {v : Int} (value : expressionInt env e = some v) :
    expressionValue env e = some v :=
  termsInt_value e value

end Agreement

end Pl0
