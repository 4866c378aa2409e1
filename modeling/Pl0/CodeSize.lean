import Pl0.CodeLayout
import Pl0.ParsedTrees
import Pl0.RegisterDiscipline

set_option autoImplicit false

namespace Pl0

/- How many instructions an operand is compiled to; the flag marks the first one of a list,
which needs no operator. The sign of an expression negates its first factor. -/
mutual
def FactorNode.codeSize : FactorNode → Nat
  | .ident _ => 1
  | .digit _ => 1
  | .exp e => e.codeSize true

def FactorExp.codeSize : FactorExp → Bool → Nat
  | .nil, _ => 0
  | .cons _ factor next, first =>
      factor.codeSize + (if first then 0 else 1) + next.codeSize false

def TermExp.codeSize : TermExp → Bool → Nat
  | .nil, _ => 0
  | .cons op term next, first =>
      term.codeSize true + (if first ∧ op ≠ .minussym then 0 else 1) + next.codeSize false
end

def ConditionNode.codeSize : ConditionNode → Nat
  | .odd right => right.codeSize true + 1
  | .relOp _ left right => left.codeSize true + right.codeSize true + 1

/- How many instructions a statement is compiled to; in a procedure a begin statement ends
with a return. -/
mutual
def StatementNode.codeSize (returns : Bool) : StatementNode → Nat
  | .empty => 0
  | .assign _ e => e.codeSize true + 1
  | .begin list => list.codeSize returns + if returns then 1 else 0
  | .ifS cond ifsts => cond.codeSize + ifsts.codeSize returns + 2
  | .ifElse cond ifsts elsests =>
      cond.codeSize + ifsts.codeSize returns + 2 + elsests.codeSize returns
  | .while cond sts => cond.codeSize + sts.codeSize returns + 2
  | .read _ => 2
  | .write _ => 2
  | .call _ => 1

def StatementList.codeSize (returns : Bool) : StatementList → Nat
  | .nil => 0
  | .cons sts next => sts.codeSize returns + next.codeSize returns
end

/-- The code of every block fits into a row of `generatedCode`: that of the main block has an
INC and a halt besides its statement, that of a procedure an INC. -/
structure FitsRows (block : BlockNode) : Prop where
  main : (block.statement.codeSize false : Int) + 2 ≤ maxCodeLength
  bodies : ∀ p ∈ block.procedures, (p.body.statement.codeSize true : Int) + 1 ≤ maxCodeLength

section Compile

variable (c : CodeContext)

theorem length_compileSign (n : Int) (preop : Token) :
    (compileSign n preop).length = if preop = .minussym then 1 else 0 := by
  cases preop <;> rfl

theorem length_compileName {name : Name} (n : Int) (suits : Suits .factor (c.lookup name)) :
    (compileName c n name).length = 1 := by
  obtain ⟨symbol, found, kind⟩ := suits
  unfold compileName
  rw [found]
  cases which : symbol.kind with
  | varS => simp only [which, List.length_singleton]
  | constS => simp only [which, List.length_singleton]
  | procS => exact absurd which kind

mutual
theorem length_compileFactor : ∀ (f : FactorNode) (n : Int), f.Grammatical → f.Suited c.lookup →
    (compileFactor c f n).length = f.codeSize
  | .ident _, n, _, suited => length_compileName c n suited
  | .digit _, _, _, _ => rfl
  | .exp e, n, tree, suited => length_compileTerms e true n tree suited

/-- The sign of a term is the code that its size leaves out. -/
theorem length_compileFactors : ∀ (e : FactorExp) (sign : Option Token) (n : Int),
    e.Grammatical sign.isSome → e.Suited c.lookup → (compileFactors c e sign n).length =
      e.codeSize sign.isSome + if sign = some .minussym then 1 else 0
  | .nil, none, _, _, _ => rfl
  | .nil, some _, _, tree, _ => nomatch tree
  | .cons op factor next, some preop, n, tree, suited => by
      obtain ⟨-, factorTree, nextTree⟩ := tree
      have own := length_compileFactor factor n factorTree suited.1
      have rest := length_compileFactors next none n nextTree suited.2
      simp only [Option.isSome_none, reduceCtorEq, if_false] at rest
      simp only [compileFactors, FactorExp.codeSize, List.length_append, length_compileSign, own,
        rest, Option.isSome_some, if_true, Option.some.injEq]
      omega
  | .cons op factor next, none, n, tree, suited => by
      obtain ⟨-, factorTree, nextTree⟩ := tree
      have own := length_compileFactor factor (n + 1) factorTree suited.1
      have rest := length_compileFactors next none n nextTree suited.2
      simp only [Option.isSome_none, reduceCtorEq, if_false] at rest
      simp only [compileFactors, FactorExp.codeSize, List.length_append, compileCalculation, own,
        rest, Option.isSome_none, Bool.false_eq_true, if_false, List.length_singleton, reduceCtorEq,
        Nat.add_zero]

theorem length_compileTerms : ∀ (e : TermExp) (first : Bool) (n : Int), e.Grammatical first →
    e.Suited c.lookup → (compileTerms c e first n).length = e.codeSize first
  | .nil, _, _, _, _ => rfl
  | .cons op term next, true, n, tree, suited => by
      obtain ⟨-, termTree, nextTree⟩ := tree
      have own := length_compileFactors term (some op) n termTree suited.1
      have rest := length_compileTerms next false n nextTree suited.2
      simp only [Option.isSome_some, Option.some.injEq] at own
      simp only [compileTerms, if_true, TermExp.codeSize, List.length_append, own, rest, true_and]
      by_cases minus : op = .minussym
      · simp only [minus, if_true, ne_eq, not_true_eq_false, if_false]
      · simp only [minus, if_false, ne_eq, not_false_eq_true, if_true]
  | .cons op term next, false, n, tree, suited => by
      obtain ⟨-, termTree, nextTree⟩ := tree
      have own := length_compileFactors term (some .unset) (n + 1) termTree suited.1
      have rest := length_compileTerms next false n nextTree suited.2
      simp only [Option.isSome_some, Option.some.injEq, reduceCtorEq, if_false] at own
      simp only [compileTerms, Bool.false_eq_true, if_false, TermExp.codeSize, List.length_append,
        own, rest, compileCalculation, List.length_singleton, false_and]
end

theorem length_compileExpression {e : TermExp} (n : Int) (tree : e.Grammatical true)
    (suited : e.Suited c.lookup) : (compileExpression c n e).length = e.codeSize true :=
  length_compileTerms c e true n tree suited

theorem length_compileCondition {cond : ConditionNode} (n : Int) (tree : cond.Grammatical)
    (suited : cond.Suited c.lookup) : (compileCondition c n cond).length = cond.codeSize := by
  cases cond with
  | odd right =>
      rw [compileCondition, List.length_append, length_compileExpression c n tree suited]
      rfl
  | relOp op left right =>
      rw [compileCondition, List.length_append, List.length_append,
        length_compileExpression c n tree.2.1 suited.1,
        length_compileExpression c (n + 1) tree.2.2 suited.2]
      rfl

theorem length_compileReturn :
    (compileReturn c).length = if decide (c.procedure > 0) then 1 else 0 := by
  unfold compileReturn
  by_cases inProcedure : c.procedure > 0
  · rw [if_pos inProcedure, if_pos (decide_eq_true inProcedure)]
    rfl
  · rw [if_neg inProcedure, if_neg (by simpa using inProcedure)]
    rfl

mutual
/-- How long the code of a statement is does not depend on where it goes. -/
theorem length_compileStatement : ∀ (node : StatementNode) (n : Int) (start : Nat),
    node.Grammatical →
    node.Known c.lookup →
    (compileStatement c node n start).length = node.codeSize (decide (c.procedure > 0))
  | .empty, _, _, _, _ => rfl
  | .assign name e, n, _, tree, known => by
      obtain ⟨symbol, found⟩ := known.1
      rw [compileStatement, List.length_append, length_compileExpression c n tree known.2,
        compileStore, found]
      rfl
  | .begin list, n, start, tree, known => by
      rw [compileStatement, List.length_append,
        length_compileStatements list true n start tree known, length_compileReturn]
      rfl
  | .ifS cond ifsts, n, start, tree, known => by
      have branch : (compileBranch c cond ifsts n start).length = _ :=
        length_compileStatement ifsts (n + 1) _ tree.2 known.2
      rw [compileStatement_ifS, length_guarded, length_compileCondition c n tree.1 known.1, branch]
      rfl
  | .ifElse cond ifsts elsests, n, start, tree, known => by
      have branch : (compileBranch c cond ifsts n start).length = _ :=
        length_compileStatement ifsts (n + 1) _ tree.2.1 known.2.1
      have other : (compileOther c cond ifsts elsests n start).length = _ :=
        length_compileStatement elsests (n + 1) _ tree.2.2 known.2.2
      rw [compileStatement_ifElse, List.length_append, length_guarded,
        length_compileCondition c n tree.1 known.1, branch, other]
      rfl
  | .while cond sts, n, start, tree, known => by
      have body : (compileBranch c cond sts n start).length = _ :=
        length_compileStatement sts (n + 1) _ tree.2 known.2
      rw [compileStatement_while, length_guarded, length_compileCondition c n tree.1 known.1, body]
      rfl
  | .read name, _, _, _, known => by
      obtain ⟨symbol, found, -⟩ := known
      rw [compileStatement, compileRead, found]
      rfl
  | .write name, _, _, _, known => by
      obtain ⟨symbol, found, -⟩ := known
      rw [compileStatement, compileWrite, found]
      rfl
  | .call name, _, _, _, known => by
      obtain ⟨symbol, found, -⟩ := known
      rw [compileStatement, compileCall, found]
      rfl

theorem length_compileStatements : ∀ (list : StatementList) (some_ : Bool) (n : Int) (start : Nat),
    list.Grammatical some_ → list.Known c.lookup →
    (compileStatements c list n start).length = list.codeSize (decide (c.procedure > 0))
  | .nil, _, _, _, _, _ => rfl
  | .cons sts next, _, n, start, tree, known => by
      rw [compileStatements]
      simp only [List.length_append]
      rw [length_compileStatement sts n start tree.1 known.1,
        length_compileStatements next false n _ tree.2 known.2]
      rfl
end

end Compile

end Pl0
