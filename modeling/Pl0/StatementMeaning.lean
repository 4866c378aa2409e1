import Pl0.ExpressionValue

set_option autoImplicit false

namespace Pl0

/- What the tree of a program without procedures means. -/

/-- How expressions and conditions get their values, from those of the names. -/
structure Arithmetic where
  expression : (Name → Option Int) → TermExp → Option Int
  condition : (Name → Option Int) → ConditionNode → Option Bool

/-- Exact integers. -/
def exactArithmetic : Arithmetic :=
  ⟨expressionValue, conditionValue⟩

/-- Exact integers, as long as every result on the way is an `int`. -/
def intArithmetic : Arithmetic where
  expression := expressionInt
  condition env cond := if conditionInt env cond then conditionValue env cond else none

/-- The values of the variables, the numbers still to be read, and those printed. -/
structure Store where
  value : Name → Int
  input : List Int
  output : List Int

namespace Store

/-- Before a run; every variable is 0. -/
def start (input : List Int) : Store :=
  { value := fun _ => 0, input := input, output := [] }

def set (s : Store) (name : Name) (v : Int) : Store :=
  { s with value := Function.update s.value name v }

end Store

namespace BlockNode

variable (block : BlockNode)

def varNames : List Name :=
  block.varDecl.map (·.ident)

/-- The names that the block declares. -/
def names : List Name :=
  block.constDecl.map (·.ident) ++ block.varNames

/-- The value of a name in the main block. -/
def nameIn (s : Store) (name : Name) : Option Int :=
  match block.constDecl.find? fun k => k.ident = name with
  | some k => some k.numer
  | none => if name ∈ block.varNames then some (s.value name) else none

end BlockNode

section Statements

variable (a : Arithmetic) (block : BlockNode)

/-- The terminating runs of a statement. There is none where an expression has no value,
where the numbers to be read run out, or where a value goes to what is no variable. -/
inductive Executes : StatementNode → Store → Store → Prop
  | empty (s : Store) : Executes .empty s s
  | assign {name : Name} {e : TermExp} {v : Int} {s : Store} (declared : name ∈ block.varNames)
      (value : a.expression (block.nameIn s) e = some v) :
      Executes (.assign name e) s (s.set name v)
  | done (s : Store) : Executes (.begin .nil) s s
  | next {sts : StatementNode} {rest : StatementList} {s s' s'' : Store}
      (first : Executes sts s s') (more : Executes (.begin rest) s' s'') :
      Executes (.begin (.cons sts rest)) s s''
  | ifHolds {cond : ConditionNode} {ifsts : StatementNode} {s s' : Store}
      (test : a.condition (block.nameIn s) cond = some true) (branch : Executes ifsts s s') :
      Executes (.ifS cond ifsts) s s'
  | ifFails {cond : ConditionNode} {ifsts : StatementNode} {s : Store}
      (test : a.condition (block.nameIn s) cond = some false) : Executes (.ifS cond ifsts) s s
  | thenBranch {cond : ConditionNode} {ifsts elsests : StatementNode} {s s' : Store}
      (test : a.condition (block.nameIn s) cond = some true) (branch : Executes ifsts s s') :
      Executes (.ifElse cond ifsts elsests) s s'
  | elseBranch {cond : ConditionNode} {ifsts elsests : StatementNode} {s s' : Store}
      (test : a.condition (block.nameIn s) cond = some false) (branch : Executes elsests s s') :
      Executes (.ifElse cond ifsts elsests) s s'
  | leave {cond : ConditionNode} {sts : StatementNode} {s : Store}
      (test : a.condition (block.nameIn s) cond = some false) : Executes (.while cond sts) s s
  | again {cond : ConditionNode} {sts : StatementNode} {s s' s'' : Store}
      (test : a.condition (block.nameIn s) cond = some true) (body : Executes sts s s')
      (rest : Executes (.while cond sts) s' s'') : Executes (.while cond sts) s s''
  | read {name : Name} {v : Int} {input : List Int} {s : Store} (declared : name ∈ block.varNames)
      (more : s.input = v :: input) : Executes (.read name) s ({ s with input := input }.set name v)
  | write {name : Name} {v : Int} {s : Store} (value : block.nameIn s name = some v) :
      Executes (.write name) s { s with output := s.output ++ [v] }

end Statements

/- Where a statement writes. -/
mutual
def StatementNode.writes : StatementNode → List Name
  | .empty | .assign _ _ | .read _ | .call _ => []
  | .begin list => list.writes
  | .ifS _ ifsts => ifsts.writes
  | .ifElse _ ifsts elsests => ifsts.writes ++ elsests.writes
  | .while _ sts => sts.writes
  | .write name => [name]

def StatementList.writes : StatementList → List Name
  | .nil => []
  | .cons sts next => sts.writes ++ next.writes
end

section Executions

variable {a a' : Arithmetic} {block : BlockNode} {node : StatementNode} {s s' s'' : Store}

/-- A statement has at most one result. -/
theorem Executes.unique (first : Executes a block node s s')
    (second : Executes a block node s s'') :
    s' = s'' := by
  induction first generalizing s'' with
  | empty => cases second; rfl
  | assign declared value =>
      cases second with
      | assign _ value' =>
          rw [value, Option.some.injEq] at value'
          rw [value']
  | done => cases second; rfl
  | next _ _ ihFirst ihMore =>
      cases second with
      | next first more =>
          cases ihFirst first
          exact ihMore more
  | ifHolds test _ ih =>
      cases second with
      | ifHolds _ branch => exact ih branch
      | ifFails test' =>
          rw [test] at test'
          cases test'
  | ifFails test =>
      cases second with
      | ifHolds test' branch =>
          rw [test] at test'
          cases test'
      | ifFails _ => rfl
  | thenBranch test _ ih =>
      cases second with
      | thenBranch _ branch => exact ih branch
      | elseBranch test' branch =>
          rw [test] at test'
          cases test'
  | elseBranch test _ ih =>
      cases second with
      | thenBranch test' branch =>
          rw [test] at test'
          cases test'
      | elseBranch _ branch => exact ih branch
  | leave test =>
      cases second with
      | leave _ => rfl
      | again test' _ _ =>
          rw [test] at test'
          cases test'
  | again test _ _ ihBody ihRest =>
      cases second with
      | leave test' =>
          rw [test] at test'
          cases test'
      | again _ body rest =>
          cases ihBody body
          exact ihRest rest
  | read declared more =>
      cases second with
      | read _ more' =>
          rw [more, List.cons.injEq] at more'
          rw [more'.1, more'.2]
  | write value =>
      cases second with
      | write value' =>
          rw [value, Option.some.injEq] at value'
          rw [value']

/-- An arithmetic that gives all values of another runs what the other runs. -/
theorem Executes.widen
    (expression : ∀ env e v, a.expression env e = some v → a'.expression env e = some v)
    (condition : ∀ env cond holds, a.condition env cond = some holds →
      a'.condition env cond = some holds)
    (executes : Executes a block node s s') : Executes a' block node s s' := by
  induction executes with
  | empty s => exact .empty s
  | assign declared value => exact .assign declared (expression _ _ _ value)
  | done s => exact .done s
  | next _ _ ihFirst ihMore => exact .next ihFirst ihMore
  | ifHolds test _ ih => exact .ifHolds (condition _ _ _ test) ih
  | ifFails test => exact .ifFails (condition _ _ _ test)
  | thenBranch test _ ih => exact .thenBranch (condition _ _ _ test) ih
  | elseBranch test _ ih => exact .elseBranch (condition _ _ _ test) ih
  | leave test => exact .leave (condition _ _ _ test)
  | again test _ _ ihBody ihRest => exact .again (condition _ _ _ test) ihBody ihRest
  | read declared more => exact .read declared more
  | write value => exact .write value

/-- A run whose results are all of type `int` is the exact one. -/
theorem Executes.of_int (executes : Executes intArithmetic block node s s') :
    Executes exactArithmetic block node s s' := by
  apply executes.widen
  · exact fun env e v value => expressionInt_value value
  · intro env cond holds value
    change (if conditionInt env cond then conditionValue env cond else none) = some holds at value
    by_cases small : conditionInt env cond
    · rw [if_pos small] at value
      exact value
    · rw [if_neg small] at value
      cases value

end Executions

end Pl0
