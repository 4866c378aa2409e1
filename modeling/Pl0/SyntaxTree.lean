import Pl0.MarkedText
import Pl0.ParseState

set_option autoImplicit false

namespace Pl0

/- The syntax trees of the grammar in the comments of `parse.c`: the nodes of the parser
without what it computes for them, and the tokens they stand for. -/

/-- The role of a token, as far as the recoveries of the parser depend on it: the `:=` of
an assignment, an operator between two operands, a semicolon between two statements of a
list with whether it may be left out, a closing parenthesis, and the final period. -/
inductive Mark
  | plain
  | becomes
  | binary
  | separator (droppable : Bool)
  | closeParen
  | period
  deriving DecidableEq, Repr

abbrev Marked := CurrentToken × Mark

/-- The part of a token that its code gives a meaning to. -/
def CurrentToken.normal (token : CurrentToken) : CurrentToken :=
  if token.cToken = .identsym then .ident token.string
  else if token.cToken = .numbersym then .number token.numeric
  else .word token.cToken

theorem CurrentToken.normal_cToken (token : CurrentToken) : token.normal.cToken = token.cToken := by
  unfold CurrentToken.normal
  split
  · rename_i isName
    exact isName.symm
  · split
    · rename_i isNumber
      exact isNumber.symm
    · rfl

def plain (token : Token) : Marked := (.word token, .plain)

def nameToken (name : Name) : Marked := (.ident name, .plain)

mutual
inductive BlockTree
  | mk (consts : List (Name × Int)) (vars : List Name) (procs : ProcTrees)
      (statement : StatementNode)

inductive ProcTrees
  | nil
  | cons (ident : Name) (body : BlockTree) (next : ProcTrees)
end

mutual
def BlockNode.tree : BlockNode → BlockTree
  | .mk constDecl varDecl procDef statement =>
      .mk (constDecl.map fun node => (node.ident, node.numer)) (varDecl.map VarDeclNode.ident)
        procDef.trees statement

def ProdefList.trees : ProdefList → ProcTrees
  | .nil => .nil
  | .cons ident _ _ _ body next => .cons ident body.tree next.trees
end

/- The flag of a list of factors or terms marks its first element. -/
mutual
def FactorNode.frontier : FactorNode → List Marked
  | .ident name => [nameToken name]
  | .digit value => [(.number value, .plain)]
  | .exp e => plain .lparentsym :: (e.frontier true ++ [(.word .rparentsym, .closeParen)])

def FactorExp.frontier : FactorExp → Bool → List Marked
  | .nil, _ => []
  | .cons op factor next, first =>
      (if first then [] else [(.word op, .binary)]) ++ (factor.frontier ++ next.frontier false)

def TermExp.frontier : TermExp → Bool → List Marked
  | .nil, _ => []
  | .cons op term next, first =>
      (if first then (if op = .unset then [] else [plain op]) else [(.word op, .binary)]) ++
        (term.frontier true ++ next.frontier false)
end

def ConditionNode.frontier : ConditionNode → List Marked
  | .odd right => plain .oddsym :: right.frontier true
  | .relOp op left right => left.frontier true ++ plain op :: right.frontier true

/-- The last thing in the statement is an empty statement. -/
def StatementNode.endsEmpty : StatementNode → Bool
  | .empty => true
  | .ifS _ ifsts => ifsts.endsEmpty
  | .ifElse _ _ elsests => elsests.endsEmpty
  | .while _ sts => sts.endsEmpty
  | _ => false

/-- The statement ends in an if statement that could still take an else. -/
def StatementNode.endsOpen : StatementNode → Bool
  | .ifS _ _ => true
  | .ifElse _ _ elsests => elsests.endsOpen
  | .while _ sts => sts.endsOpen
  | _ => false

def StatementNode.isEmpty : StatementNode → Bool
  | .empty => true
  | _ => false

mutual
def StatementNode.frontier : StatementNode → List Marked
  | .empty => []
  | .assign name e => nameToken name :: (.word .becomessym, .becomes) :: e.frontier true
  | .begin list => plain .beginsym :: (list.frontier ++ [plain .endsym])
  | .ifS cond ifsts =>
      plain .ifsym :: (cond.frontier ++ plain .thensym :: ifsts.frontier)
  | .ifElse cond ifsts elsests =>
      plain .ifsym :: (cond.frontier ++ plain .thensym ::
        (ifsts.frontier ++ plain .elsesym :: elsests.frontier))
  | .while cond sts => plain .whilesym :: (cond.frontier ++ plain .dosym :: sts.frontier)
  | .read name => [plain .readsym, nameToken name]
  | .write name => [plain .writesym, nameToken name]
  | .call name => [plain .callsym, nameToken name]

def StatementList.frontier : StatementList → List Marked
  | .nil => []
  | .cons sts next => sts.frontier ++ next.frontierAfter sts.endsEmpty

/-- The statements behind another one; the flag tells whether that one ends empty. -/
def StatementList.frontierAfter : StatementList → Bool → List Marked
  | .nil, _ => []
  | .cons sts next, ends =>
      (.word .semicolonsym, .separator (!ends && !sts.isEmpty)) ::
        (sts.frontier ++ next.frontierAfter sts.endsEmpty)
end

/-- The items of a declaration behind its keyword. -/
def itemsFrontier {α : Type} (item : α → List Marked) : List α → List Marked
  | [] => [plain .semicolonsym]
  | next :: items => plain .commasym :: (item next ++ itemsFrontier item items)

/-- A declaration with its keyword; without items there is none. -/
def sectionFrontier {α : Type} (keyword : Token) (item : α → List Marked) : List α → List Marked
  | [] => []
  | first :: items => plain keyword :: (item first ++ itemsFrontier item items)

def constFrontier (const : Name × Int) : List Marked :=
  [nameToken const.1, plain .eqlsym, (.number const.2, .plain)]

def varFrontier (name : Name) : List Marked := [nameToken name]

mutual
def BlockTree.frontier : BlockTree → List Marked
  | .mk consts vars procs statement =>
      sectionFrontier .constsym constFrontier consts ++ (sectionFrontier .varsym varFrontier vars ++
        (procs.frontier ++ statement.frontier))

def ProcTrees.frontier : ProcTrees → List Marked
  | .nil => []
  | .cons ident body next =>
      plain .procsym :: nameToken ident :: plain .semicolonsym ::
        (body.frontier ++ plain .semicolonsym :: next.frontier)
end

/-- The tokens of a program. -/
def BlockTree.program (block : BlockTree) : List Marked :=
  block.frontier ++ [(.word .periodsym, .period)]

def IsRelOp (op : Token) : Prop :=
  op = .eqlsym ∨ op = .neqsym ∨ op = .lessym ∨ op = .leqsym ∨ op = .gtrsym ∨ op = .geqsym

/- The trees that the productions of the grammar build. -/
mutual
def FactorNode.Grammatical : FactorNode → Prop
  | .ident _ => True
  | .digit _ => True
  | .exp e => e.Grammatical true

def FactorExp.Grammatical : FactorExp → Bool → Prop
  | .nil, first => first = false
  | .cons op factor next, first =>
      (if first then op = .nulsym else op = .multsym ∨ op = .slashsym) ∧
        factor.Grammatical ∧ next.Grammatical false

def TermExp.Grammatical : TermExp → Bool → Prop
  | .nil, first => first = false
  | .cons op term next, first =>
      ((first = true ∧ op = .unset) ∨ op = .plussym ∨ op = .minussym) ∧
        term.Grammatical true ∧ next.Grammatical false
end

def ConditionNode.Grammatical : ConditionNode → Prop
  | .odd right => right.Grammatical true
  | .relOp op left right => IsRelOp op ∧ left.Grammatical true ∧ right.Grammatical true

mutual
def StatementNode.Grammatical : StatementNode → Prop
  | .empty => True
  | .assign _ e => e.Grammatical true
  | .begin list => list.Grammatical true
  | .ifS cond ifsts => cond.Grammatical ∧ ifsts.Grammatical
  | .ifElse cond ifsts elsests => cond.Grammatical ∧ ifsts.Grammatical ∧ elsests.Grammatical
  | .while cond sts => cond.Grammatical ∧ sts.Grammatical
  | .read _ => True
  | .write _ => True
  | .call _ => True

/-- The flag asks for a statement. -/
def StatementList.Grammatical : StatementList → Bool → Prop
  | .nil, some_ => some_ = false
  | .cons sts next, _ => sts.Grammatical ∧ next.Grammatical false
end

mutual
def BlockTree.Grammatical : BlockTree → Prop
  | .mk _ _ procs statement => procs.Grammatical ∧ statement.Grammatical

def ProcTrees.Grammatical : ProcTrees → Prop
  | .nil => True
  | .cons _ body next => body.Grammatical ∧ next.Grammatical
end

end Pl0
