import Pl0.ParseRuns
import Pl0.ScopeRuns
import Pl0.SyntaxTree

set_option autoImplicit false

namespace Pl0

/- What the parser asks of a program beyond the grammar: every name stands for a symbol
that its use needs, and the numbers are small. `find` is what `getSymbol` answers. -/
mutual
def FactorNode.Suited (find : Name → Option Symbol) : FactorNode → Prop
  | .ident name => Suits .factor (find name)
  | .digit value => value ≤ maxNumber
  | .exp e => e.Suited find

def FactorExp.Suited (find : Name → Option Symbol) : FactorExp → Prop
  | .nil => True
  | .cons _ factor next => factor.Suited find ∧ next.Suited find

def TermExp.Suited (find : Name → Option Symbol) : TermExp → Prop
  | .nil => True
  | .cons _ term next => term.Suited find ∧ next.Suited find
end

def ConditionNode.Suited (find : Name → Option Symbol) : ConditionNode → Prop
  | .odd right => right.Suited find
  | .relOp _ left right => left.Suited find ∧ right.Suited find

mutual
def StatementNode.Suited (find : Name → Option Symbol) : StatementNode → Prop
  | .empty => True
  | .assign name e => Suits .assign (find name) ∧ e.Suited find
  | .begin list => list.Suited find
  | .ifS cond ifsts => cond.Suited find ∧ ifsts.Suited find
  | .ifElse cond ifsts elsests => cond.Suited find ∧ ifsts.Suited find ∧ elsests.Suited find
  | .while cond sts => cond.Suited find ∧ sts.Suited find
  | .read name => Suits .read (find name)
  | .write name => Suits .write (find name)
  | .call name => Suits .call (find name)

def StatementList.Suited (find : Name → Option Symbol) : StatementList → Prop
  | .nil => True
  | .cons sts next => sts.Suited find ∧ next.Suited find
end

/- Every statement between a then and an else meets `P`. -/
mutual
def StatementNode.ThenBranches (P : StatementNode → Prop) : StatementNode → Prop
  | .begin list => list.ThenBranches P
  | .ifS _ ifsts => ifsts.ThenBranches P
  | .ifElse _ ifsts elsests => P ifsts ∧ ifsts.ThenBranches P ∧ elsests.ThenBranches P
  | .while _ sts => sts.ThenBranches P
  | _ => True

def StatementList.ThenBranches (P : StatementNode → Prop) : StatementList → Prop
  | .nil => True
  | .cons sts next => sts.ThenBranches P ∧ next.ThenBranches P
end

/-- What the parser can read in front of an else: an empty statement is no statement there,
and an if without an else would take the else for its own. -/
def StatementNode.Closed (s : StatementNode) : Prop :=
  s.endsEmpty = false ∧ s.endsOpen = false

/-- A statement part that the parser can read. -/
def StatementNode.Readable (s : StatementNode) : Prop :=
  s.isEmpty = false ∧ s.ThenBranches StatementNode.Closed

/- The statement part of every block meets `P`. -/
mutual
def BlockTree.Bodies (P : StatementNode → Prop) : BlockTree → Prop
  | .mk _ _ procs statement => procs.Bodies P ∧ P statement

def ProcTrees.Bodies (P : StatementNode → Prop) : ProcTrees → Prop
  | .nil => True
  | .cons _ body next => body.Bodies P ∧ next.Bodies P
end

/-- The items of a declaration, made one behind the other. -/
def afterItems {β : Type} (make : GenState → β → GenState) (g : GenState) : List β → GenState
  | [] => g
  | b :: items => afterItems make (make g b) items

/-- The nodes of the items, each made in the state it is read in. -/
def itemNodes {α β : Type} (make : GenState → β → GenState) (node : GenState → β → α)
    (g : GenState) : List β → List α
  | [] => []
  | b :: items => node g b :: itemNodes make node (make g b) items

namespace GenState

def makeItem (g : GenState) (const : Name × Int) : GenState := g.makeConst const.1 const.2

def constNode (g : GenState) (const : Name × Int) : ConstDeclNode :=
  { ident := const.1, numer := const.2, lexical := g.globalLevel, paraProc := g.procedureCount,
    addr := g.offsetArray g.globalLevel }

def varNode (g : GenState) (name : Name) : VarDeclNode :=
  { ident := name, lexical := g.globalLevel, paraProc := g.procedureCount,
    addr := g.offsetArray g.globalLevel }

/-- The state behind the constants and the variables of a block. -/
def declared (g : GenState) (consts : List (Name × Int)) (vars : List Name) : GenState :=
  afterItems GenState.makeVar (afterItems GenState.makeItem g consts) vars

/-- A declaration has a place in `offsetArray`. -/
def LevelInside (g : GenState) : Prop := 0 ≤ g.globalLevel ∧ g.globalLevel < maxLexiLevels

/-- What follows the body of a procedure, in front of the next declaration. -/
def closeProc (g : GenState) (space : Int) : GenState := g.closeBlock.reserveSpace space

end GenState

/- The nodes that the parser makes of a block that it reads in the state `g`, and the state
that it leaves; `old` is the code set of the block around the procedures. -/
mutual
def BlockTree.build : BlockTree → GenState → BlockNode × GenState
  | .mk consts vars procs statement, g =>
      let old := (g.declared consts vars).currentProcedure
      let (procDef, behind) := procs.build old (g.declared consts vars)
      (.mk (itemNodes GenState.makeItem GenState.constNode g consts)
          (itemNodes GenState.makeVar GenState.varNode (afterItems GenState.makeItem g consts) vars)
          procDef statement,
        genBody statement (behind.inProcedure old))

def ProcTrees.build : ProcTrees → Int → GenState → ProdefList × GenState
  | .nil, _, g => (.nil, g)
  | .cons ident body next, old, g =>
      let made := g.makeProc ident
      let (node, inner) := body.build made.openBlock
      let (more, behind) := next.build old (inner.closeProc (node.varDecl.length + 4))
      (.cons ident (made.globalLevel + 1) made.procedureCount old node more, behind)
end

/- Every name of a block that is read in the state `g` is what its use needs, the numbers
are small, and the declarations have a place. -/
mutual
def BlockTree.Suited : BlockTree → GenState → Prop
  | .mk consts vars procs statement, g =>
      let old := (g.declared consts vars).currentProcedure
      (∀ const ∈ consts, const.2 ≤ maxNumber) ∧ (consts ≠ [] ∨ vars ≠ [] → g.LevelInside) ∧
        procs.Suited old (g.declared consts vars) ∧
        statement.Suited (procs.build old (g.declared consts vars)).2.lookup

def ProcTrees.Suited : ProcTrees → Int → GenState → Prop
  | .nil, _, _ => True
  | .cons ident body next, old, g =>
      let opened := (g.makeProc ident).openBlock
      body.Suited opened ∧ next.Suited old
        ((body.build opened).2.closeProc ((body.build opened).1.varDecl.length + 4))
end

theorem afterItems_level {β : Type} {make : GenState → β → GenState}
    (level : ∀ g b, (make g b).globalLevel = g.globalLevel) (g : GenState) (items : List β) :
    (afterItems make g items).globalLevel = g.globalLevel := by
  induction items generalizing g with
  | nil => rfl
  | cons b items ih => exact (ih (make g b)).trans (level g b)

theorem ProdefList.append_nil (procDef : ProdefList) : procDef.append .nil = procDef := by
  cases procDef with
  | nil => rfl
  | cons ident lexical addr paraProc body next => rw [ProdefList.append, next.append_nil]

theorem ProdefList.append_assoc : ∀ first second third : ProdefList,
    (first.append second).append third = first.append (second.append third)
  | .nil, _, _ => rfl
  | .cons ident lexical addr paraProc body next, second, third => by
      rw [ProdefList.append, ProdefList.append, ProdefList.append, next.append_assoc second third]

/-- A node behind the others, and the ones behind it. -/
theorem ProdefList.append_node (procDef more : ProdefList) (ident : Name)
    (lexical addr paraProc : Int)
    (body : BlockNode) :
    (procDef.append (.cons ident lexical addr paraProc body .nil)).append more =
      procDef.append (.cons ident lexical addr paraProc body more) :=
  procDef.append_assoc _ more

theorem itemNodes_map {α β : Type} {make : GenState → β → GenState} {node : GenState → β → α}
    {item : α → β} (same : ∀ g b, item (node g b) = b) (g : GenState) (items : List β) :
    (itemNodes make node g items).map item = items := by
  induction items generalizing g with
  | nil => rfl
  | cons b items ih =>
      rw [itemNodes, List.map_cons, ih, same]

/- The nodes are those of the tree. -/
mutual
theorem BlockTree.build_tree : ∀ (t : BlockTree) (g : GenState), (t.build g).1.tree = t
  | .mk consts vars procs statement, g => by
      have names : ∀ (g : GenState) (name : Name), (g.varNode name).ident = name := fun _ _ => rfl
      simp only [BlockTree.build, BlockNode.tree]
      rw [ProcTrees.build_trees procs, itemNodes_map (fun _ _ => rfl), itemNodes_map names]

theorem ProcTrees.build_trees : ∀ (t : ProcTrees) (old : Int) (g : GenState),
    (t.build old g).1.trees = t
  | .nil, _, _ => rfl
  | .cons ident body next, old, g => by
      simp only [ProcTrees.build, ProdefList.trees]
      rw [BlockTree.build_tree body, ProcTrees.build_trees next]
end

end Pl0
