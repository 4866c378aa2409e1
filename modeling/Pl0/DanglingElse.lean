import Pl0.Compile
import Pl0.LegalTree

set_option autoImplicit false

namespace Pl0

/- The grammar leaves open to which if an else belongs. The parser gives it to the nearest
one; the trees are rewritten to that reading, which has the same tokens. -/

/-- A statement that ends in an open if, with an else for it. -/
def StatementNode.withElse : StatementNode → StatementNode → StatementNode
  | .ifS cond ifsts, other =>
      if ifsts.endsOpen then .ifS cond (ifsts.withElse other) else .ifElse cond ifsts other
  | .ifElse cond ifsts elsests, other => .ifElse cond ifsts (elsests.withElse other)
  | .while cond sts, other => .while cond (sts.withElse other)
  | s, _ => s

mutual
def StatementNode.attachElse : StatementNode → StatementNode
  | .begin list => .begin list.attachElse
  | .ifS cond ifsts => .ifS cond ifsts.attachElse
  | .ifElse cond ifsts elsests =>
      if ifsts.attachElse.endsOpen then .ifS cond (ifsts.attachElse.withElse elsests.attachElse)
      else .ifElse cond ifsts.attachElse elsests.attachElse
  | .while cond sts => .while cond sts.attachElse
  | s => s

def StatementList.attachElse : StatementList → StatementList
  | .nil => .nil
  | .cons sts next => .cons sts.attachElse next.attachElse
end

mutual
def BlockTree.attachElse : BlockTree → BlockTree
  | .mk consts vars procs statement => .mk consts vars procs.attachElse statement.attachElse

def ProcTrees.attachElse : ProcTrees → ProcTrees
  | .nil => .nil
  | .cons ident body next => .cons ident body.attachElse next.attachElse
end

/-- The statement `s` with `other` behind an else: what holds of both holds of the whole. -/
structure WithElse (s other whole : StatementNode) : Prop where
  frontier : whole.frontier = s.frontier ++ plain .elsesym :: other.frontier
  endsEmpty : whole.endsEmpty = other.endsEmpty
  grammatical : s.Grammatical → other.Grammatical → whole.Grammatical
  suited : ∀ find, s.Suited find → other.Suited find → whole.Suited find
  closed : s.endsEmpty = false → s.ThenBranches StatementNode.Closed →
    other.ThenBranches StatementNode.Closed → whole.ThenBranches StatementNode.Closed

theorem withElse_spec (other : StatementNode) : ∀ (s : StatementNode), s.endsOpen = true →
    WithElse s other (s.withElse other)
  | .empty, opened => by cases opened
  | .assign name e, opened => by cases opened
  | .begin list, opened => by cases opened
  | .read name, opened => by cases opened
  | .write name, opened => by cases opened
  | .call name, opened => by cases opened
  | .ifS cond ifsts, _ => by
      rw [StatementNode.withElse]
      by_cases inner : ifsts.endsOpen = true
      · rw [if_pos inner]
        have spec := withElse_spec other ifsts inner
        constructor
        · simp only [StatementNode.frontier, spec.frontier, List.cons_append, List.append_assoc]
        · exact spec.endsEmpty
        · exact fun proper proper' => ⟨proper.1, spec.grammatical proper.2 proper'⟩
        · exact fun find suited suited' => ⟨suited.1, spec.suited find suited.2 suited'⟩
        · exact fun filled closed closed' => spec.closed filled closed closed'
      · rw [if_neg inner]
        constructor
        · simp only [StatementNode.frontier, List.cons_append, List.append_assoc]
        · rfl
        · exact fun proper proper' => ⟨proper.1, proper.2, proper'⟩
        · exact fun find suited suited' => ⟨suited.1, suited.2, suited'⟩
        · exact fun filled closed closed' =>
            ⟨⟨filled, Bool.eq_false_iff.mpr inner⟩, closed, closed'⟩
  | .ifElse cond ifsts elsests, opened => by
      have spec := withElse_spec other elsests opened
      constructor
      · simp only [StatementNode.withElse, StatementNode.frontier, spec.frontier, List.cons_append,
          List.append_assoc]
      · exact spec.endsEmpty
      · exact fun proper proper' => ⟨proper.1, proper.2.1, spec.grammatical proper.2.2 proper'⟩
      · exact fun find suited suited' => ⟨suited.1, suited.2.1, spec.suited find suited.2.2 suited'⟩
      · exact fun filled closed closed' =>
          ⟨closed.1, closed.2.1, spec.closed filled closed.2.2 closed'⟩
  | .while cond sts, opened => by
      have spec := withElse_spec other sts opened
      constructor
      · simp only [StatementNode.withElse, StatementNode.frontier, spec.frontier, List.cons_append,
          List.append_assoc]
      · exact spec.endsEmpty
      · exact fun proper proper' => ⟨proper.1, spec.grammatical proper.2 proper'⟩
      · exact fun find suited suited' => ⟨suited.1, spec.suited find suited.2 suited'⟩
      · exact fun filled closed closed' => spec.closed filled closed closed'

/-- A rewritten statement has the tokens of the old one and keeps what holds of it. -/
structure Attached (s whole : StatementNode) : Prop where
  frontier : whole.frontier = s.frontier
  endsEmpty : whole.endsEmpty = s.endsEmpty
  isEmpty : whole.isEmpty = s.isEmpty
  grammatical : s.Grammatical → whole.Grammatical
  suited : ∀ find, s.Suited find → whole.Suited find
  closed : s.ThenBranches (fun branch => branch.endsEmpty = false) →
    whole.ThenBranches StatementNode.Closed

structure AttachedList (list whole : StatementList) : Prop where
  frontier : whole.frontier = list.frontier
  frontierAfter : ∀ ends, whole.frontierAfter ends = list.frontierAfter ends
  grammatical : ∀ flag, list.Grammatical flag → whole.Grammatical flag
  suited : ∀ find, list.Suited find → whole.Suited find
  closed : list.ThenBranches (fun branch => branch.endsEmpty = false) →
    whole.ThenBranches StatementNode.Closed

theorem attached_rfl (s : StatementNode) (plainBranches : ∀ P, s.ThenBranches P) : Attached s s :=
  ⟨rfl, rfl, rfl, id, fun _ => id, fun _ => plainBranches _⟩

mutual
theorem attachElse_spec : ∀ s : StatementNode, Attached s s.attachElse
  | .empty => attached_rfl _ fun _ => trivial
  | .assign name e => attached_rfl _ fun _ => trivial
  | .read name => attached_rfl _ fun _ => trivial
  | .write name => attached_rfl _ fun _ => trivial
  | .call name => attached_rfl _ fun _ => trivial
  | .begin list => by
      have spec := attachElse_list list
      constructor
      · simp only [StatementNode.attachElse, StatementNode.frontier, spec.frontier]
      · rfl
      · rfl
      · exact spec.grammatical true
      · exact spec.suited
      · exact spec.closed
  | .ifS cond ifsts => by
      have spec := attachElse_spec ifsts
      constructor
      · simp only [StatementNode.attachElse, StatementNode.frontier, spec.frontier]
      · exact spec.endsEmpty
      · rfl
      · exact fun proper => ⟨proper.1, spec.grammatical proper.2⟩
      · exact fun find suited => ⟨suited.1, spec.suited find suited.2⟩
      · exact spec.closed
  | .while cond sts => by
      have spec := attachElse_spec sts
      constructor
      · simp only [StatementNode.attachElse, StatementNode.frontier, spec.frontier]
      · exact spec.endsEmpty
      · rfl
      · exact fun proper => ⟨proper.1, spec.grammatical proper.2⟩
      · exact fun find suited => ⟨suited.1, spec.suited find suited.2⟩
      · exact spec.closed
  | .ifElse cond ifsts elsests => by
      have specIf := attachElse_spec ifsts
      have specElse := attachElse_spec elsests
      rw [StatementNode.attachElse]
      by_cases opened : ifsts.attachElse.endsOpen = true
      · rw [if_pos opened]
        -- the else goes to an if inside the then branch
        have spec := withElse_spec elsests.attachElse ifsts.attachElse opened
        constructor
        · simp only [StatementNode.frontier, spec.frontier, specIf.frontier, specElse.frontier]
        · exact spec.endsEmpty.trans specElse.endsEmpty
        · rfl
        · exact fun proper => ⟨proper.1,
            spec.grammatical (specIf.grammatical proper.2.1) (specElse.grammatical proper.2.2)⟩
        · exact fun find suited => ⟨suited.1,
            spec.suited find (specIf.suited find suited.2.1) (specElse.suited find suited.2.2)⟩
        · exact fun filled => spec.closed (specIf.endsEmpty.trans filled.1)
            (specIf.closed filled.2.1)
            (specElse.closed filled.2.2)
      · rw [if_neg opened]
        constructor
        · simp only [StatementNode.frontier, specIf.frontier, specElse.frontier]
        · exact specElse.endsEmpty
        · rfl
        · exact fun proper =>
            ⟨proper.1, specIf.grammatical proper.2.1, specElse.grammatical proper.2.2⟩
        · exact fun find suited => ⟨suited.1, specIf.suited find suited.2.1,
            specElse.suited find suited.2.2⟩
        · exact fun filled => ⟨⟨specIf.endsEmpty.trans filled.1, Bool.eq_false_iff.mpr opened⟩,
            specIf.closed filled.2.1, specElse.closed filled.2.2⟩

theorem attachElse_list : ∀ list : StatementList, AttachedList list list.attachElse
  | .nil => ⟨rfl, fun _ => rfl, fun _ => id, fun _ => id, id⟩
  | .cons sts next => by
      have spec := attachElse_spec sts
      have specNext := attachElse_list next
      constructor
      · simp only [StatementList.attachElse, StatementList.frontier, spec.frontier, spec.endsEmpty,
          specNext.frontierAfter]
      · intro ends
        simp only [StatementList.attachElse, StatementList.frontierAfter, spec.frontier,
          spec.endsEmpty, spec.isEmpty, specNext.frontierAfter]
      · exact fun flag proper => ⟨spec.grammatical proper.1, specNext.grammatical false proper.2⟩
      · exact fun find suited => ⟨spec.suited find suited.1, specNext.suited find suited.2⟩
      · exact fun filled => ⟨spec.closed filled.1, specNext.closed filled.2⟩
end

/-- Two states of a parse that know the same names and will make the same symbols. -/
structure SameNames (g g' : GenState) : Prop where
  symbolTable : g'.symbolTable = g.symbolTable
  globalLevel : g'.globalLevel = g.globalLevel
  offsetArray : g'.offsetArray = g.offsetArray
  procedureCount : g'.procedureCount = g.procedureCount
  allocated : g'.allocated = g.allocated

namespace SameNames

theorem refl (g : GenState) : SameNames g g := ⟨rfl, rfl, rfl, rfl, rfl⟩

theorem trans {g g' g'' : GenState} (first : SameNames g g') (second : SameNames g' g'') :
    SameNames g g'' :=
  ⟨second.symbolTable.trans first.symbolTable, second.globalLevel.trans first.globalLevel,
    second.offsetArray.trans first.offsetArray, second.procedureCount.trans first.procedureCount,
    second.allocated.trans first.allocated⟩

theorem symm {g g' : GenState} (same : SameNames g g') : SameNames g' g :=
  ⟨same.symbolTable.symm, same.globalLevel.symm, same.offsetArray.symm, same.procedureCount.symm,
    same.allocated.symm⟩

theorem lookup {g g' : GenState} (same : SameNames g g') : g'.lookup = g.lookup := by
  unfold GenState.lookup
  rw [same.symbolTable, same.globalLevel]

theorem genBody (statement : StatementNode) (g : GenState) : SameNames g (genBody statement g) := by
  have emitted := genStatement_emits statement g _ rfl
  exact ⟨emitted.symbolTable, emitted.globalLevel, emitted.offsetArray, emitted.procedureCount,
    emitted.allocated⟩

theorem putNew {g g' : GenState} (same : SameNames g g') (symbol : Symbol) :
    SameNames (g.putNew symbol) (g'.putNew symbol) := by
  refine ⟨?_, same.globalLevel, same.offsetArray, same.procedureCount, ?_⟩
  · show (putSymbol g'.symbolTable symbol.name symbol).2 =
      (putSymbol g.symbolTable symbol.name symbol).2
    rw [same.symbolTable]
  · show g'.allocated + 1 = g.allocated + 1
    rw [same.allocated]

theorem makeItem {g g' : GenState} (same : SameNames g g') (const : Name × Int) :
    SameNames (g.makeItem const) (g'.makeItem const) := by
  have symbol : g'.newSymbol .constS const.1 const.2 0 = g.newSymbol .constS const.1 const.2 0 := by
    unfold GenState.newSymbol
    rw [same.globalLevel, same.allocated]
  unfold GenState.makeItem GenState.makeConst
  rw [symbol]
  exact same.putNew _

theorem makeVar {g g' : GenState} (same : SameNames g g') (name : Name) :
    SameNames (g.makeVar name) (g'.makeVar name) := by
  unfold GenState.makeVar GenState.newSymbol
  dsimp only
  rw [same.globalLevel, same.offsetArray, same.allocated]
  refine putNew ?_ _
  exact ⟨same.symbolTable, rfl, rfl, same.procedureCount, rfl⟩

theorem afterItems {β : Type} {make : GenState → β → GenState}
    (keeps : ∀ {g g'}, SameNames g g' → ∀ b, SameNames (make g b) (make g' b)) :
    ∀ (items : List β) {g g' : GenState}, SameNames g g' →
      SameNames (afterItems make g items) (afterItems make g' items)
  | [], _, _, same => same
  | b :: items, _, _, same => afterItems keeps items (keeps same b)

theorem declared {g g' : GenState} (same : SameNames g g') (consts : List (Name × Int))
    (vars : List Name) : SameNames (g.declared consts vars) (g'.declared consts vars) :=
  afterItems (fun same b => same.makeVar b) vars
    (afterItems (fun same b => same.makeItem b) consts same)

theorem getFreeSet (g : GenState) : SameNames g g.getFreeSet.2 := by
  unfold GenState.getFreeSet
  split
  · exact ⟨rfl, rfl, rfl, rfl, rfl⟩
  · exact refl g

theorem openProc {g g' : GenState} (same : SameNames g g') (name : Name) :
    SameNames (g.makeProc name).openBlock (g'.makeProc name).openBlock := by
  have symbol : g'.newSymbol .procS name 0 (g'.procedureCount + 1) =
      g.newSymbol .procS name 0 (g.procedureCount + 1) := by
    unfold GenState.newSymbol
    rw [same.globalLevel, same.allocated, same.procedureCount]
  have counted : SameNames { g with procedureCount := g.procedureCount + 1 }
      { g' with procedureCount := g'.procedureCount + 1 } :=
    ⟨same.symbolTable, same.globalLevel, same.offsetArray, congrArg (· + 1) same.procedureCount,
      same.allocated⟩
  have made := ((getFreeSet _).symm.trans counted).trans (getFreeSet _)
  have put : SameNames (g.makeProc name) (g'.makeProc name) := by
    unfold GenState.makeProc
    dsimp only
    rw [symbol]
    have moved : SameNames
        { ({ g with procedureCount := g.procedureCount + 1 } : GenState).getFreeSet.2 with
          currentProcedure :=
            ({ g with procedureCount := g.procedureCount + 1 } : GenState).getFreeSet.1 }
        { ({ g' with procedureCount := g'.procedureCount + 1 } : GenState).getFreeSet.2 with
          currentProcedure :=
            ({ g' with procedureCount := g'.procedureCount + 1 } : GenState).getFreeSet.1 } :=
      ⟨made.symbolTable, made.globalLevel, made.offsetArray, made.procedureCount, made.allocated⟩
    exact moved.putNew _
  exact ⟨put.symbolTable, congrArg (· + 1) put.globalLevel, put.offsetArray, put.procedureCount,
    put.allocated⟩

theorem closeProc {g g' : GenState} (same : SameNames g g') (space space' : Int) :
    SameNames (g.closeProc space) (g'.closeProc space') :=
  ⟨same.symbolTable, congrArg (· - 1) same.globalLevel, same.offsetArray, same.procedureCount,
    same.allocated⟩

end SameNames

mutual
theorem BlockTree.attachElse_build : ∀ (t : BlockTree) {g g' : GenState}, SameNames g g' →
    SameNames (t.build g).2 (t.attachElse.build g').2
  | .mk consts vars procs statement, g, g', same => by
      have inner := procs.attachElse_build (g.declared consts vars).currentProcedure
        (g'.declared consts vars).currentProcedure (same.declared consts vars)
      have moved : SameNames
          ((procs.build (g.declared consts vars).currentProcedure
            (g.declared consts vars)).2.inProcedure
            (g.declared consts vars).currentProcedure)
          ((procs.attachElse.build (g'.declared consts vars).currentProcedure
            (g'.declared consts vars)).2.inProcedure (g'.declared consts vars).currentProcedure) :=
        ⟨inner.symbolTable, inner.globalLevel, inner.offsetArray, inner.procedureCount,
          inner.allocated⟩
      exact ((SameNames.genBody statement _).symm.trans moved).trans
        (SameNames.genBody statement.attachElse _)

theorem ProcTrees.attachElse_build : ∀ (t : ProcTrees) (old old' : Int) {g g' : GenState},
    SameNames g g' → SameNames (t.build old g).2 (t.attachElse.build old' g').2
  | .nil, _, _, _, _, same => same
  | .cons ident body next, old, old', _, _, same =>
      next.attachElse_build old old' ((body.attachElse_build (same.openProc ident)).closeProc _ _)
end

mutual
theorem BlockTree.attachElse_suited : ∀ (t : BlockTree) {g g' : GenState}, SameNames g g' →
    t.Suited g → t.attachElse.Suited g'
  | .mk consts vars procs statement, g, g', same, suited => by
      obtain ⟨small, inside, procsSuited, statementSuited⟩ := suited
      have declared := same.declared consts vars
      have behind := procs.attachElse_build (g.declared consts vars).currentProcedure
        (g'.declared consts vars).currentProcedure declared
      refine ⟨small, ?_, procs.attachElse_suited _ _ declared procsSuited, ?_⟩
      · unfold GenState.LevelInside
        rw [same.globalLevel]
        exact inside
      · rw [behind.lookup]
        exact (attachElse_spec statement).suited _ statementSuited

theorem ProcTrees.attachElse_suited : ∀ (t : ProcTrees) (old old' : Int) {g g' : GenState},
    SameNames g g' → t.Suited old g → t.attachElse.Suited old' g'
  | .nil, _, _, _, _, _, _ => trivial
  | .cons ident body next, old, old', _, _, same, suited => by
      have opened := same.openProc ident
      exact ⟨body.attachElse_suited opened suited.1, next.attachElse_suited old old'
        ((body.attachElse_build opened).closeProc _ _) suited.2⟩
end

mutual
theorem BlockTree.attachElse_frontier : ∀ t : BlockTree, t.attachElse.frontier = t.frontier
  | .mk consts vars procs statement => by
      simp only [BlockTree.attachElse, BlockTree.frontier, procs.attachElse_frontier,
        (attachElse_spec statement).frontier]

theorem ProcTrees.attachElse_frontier : ∀ t : ProcTrees, t.attachElse.frontier = t.frontier
  | .nil => rfl
  | .cons ident body next => by
      simp only [ProcTrees.attachElse, ProcTrees.frontier, body.attachElse_frontier,
        next.attachElse_frontier]
end

mutual
theorem BlockTree.attachElse_grammatical : ∀ t : BlockTree, t.Grammatical → t.attachElse.Grammatical
  | .mk _ _ procs statement, proper =>
      ⟨procs.attachElse_grammatical proper.1, (attachElse_spec statement).grammatical proper.2⟩

theorem ProcTrees.attachElse_grammatical : ∀ t : ProcTrees, t.Grammatical → t.attachElse.Grammatical
  | .nil, _ => trivial
  | .cons _ body next, proper =>
      ⟨body.attachElse_grammatical proper.1, next.attachElse_grammatical proper.2⟩
end

/- What is asked of every statement part can be carried over. -/
mutual
theorem BlockTree.attachElse_bodies {P Q : StatementNode → Prop}
    (carries : ∀ s, P s → Q s.attachElse) :
    ∀ t : BlockTree, t.Bodies P → t.attachElse.Bodies Q
  | .mk _ _ procs statement, bodies =>
      ⟨procs.attachElse_bodies carries bodies.1, carries statement bodies.2⟩

theorem ProcTrees.attachElse_bodies {P Q : StatementNode → Prop}
    (carries : ∀ s, P s → Q s.attachElse) :
    ∀ t : ProcTrees, t.Bodies P → t.attachElse.Bodies Q
  | .nil, _ => trivial
  | .cons _ body next, bodies =>
      ⟨body.attachElse_bodies carries bodies.1, next.attachElse_bodies carries bodies.2⟩
end

end Pl0
