import Pl0.GrammarCompleteness

set_option autoImplicit false

namespace Pl0

open StateExcept

/- The syntax tree as it lies in the heap: each node with the label of its allocation, each
pointer to a node possibly null. The cleanup functions give the labels that they pass to
`free`, in order; where the source tests a pointer before it cleans and frees it, both do
nothing at a null one here. -/

mutual
/-- `factorNode_t *` -/
inductive FactorCell (L : Type)
  | null
  | unset (label : L)
  | ident (label : L) (string : Name)
  | digit (label : L) (value : Int)
  | exp (label : L) (exp : ExpressionCell L)

/-- `factorExp_t *` -/
inductive FactorExpCell (L : Type)
  | null
  | cell (label : L) (op : Token) (factor : FactorCell L) (next : FactorExpCell L)

/-- `termNode_t *` -/
inductive TermCell (L : Type)
  | null
  | cell (label : L) (factorEList : FactorExpCell L)

/-- `termExp_t *` -/
inductive TermExpCell (L : Type)
  | null
  | cell (label : L) (op : Token) (term : TermCell L) (next : TermExpCell L)

/-- `expressionNode_t *` -/
inductive ExpressionCell (L : Type)
  | null
  | cell (label : L) (termEList : TermExpCell L)
end

/-- `conditionNode_t *` -/
inductive ConditionCell (L : Type)
  | null
  | cell (label : L) (op : Token) (left right : ExpressionCell L)

mutual
/-- `statementNode_t *` -/
inductive StatementCell (L : Type)
  | null
  | cell (label : L) (super : SuperCell L) (next : StatementCell L)

/-- The tag of a statement with what its `super` points to. -/
inductive SuperCell (L : Type)
  | unset
  | assign (label : L) (ident : Name) (exp : ExpressionCell L)
  | begin (label : L) (stsList : StatementCell L)
  | ifS (label : L) (cond : ConditionCell L) (ifsts elsests : StatementCell L)
  | while (label : L) (cond : ConditionCell L) (sts : StatementCell L)
  | read (label : L) (ident : Name)
  | write (label : L) (ident : Name)
  | call (label : L) (ident : Name)
end

mutual
/-- `blockNode_t *` -/
inductive BlockCell (L : Type)
  | null
  | cell (label : L) (constDecl : List (L × ConstDeclNode)) (numsConstDecl : Nat)
      (varDecl : List (L × VarDeclNode)) (numsVarDecl : Nat) (procDef : ProdefCell L)
      (numsProcDef : Nat) (statement : StatementCell L) (numsStatement : Nat)
      (next : BlockCell L)

/-- `prodefNode_t *` -/
inductive ProdefCell (L : Type)
  | null
  | cell (label : L) (ident : Name) (lexical addr paraProc : Int) (body : BlockCell L)
      (next : ProdefCell L)
end

/-- `programNode_t` -/
structure ProgramCell (L : Type) where
  label : L
  block : BlockCell L

section Cleanup

variable {L : Type}

def FactorCell.free : FactorCell L → List L
  | .null => []
  | .unset label | .ident label _ | .digit label _ | .exp label _ => [label]

def TermCell.free : TermCell L → List L
  | .null => []
  | .cell label _ => [label]

def ExpressionCell.free : ExpressionCell L → List L
  | .null => []
  | .cell label _ => [label]

def ConditionCell.free : ConditionCell L → List L
  | .null => []
  | .cell label _ _ _ => [label]

def StatementCell.free : StatementCell L → List L
  | .null => []
  | .cell label _ _ => [label]

mutual
def factorCleanup : FactorCell L → List L
  | .exp _ exp => expressionCleanup exp ++ exp.free
  | _ => []

/-- The loop of `termCleanup`, with `factorExpCleanup` for each node. -/
def factorEListCleanup : FactorExpCell L → List L
  | .null => []
  | .cell label _ factor next =>
      factorCleanup factor ++ factor.free ++ [label] ++ factorEListCleanup next

def termCleanup : TermCell L → List L
  | .null => []
  | .cell _ factorEList => factorEListCleanup factorEList

/-- The loop of `expressionCleanup`, with `termExpCleanup` for each node. -/
def termEListCleanup : TermExpCell L → List L
  | .null => []
  | .cell label _ term next => termCleanup term ++ term.free ++ [label] ++ termEListCleanup next

def expressionCleanup : ExpressionCell L → List L
  | .null => []
  | .cell _ termEList => termEListCleanup termEList
end

def conditionCleanup : ConditionCell L → List L
  | .null => []
  | .cell _ _ left right =>
      expressionCleanup left ++ left.free ++ (expressionCleanup right ++ right.free)

mutual
def statementCleanup : StatementCell L → List L
  | .null => []
  | .cell _ super _ => superCleanup super

/-- The switch of `statementCleanup`, with the cleanup of each payload. -/
def superCleanup : SuperCell L → List L
  | .unset => []
  | .assign label _ exp => expressionCleanup exp ++ exp.free ++ [label]
  | .begin label stsList => stsListCleanup stsList ++ [label]
  | .ifS label cond ifsts elsests =>
      conditionCleanup cond ++ cond.free ++ (statementCleanup ifsts ++ ifsts.free) ++
        (match elsests with
          | .null => []
          -- the source frees the then-branch here
          | .cell .. => statementCleanup elsests ++ ifsts.free) ++ [label]
  | .while label cond sts =>
      conditionCleanup cond ++ cond.free ++ (statementCleanup sts ++ sts.free) ++ [label]
  | .read label _ | .write label _ | .call label _ => [label]

/-- The loop over a list of statements. -/
def stsListCleanup : StatementCell L → List L
  | .null => []
  | .cell label super next => superCleanup super ++ [label] ++ stsListCleanup next
end

mutual
def blockCleanup : BlockCell L → List L
  | .null => []
  | .cell _ constDecl numsConstDecl varDecl numsVarDecl procDef numsProcDef statement
        numsStatement _ =>
      (if numsConstDecl ≠ 0 then constDecl.map Prod.fst else []) ++
      (if numsProcDef ≠ 0 then procDefCleanup procDef else []) ++
      (if numsStatement ≠ 0 then stsListCleanup statement else []) ++
      (if numsVarDecl ≠ 0 then varDecl.map Prod.fst else [])

/-- The loop over the procedures, with `procDeclCleanup` for each; no one frees the body. -/
def procDefCleanup : ProdefCell L → List L
  | .null => []
  | .cell label _ _ _ _ body next => blockCleanup body ++ [label] ++ procDefCleanup next
end

/-- The loop of `programCleanup`. -/
def blockListCleanup : BlockCell L → List L
  | .null => []
  | .cell label constDecl numsConstDecl varDecl numsVarDecl procDef numsProcDef statement
        numsStatement next =>
      blockCleanup (.cell label constDecl numsConstDecl varDecl numsVarDecl procDef numsProcDef
        statement numsStatement next) ++ [label] ++ blockListCleanup next

def programCleanup (ast : ProgramCell L) : List L :=
  blockListCleanup ast.block ++ [ast.label]

end Cleanup

section Labels

variable {L : Type}

/- Every node of the heap, each where it hangs. -/
mutual
def FactorCell.labels : FactorCell L → List L
  | .null => []
  | .unset label | .ident label _ | .digit label _ => [label]
  | .exp label exp => label :: exp.labels

def FactorExpCell.labels : FactorExpCell L → List L
  | .null => []
  | .cell label _ factor next => label :: (factor.labels ++ next.labels)

def TermCell.labels : TermCell L → List L
  | .null => []
  | .cell label factorEList => label :: factorEList.labels

def TermExpCell.labels : TermExpCell L → List L
  | .null => []
  | .cell label _ term next => label :: (term.labels ++ next.labels)

def ExpressionCell.labels : ExpressionCell L → List L
  | .null => []
  | .cell label termEList => label :: termEList.labels
end

def ConditionCell.labels : ConditionCell L → List L
  | .null => []
  | .cell label _ left right => label :: (left.labels ++ right.labels)

mutual
def StatementCell.labels : StatementCell L → List L
  | .null => []
  | .cell label super next => label :: (super.labels ++ next.labels)

def SuperCell.labels : SuperCell L → List L
  | .unset => []
  | .assign label _ exp => label :: exp.labels
  | .begin label stsList => label :: stsList.labels
  | .ifS label cond ifsts elsests => label :: (cond.labels ++ ifsts.labels ++ elsests.labels)
  | .while label cond sts => label :: (cond.labels ++ sts.labels)
  | .read label _ | .write label _ | .call label _ => [label]
end

mutual
def BlockCell.labels : BlockCell L → List L
  | .null => []
  | .cell label constDecl _ varDecl _ procDef _ statement _ next =>
      label :: (constDecl.map Prod.fst ++ varDecl.map Prod.fst ++ procDef.labels ++
        statement.labels ++ next.labels)

def ProdefCell.labels : ProdefCell L → List L
  | .null => []
  | .cell label _ _ _ _ body next => label :: (body.labels ++ next.labels)
end

def ProgramCell.labels (ast : ProgramCell L) : List L :=
  ast.label :: ast.block.labels

end Labels

section Trees

variable {L : Type}

/- The heap holds this tree. -/
mutual
def FactorCell.Is : FactorCell L → FactorNode → Prop
  | .ident _ string, .ident string' => string = string'
  | .digit _ value, .digit value' => value = value'
  | .exp _ exp, .exp exp' => exp.Is exp'
  | _, _ => False

def FactorExpCell.Is : FactorExpCell L → FactorExp → Prop
  | .null, .nil => True
  | .cell _ op factor next, .cons op' factor' next' =>
      op = op' ∧ factor.Is factor' ∧ next.Is next'
  | _, _ => False

def TermCell.Is : TermCell L → FactorExp → Prop
  | .null, _ => False
  | .cell _ factorEList, list => factorEList.Is list

def TermExpCell.Is : TermExpCell L → TermExp → Prop
  | .null, .nil => True
  | .cell _ op term next, .cons op' term' next' => op = op' ∧ term.Is term' ∧ next.Is next'
  | _, _ => False

def ExpressionCell.Is : ExpressionCell L → TermExp → Prop
  | .null, _ => False
  | .cell _ termEList, list => termEList.Is list
end

def ConditionCell.Is : ConditionCell L → ConditionNode → Prop
  | .null, _ => False
  | .cell _ op left right, .odd right' => op = .oddsym ∧ left = .null ∧ right.Is right'
  | .cell _ op left right, .relOp op' left' right' => op = op' ∧ left.Is left' ∧ right.Is right'

mutual
def StatementCell.Is : StatementCell L → StatementNode → Prop
  | .null, _ => False
  | .cell _ super next, sts => super.Is sts ∧ next = .null

def SuperCell.Is : SuperCell L → StatementNode → Prop
  | .unset, .empty => True
  | .assign _ ident exp, .assign ident' exp' => ident = ident' ∧ exp.Is exp'
  | .begin _ stsList, .begin stsList' => stsList.IsList stsList'
  | .ifS _ cond ifsts elsests, .ifS cond' ifsts' =>
      cond.Is cond' ∧ ifsts.Is ifsts' ∧ elsests = .null
  | .ifS _ cond ifsts elsests, .ifElse cond' ifsts' elsests' =>
      cond.Is cond' ∧ ifsts.Is ifsts' ∧ elsests.Is elsests'
  | .while _ cond sts, .while cond' sts' => cond.Is cond' ∧ sts.Is sts'
  | .read _ ident, .read ident' => ident = ident'
  | .write _ ident, .write ident' => ident = ident'
  | .call _ ident, .call ident' => ident = ident'
  | _, _ => False

def StatementCell.IsList : StatementCell L → StatementList → Prop
  | .null, .nil => True
  | .cell _ super next, .cons sts next' => super.Is sts ∧ next.IsList next'
  | _, _ => False
end

mutual
def BlockCell.Is : BlockCell L → BlockNode → Prop
  | .null, _ => False
  | .cell _ constDecl numsConstDecl varDecl numsVarDecl procDef numsProcDef statement
        numsStatement next, .mk constDecl' varDecl' procDef' statement' =>
      constDecl.map Prod.snd = constDecl' ∧ numsConstDecl = constDecl.length ∧
        varDecl.map Prod.snd = varDecl' ∧ numsVarDecl = varDecl.length ∧
        procDef.Is procDef' ∧ (numsProcDef = 0 ↔ procDef' = .nil) ∧
        statement.Is statement' ∧ numsStatement = 1 ∧ next = .null

def ProdefCell.Is : ProdefCell L → ProdefList → Prop
  | .null, .nil => True
  | .cell _ ident lexical addr paraProc body next,
        .cons ident' lexical' addr' paraProc' body' next' =>
      ident = ident' ∧ lexical = lexical' ∧ addr = addr' ∧ paraProc = paraProc' ∧
        body.Is body' ∧ next.Is next'
  | _, _ => False
end

/-- The heap holds the tree of this block, as the parser builds it. -/
def ProgramCell.Is (ast : ProgramCell L) (block : BlockNode) : Prop :=
  ast.block.Is block

end Trees

section Growing

variable {L : Type}

/- The heap as the parser leaves it, at the end of a program or where it stopped in the middle
of one: what a node still waits for is null. Only lists have siblings, and a counter is zero
as long as its list is empty. -/
mutual
def StatementCell.Grown : StatementCell L → Prop
  | .null => True
  | .cell _ super next => super.Grown ∧ next = .null

def SuperCell.Grown : SuperCell L → Prop
  | .begin _ stsList => stsList.GrownList
  | .ifS _ _ ifsts elsests => ifsts.Grown ∧ elsests.Grown
  | .while _ _ sts => sts.Grown
  | _ => True

def StatementCell.GrownList : StatementCell L → Prop
  | .null => True
  | .cell _ super next => super.Grown ∧ next.GrownList
end

mutual
def BlockCell.Grown : BlockCell L → Prop
  | .null => True
  | .cell _ constDecl numsConstDecl varDecl numsVarDecl procDef numsProcDef statement
        numsStatement next =>
      (numsConstDecl = 0 → constDecl = []) ∧ (numsVarDecl = 0 → varDecl = []) ∧
        procDef.Grown ∧ (numsProcDef = 0 → procDef = .null) ∧
        statement.Grown ∧ (numsStatement = 0 → statement = .null) ∧ next = .null

def ProdefCell.Grown : ProdefCell L → Prop
  | .null => True
  | .cell _ _ _ _ _ body next => body.Grown ∧ next.Grown
end

def ProgramCell.Grown (ast : ProgramCell L) : Prop :=
  ast.block.Grown

mutual
theorem StatementCell.Is.grown : ∀ {cell : StatementCell L} {sts : StatementNode},
    cell.Is sts → cell.Grown
  | .null, _, is => is.elim
  | .cell _ super _, _, is => by
      have inner : super.Grown := SuperCell.Is.grown is.1
      exact ⟨inner, is.2⟩

theorem SuperCell.Is.grown : ∀ {super : SuperCell L} {sts : StatementNode},
    super.Is sts → super.Grown
  | .unset, _, _ | .assign _ _ _, _, _ | .read _ _, _, _ | .write _ _, _, _
  | .call _ _, _, _ => trivial
  | .begin _ stsList, sts, is => by
      cases sts with
      | begin =>
          have inner : stsList.GrownList := StatementCell.IsList.grown is
          exact inner
      | _ => exact is.elim
  | .while _ _ body, sts, is => by
      cases sts with
      | «while» =>
          have inner : body.Grown := StatementCell.Is.grown is.2
          exact inner
      | _ => exact is.elim
  | .ifS _ _ ifsts elsests, sts, is => by
      cases sts with
      | ifS =>
          obtain ⟨-, first, rfl⟩ := is
          exact ⟨StatementCell.Is.grown first, trivial⟩
      | ifElse => exact ⟨StatementCell.Is.grown is.2.1, StatementCell.Is.grown is.2.2⟩
      | _ => exact is.elim

theorem StatementCell.IsList.grown : ∀ {cell : StatementCell L} {list : StatementList},
    cell.IsList list → cell.GrownList
  | .null, _, _ => trivial
  | .cell _ super next, list, is => by
      cases list with
      | nil => exact is.elim
      | cons => exact ⟨SuperCell.Is.grown is.1, StatementCell.IsList.grown is.2⟩
end

mutual
theorem BlockCell.Is.grown : ∀ {cell : BlockCell L} {block : BlockNode},
    cell.Is block → cell.Grown
  | .null, _, is => is.elim
  | .cell _ constDecl _ varDecl _ procDef _ _ _ _, .mk _ _ _ _, is => by
      obtain ⟨-, rfl, -, rfl, procs, counts, body, rfl, rfl⟩ := is
      refine ⟨List.length_eq_zero_iff.mp, List.length_eq_zero_iff.mp, ProdefCell.Is.grown procs,
        fun none => ?_, StatementCell.Is.grown body, fun none => absurd none Nat.one_ne_zero,
        rfl⟩
      rw [counts.mp none] at procs
      cases procDef with
      | null => rfl
      | cell => exact procs.elim

theorem ProdefCell.Is.grown : ∀ {cell : ProdefCell L} {procs : ProdefList},
    cell.Is procs → cell.Grown
  | .null, _, _ => trivial
  | .cell _ _ _ _ _ body next, procs, is => by
      cases procs with
      | nil => exact is.elim
      | cons =>
          obtain ⟨-, -, -, -, first, rest⟩ := is
          exact ⟨BlockCell.Is.grown first, ProdefCell.Is.grown rest⟩
end

end Growing

section Spilled

variable {L : Type}

/- The else-branches, and the then-branches in front of them. -/
mutual
def StatementCell.elses : StatementCell L → List L
  | .null => []
  | .cell _ super next => super.elses ++ next.elses

def SuperCell.elses : SuperCell L → List L
  | .begin _ stsList => stsList.elses
  | .ifS _ _ ifsts elsests => elsests.free ++ ifsts.elses ++ elsests.elses
  | .while _ _ sts => sts.elses
  | _ => []
end

mutual
def StatementCell.thens : StatementCell L → List L
  | .null => []
  | .cell _ super next => super.thens ++ next.thens

def SuperCell.thens : SuperCell L → List L
  | .begin _ stsList => stsList.thens
  | .ifS _ _ ifsts elsests =>
      (match elsests with
        | .null => []
        | .cell .. => ifsts.free ++ elsests.thens) ++ ifsts.thens
  | .while _ _ sts => sts.thens
  | _ => []
end

mutual
def BlockCell.elses : BlockCell L → List L
  | .null => []
  | .cell _ _ _ _ _ procDef _ statement _ _ => procDef.elses ++ statement.elses

def ProdefCell.elses : ProdefCell L → List L
  | .null => []
  | .cell _ _ _ _ _ body next => body.elses ++ next.elses
end

mutual
def BlockCell.thens : BlockCell L → List L
  | .null => []
  | .cell _ _ _ _ _ procDef _ statement _ _ => procDef.thens ++ statement.thens

def ProdefCell.thens : ProdefCell L → List L
  | .null => []
  | .cell _ _ _ _ _ body next => body.thens ++ next.thens
end

def BlockCell.free : BlockCell L → List L
  | .null => []
  | .cell label .. => [label]

/- The bodies of the procedures. -/
mutual
def BlockCell.bodies : BlockCell L → List L
  | .null => []
  | .cell _ _ _ _ _ procDef _ _ _ _ => procDef.bodies

def ProdefCell.bodies : ProdefCell L → List L
  | .null => []
  | .cell _ _ _ _ _ body next => body.free ++ body.bodies ++ next.bodies
end

end Spilled

section Counts

variable {L : Type} [DecidableEq L] (x : L)

/- Expressions are freed as they are. -/
mutual
theorem factorCleanup_count : ∀ factor : FactorCell L,
    (factorCleanup factor ++ factor.free).count x = factor.labels.count x
  | .null => rfl
  | .unset label => rfl
  | .ident label string => rfl
  | .digit label value => rfl
  | .exp label exp => by
      have inner := expressionCleanup_count exp
      simp only [factorCleanup, FactorCell.free, FactorCell.labels, List.count_append,
        List.count_cons, List.count_nil] at inner ⊢
      omega

theorem factorEListCleanup_count : ∀ list : FactorExpCell L,
    (factorEListCleanup list).count x = list.labels.count x
  | .null => rfl
  | .cell label op factor next => by
      have first := factorCleanup_count factor
      have rest := factorEListCleanup_count next
      simp only [factorEListCleanup, FactorExpCell.labels, List.count_append, List.count_cons,
        List.count_nil] at first ⊢
      omega

theorem termCleanup_count : ∀ term : TermCell L,
    (termCleanup term ++ term.free).count x = term.labels.count x
  | .null => rfl
  | .cell label factorEList => by
      have inner := factorEListCleanup_count factorEList
      simp only [termCleanup, TermCell.free, TermCell.labels, List.count_append, List.count_cons,
        List.count_nil]
      omega

theorem termEListCleanup_count : ∀ list : TermExpCell L,
    (termEListCleanup list).count x = list.labels.count x
  | .null => rfl
  | .cell label op term next => by
      have first := termCleanup_count term
      have rest := termEListCleanup_count next
      simp only [termEListCleanup, TermExpCell.labels, List.count_append, List.count_cons,
        List.count_nil] at first ⊢
      omega

theorem expressionCleanup_count : ∀ exp : ExpressionCell L,
    (expressionCleanup exp ++ exp.free).count x = exp.labels.count x
  | .null => rfl
  | .cell label termEList => by
      have inner := termEListCleanup_count termEList
      simp only [expressionCleanup, ExpressionCell.free, ExpressionCell.labels, List.count_append,
        List.count_cons, List.count_nil]
      omega
end

theorem conditionCleanup_count (cond : ConditionCell L) :
    (conditionCleanup cond ++ cond.free).count x = cond.labels.count x := by
  cases cond with
  | null => rfl
  | cell label op left right =>
      have first := expressionCleanup_count x left
      have second := expressionCleanup_count x right
      simp only [conditionCleanup, ConditionCell.free, ConditionCell.labels, List.count_append,
        List.count_cons, List.count_nil] at first second ⊢
      omega

omit [DecidableEq L] in
/-- A list of one statement. -/
theorem stsListCleanup_single {cell : StatementCell L} (grown : cell.Grown) :
    stsListCleanup cell = statementCleanup cell ++ cell.free := by
  cases cell with
  | null => rfl
  | cell label super next =>
      obtain ⟨-, rfl⟩ := grown
      simp only [stsListCleanup, statementCleanup, StatementCell.free, List.append_nil]

/- Of the statements, an else-branch is not freed, and the then-branch in front of it twice. -/
mutual
theorem statementCleanup_count : ∀ cell : StatementCell L, cell.Grown →
    (statementCleanup cell ++ cell.free).count x + cell.elses.count x =
      cell.labels.count x + cell.thens.count x
  | .null, _ => rfl
  | .cell label super next, grown => by
      obtain ⟨inner, rfl⟩ := grown
      have inner := superCleanup_count super inner
      simp only [statementCleanup, StatementCell.free, StatementCell.labels, StatementCell.elses,
        StatementCell.thens, List.count_append, List.count_cons, List.count_nil]
      omega

theorem superCleanup_count : ∀ super : SuperCell L, super.Grown →
    (superCleanup super).count x + super.elses.count x =
      super.labels.count x + super.thens.count x
  | .unset, _ => rfl
  | .read label ident, _ => rfl
  | .write label ident, _ => rfl
  | .call label ident, _ => rfl
  | .assign label ident exp, _ => by
      have inner := expressionCleanup_count x exp
      simp only [superCleanup, SuperCell.labels, SuperCell.elses, SuperCell.thens,
        List.count_append, List.count_cons, List.count_nil] at inner ⊢
      omega
  | .begin label stsList, grown => by
      have inner := stsListCleanup_count stsList grown
      simp only [superCleanup, SuperCell.labels, SuperCell.elses, SuperCell.thens,
        List.count_append, List.count_cons, List.count_nil]
      omega
  | .while label cond sts, grown => by
      have tested := conditionCleanup_count x cond
      have inner := statementCleanup_count sts grown
      simp only [superCleanup, SuperCell.labels, SuperCell.elses, SuperCell.thens,
        List.count_append, List.count_cons, List.count_nil] at tested inner ⊢
      omega
  | .ifS label cond ifsts elsests, grown => by
      have tested := conditionCleanup_count x cond
      have inner := statementCleanup_count ifsts grown.1
      have other := statementCleanup_count elsests grown.2
      cases elsests with
      | null =>
          simp only [superCleanup, SuperCell.labels, SuperCell.elses, SuperCell.thens,
            StatementCell.labels, StatementCell.elses, StatementCell.free,
            List.count_append, List.count_cons, List.count_nil] at tested inner ⊢
          omega
      | cell label' super next =>
          simp only [superCleanup, SuperCell.labels, SuperCell.elses, SuperCell.thens,
            List.count_append, List.count_cons, List.count_nil] at tested inner other ⊢
          omega

theorem stsListCleanup_count : ∀ cell : StatementCell L, cell.GrownList →
    (stsListCleanup cell).count x + cell.elses.count x =
      cell.labels.count x + cell.thens.count x
  | .null, _ => rfl
  | .cell label super next, grown => by
      have first := superCleanup_count super grown.1
      have others := stsListCleanup_count next grown.2
      simp only [stsListCleanup, StatementCell.labels, StatementCell.elses,
        StatementCell.thens, List.count_append, List.count_cons, List.count_nil]
      omega
end

omit [DecidableEq L] in
/-- A counter that is zero leaves nothing to free. -/
theorem freed_counted {nums : Nat} {labels : List L} (counts : nums = 0 → labels = []) :
    (if nums ≠ 0 then labels else []) = labels := by
  split
  · rfl
  · rename_i none
    rw [counts (not_not.mp none)]

/- The body of a procedure is not freed. -/
mutual
theorem blockCleanup_count : ∀ cell : BlockCell L, cell.Grown →
    (blockCleanup cell ++ cell.free).count x + (cell.elses ++ cell.bodies).count x =
      cell.labels.count x + cell.thens.count x
  | .null, _ => rfl
  | .cell label constDecl numsConstDecl varDecl numsVarDecl procDef numsProcDef statement
      numsStatement next, grown => by
      obtain ⟨consts, vars, procs, procCount, body, stsCount, rfl⟩ := grown
      have inner := procDefCleanup_count procDef procs
      have own := stsListCleanup_single body
      have last := statementCleanup_count x statement body
      have constsFreed : (if numsConstDecl ≠ 0 then constDecl.map Prod.fst else []) =
          constDecl.map Prod.fst :=
        freed_counted fun none => by rw [consts none]; rfl
      have varsFreed : (if numsVarDecl ≠ 0 then varDecl.map Prod.fst else []) =
          varDecl.map Prod.fst :=
        freed_counted fun none => by rw [vars none]; rfl
      have procsFreed : (if numsProcDef ≠ 0 then procDefCleanup procDef else []) =
          procDefCleanup procDef :=
        freed_counted fun none => by rw [procCount none]; rfl
      have stsFreed : (if numsStatement ≠ 0 then statementCleanup statement ++ statement.free
          else []) = statementCleanup statement ++ statement.free :=
        freed_counted fun none => by rw [stsCount none]; rfl
      simp only [blockCleanup, constsFreed, varsFreed, procsFreed, stsFreed, own,
        BlockCell.free, BlockCell.labels, BlockCell.elses, BlockCell.bodies, BlockCell.thens,
        List.count_append, List.count_cons, List.count_nil] at inner last ⊢
      omega

theorem procDefCleanup_count : ∀ cell : ProdefCell L, cell.Grown →
    (procDefCleanup cell).count x + (cell.elses ++ cell.bodies).count x =
      cell.labels.count x + cell.thens.count x
  | .null, _ => rfl
  | .cell label ident lexical addr paraProc body next, grown => by
      have inner := blockCleanup_count body grown.1
      have others := procDefCleanup_count next grown.2
      simp only [procDefCleanup, ProdefCell.labels, ProdefCell.elses, ProdefCell.bodies,
        ProdefCell.thens, List.count_append, List.count_cons, List.count_nil]
        at inner others ⊢
      omega
end

theorem programCleanup_count {ast : ProgramCell L} (grown : ast.Grown) :
    (programCleanup ast).count x + (ast.block.elses ++ ast.block.bodies).count x =
      ast.labels.count x + ast.block.thens.count x := by
  obtain ⟨label, cell⟩ := ast
  have inner := blockCleanup_count x cell grown
  cases cell with
  | null => rfl
  | cell label' constDecl numsConstDecl varDecl numsVarDecl procDef numsProcDef statement
        numsStatement next =>
      obtain ⟨-, -, -, -, -, -, rfl⟩ := grown
      simp only [programCleanup, blockListCleanup, ProgramCell.labels, BlockCell.free,
        List.count_append, List.count_cons, List.count_nil] at inner ⊢
      omega

/- What is freed too seldom or too often are different nodes of the tree. -/
mutual
theorem StatementCell.spilled_le : ∀ cell : StatementCell L,
    cell.free.count x + cell.elses.count x + cell.thens.count x ≤ cell.labels.count x
  | .null => Nat.le_refl _
  | .cell label super next => by
      have first := super.spilled_le
      have others := next.spilled_le
      simp only [StatementCell.free, StatementCell.labels, StatementCell.elses,
        StatementCell.thens, List.count_append, List.count_cons, List.count_nil]
      omega

theorem SuperCell.spilled_le : ∀ super : SuperCell L,
    super.elses.count x + super.thens.count x ≤ super.labels.count x
  | .unset => Nat.le_refl _
  | .read label ident | .write label ident | .call label ident | .assign label ident exp =>
      Nat.zero_le _
  | .begin label stsList => by
      have inner := stsList.spilled_le
      simp only [SuperCell.labels, SuperCell.elses, SuperCell.thens, List.count_cons]
      omega
  | .while label cond sts => by
      have inner := sts.spilled_le
      simp only [SuperCell.labels, SuperCell.elses, SuperCell.thens, List.count_append,
        List.count_cons]
      omega
  | .ifS label cond ifsts elsests => by
      have first := ifsts.spilled_le
      have second := elsests.spilled_le
      cases elsests with
      | null =>
          simp only [SuperCell.labels, SuperCell.elses, SuperCell.thens, StatementCell.free,
            StatementCell.elses, List.count_append, List.count_cons, List.count_nil]
          omega
      | cell label' super next =>
          simp only [SuperCell.labels, SuperCell.elses, SuperCell.thens, List.count_append,
            List.count_cons]
          omega
end

mutual
theorem BlockCell.spilled_le : ∀ cell : BlockCell L, cell.free.count x +
    (cell.elses ++ cell.bodies).count x + cell.thens.count x ≤ cell.labels.count x
  | .null => Nat.le_refl _
  | .cell label constDecl numsConstDecl varDecl numsVarDecl procDef numsProcDef statement
      numsStatement next => by
      have inner := procDef.spilled_le
      have own := statement.spilled_le x
      simp only [BlockCell.free, BlockCell.labels, BlockCell.elses, BlockCell.bodies,
        BlockCell.thens, List.count_append, List.count_cons, List.count_nil] at inner ⊢
      omega

theorem ProdefCell.spilled_le : ∀ cell : ProdefCell L,
    (cell.elses ++ cell.bodies).count x + cell.thens.count x ≤ cell.labels.count x
  | .null => Nat.le_refl _
  | .cell label ident lexical addr paraProc body next => by
      have first := body.spilled_le
      have others := next.spilled_le
      simp only [ProdefCell.labels, ProdefCell.elses, ProdefCell.bodies, ProdefCell.thens,
        List.count_append, List.count_cons] at first others ⊢
      omega
end

end Counts

section Conditions

variable {L : Type}

/- Some if of the statement points to an else-branch. -/
mutual
def StatementCell.hasElse : StatementCell L → Bool
  | .null => false
  | .cell _ super next => super.hasElse || next.hasElse

def SuperCell.hasElse : SuperCell L → Bool
  | .begin _ stsList => stsList.hasElse
  | .ifS _ _ ifsts .null => ifsts.hasElse
  | .ifS _ _ _ (.cell ..) => true
  | .while _ _ sts => sts.hasElse
  | _ => false
end

/-- Some procedure of the list points to a body. -/
def ProdefCell.hasBody : ProdefCell L → Bool
  | .null => false
  | .cell _ _ _ _ _ .null next => next.hasBody
  | .cell _ _ _ _ _ (.cell ..) _ => true

def BlockCell.hasElse : BlockCell L → Bool
  | .null => false
  | .cell _ _ _ _ _ _ _ statement _ _ => statement.hasElse

def BlockCell.hasBody : BlockCell L → Bool
  | .null => false
  | .cell _ _ _ _ _ procDef _ _ _ _ => procDef.hasBody

mutual
theorem StatementCell.elses_nil_iff : ∀ cell : StatementCell L,
    cell.elses = [] ↔ cell.hasElse = false
  | .null => iff_of_true rfl rfl
  | .cell label super next => by
      rw [StatementCell.elses, StatementCell.hasElse, List.append_eq_nil_iff,
        super.elses_nil_iff, next.elses_nil_iff, Bool.or_eq_false_iff]

theorem SuperCell.elses_nil_iff : ∀ super : SuperCell L,
    super.elses = [] ↔ super.hasElse = false
  | .unset | .read label ident | .write label ident | .call label ident
  | .assign label ident exp => iff_of_true rfl rfl
  | .begin label stsList => stsList.elses_nil_iff
  | .while label cond sts => sts.elses_nil_iff
  | .ifS label cond ifsts elsests => by
      have inner := ifsts.elses_nil_iff
      cases elsests with
      | null => simpa [SuperCell.elses, SuperCell.hasElse, StatementCell.free,
          StatementCell.elses] using inner
      | cell => simp [SuperCell.elses, SuperCell.hasElse, StatementCell.free]
end

mutual
theorem StatementCell.thens_nil : ∀ cell : StatementCell L, cell.elses = [] → cell.thens = []
  | .null, _ => rfl
  | .cell label super next, bare => by
      obtain ⟨first, others⟩ := List.append_eq_nil_iff.mp bare
      rw [StatementCell.thens, super.thens_nil first, next.thens_nil others]
      rfl

theorem SuperCell.thens_nil : ∀ super : SuperCell L, super.elses = [] → super.thens = []
  | .unset, _ | .read label ident, _ | .write label ident, _ | .call label ident, _
  | .assign label ident exp, _ => rfl
  | .begin label stsList, bare => stsList.thens_nil bare
  | .while label cond sts, bare => sts.thens_nil bare
  | .ifS label cond ifsts elsests, bare => by
      rw [SuperCell.elses, List.append_eq_nil_iff, List.append_eq_nil_iff] at bare
      obtain ⟨⟨alone, first⟩, -⟩ := bare
      cases elsests with
      | null => exact ifsts.thens_nil first
      | cell => cases alone
end

/-- Procedures without a body have nothing that could be forgotten. -/
theorem ProdefCell.spilled_nil_iff : ∀ cell : ProdefCell L,
    cell.elses ++ cell.bodies = [] ↔ cell.hasBody = false
  | .null => iff_of_true rfl rfl
  | .cell label ident lexical addr paraProc body next => by
      have others := next.spilled_nil_iff
      cases body with
      | null => simpa [ProdefCell.elses, ProdefCell.bodies, ProdefCell.hasBody, BlockCell.free,
          BlockCell.elses, BlockCell.bodies] using others
      | cell => simp [ProdefCell.bodies, ProdefCell.hasBody, BlockCell.free]

theorem ProdefCell.thens_nil : ∀ cell : ProdefCell L, cell.hasBody = false → cell.thens = []
  | .null, _ => rfl
  | .cell _ _ _ _ _ .null next, bare => next.thens_nil bare

theorem BlockCell.spilled_nil_iff (cell : BlockCell L) :
    cell.elses ++ cell.bodies = [] ↔ cell.hasBody = false ∧ cell.hasElse = false := by
  cases cell with
  | null => exact iff_of_true rfl ⟨rfl, rfl⟩
  | cell label constDecl numsConstDecl varDecl numsVarDecl procDef numsProcDef statement
        numsStatement next =>
      have procs := procDef.spilled_nil_iff
      have own := statement.elses_nil_iff
      simp only [BlockCell.elses, BlockCell.bodies, BlockCell.hasBody, BlockCell.hasElse,
        List.append_eq_nil_iff] at procs own ⊢
      rw [← procs, ← own]
      tauto

/- In the tree of a whole program every procedure has its body. -/
mutual
def StatementNode.hasElse : StatementNode → Bool
  | .begin stsList => stsList.hasElse
  | .ifS _ ifsts => ifsts.hasElse
  | .ifElse .. => true
  | .while _ sts => sts.hasElse
  | _ => false

def StatementList.hasElse : StatementList → Bool
  | .nil => false
  | .cons sts next => sts.hasElse || next.hasElse
end

mutual
theorem StatementCell.Is.hasElse : ∀ {cell : StatementCell L} {sts : StatementNode},
    cell.Is sts → cell.hasElse = sts.hasElse
  | .null, _, is => is.elim
  | .cell _ super _, _, is => by
      obtain ⟨inner, rfl⟩ := is
      rw [StatementCell.hasElse, SuperCell.Is.hasElse inner]
      exact Bool.or_false _

theorem SuperCell.Is.hasElse : ∀ {super : SuperCell L} {sts : StatementNode},
    super.Is sts → super.hasElse = sts.hasElse
  | .unset, sts, is | .read _ _, sts, is | .write _ _, sts, is | .call _ _, sts, is
  | .assign _ _ _, sts, is => by
      cases sts with
      | empty | assign | read | write | call => rfl
      | begin | ifS | ifElse | «while» => exact is.elim
  | .begin _ stsList, sts, is => by
      cases sts with
      | begin =>
          have inner : stsList.hasElse = _ := StatementCell.IsList.hasElse is
          exact inner
      | _ => exact is.elim
  | .while _ _ body, sts, is => by
      cases sts with
      | «while» cond' body' =>
          have inner := StatementCell.Is.hasElse is.2
          exact inner
      | _ => exact is.elim
  | .ifS _ _ ifsts elsests, sts, is => by
      cases sts with
      | ifS =>
          obtain ⟨-, first, rfl⟩ := is
          have inner := StatementCell.Is.hasElse first
          exact inner
      | ifElse =>
          cases elsests with
          | null => exact is.2.2.elim
          | cell => rfl
      | _ => exact is.elim

theorem StatementCell.IsList.hasElse : ∀ {cell : StatementCell L} {list : StatementList},
    cell.IsList list → cell.hasElse = list.hasElse
  | .null, list, is => by
      cases list with
      | nil => rfl
      | cons => exact is.elim
  | .cell _ super next, list, is => by
      cases list with
      | nil => exact is.elim
      | cons =>
          rw [StatementCell.hasElse, StatementList.hasElse, SuperCell.Is.hasElse is.1,
            StatementCell.IsList.hasElse is.2]
end

theorem BlockCell.Is.hasElse {cell : BlockCell L} {block : BlockNode} (is : cell.Is block) :
    cell.hasElse = block.statement.hasElse := by
  cases cell with
  | null => exact is.elim
  | cell =>
      obtain ⟨constDecl', varDecl', procDef', statement'⟩ := block
      obtain ⟨-, -, -, -, -, -, body, -, -⟩ := is
      exact body.hasElse

theorem BlockCell.Is.hasBody_iff {cell : BlockCell L} {block : BlockNode} (is : cell.Is block) :
    cell.hasBody = false ↔ block.procDef = .nil := by
  cases cell with
  | null => exact is.elim
  | cell label constDecl numsConstDecl varDecl numsVarDecl procDef =>
      obtain ⟨constDecl', varDecl', procDef', statement'⟩ := block
      obtain ⟨-, -, -, -, procs, -, -, -, -⟩ := is
      cases procDef with
      | null =>
          cases procDef' with
          | nil => exact iff_of_true rfl rfl
          | cons => exact procs.elim
      | cell label' ident lexical addr paraProc body next =>
          cases procDef' with
          | nil => exact procs.elim
          | cons =>
              obtain ⟨-, -, -, -, first, -⟩ := procs
              cases body with
              | null => exact first.elim
              | cell => exact iff_of_false Bool.noConfusion ProdefList.noConfusion

theorem BlockCell.thens_nil {cell : BlockCell L} (bodies : cell.hasBody = false)
    (elses : cell.hasElse = false) : cell.thens = [] := by
  cases cell with
  | null => rfl
  | cell label constDecl numsConstDecl varDecl numsVarDecl procDef numsProcDef statement
        numsStatement next =>
      rw [BlockCell.thens, procDef.thens_nil bodies,
        statement.thens_nil (statement.elses_nil_iff.mpr elses)]
      rfl

end Conditions

/-- `programCleanup` frees each node of the tree once. -/
def FreesEach {L : Type} [DecidableEq L] (ast : ProgramCell L) : Prop :=
  ∀ label ∈ ast.labels, (programCleanup ast).count label = 1

/-- Each node of a tree, whole or left unfinished, is freed once exactly when no procedure has
a body yet, which would be forgotten, and no if an else-branch, for which the then-branch
would be freed again. In a whole program these are the declared procedures and the else. -/
theorem freesEach_iff {L : Type} [DecidableEq L] {ast : ProgramCell L} (grown : ast.Grown)
    (apart : ast.labels.Nodup) :
    (FreesEach ast ↔ ast.block.hasBody = false ∧ ast.block.hasElse = false) ∧
      ∀ block, ast.Is block →
        (FreesEach ast ↔ block.procDef = .nil ∧ block.statement.hasElse = false) := by
  have once := List.nodup_iff_count_le_one.mp apart
  have exactly : FreesEach ast ↔ ast.block.hasBody = false ∧ ast.block.hasElse = false := by
    constructor
    · intro each
      rw [← BlockCell.spilled_nil_iff]
      by_contra spilled
      obtain ⟨label, member⟩ := List.exists_mem_of_ne_nil _ spilled
      have counted := programCleanup_count label grown
      have below := ast.block.spilled_le label
      have most := once label
      have some_ := List.count_pos_iff.mpr member
      have inside : ast.block.labels.count label ≤ ast.labels.count label :=
        (List.sublist_cons_self ast.label ast.block.labels).count_le label
      have freed := each label (List.count_pos_iff.mp (by omega))
      omega
    · rintro ⟨bodies, elses⟩ label member
      have counted := programCleanup_count label grown
      rw [ast.block.spilled_nil_iff.mpr ⟨bodies, elses⟩, BlockCell.thens_nil bodies elses,
        List.count_nil, Nat.add_zero, Nat.add_zero] at counted
      rw [counted]
      exact Nat.le_antisymm (once label) (List.count_pos_iff.mpr member)
  refine ⟨exactly, fun block is => ?_⟩
  rw [exactly, is.hasBody_iff, is.hasElse]

/-- `if odd 1 then begin end else begin end.` -/
def branchesTree : BlockTree :=
  .mk [] [] .nil (.ifElse (.odd (.cons .unset (.cons .nulsym (.digit 1) .nil) .nil))
    (.begin (.cons .empty .nil)) (.begin (.cons .empty .nil)))

def branchesText : List CurrentToken := branchesTree.program.map Prod.fst

/-- Its tree in the heap, with the nodes numbered. -/
def branchesHeap : ProgramCell Nat where
  label := 0
  block := .cell 1 [] 0 [] 0 .null 0
    (.cell 2 (.ifS 3
      (.cell 4 .oddsym .null
        (.cell 5 (.cell 6 .unset (.cell 7 (.cell 8 .nulsym (.digit 9 1) .null)) .null)))
      (.cell 10 (.begin 11 (.cell 12 .unset .null)) .null)
      (.cell 13 (.begin 14 (.cell 15 .unset .null)) .null)) .null) 1 .null

def branchesBlock : BlockNode :=
  .mk [] [] .nil (.ifElse (.odd (.cons .unset (.cons .nulsym (.digit 1) .nil) .nil))
    (.begin (.cons .empty .nil)) (.begin (.cons .empty .nil)))

theorem branchesHeap_is : branchesHeap.Is branchesBlock := by
  simp [branchesHeap, branchesBlock, ProgramCell.Is, BlockCell.Is, ProdefCell.Is,
    StatementCell.Is, SuperCell.Is, StatementCell.IsList, ConditionCell.Is, ExpressionCell.Is,
    TermExpCell.Is, TermCell.Is, FactorExpCell.Is, FactorCell.Is]

theorem branchesText_sentence : Sentence .program (seen branchesText) := by
  refine sentence_iff.mpr ⟨branchesTree, ⟨trivial, ?_⟩, rfl⟩
  exact ⟨⟨.inl ⟨rfl, rfl⟩, ⟨rfl, trivial, rfl⟩, rfl⟩, ⟨trivial, rfl⟩, trivial, rfl⟩

theorem branchesText_parsed : ∃ s, parse 60 branchesText = .ok branchesBlock s := by
  have looked : returned? (fun block _ => block) (parse 60 branchesText) = some branchesBlock := by
    decide +kernel
  obtain ⟨block, s, accepted, rfl⟩ := returned?_eq_some.mp looked
  exact ⟨s, accepted⟩

/-- `if odd 1 then call q else begin end.`, where nothing declares `q`: the parser stops at
the call. -/
def stoppedTree : BlockTree :=
  .mk [] [] .nil (.ifElse (.odd (.cons .unset (.cons .nulsym (.digit 1) .nil) .nil))
    (.call [113]) (.begin (.cons .empty .nil)))

def stoppedText : List CurrentToken := stoppedTree.program.map Prod.fst

/-- The heap at that point, still without the else-branch. -/
def stoppedHeap : ProgramCell Nat where
  label := 0
  block := .cell 1 [] 0 [] 0 .null 0
    (.cell 2 (.ifS 3
      (.cell 4 .oddsym .null
        (.cell 5 (.cell 6 .unset (.cell 7 (.cell 8 .nulsym (.digit 9 1) .null)) .null)))
      (.cell 10 (.call 11 [113]) .null) .null) .null) 1 .null

theorem stoppedHeap_grown : stoppedHeap.Grown := by
  simp [stoppedHeap, ProgramCell.Grown, BlockCell.Grown, ProdefCell.Grown, StatementCell.Grown,
    SuperCell.Grown]

theorem stoppedText_sentence : Sentence .program (seen stoppedText) := by
  refine sentence_iff.mpr ⟨stoppedTree, ⟨trivial, ?_⟩, rfl⟩
  exact ⟨⟨.inl ⟨rfl, rfl⟩, ⟨rfl, trivial, rfl⟩, rfl⟩, trivial, trivial, rfl⟩

theorem freesEach_iff_branches : Sentence .program (seen stoppedText) ∧
    (parse 60 stoppedText matches .error (.ret (-1)) _) ∧ FreesEach stoppedHeap ∧
      ¬ FreesEach branchesHeap := by
  refine ⟨stoppedText_sentence, by decide +kernel, ?_, fun each => ?_⟩
  · exact (freesEach_iff stoppedHeap_grown (by decide)).1.mpr ⟨rfl, rfl⟩
  · have plain := ((freesEach_iff branchesHeap_is.grown (by decide)).2 _ branchesHeap_is).mp each
    exact absurd plain.2 (by decide)

/-- The else-branch is never freed. -/
theorem else_branch_leaks : ¬ ∀ (fuel : Nat) (file : List CurrentToken) (block : BlockNode)
    (s : ParseState) (ast : ProgramCell Nat), Sentence .program (seen file) →
      parse fuel file = .ok block s → ast.Is block → ast.labels.Nodup → FreesEach ast := by
  intro claim
  obtain ⟨s, accepted⟩ := branchesText_parsed
  have freed := claim _ _ _ _ _ branchesText_sentence accepted branchesHeap_is (by decide) 13
    (by decide)
  exact absurd freed (by decide)

end Pl0