import Pl0.Parse

set_option autoImplicit false

namespace Pl0

/- What a successful parse does to the globals, as functions of the nodes it
returns: the token stream and the recoveries leave no other trace there. -/

namespace GenState

/-- The code of a factor that names `sym`. The parser stops at a name that is
unknown or names a procedure, so those cases only keep the registers in step. -/
def loadKnown (g : GenState) (sym : Option Symbol) : GenState :=
  match sym with
  | none => g.addRegister 1
  | some sym =>
      match sym.kind with
      | .varS => g.load sym
      | .constS => g.literal sym.val
      | .procS => g.addRegister 1

def storeKnown (g : GenState) (sym : Option Symbol) : GenState :=
  match sym with
  | none => g.addRegister (-1)
  | some sym => g.becomes sym

def nameKnown (g : GenState) (act : GenState → Symbol → GenState) (sym : Option Symbol) :
    GenState :=
  match sym with
  | none => g
  | some sym => act g sym

/-- The note that `recordStatement` takes of a statement that led from `before` to `after`. -/
def recorded (before : GenState) (body : Bool) (node : StatementNode) (after : GenState) :
    GenState :=
  after.record (.statement after.scope body after.currentProcedure before.codeLength
    ((after.code after.currentProcedure).drop before.codeLength.toNat) node)

/-- The end of a then branch or of a loop body: the jump behind it, and the target
of the conditional jump at `j1`. -/
def leaveBranch (g : GenState) (j1 : Int) : GenState :=
  let jumped := g.jump
  jumped.patch j1 jumped.codeLength

def endIf (g : GenState) (j2 : Int) : GenState :=
  let freed := g.addRegister (-1)
  freed.patch j2 freed.codeLength

def endWhile (g : GenState) (j2 c : Int) : GenState :=
  (g.patch j2 c).addRegister (-1)

end GenState

/- The first factor of a term comes with the sign of the term; the flag of a list
of terms marks the first one, whose `op` is the sign. The parser builds no empty
term or expression, and those cases too keep the registers in step. -/
mutual
def genFactor : FactorNode → GenState → GenState
  | .ident name, g => (g.use .factor name).loadKnown (g.lookup name)
  | .digit value, g => g.literal value
  | .exp e, g => genTerms e true g

def genFactors : FactorExp → Option Token → GenState → GenState
  | .nil, sign, g => if sign.isSome then g.addRegister 1 else g
  | .cons op factor next, sign, g =>
      genFactors next none (match sign with
        | some preop => (genFactor factor g).negate preop
        | none => (genFactor factor g).calculate op)

def genTerms : TermExp → Bool → GenState → GenState
  | .nil, first, g => if first then g.addRegister 1 else g
  | .cons op term next, first, g =>
      genTerms next false (if first then genFactors term (some op) g
        else (genFactors term (some .unset) g).calculate op)
end

def genExpression (e : TermExp) (g : GenState) : GenState :=
  genTerms e true g

def genCondition : ConditionNode → GenState → GenState
  | .odd right, g => (genExpression right g).testOdd
  | .relOp op left right, g => (genExpression right (genExpression left g)).compare op

mutual
def genStatement : StatementNode → GenState → GenState
  | .empty, g => g
  | .assign name e, g => (genExpression e (g.use .assign name)).storeKnown (g.lookup name)
  | .begin list, g => (genStatements list g).finishBegin
  | .ifS cond ifsts, g =>
      let tested := genCondition cond g
      let taken := tested.conditionalJump
      let branch := taken.recorded false ifsts (genStatement ifsts taken)
      (branch.leaveBranch tested.codeLength).endIf branch.codeLength
  | .ifElse cond ifsts elsests, g =>
      let tested := genCondition cond g
      let taken := tested.conditionalJump
      let branch := taken.recorded false ifsts (genStatement ifsts taken)
      let other := branch.leaveBranch tested.codeLength
      (other.recorded false elsests (genStatement elsests other)).endIf branch.codeLength
  | .while cond sts, g =>
      let tested := genCondition cond g
      let taken := tested.conditionalJump
      let body := taken.recorded false sts (genStatement sts taken)
      (body.leaveBranch tested.codeLength).endWhile body.codeLength g.codeLength
  | .read name, g => (g.use .read name).nameKnown GenState.readSymbol (g.lookup name)
  | .write name, g => (g.use .write name).nameKnown GenState.writeSymbol (g.lookup name)
  | .call name, g => (g.use .call name).nameKnown GenState.callSymbol (g.lookup name)

def genStatements : StatementList → GenState → GenState
  | .nil, g => g
  | .cons sts next, g => genStatements next (g.recorded false sts (genStatement sts g))
end

/-- The declarations of a block so far. -/
structure Declarations where
  constDecl : List ConstDeclNode
  varDecl : List VarDeclNode
  procDef : ProdefList

namespace Declarations

def none : Declarations := ⟨[], [], .nil⟩

def addConst (d : Declarations) (g : GenState) (name : Name) (value : Int) : Declarations :=
  { d with constDecl := d.constDecl ++
      [⟨name, value, g.globalLevel, g.procedureCount, g.offsetArray g.globalLevel⟩] }

def addVar (d : Declarations) (g : GenState) (name : Name) : Declarations :=
  { d with varDecl := d.varDecl ++
      [⟨name, g.globalLevel, g.procedureCount, g.offsetArray g.globalLevel⟩] }

def addProc (d : Declarations) (g : GenState) (name : Name) (body : BlockNode) : Declarations :=
  { d with procDef := d.procDef.append (.cons name (g.globalLevel + 1) (g.procedureCount + 1)
      g.currentProcedure body .nil) }

def block (d : Declarations) (statement : StatementNode) : BlockNode :=
  .mk d.constDecl d.varDecl d.procDef statement

/-- A new procedure stands behind the others, and its own procedures behind it. -/
theorem addProc_procedures (d inner : Declarations) (g : GenState) (name : Name)
    (statement : StatementNode) : (d.addProc g name (inner.block statement)).procDef.procedures =
      d.procDef.procedures ++ ⟨name, g.globalLevel + 1, g.procedureCount + 1, g.currentProcedure,
        inner.block statement⟩ :: inner.procDef.procedures := by
  unfold addProc
  rw [ProdefList.procedures_append, ProdefList.procedures, ProdefList.procedures, List.append_nil]
  rfl

end Declarations

/-- The statement part of a block. -/
def genBody (statement : StatementNode) (g : GenState) : GenState :=
  g.recorded true statement (genStatement statement g)

/-- What follows the body of a procedure in its parent, whose code set is `set`. -/
def GenState.leaveProc (g : GenState) (set space : Int) : GenState :=
  { g.closeBlock.reserveSpace space with currentProcedure := set }

/-- The declarations that lead from one state to another, in the order in which
they were parsed. -/
inductive Declares : GenState → Declarations → GenState → Declarations → Prop
  | done (g : GenState) (d : Declarations) : Declares g d g d
  | const {g g' : GenState} {d d' : Declarations} (name : Name) (value : Int)
      (small : value ≤ maxNumber) (inside : 0 ≤ g.globalLevel ∧ g.globalLevel < maxLexiLevels)
      (rest : Declares (g.makeConst name value) (d.addConst g name value) g' d') :
      Declares g d g' d'
  | var {g g' : GenState} {d d' : Declarations} (name : Name)
      (inside : 0 ≤ g.globalLevel ∧ g.globalLevel < maxLexiLevels)
      (rest : Declares (g.makeVar name) (d.addVar g name) g' d') : Declares g d g' d'
  | proc {g gb g' : GenState} {d inner d' : Declarations} (name : Name) (statement : StatementNode)
      (nested : Declares (g.makeProc name).openBlock .none gb inner)
      (rest : Declares
        ((genBody statement gb).leaveProc g.currentProcedure (inner.varDecl.length + 4))
        (d.addProc g name (inner.block statement)) g' d') :
      Declares g d g' d'

/-- The same, where the statement part of every procedure meets `P` in the state in which it
is read. -/
inductive DeclaresWith (P : GenState → StatementNode → Prop) :
    GenState → Declarations → GenState → Declarations → Prop
  | done (g : GenState) (d : Declarations) : DeclaresWith P g d g d
  | const {g g' : GenState} {d d' : Declarations} (name : Name) (value : Int)
      (small : value ≤ maxNumber) (inside : 0 ≤ g.globalLevel ∧ g.globalLevel < maxLexiLevels)
      (rest : DeclaresWith P (g.makeConst name value) (d.addConst g name value) g' d') :
      DeclaresWith P g d g' d'
  | var {g g' : GenState} {d d' : Declarations} (name : Name)
      (inside : 0 ≤ g.globalLevel ∧ g.globalLevel < maxLexiLevels)
      (rest : DeclaresWith P (g.makeVar name) (d.addVar g name) g' d') : DeclaresWith P g d g' d'
  | proc {g gb g' : GenState} {d inner d' : Declarations} (name : Name) (statement : StatementNode)
      (nested : DeclaresWith P (g.makeProc name).openBlock .none gb inner) (holds : P gb statement)
      (rest : DeclaresWith P
        ((genBody statement gb).leaveProc g.currentProcedure (inner.varDecl.length + 4))
        (d.addProc g name (inner.block statement)) g' d') :
      DeclaresWith P g d g' d'

namespace DeclaresWith

variable {P : GenState → StatementNode → Prop} {g g' g'' : GenState} {d d' d'' : Declarations}

theorem declares (declared : DeclaresWith P g d g' d') : Declares g d g' d' := by
  induction declared with
  | done g d => exact .done g d
  | const name value small inside _ ih => exact .const name value small inside ih
  | var name inside _ ih => exact .var name inside ih
  | proc name statement _ _ _ ihNested ih => exact .proc name statement ihNested ih

theorem trans (first : DeclaresWith P g d g' d') (second : DeclaresWith P g' d' g'' d'') :
    DeclaresWith P g d g'' d'' := by
  induction first with
  | done => exact second
  | const name value small inside _ ih => exact .const name value small inside (ih second)
  | var name inside _ ih => exact .var name inside (ih second)
  | proc name statement nested holds _ _ ih => exact .proc name statement nested holds (ih second)

end DeclaresWith

/-- What a successful parse of a block does. -/
def BlockRuns (g : GenState) (block : BlockNode) (g' : GenState) : Prop :=
  ∃ declared d, Declares g .none declared d ∧ block = d.block block.statement ∧
    g' = genBody block.statement declared

/-- The same, where the statement part of every block meets `P`. -/
def BlockRunsWith (P : GenState → StatementNode → Prop) (g : GenState) (block : BlockNode)
    (g' : GenState) : Prop :=
  ∃ declared d, DeclaresWith P g .none declared d ∧ block = d.block block.statement ∧
    P declared block.statement ∧ g' = genBody block.statement declared

theorem BlockRunsWith.runs {P : GenState → StatementNode → Prop} {g g' : GenState}
    {block : BlockNode} (runs : BlockRunsWith P g block g') : BlockRuns g block g' := by
  obtain ⟨declared, d, declares, shape, -, body⟩ := runs
  exact ⟨declared, d, declares.declares, shape, body⟩

end Pl0
