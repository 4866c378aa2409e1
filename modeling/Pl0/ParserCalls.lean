import Pl0.ParserTermination

set_option autoImplicit false

namespace Pl0

open StateExcept

/-- An assignment up to the store. -/
def assignValue (fuel : Nat) (fsys : Symset) : ParseM TermExp := do
  let this ← get
  modifyGen (·.use .assign this.curToken.string)
  checkAssigned (this.gen.lookup this.curToken.string)
  getToken
  expectBecomes
  expressionParse fuel fsys

/-- An if statement up to its first branch; the result is the place of the jump. -/
def ifHead (fuel : Nat) (fsys : Symset) : ParseM Int := do
  getToken
  let _ ← conditionParse fuel (uniteset (createset [.thensym, .dosym]) fsys)
  expectToken .thensym 16
  let j1 ← get
  modifyGen (·.conditionalJump)
  return j1.gen.codeLength

/-- The first branch of an if statement. -/
def thenBranch (fuel : Nat) (fsys : Symset) (j1 : Int) : ParseM StatementNode := do
  let ifsts ← recordStatement false (statementParse fuel fsys)
  modifyGen (·.jump)
  modifyGen fun g => g.patch j1 g.codeLength
  return ifsts

/-- A while statement up to its body. -/
def whileHead (fuel : Nat) (fsys : Symset) : ParseM Unit := do
  getToken
  let _ ← conditionParse fuel (uniteset (createset [.dosym]) fsys)
  expectToken .dosym 18
  modifyGen (·.conditionalJump)

/-- A constant up to its number. -/
def constHead : ParseM (Name × Int) := do
  getToken
  let name ← expectIdent 4
  getToken
  expectEql
  getToken
  let value ← constValue
  return (name, value)

/-- A variable up to its name. -/
def varHead : ParseM Name := do
  getToken
  expectIdent 4

/-- A procedure up to its block; the result makes its node of the block. -/
def procedureOpen (oldProcedure : Int) : ParseM (BlockNode → ProdefList) := do
  getToken
  let name ← expectIdent 4
  modifyGen (·.makeProc name)
  let made ← get
  getToken
  expectToken .semicolonsym 6
  modifyGen (·.openBlock)
  return fun body => .cons name (made.gen.globalLevel + 1) made.gen.procedureCount
    oldProcedure body .nil

/-- What follows the block of a procedure. -/
def procedureEnd (fuel : Nat) (fsys : Symset) (body : BlockNode) : ParseM Unit := do
  modifyGen (·.closeBlock)
  expectToken .semicolonsym 6
  test fuel (uniteset statbegsys (createset [.identsym, .procsym])) fsys 6
  modifyGen (·.reserveSpace (body.varDecl.length + 4))

/-- What follows the sections in a round of the declarations. -/
def declarationEnd (fuel : Nat) (oldProcedure : Int) : ParseM Unit := do
  modifyGen fun g => { g with currentProcedure := oldProcedure }
  test fuel (uniteset statbegsys (createset [.identsym])) declbegsys 7

/-- The end of a round of the declarations and the rounds that follow. -/
def declarationRest (fuel : Nat) (fsys : Symset) (oldProcedure : Int)
    (constDecl : List ConstDeclNode) (varDecl : List VarDeclNode) (procDef : ProdefList) :
    ParseM (List ConstDeclNode × List VarDeclNode × ProdefList) := do
  declarationEnd fuel oldProcedure
  let this ← get
  if inset this.curToken.cToken declbegsys then
    declarationLoop fuel fsys constDecl varDecl procDef
  else return (constDecl, varDecl, procDef)

/-- What `blockParse` does from behind its declarations up to the end of its statement. -/
def bodyParse (bodyFuel fuel : Nat) (fsys : Symset) (oldProcedure : Int)
    (constDecl : List ConstDeclNode) (varDecl : List VarDeclNode) (procDef : ProdefList) :
    ParseM StatementNode := do
  let _ ← declarationRest fuel fsys oldProcedure constDecl varDecl procDef
  recordStatement true
    (statementParse bodyFuel (uniteset (createset [.semicolonsym, .endsym]) fsys))

/-- A program up to its block. -/
def programHead : ParseM Unit := do
  modifyGen (·.setOffsets)
  getToken
  modifyGen fun g => { g.getFreeSet.2 with currentProcedure := g.getFreeSet.1 }

/-- Where a statement stands: in a `begin ... end`, behind the `then`, the `else` or the
`do` of another statement, or in a block. -/
inductive Position
  | item
  | thenBranch
  | elseBranch
  | loopBody
  | blockBody
  deriving DecidableEq, Repr

/-- The functions that call each other for a block and its statements, with their
arguments apart from the fuel. `bodyParse` is the rest of `blockParse` behind its last
declaration. -/
inductive Call
  | blockParse (fsys : Symset)
  | declarationLoop (bodyFuel : Nat) (fsys : Symset) (constDecl : List ConstDeclNode)
      (varDecl : List VarDeclNode) (procDef : ProdefList)
  | procedureLoop (fsys : Symset) (oldProcedure : Int) (procDef : ProdefList) (tail : Bool)
  | bodyParse (bodyFuel : Nat) (fsys : Symset) (oldProcedure : Int)
      (constDecl : List ConstDeclNode) (varDecl : List VarDeclNode) (procDef : ProdefList)
  | statementParse (position : Position) (fsys : Symset)
  | beginLoop (set : Symset)

/-- The calls that the parse of a token file reaches, with their fuel and the state they
are made in. -/
inductive Reached (start : Nat) (file : List CurrentToken) : Call → Nat → ParseState → Prop
  | program {s : ParseState} (head : programHead (initParse file) = .ok () s) :
      Reached start file
        (.blockParse (uniteset (createset [.periodsym]) (uniteset declbegsys statbegsys))) start s
  | declarations {fuel : Nat} {fsys : Symset} {s : ParseState}
      (block : Reached start file (.blockParse fsys) (fuel + 1) s) :
      Reached start file (.declarationLoop fuel fsys [] [] .nil) fuel s
  | statement {fuel : Nat} {fsys : Symset} {s s' : ParseState}
      {decls : List ConstDeclNode × List VarDeclNode × ProdefList}
      (block : Reached start file (.blockParse fsys) (fuel + 1) s)
      (declared : declarationLoop fuel fsys [] [] .nil s = .ok decls s') :
      Reached start file
        (.statementParse .blockBody (uniteset (createset [.semicolonsym, .endsym]) fsys)) fuel s'
  | procedures {fuel bodyFuel : Nat} {fsys : Symset} {constDecl consts : List ConstDeclNode}
      {varDecl vars : List VarDeclNode} {procDef : ProdefList} {s s1 s2 : ParseState}
      (round : Reached start file (.declarationLoop bodyFuel fsys constDecl varDecl procDef)
        (fuel + 1) s)
      (constRead : constSection fuel constDecl s = .ok consts s1)
      (varRead : varSection fuel varDecl s1 = .ok vars s2) :
      Reached start file (.procedureLoop fsys s2.gen.currentProcedure procDef false) fuel s2
  | body {fuel bodyFuel : Nat} {fsys : Symset} {constDecl consts : List ConstDeclNode}
      {varDecl vars : List VarDeclNode} {procDef procs : ProdefList} {s s1 s2 s3 : ParseState}
      (round : Reached start file (.declarationLoop bodyFuel fsys constDecl varDecl procDef)
        (fuel + 1) s)
      (constRead : constSection fuel constDecl s = .ok consts s1)
      (varRead : varSection fuel varDecl s1 = .ok vars s2)
      (procedures : procedureLoop fuel fsys s2.gen.currentProcedure procDef false s2 =
        .ok procs s3) :
      Reached start file (.bodyParse bodyFuel fsys s2.gen.currentProcedure consts vars procs)
        fuel s3
  | again {fuel bodyFuel : Nat} {fsys : Symset} {oldProcedure : Int}
      {constDecl : List ConstDeclNode} {varDecl : List VarDeclNode} {procDef : ProdefList}
      {s s' : ParseState}
      (body : Reached start file
        (.bodyParse bodyFuel fsys oldProcedure constDecl varDecl procDef) fuel s)
      (tested : declarationEnd fuel oldProcedure s = .ok () s')
      (more : inset s'.curToken.cToken declbegsys = true) :
      Reached start file (.declarationLoop bodyFuel fsys constDecl varDecl procDef) fuel s'
  | block {fuel : Nat} {fsys : Symset} {oldProcedure : Int} {procDef : ProdefList} {tail : Bool}
      {s s1 s2 : ParseState} {node : BlockNode → ProdefList}
      (procedures : Reached start file (.procedureLoop fsys oldProcedure procDef tail)
        (fuel + 1) s)
      (token : s.curToken.cToken = .procsym) (linked : linkNode procDef.isNil tail s = .ok () s1)
      (opened : procedureOpen oldProcedure s1 = .ok node s2) :
      Reached start file (.blockParse (uniteset (createset [.semicolonsym]) fsys)) fuel s2
  | procedure {fuel : Nat} {fsys : Symset} {oldProcedure : Int} {procDef : ProdefList}
      {tail : Bool} {s s1 s2 s3 s4 : ParseState} {node : BlockNode → ProdefList}
      {block : BlockNode}
      (procedures : Reached start file (.procedureLoop fsys oldProcedure procDef tail)
        (fuel + 1) s)
      (token : s.curToken.cToken = .procsym) (linked : linkNode procDef.isNil tail s = .ok () s1)
      (opened : procedureOpen oldProcedure s1 = .ok node s2)
      (parsed : blockParse fuel (uniteset (createset [.semicolonsym]) fsys) s2 = .ok block s3)
      (closed : procedureEnd fuel fsys block s3 = .ok () s4) :
      Reached start file (.procedureLoop fsys oldProcedure (procDef.append (node block)) true)
        fuel s4
  | first {fuel : Nat} {fsys : Symset} {position : Position} {s s' : ParseState}
      (outer : Reached start file (.statementParse position fsys) (fuel + 1) s)
      (token : s.curToken.cToken = .beginsym) (read : getToken s = .ok () s') :
      Reached start file
        (.statementParse .item (uniteset (createset [.semicolonsym, .endsym]) fsys)) fuel s'
  | list {fuel : Nat} {fsys : Symset} {position : Position} {s s1 s2 : ParseState}
      {sts : StatementNode}
      (outer : Reached start file (.statementParse position fsys) (fuel + 1) s)
      (token : s.curToken.cToken = .beginsym) (read : getToken s = .ok () s1)
      (parsed : recordStatement false
        (statementParse fuel (uniteset (createset [.semicolonsym, .endsym]) fsys)) s1 =
          .ok sts s2) :
      Reached start file (.beginLoop (uniteset (createset [.semicolonsym, .endsym]) fsys)) fuel s2
  | item {fuel : Nat} {set : Symset} {s s' : ParseState}
      (outer : Reached start file (.beginLoop set) (fuel + 1) s)
      (token : s.curToken.cToken = .semicolonsym ∨ inset s.curToken.cToken statbegsys)
      (separated : separator s = .ok () s') :
      Reached start file (.statementParse .item set) fuel s'
  | items {fuel : Nat} {set : Symset} {s s1 s2 : ParseState} {sts : StatementNode}
      (outer : Reached start file (.beginLoop set) (fuel + 1) s)
      (token : s.curToken.cToken = .semicolonsym ∨ inset s.curToken.cToken statbegsys)
      (separated : separator s = .ok () s1)
      (parsed : recordStatement false (statementParse fuel set) s1 = .ok sts s2) :
      Reached start file (.beginLoop set) fuel s2
  | thenBranch {fuel : Nat} {fsys : Symset} {position : Position} {s s' : ParseState} {j1 : Int}
      (outer : Reached start file (.statementParse position fsys) (fuel + 1) s)
      (token : s.curToken.cToken = .ifsym) (head : ifHead fuel fsys s = .ok j1 s') :
      Reached start file (.statementParse .thenBranch fsys) fuel s'
  | elseBranch {fuel : Nat} {fsys : Symset} {position : Position} {s s1 s2 s3 : ParseState}
      {j1 : Int} {ifsts : StatementNode}
      (outer : Reached start file (.statementParse position fsys) (fuel + 1) s)
      (token : s.curToken.cToken = .ifsym) (head : ifHead fuel fsys s = .ok j1 s1)
      (parsed : thenBranch fuel fsys j1 s1 = .ok ifsts s2)
      (hasElse : s2.curToken.cToken = .elsesym) (read : getToken s2 = .ok () s3) :
      Reached start file (.statementParse .elseBranch fsys) fuel s3
  | loopBody {fuel : Nat} {fsys : Symset} {position : Position} {s s' : ParseState}
      (outer : Reached start file (.statementParse position fsys) (fuel + 1) s)
      (token : s.curToken.cToken = .whilesym) (head : whileHead fuel fsys s = .ok () s') :
      Reached start file (.statementParse .loopBody fsys) fuel s'

/-- The function that was called stops. -/
def CallStops (call : Call) (fuel : Nat) (s : ParseState) (e : Stop) (t : ParseState) : Prop :=
  match call with
  | .blockParse fsys => blockParse fuel fsys s = .error e t
  | .declarationLoop _ fsys constDecl varDecl procDef =>
      declarationLoop fuel fsys constDecl varDecl procDef s = .error e t
  | .procedureLoop fsys oldProcedure procDef tail =>
      procedureLoop fuel fsys oldProcedure procDef tail s = .error e t
  | .bodyParse _ fsys oldProcedure constDecl varDecl procDef =>
      declarationRest fuel fsys oldProcedure constDecl varDecl procDef s = .error e t
  | .statementParse _ fsys => statementParse fuel fsys s = .error e t
  | .beginLoop set => beginLoop fuel set s = .error e t

section Stops

variable {fuel : Nat} {fsys set : Symset} {s s1 s2 s3 t : ParseState} {e : Stop}

theorem recordStatement_stops {x : ParseM StatementNode} {body : Bool}
    (stopped : x s = .error e t) :
    recordStatement body x s = .error e t :=
  bind_of_error stopped _

theorem statementParse_firstStops (token : s.curToken.cToken = .beginsym)
    (read : getToken s = .ok () s1)
    (stopped : statementParse fuel (uniteset (createset [.semicolonsym, .endsym]) fsys) s1 =
      .error e t) : statementParse (fuel + 1) fsys s = .error e t := by
  rw [statementParse, get_bind]
  simp only [token]
  rw [bind_of_ok read]
  exact bind_of_error (recordStatement_stops stopped) _

theorem statementParse_listStops {sts : StatementNode} (token : s.curToken.cToken = .beginsym)
    (read : getToken s = .ok () s1)
    (parsed : recordStatement false
      (statementParse fuel (uniteset (createset [.semicolonsym, .endsym]) fsys)) s1 = .ok sts s2)
    (stopped : beginLoop fuel (uniteset (createset [.semicolonsym, .endsym]) fsys) s2 =
      .error e t) : statementParse (fuel + 1) fsys s = .error e t := by
  rw [statementParse, get_bind]
  simp only [token]
  rw [bind_of_ok read, bind_of_ok parsed]
  exact bind_of_error stopped _

theorem statementParse_thenStops {j1 : Int} (token : s.curToken.cToken = .ifsym)
    (head : ifHead fuel fsys s = .ok j1 s1) (stopped : statementParse fuel fsys s1 = .error e t) :
    statementParse (fuel + 1) fsys s = .error e t := by
  simp only [ifHead, bind_eq_ok, pure_eq_ok] at head
  obtain ⟨_, t1, read, cond, t2, condition, _, t3, expected, j, t4, got, _, t5, jump, -, rfl⟩ :=
    head
  rw [statementParse, get_bind]
  simp only [token]
  rw [bind_of_ok read, bind_of_ok condition, bind_of_ok expected, bind_of_ok got, bind_of_ok jump]
  exact bind_of_error (recordStatement_stops stopped) _

theorem statementParse_elseStops {j1 : Int} {ifsts : StatementNode}
    (token : s.curToken.cToken = .ifsym) (head : ifHead fuel fsys s = .ok j1 s1)
    (parsed : thenBranch fuel fsys j1 s1 = .ok ifsts s2) (hasElse : s2.curToken.cToken = .elsesym)
    (read : getToken s2 = .ok () s3) (stopped : statementParse fuel fsys s3 = .error e t) :
    statementParse (fuel + 1) fsys s = .error e t := by
  simp only [ifHead, bind_eq_ok, pure_eq_ok] at head
  obtain ⟨_, t1, read', cond, t2, condition, _, t3, expected, j, t4, got, _, t5, jump, rfl, rfl⟩ :=
    head
  simp only [thenBranch, bind_eq_ok, pure_eq_ok] at parsed
  obtain ⟨_, u1, branch, _, u2, jumped, _, u3, patched, rfl, rfl⟩ := parsed
  rw [statementParse, get_bind]
  simp only [token]
  rw [bind_of_ok read', bind_of_ok condition, bind_of_ok expected, bind_of_ok got, bind_of_ok jump,
    bind_of_ok branch, get_bind, bind_of_ok jumped, bind_of_ok patched, get_bind, if_pos hasElse,
    bind_of_ok read]
  exact bind_of_error (recordStatement_stops stopped) _

theorem statementParse_bodyStops (token : s.curToken.cToken = .whilesym)
    (head : whileHead fuel fsys s = .ok () s1)
    (stopped : statementParse fuel fsys s1 = .error e t) :
    statementParse (fuel + 1) fsys s = .error e t := by
  simp only [whileHead, bind_eq_ok] at head
  obtain ⟨_, t1, read, cond, t2, condition, _, t3, expected, jump⟩ := head
  rw [statementParse, get_bind]
  simp only [token]
  rw [bind_of_ok read, get_bind, bind_of_ok condition, bind_of_ok expected, get_bind,
    bind_of_ok jump]
  exact bind_of_error (recordStatement_stops stopped) _

theorem beginLoop_itemStops
    (token : s.curToken.cToken = .semicolonsym ∨ inset s.curToken.cToken statbegsys)
    (separated : separator s = .ok () s1) (stopped : statementParse fuel set s1 = .error e t) :
    beginLoop (fuel + 1) set s = .error e t := by
  rw [beginLoop, get_bind, if_pos token, bind_of_ok separated]
  exact bind_of_error (recordStatement_stops stopped) _

theorem beginLoop_itemsStop {sts : StatementNode}
    (token : s.curToken.cToken = .semicolonsym ∨ inset s.curToken.cToken statbegsys)
    (separated : separator s = .ok () s1)
    (parsed : recordStatement false (statementParse fuel set) s1 = .ok sts s2)
    (stopped : beginLoop fuel set s2 = .error e t) : beginLoop (fuel + 1) set s = .error e t := by
  rw [beginLoop, get_bind, if_pos token, bind_of_ok separated, bind_of_ok parsed]
  exact bind_of_error stopped _

theorem blockParse_statementStops
    {decls : List ConstDeclNode × List VarDeclNode × ProdefList}
    (declared : declarationLoop fuel fsys [] [] .nil s = .ok decls s1)
    (stopped : statementParse fuel (uniteset (createset [.semicolonsym, .endsym]) fsys) s1 =
      .error e t) : blockParse (fuel + 1) fsys s = .error e t := by
  rw [blockParse, bind_of_ok declared]
  exact bind_of_error (recordStatement_stops stopped) _

section Round

variable {constDecl consts : List ConstDeclNode} {varDecl vars : List VarDeclNode}
  {procDef procs : ProdefList}

theorem declarationLoop_proceduresStop (constRead : constSection fuel constDecl s = .ok consts s1)
    (varRead : varSection fuel varDecl s1 = .ok vars s2)
    (stopped : procedureLoop fuel fsys s2.gen.currentProcedure procDef false s2 = .error e t) :
    declarationLoop (fuel + 1) fsys constDecl varDecl procDef s = .error e t := by
  rw [declarationLoop, bind_of_ok constRead, bind_of_ok varRead, get_bind]
  exact bind_of_error stopped _

theorem declarationLoop_rest (constRead : constSection fuel constDecl s = .ok consts s1)
    (varRead : varSection fuel varDecl s1 = .ok vars s2)
    (procedures : procedureLoop fuel fsys s2.gen.currentProcedure procDef false s2 =
      .ok procs s3) : declarationLoop (fuel + 1) fsys constDecl varDecl procDef s =
        declarationRest fuel fsys s2.gen.currentProcedure consts vars procs s3 := by
  rw [declarationLoop, bind_of_ok constRead, bind_of_ok varRead, get_bind, bind_of_ok procedures]
  rfl

theorem declarationRest_again {oldProcedure : Int}
    (tested : declarationEnd fuel oldProcedure s = .ok () s1)
    (more : inset s1.curToken.cToken declbegsys = true) :
    declarationRest fuel fsys oldProcedure consts vars procs s =
      declarationLoop fuel fsys consts vars procs s1 := by
  rw [declarationRest, bind_of_ok tested, get_bind, if_pos more]

end Round

section Procedure

variable {oldProcedure : Int} {procDef : ProdefList} {tail : Bool} {node : BlockNode → ProdefList}

theorem procedureLoop_blockStops (token : s.curToken.cToken = .procsym)
    (linked : linkNode procDef.isNil tail s = .ok () s1)
    (opened : procedureOpen oldProcedure s1 = .ok node s2)
    (stopped : blockParse fuel (uniteset (createset [.semicolonsym]) fsys) s2 = .error e t) :
    procedureLoop (fuel + 1) fsys oldProcedure procDef tail s = .error e t := by
  simp only [procedureOpen, bind_eq_ok, pure_eq_ok] at opened
  obtain ⟨_, t1, read, name, t2, named, _, t3, made, g, t4, got, _, t5, read', _, t6, expected, _,
    t7, entered, -, rfl⟩ := opened
  rw [procedureLoop, get_bind, if_pos token, bind_of_ok linked, bind_of_ok read, bind_of_ok named,
    bind_of_ok made, bind_of_ok got, bind_of_ok read', bind_of_ok expected, bind_of_ok entered]
  exact bind_of_error stopped _

theorem procedureLoop_procedureStops {block : BlockNode} {s4 : ParseState}
    (token : s.curToken.cToken = .procsym)
    (linked : linkNode procDef.isNil tail s = .ok () s1)
    (opened : procedureOpen oldProcedure s1 = .ok node s2)
    (parsed : blockParse fuel (uniteset (createset [.semicolonsym]) fsys) s2 = .ok block s3)
    (closed : procedureEnd fuel fsys block s3 = .ok () s4)
    (stopped : procedureLoop fuel fsys oldProcedure (procDef.append (node block)) true s4 =
      .error e t) : procedureLoop (fuel + 1) fsys oldProcedure procDef tail s = .error e t := by
  simp only [procedureOpen, bind_eq_ok, pure_eq_ok] at opened
  obtain ⟨_, t1, read, name, t2, named, _, t3, made, g, t4, got, _, t5, read', _, t6, expected, _,
    t7, entered, rfl, rfl⟩ := opened
  simp only [procedureEnd, bind_eq_ok] at closed
  obtain ⟨_, u1, left, _, u2, expected', _, u3, tested, reserved⟩ := closed
  rw [procedureLoop, get_bind, if_pos token, bind_of_ok linked, bind_of_ok read, bind_of_ok named,
    bind_of_ok made, bind_of_ok got, bind_of_ok read', bind_of_ok expected, bind_of_ok entered,
    bind_of_ok parsed, bind_of_ok left, bind_of_ok expected', bind_of_ok tested,
    bind_of_ok reserved]
  exact stopped

end Procedure

theorem programParse_blockStops {file : List CurrentToken}
    (head : programHead (initParse file) = .ok () s)
    (stopped : blockParse fuel
      (uniteset (createset [.periodsym]) (uniteset declbegsys statbegsys)) s = .error e t) :
    parse fuel file = .error e t := by
  simp only [programHead, bind_eq_ok] at head
  obtain ⟨_, t1, offsets, _, t2, read, firstSet⟩ := head
  rw [parse, programParse, bind_of_ok offsets, bind_of_ok read, bind_of_ok firstSet]
  exact bind_of_error stopped _

/-- A call that is reached and stops ends the parse. -/
theorem Reached.stops {start : Nat} {file : List CurrentToken} {call : Call}
    (reached : Reached start file call fuel s) (stopped : CallStops call fuel s e t) :
    parse start file = .error e t := by
  induction reached with
  | program head => exact programParse_blockStops head stopped
  | declarations _ ih => exact ih (bind_of_error stopped _)
  | statement _ declared ih => exact ih (blockParse_statementStops declared stopped)
  | procedures _ constRead varRead ih =>
      exact ih (declarationLoop_proceduresStop constRead varRead stopped)
  | body _ constRead varRead procedures ih =>
      exact ih ((declarationLoop_rest constRead varRead procedures).trans stopped)
  | again _ tested more ih => exact ih ((declarationRest_again tested more).trans stopped)
  | block _ token linked opened ih =>
      exact ih (procedureLoop_blockStops token linked opened stopped)
  | procedure _ token linked opened parsed closed ih =>
      exact ih (procedureLoop_procedureStops token linked opened parsed closed stopped)
  | first _ token read ih => exact ih (statementParse_firstStops token read stopped)
  | list _ token read parsed ih => exact ih (statementParse_listStops token read parsed stopped)
  | item _ token separated ih => exact ih (beginLoop_itemStops token separated stopped)
  | items _ token separated parsed ih =>
      exact ih (beginLoop_itemsStop token separated parsed stopped)
  | thenBranch _ token head ih => exact ih (statementParse_thenStops token head stopped)
  | elseBranch _ token head parsed hasElse read ih =>
      exact ih (statementParse_elseStops token head parsed hasElse read stopped)
  | loopBody _ token head ih => exact ih (statementParse_bodyStops token head stopped)

end Stops

end Pl0
