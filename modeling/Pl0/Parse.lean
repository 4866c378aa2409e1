import Pl0.ParseState

set_option autoImplicit false

namespace Pl0

/- Every function below takes fuel for its loops and its recursion; where the
source returns a nonzero value, the model throws it, and where the source fills in
a node, the model returns it. -/

/-- The use of a name in a factor. -/
def loadFactor (sym : Option Symbol) : ParseM Unit :=
  match sym with
  | none => failWith 11
  | some sym =>
      match sym.kind with
      | .varS => modifyGen (·.load sym)
      | .constS => modifyGen (·.literal sym.val)
      | .procS => failWith 21

/-- The `[ "+" | "-" ]` of an expression; 0 stands for no sign. -/
def leadingSign : ParseM Token := do
  let this ← get
  if this.curToken.cToken = .plussym ∨ this.curToken.cToken = .minussym then do
    getToken
    return this.curToken.cToken
  else return .unset

def closeParen (fuel : Nat) (fsys : Symset) : ParseM Unit := do
  let this ← get
  if this.curToken.cToken = .rparentsym then getToken
  else test fuel fsys (createset [.lparentsym]) 22

def identFactor : ParseM FactorNode := do
  let this ← get
  modifyGen (·.use .factor this.curToken.string)
  loadFactor (this.gen.lookup this.curToken.string)
  getToken
  return .ident this.curToken.string

def numberFactor : ParseM FactorNode := do
  let this ← get
  if this.curToken.numeric > maxNumber then failWith 25
  else do
    modifyGen (·.literal this.curToken.numeric)
    getToken
    return .digit this.curToken.numeric

mutual
def expressionParse : Nat → Symset → ParseM TermExp
  | 0, _ => throw .fuel
  | fuel + 1, fsys => do
      let set := uniteset fsys (createset [.multsym, .slashsym])
      let preop ← leadingSign
      let term ← termParse fuel preop set
      let rest ← expressionLoop fuel set
      return .cons preop term rest

/-- `{ ("+" | "-") term }` -/
def expressionLoop : Nat → Symset → ParseM TermExp
  | 0, _ => throw .fuel
  | fuel + 1, set => do
      let this ← get
      let op := this.curToken.cToken
      if op = .plussym ∨ op = .minussym then do
        getToken
        let term ← termParse fuel .unset set
        modifyGen (·.calculate op)
        let rest ← expressionLoop fuel set
        return .cons op term rest
      else return .nil

def termParse : Nat → Token → Symset → ParseM FactorExp
  | 0, _, _ => throw .fuel
  | fuel + 1, preop, fsys => do
      let set := uniteset fsys (createset [.multsym, .slashsym])
      let factor ← factorParse fuel set
      modifyGen (·.negate preop)
      let rest ← termLoop fuel set
      return .cons .nulsym factor rest

/-- `{ ("*" | "/") factor }` -/
def termLoop : Nat → Symset → ParseM FactorExp
  | 0, _ => throw .fuel
  | fuel + 1, set => do
      let this ← get
      let op := this.curToken.cToken
      if op = .multsym ∨ op = .slashsym then do
        getToken
        let factor ← factorParse fuel set
        modifyGen (·.calculate op)
        let rest ← termLoop fuel set
        return .cons op factor rest
      else return .nil

def factorParse : Nat → Symset → ParseM FactorNode
  | 0, _ => throw .fuel
  | fuel + 1, fsys => do
      test fuel facbegsys fsys 24
      let this ← get
      match this.curToken.cToken with
      | .identsym => identFactor
      | .numbersym => numberFactor
      | .lparentsym => do
          getToken
          let exp ← expressionParse fuel (uniteset (createset [.rparentsym]) fsys)
          closeParen fuel fsys
          return .exp exp
      | _ => do
          test fuel fsys (createset [.lparentsym]) 23
          failWith 23
end

def relOp : ParseM Token := do
  let this ← get
  let token := this.curToken.cToken
  if token = .eqlsym ∨ token = .neqsym ∨ token = .lessym ∨ token = .leqsym ∨ token = .gtrsym ∨
      token = .geqsym then return token
  else failWith 20

def conditionParse (fuel : Nat) (fsys : Symset) : ParseM ConditionNode := do
  let this ← get
  if this.curToken.cToken = .oddsym then do
    getToken
    let right ← expressionParse fuel fsys
    modifyGen (·.testOdd)
    return .odd right
  else do
    let left ← expressionParse fuel (uniteset relset fsys)
    let op ← relOp
    getToken
    let right ← expressionParse fuel fsys
    modifyGen (·.compare op)
    return .relOp op left right

/-- Step over a token that must come next. -/
def expectToken (token : Token) (errorType : Nat) : ParseM Unit := do
  let this ← get
  if this.curToken.cToken = token then getToken else failWith errorType

/-- The name that must come next. -/
def expectIdent (errorType : Nat) : ParseM Name := do
  let this ← get
  if this.curToken.cToken = .identsym then return this.curToken.string else failWith errorType

/-- An assignment to a name that is no variable is reported, and parsed on. -/
def checkAssigned (sym : Option Symbol) : ParseM Unit :=
  match sym with
  | none => report (.error 11)
  | some sym => if sym.kind ≠ .varS then report (.error 12) else return ()

def expectBecomes : ParseM Unit := do
  let this ← get
  if this.curToken.cToken = .becomessym then getToken
  else if this.curToken.cToken = .eqlsym then do
    report .recovery
    getToken
  else failWith 30

/-- `generateBecomes` reads the fields of a symbol that may be missing. -/
def storeSymbol (sym : Option Symbol) : ParseM Unit :=
  match sym with
  | none => throw (.fault .nullDeref)
  | some sym => modifyGen (·.becomes sym)

def assignParse (fuel : Nat) (fsys : Symset) : ParseM StatementNode := do
  let this ← get
  let name := this.curToken.string
  let sym := this.gen.lookup name
  modifyGen (·.use .assign name)
  checkAssigned sym
  getToken
  expectBecomes
  let exp ← expressionParse fuel fsys
  storeSymbol sym
  return .assign name exp

def callKnown (sym : Option Symbol) : ParseM Unit :=
  match sym with
  | none => failWith 11
  | some sym => if sym.kind ≠ .procS then failWith 15 else modifyGen (·.callSymbol sym)

def readKnown (sym : Option Symbol) : ParseM Unit :=
  match sym with
  | none => failWith 11
  | some sym => if sym.kind ≠ .varS then failWith 27 else modifyGen (·.readSymbol sym)

def writeKnown (sym : Option Symbol) : ParseM Unit :=
  match sym with
  | none => failWith 11
  | some sym =>
      if sym.kind = .varS ∨ sym.kind = .constS then modifyGen (·.writeSymbol sym) else failWith 27

/-- The statements that are a keyword and a name. -/
def nameStatement (errorType : Nat) (construct : Construct) (known : Option Symbol → ParseM Unit)
    (node : Name → StatementNode) : ParseM StatementNode := do
  getToken
  let name ← expectIdent errorType
  let this ← get
  modifyGen (·.use construct name)
  known (this.gen.lookup name)
  getToken
  return node name

def callParse : ParseM StatementNode := nameStatement 14 .call callKnown .call
def readParse : ParseM StatementNode := nameStatement 27 .read readKnown .read
def writeParse : ParseM StatementNode := nameStatement 28 .write writeKnown .write

/-- Parse a statement and note the code it emitted. -/
def recordStatement (body : Bool) (parse : ParseM StatementNode) : ParseM StatementNode := do
  let before ← get
  let node ← parse
  modifyGen fun g => g.record (.statement g.scope body g.currentProcedure before.gen.codeLength
    ((g.code g.currentProcedure).drop before.gen.codeLength.toNat) node)
  return node

/-- The separator of two statements; a missing semicolon is reported. -/
def separator : ParseM Unit := do
  let this ← get
  if this.curToken.cToken = .semicolonsym then getToken
  else do
    report .recovery
    report (.error 10)

/-- What follows the code of the branches of an if statement. -/
def finishIf (j2 : Int) : ParseM Unit := do
  modifyGen (·.addRegister (-1))
  modifyGen fun g => g.patch j2 g.codeLength

mutual
def statementParse : Nat → Symset → ParseM StatementNode
  | 0, _ => throw .fuel
  | fuel + 1, fsys => do
      let this ← get
      match this.curToken.cToken with
      | .identsym => assignParse fuel fsys
      | .callsym => callParse
      | .beginsym => do
          let set := uniteset (createset [.semicolonsym, .endsym]) fsys
          getToken
          let first ← recordStatement false (statementParse fuel set)
          let rest ← beginLoop fuel set
          expectToken .endsym 26
          modifyGen (·.finishBegin)
          return .begin (.cons first rest)
      | .ifsym => do
          getToken
          let cond ← conditionParse fuel (uniteset (createset [.thensym, .dosym]) fsys)
          expectToken .thensym 16
          let j1 ← get
          modifyGen (·.conditionalJump)
          let ifsts ← recordStatement false (statementParse fuel fsys)
          let j2 ← get
          modifyGen (·.jump)
          modifyGen fun g => g.patch j1.gen.codeLength g.codeLength
          let this ← get
          if this.curToken.cToken = .elsesym then do
            getToken
            let elsests ← recordStatement false (statementParse fuel fsys)
            finishIf j2.gen.codeLength
            return .ifElse cond ifsts elsests
          else do
            finishIf j2.gen.codeLength
            return .ifS cond ifsts
      | .whilesym => do
          getToken
          let c ← get
          let cond ← conditionParse fuel (uniteset (createset [.dosym]) fsys)
          expectToken .dosym 18
          let j1 ← get
          modifyGen (·.conditionalJump)
          let sts ← recordStatement false (statementParse fuel fsys)
          let j2 ← get
          modifyGen (·.jump)
          modifyGen fun g => g.patch j1.gen.codeLength g.codeLength
          modifyGen (·.patch j2.gen.codeLength c.gen.codeLength)
          modifyGen (·.addRegister (-1))
          return .while cond sts
      | .readsym => readParse
      | .writesym => writeParse
      | _ => do
          test fuel fsys phi 19
          return .empty

/-- `{ ";" statement }` -/
def beginLoop : Nat → Symset → ParseM StatementList
  | 0, _ => throw .fuel
  | fuel + 1, set => do
      let this ← get
      if this.curToken.cToken = .semicolonsym ∨ inset this.curToken.cToken statbegsys then do
        separator
        let sts ← recordStatement false (statementParse fuel set)
        let rest ← beginLoop fuel set
        return .cons sts rest
      else return .nil
end

/-- Reading `offsetArray[globalLevel]`. -/
def readOffset : ParseM Int := do
  let this ← get
  if 0 ≤ this.gen.globalLevel ∧ this.gen.globalLevel < maxLexiLevels then
    return this.gen.offsetArray this.gen.globalLevel
  else throw (.fault .outOfBounds)

/-- Linking a new declaration: behind the first one, the node goes to the `next`
of the tail pointer, which is NULL at the start of a section. -/
def linkNode (first tail : Bool) : ParseM Unit :=
  if first || tail then return () else throw (.fault .nullDeref)

/-- `=` between the name and the number of a constant. -/
def expectEql : ParseM Unit := do
  let this ← get
  if this.curToken.cToken = .eqlsym then return ()
  else if this.curToken.cToken = .becomessym then failWith 1
  else failWith 3

def constValue : ParseM Int := do
  let this ← get
  if this.curToken.cToken = .numbersym then
    if this.curToken.numeric > maxNumber then failWith 25 else return this.curToken.numeric
  else failWith 2

/-- One `ident "=" number`. -/
def constItem : ParseM ConstDeclNode := do
  getToken
  let name ← expectIdent 4
  getToken
  expectEql
  getToken
  let value ← constValue
  let addr ← readOffset
  let this ← get
  modifyGen (·.makeConst name value)
  getToken
  return { ident := name, numer := value, lexical := this.gen.globalLevel,
           paraProc := this.gen.procedureCount, addr := addr }

/-- One `ident` of a variable section. -/
def varItem : ParseM VarDeclNode := do
  getToken
  let name ← expectIdent 4
  let addr ← readOffset
  let this ← get
  modifyGen (·.makeVar name)
  getToken
  return { ident := name, lexical := this.gen.globalLevel,
           paraProc := this.gen.procedureCount, addr := addr }

/-- The items of a section, separated by commas; `tail` tells whether the tail
pointer of the section is set. -/
def sectionLoop {α : Type} (item : ParseM α) : Nat → List α → Bool → ParseM (List α)
  | 0, _, _ => throw .fuel
  | fuel + 1, nodes, tail => do
      linkNode nodes.isEmpty tail
      let node ← item
      let this ← get
      if this.curToken.cToken = .commasym then sectionLoop item fuel (nodes ++ [node]) true
      else do
        expectToken .semicolonsym 5
        return nodes ++ [node]

def constSection (fuel : Nat) (nodes : List ConstDeclNode) : ParseM (List ConstDeclNode) := do
  let this ← get
  if this.curToken.cToken = .constsym then sectionLoop constItem fuel nodes false
  else return nodes

def varSection (fuel : Nat) (nodes : List VarDeclNode) : ParseM (List VarDeclNode) := do
  let this ← get
  if this.curToken.cToken = .varsym then sectionLoop varItem fuel nodes false
  else return nodes

def ProdefList.isNil : ProdefList → Bool
  | .nil => true
  | .cons .. => false

mutual
def blockParse : Nat → Symset → ParseM BlockNode
  | 0, _ => throw .fuel
  | fuel + 1, fsys => do
      let (constDecl, varDecl, procDef) ← declarationLoop fuel fsys [] [] .nil
      let set := uniteset (createset [.semicolonsym, .endsym]) fsys
      let statement ← recordStatement true (statementParse fuel set)
      test fuel fsys phi 8
      return .mk constDecl varDecl procDef statement

/-- The `do ... while` over the declarations of a block. -/
def declarationLoop : Nat → Symset → List ConstDeclNode → List VarDeclNode → ProdefList →
    ParseM (List ConstDeclNode × List VarDeclNode × ProdefList)
  | 0, _, _, _, _ => throw .fuel
  | fuel + 1, fsys, constDecl, varDecl, procDef => do
      let constDecl ← constSection fuel constDecl
      let varDecl ← varSection fuel varDecl
      let this ← get
      let oldProcedure := this.gen.currentProcedure
      let procDef ← procedureLoop fuel fsys oldProcedure procDef false
      modifyGen fun g => { g with currentProcedure := oldProcedure }
      test fuel (uniteset statbegsys (createset [.identsym])) declbegsys 7
      let this ← get
      if inset this.curToken.cToken declbegsys then
        declarationLoop fuel fsys constDecl varDecl procDef
      else return (constDecl, varDecl, procDef)

/-- `{ "procedure" ident ";" block ";" }`; `tail` tells whether `procP` is set. -/
def procedureLoop : Nat → Symset → Int → ProdefList → Bool → ParseM ProdefList
  | 0, _, _, _, _ => throw .fuel
  | fuel + 1, fsys, oldProcedure, procDef, tail => do
      let this ← get
      if this.curToken.cToken = .procsym then do
        linkNode procDef.isNil tail
        getToken
        let name ← expectIdent 4
        modifyGen (·.makeProc name)
        let made ← get
        getToken
        expectToken .semicolonsym 6
        modifyGen (·.openBlock)
        let body ← blockParse fuel (uniteset (createset [.semicolonsym]) fsys)
        modifyGen (·.closeBlock)
        expectToken .semicolonsym 6
        test fuel (uniteset statbegsys (createset [.identsym, .procsym])) fsys 6
        modifyGen (·.reserveSpace (body.varDecl.length + 4))
        let node := ProdefList.cons name (made.gen.globalLevel + 1) made.gen.procedureCount
          oldProcedure body .nil
        procedureLoop fuel fsys oldProcedure (procDef.append node) true
      else return procDef
end

/-- The end of a program; a missing period is recovered from. -/
def expectPeriod : ParseM Unit := do
  let this ← get
  if this.curToken.cToken = .periodsym then return ()
  else if this.curToken.cToken = .nulsym then report .recovery
  else failWith 9

def programParse (fuel : Nat) : ParseM BlockNode := do
  modifyGen (·.setOffsets)
  getToken
  modifyGen fun g => { g.getFreeSet.2 with currentProcedure := g.getFreeSet.1 }
  let set := uniteset (createset [.periodsym]) (uniteset declbegsys statbegsys)
  let block ← blockParse fuel set
  expectPeriod
  modifyGen (·.reserveSpace (block.varDecl.length + 4))
  modifyGen (·.halt)
  return block

/-- The globals before a parse, and the driver's symbol table of 100 buckets. -/
def initGen : GenState :=
  { symbolTable := symTableInit 100, globalLevel := 0, offsetArray := fun _ => 0
    procedureCount := 0, currentProcedure := 0, registerPtr := 0, inUse := fun _ => false
    code := fun _ => [], allocated := 0, scope := [0], trace := [] }

def initParse (tokens : List CurrentToken) : ParseState :=
  { tokenFile := tokens, feof := false, curToken := { cToken := .unset, string := [], numeric := 0 }
    gen := initGen, reports := [] }

/-- `parse`, on a token file. -/
def parse (fuel : Nat) (tokens : List CurrentToken) : EStateM.Result Stop ParseState BlockNode :=
  programParse fuel (initParse tokens)

end Pl0
