import Pl0.AstNode
import Pl0.GenCode
import Pl0.SymbolTable
import Pl0.TokenSet

set_option autoImplicit false

namespace Pl0

structure CurrentToken where
  cToken : Token
  string : Name
  numeric : Int
  deriving DecidableEq, Repr

namespace CurrentToken

def word (cToken : Token) : CurrentToken := { cToken := cToken, string := [], numeric := 0 }

def ident (string : Name) : CurrentToken :=
  { cToken := .identsym, string := string, numeric := 0 }

def number (numeric : Int) : CurrentToken :=
  { cToken := .numbersym, string := [], numeric := numeric }

end CurrentToken

/-- The statement forms that look a name up, and the factor of an expression. -/
inductive Construct
  | assign | call | factor | read | write
  deriving DecidableEq, Repr

/-- What happened during a parse. A `scope` is the chain of procedure numbers of
the enclosing blocks, innermost first; the main block is 0. -/
inductive Event
  /-- `makeSymbol` made this symbol. -/
  | declare (scope : List Int) (symbol : Symbol)
  /-- `getSymbol` answered for a name in the program. -/
  | use (scope : List Int) (construct : Construct) (name : Name) (result : Option Symbol)
  /-- The instruction at `index` of `set` reaches the operand `symbol`. -/
  | access (scope : List Int) (set index : Int) (symbol : Symbol)
  /-- A statement was parsed, and emitted `code` at `start` of `set`. It is the
  statement part of its block when `body` is set. -/
  | statement (scope : List Int) (body : Bool) (set start : Int) (code : List Instruction)
      (node : StatementNode)

/-- The globals of `parse.c` and `gencode.c`, and the symbol table. The last three
fields are history, which no function of the source reads. -/
structure GenState where
  symbolTable : SymTable
  globalLevel : Int
  offsetArray : Int → Int
  procedureCount : Int
  currentProcedure : Int
  registerPtr : Int
  inUse : Nat → Bool
  code : CodeSets
  allocated : Nat
  scope : List Int
  trace : List Event

inductive Report
  | error (errorType : Nat)
  | recovery
  | skip (symbol : Token)
  deriving DecidableEq, Repr

/-- `feof` is set by the read that reaches the end of the token file. -/
structure ParseState where
  tokenFile : List CurrentToken
  feof : Bool
  curToken : CurrentToken
  gen : GenState
  reports : List Report

/-- How a parse ends without a result: with a return code, in undefined
behaviour, or because it used up its fuel. -/
inductive Stop
  | ret (code : Int)
  | fault (fault : Fault)
  | fuel
  deriving DecidableEq, Repr

abbrev ParseM := EStateM Stop ParseState

namespace GenState

def getFreeSet (g : GenState) : Int × GenState :=
  match (List.range maxCodeSets).find? fun i => !g.inUse i with
  | some i => (i, { g with inUse := Function.update g.inUse i true })
  | none => (-1, g)

def setOffsets (g : GenState) : GenState :=
  { g with offsetArray := fun _ => 4 }

def record (g : GenState) (event : Event) : GenState :=
  { g with trace := g.trace ++ [event] }

def lookup (g : GenState) (name : Name) : Option Symbol :=
  getSymbol g.symbolTable name g.globalLevel

def use (g : GenState) (construct : Construct) (name : Name) : GenState :=
  g.record (.use g.scope construct name (g.lookup name))

/-- Note that the next instruction reaches `symbol`. -/
def access (g : GenState) (symbol : Symbol) : GenState :=
  g.record (.access g.scope g.currentProcedure (getCodeLength g.code g.currentProcedure) symbol)

def emit (g : GenState) (generate : CodeSets → Int → CodeSets) : GenState :=
  { g with code := generate g.code g.currentProcedure }

def addRegister (g : GenState) (count : Int) : GenState :=
  { g with registerPtr := g.registerPtr + count }

/-- The node that `makeSymbol` allocates. -/
def newSymbol (g : GenState) (kind : SymbolType) (name : Name) (val addr : Int) : Symbol :=
  { kind := kind, name := name, val := val, level := g.globalLevel, addr := addr,
    id := g.allocated }

def putNew (g : GenState) (symbol : Symbol) : GenState :=
  { g.record (.declare g.scope symbol) with
    symbolTable := (putSymbol g.symbolTable symbol.name symbol).2
    allocated := g.allocated + 1 }

def makeConst (g : GenState) (name : Name) (numeric : Int) : GenState :=
  g.putNew (g.newSymbol .constS name numeric 0)

def makeVar (g : GenState) (name : Name) : GenState :=
  let symbol := g.newSymbol .varS name 0 (g.offsetArray g.globalLevel)
  let offsets := Function.update g.offsetArray g.globalLevel (g.offsetArray g.globalLevel + 1)
  { g with offsetArray := offsets }.putNew symbol

def makeProc (g : GenState) (name : Name) : GenState :=
  let symbol := g.newSymbol .procS name 0 (g.procedureCount + 1)
  let (set, g) := { g with procedureCount := g.procedureCount + 1 }.getFreeSet
  { g with currentProcedure := set }.putNew symbol

/-- Step into the block of the procedure that was made last. -/
def openBlock (g : GenState) : GenState :=
  { g with globalLevel := g.globalLevel + 1, scope := g.procedureCount :: g.scope }

def closeBlock (g : GenState) : GenState :=
  { g with globalLevel := g.globalLevel - 1, scope := g.scope.tail }

def load (g : GenState) (symbol : Symbol) : GenState :=
  ((g.access symbol).emit fun code set =>
    generateLoad code set g.registerPtr symbol g.globalLevel).addRegister 1

def literal (g : GenState) (value : Int) : GenState :=
  (g.emit fun code set => generateLiteral code set g.registerPtr value).addRegister 1

/-- The `switch` over `preop` in `termParse`. -/
def negate (g : GenState) (preop : Token) : GenState :=
  match preop with
  | .minussym =>
      g.emit fun code set => generateNegation code set (g.registerPtr - 1) (g.registerPtr - 1) 0
  | _ => g

def calculate (g : GenState) (op : Token) : GenState :=
  (g.emit fun code set => generateCalculation code set op (g.registerPtr - 2) (g.registerPtr - 2)
    (g.registerPtr - 1)).addRegister (-1)

def testOdd (g : GenState) : GenState :=
  g.emit fun code set => generateRelOp code set .oddsym (g.registerPtr - 1) (g.registerPtr - 1) 0

def compare (g : GenState) (op : Token) : GenState :=
  (g.emit fun code set => generateRelOp code set op (g.registerPtr - 2) (g.registerPtr - 2)
    (g.registerPtr - 1)).addRegister (-1)

def becomes (g : GenState) (symbol : Symbol) : GenState :=
  ((g.access symbol).emit fun code set =>
    generateBecomes code set (g.registerPtr - 1) symbol g.globalLevel).addRegister (-1)

def callSymbol (g : GenState) (symbol : Symbol) : GenState :=
  (g.access symbol).emit fun code set => generateCall code set symbol g.globalLevel

/-- `generateRead`, whose STO is its second instruction. -/
def readSymbol (g : GenState) (symbol : Symbol) : GenState :=
  (g.record (.access g.scope g.currentProcedure
    (getCodeLength g.code g.currentProcedure + 1) symbol)).emit fun code set =>
      generateRead code set g.registerPtr symbol g.globalLevel

def writeSymbol (g : GenState) (symbol : Symbol) : GenState :=
  (g.access symbol).emit fun code set => generateWrite code set g.registerPtr symbol g.globalLevel

/-- `generateReturn`, which the main procedure does without. -/
def finishBegin (g : GenState) : GenState :=
  if g.currentProcedure > 0 then g.emit generateReturn else g

def codeLength (g : GenState) : Int :=
  getCodeLength g.code g.currentProcedure

def conditionalJump (g : GenState) : GenState :=
  g.emit fun code set => generateConditionalJump code set (g.registerPtr - 1)

def jump (g : GenState) : GenState :=
  g.emit generateJump

def patch (g : GenState) (index m : Int) : GenState :=
  g.emit fun code set => changeM code set index m

def reserveSpace (g : GenState) (space : Int) : GenState :=
  g.emit fun code set => generateVariableSpace code set space

def halt (g : GenState) : GenState :=
  g.emit generateHalt

end GenState

/-- What `getToken` reads from a file that is not at its end; comments are passed over. -/
def scanToken : List CurrentToken → CurrentToken → CurrentToken × List CurrentToken
  | [], cur => (cur, [])
  | token :: rest, _ =>
      if token.cToken = .commentsym then
        if rest = [] then ({ token with cToken := .nulsym }, []) else scanToken rest token
      else (token, rest)

def getToken : ParseM Unit :=
  modify fun s =>
    if s.feof then { s with curToken := { s.curToken with cToken := .nulsym } }
    else
      let (token, rest) := scanToken s.tokenFile s.curToken
      { s with curToken := token, tokenFile := rest, feof := rest.isEmpty }

def modifyGen (f : GenState → GenState) : ParseM Unit :=
  modify fun s => { s with gen := f s.gen }

def report (r : Report) : ParseM Unit :=
  modify fun s => { s with reports := s.reports ++ [r] }

/-- Leave the parser with -1 after `throwError(errorType)`. -/
def failWith {α : Type} (errorType : Nat) : ParseM α := do
  report (.error errorType)
  throw (.ret (-1))

/-- The loop of `test`. -/
def skipLoop (s : Symset) : Nat → ParseM Unit
  | 0 => throw .fuel
  | fuel + 1 => do
      let this ← get
      if inset this.curToken.cToken s ∨ this.curToken.cToken = .nulsym then return ()
      else do
        report (.skip this.curToken.cToken)
        getToken
        skipLoop s fuel

def test (fuel : Nat) (s1 s2 : Symset) (errorType : Nat) : ParseM Unit := do
  let this ← get
  if inset this.curToken.cToken s1 then return ()
  else do
    report .recovery
    report (.error errorType)
    skipLoop (uniteset s1 s2) fuel

end Pl0
