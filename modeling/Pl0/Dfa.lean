import Pl0.Common

set_option autoImplicit false

namespace Pl0

inductive DfaQ
  | start | digit | alpha | plus | minus | mult | div | eql | less | lare | leq | geq | neq
  | lpare | rpape | comma | semi | period | colon | becomes | lcomm | comm | rcomm
  | accept | reject | final
  deriving DecidableEq, Repr

inductive MachineState
  | idle | run | halt
  deriving DecidableEq, Repr

/-- The character classes of the C locale. -/
def isSpace (c : UInt8) : Bool := c = 32 ∨ (9 ≤ c ∧ c ≤ 13)
def isCntrl (c : UInt8) : Bool := c < 32 ∨ c = 127
def isDigit (c : UInt8) : Bool := 48 ≤ c ∧ c ≤ 57
def isAlpha (c : UInt8) : Bool := (65 ≤ c ∧ c ≤ 90) ∨ (97 ≤ c ∧ c ≤ 122)
def isAlnum (c : UInt8) : Bool := isAlpha c || isDigit c

/-- An entry of the lexeme list. -/
structure LexemeEntry where
  type : Token
  buffer : Name
  printable : Bool
  deriving DecidableEq, Repr

/-- The lexeme under construction, with the raw bytes of its buffer. -/
structure CurLexeme where
  type : Token
  buffer : Nat → UInt8
  indexBuffer : Nat
  printable : Bool

structure Dfa where
  mState : MachineState
  dfaState : DfaQ
  rewind : Bool
  curLexeme : CurLexeme
  tokenTable : List LexemeEntry

/-- A file opened for reading. -/
structure File where
  text : List UInt8
  pos : Nat
  eof : Bool

def getNextChar (file : File) : Option UInt8 × File :=
  match file.text[file.pos]? with
  | some c => (some c, { file with pos := file.pos + 1 })
  | none => (none, { file with eof := true })

/-- `fseek(input, -1, SEEK_CUR)` -/
def seekBack (file : File) : File :=
  { file with pos := file.pos - 1, eof := false }

/-- The string a C function reads from the buffer. -/
def cString (buffer : Nat → UInt8) : Name :=
  ((List.range maxBufferSize).map buffer).takeWhile (· ≠ 0)

def resWord : List (Name × Token) :=
  [("null".toUTF8.data.toList, .nulsym), ("begin".toUTF8.data.toList, .beginsym),
    ("call".toUTF8.data.toList, .callsym), ("const".toUTF8.data.toList, .constsym),
    ("do".toUTF8.data.toList, .dosym), ("else".toUTF8.data.toList, .elsesym),
    ("end".toUTF8.data.toList, .endsym), ("if".toUTF8.data.toList, .ifsym),
    ("odd".toUTF8.data.toList, .oddsym), ("procedure".toUTF8.data.toList, .procsym),
    ("read".toUTF8.data.toList, .readsym), ("then".toUTF8.data.toList, .thensym),
    ("var".toUTF8.data.toList, .varsym), ("while".toUTF8.data.toList, .whilesym),
    ("write".toUTF8.data.toList, .writesym)]

def setType (dfa : Dfa) (type : Token) : Dfa :=
  { dfa with curLexeme := { dfa.curLexeme with type := type } }

def goto (dfa : Dfa) (state : DfaQ) : Dfa :=
  { dfa with dfaState := state }

def setIndex (dfa : Dfa) (index : Nat) : Dfa :=
  { dfa with curLexeme := { dfa.curLexeme with indexBuffer := index } }

def setBuffer (dfa : Dfa) (index : Nat) (c : UInt8) : Dfa :=
  { dfa with curLexeme := { dfa.curLexeme with
      buffer := Function.update dfa.curLexeme.buffer index c } }

def updateReservedWords (dfa : Dfa) : Dfa :=
  resWord.foldl (fun dfa word =>
    if word.1 = cString dfa.curLexeme.buffer then setType dfa word.2 else dfa) dfa

def resetMachine (dfa : Dfa) : Dfa :=
  { dfa with
    dfaState := .start, rewind := false, mState := .run
    curLexeme := { type := .nulsym, buffer := fun _ => 0, indexBuffer := 0, printable := false } }

def accept (dfa : Dfa) : Dfa :=
  { dfa with dfaState := .accept, mState := .halt, rewind := true }

def reject (dfa : Dfa) : Dfa :=
  { setType dfa .nulsym with dfaState := .reject, mState := .halt }

/-- The `D_START` case for a character that begins an operator. -/
def operatorStart (input : UInt8) : Option (Token × DfaQ) :=
  if input = 43 then some (.plussym, .plus)
  else if input = 45 then some (.minussym, .minus)
  else if input = 42 then some (.multsym, .mult)
  else if input = 47 then some (.slashsym, .div)
  else if input = 61 then some (.eqlsym, .eql)
  else if input = 60 then some (.lessym, .less)
  else if input = 62 then some (.gtrsym, .lare)
  else if input = 40 then some (.lparentsym, .lpare)
  else if input = 41 then some (.rparentsym, .rpape)
  else if input = 44 then some (.commasym, .comma)
  else if input = 59 then some (.semicolonsym, .semi)
  else if input = 58 then some (.becomessym, .colon)
  else if input = 46 then some (.periodsym, .period)
  else none

def transition (dfa : Dfa) (input : UInt8) : Dfa :=
  match dfa.dfaState with
  | .start =>
      if isSpace input || isCntrl input then
        { accept (setType dfa .nulsym) with rewind := false }
      else if isDigit input then setType (goto dfa .digit) .numbersym
      else if isAlpha input then setType (goto dfa .alpha) .identsym
      else match operatorStart input with
        | some (type, state) => goto (setType dfa type) state
        | none => reject dfa
  | .digit =>
      if isDigit input then
        if dfa.curLexeme.indexBuffer > maxNumberLength then reject dfa else goto dfa .digit
      else if isAlpha input then reject dfa
      else accept dfa
  | .alpha =>
      if isAlnum input then
        if dfa.curLexeme.indexBuffer > maxIdentLength then reject dfa else goto dfa .alpha
      else accept dfa
  | .div => if input = 42 then goto dfa .lcomm else accept dfa
  | .lcomm => if input = 42 then goto dfa .comm else setIndex (goto dfa .lcomm) 0
  | .comm =>
      if input = 42 then goto (setIndex dfa 0) .comm
      else if input = 47 then goto (setIndex dfa 0) .rcomm
      else goto (setIndex dfa 0) .lcomm
  | .rcomm => accept (setBuffer (setType dfa .commentsym) 0 0)
  | .less =>
      if input = 61 then goto dfa .leq
      else if input = 62 then goto dfa .neq
      else accept dfa
  | .lare => if input = 61 then goto dfa .geq else accept dfa
  | .leq => accept (setType dfa .leqsym)
  | .geq => accept (setType dfa .geqsym)
  | .neq => accept (setType dfa .neqsym)
  | .colon => if input = 61 then goto dfa .becomes else reject dfa
  | .becomes => accept (setType dfa .becomessym)
  | .plus | .minus | .mult | .eql | .lpare | .rpape | .comma | .semi | .period | .final =>
      accept dfa
  | .accept | .reject => dfa

/-- The bytes that `getNextLexeme` stores before it asks for the transition. -/
def pushChar (dfa : Dfa) (c : UInt8) : Except Fault Dfa :=
  let index := dfa.curLexeme.indexBuffer
  if index + 1 < maxBufferSize then
    .ok (setIndex (setBuffer (setBuffer dfa index c) (index + 1) 0) (index + 1))
  else .error .outOfBounds

def popChar (dfa : Dfa) : Dfa :=
  let index := dfa.curLexeme.indexBuffer - 1
  setBuffer (setIndex dfa index) index 0

/-- The loop of `getNextLexeme`; `none` when it still runs after `fuel` turns. -/
def lexemeLoop : Nat → Dfa → File → Except Fault (Option (Dfa × File))
  | 0, _, _ => .ok none
  | fuel + 1, dfa, file =>
      if dfa.mState = .run then
        match getNextChar file with
        | (none, file) => .ok (some (dfa, file))
        | (some inChar, file) => do
            let dfa ← pushChar dfa inChar
            let dfa := transition dfa inChar
            if dfa.rewind then lexemeLoop fuel (popChar dfa) (seekBack file)
            else lexemeLoop fuel dfa file
      else .ok (some (dfa, file))

def putLexeme (dfa : Dfa) : Dfa :=
  { dfa with tokenTable := dfa.tokenTable ++
      [⟨dfa.curLexeme.type, cString dfa.curLexeme.buffer, dfa.curLexeme.printable⟩] }

/-- What `getNextLexeme` does with the lexeme its loop accepted. -/
def finishLexeme (dfa : Dfa) : Dfa :=
  let dfa := if dfa.curLexeme.type = .identsym then updateReservedWords dfa else dfa
  let dfa :=
    if dfa.curLexeme.type = .identsym ∨ dfa.curLexeme.type = .numbersym then
      { dfa with curLexeme := { dfa.curLexeme with printable := true } }
    else dfa
  if dfa.curLexeme.type ≠ .nulsym then putLexeme dfa else dfa

def getNextLexeme (fuel : Nat) (dfa : Dfa) (input : File) :
    Except Fault (Option (Bool × Dfa × File)) := do
  let scanned ← lexemeLoop fuel (resetMachine dfa) input
  match scanned with
  | none => return none
  | some (dfa, input) =>
      if dfa.dfaState = .accept then return some (true, finishLexeme dfa, input)
      else return some (false, dfa, input)

def dfaInit : Dfa :=
  { mState := .idle, dfaState := .start, rewind := false
    curLexeme := { type := .nulsym, buffer := fun _ => 0, indexBuffer := 0, printable := false }
    tokenTable := [] }

/-- The loop of `scanner_run`; `none` when a loop still runs after `fuel` turns. -/
def scannerLoop : Nat → Dfa → File → Except Fault (Option Dfa)
  | 0, dfa, fin => .ok (if fin.eof then some dfa else none)
  | fuel + 1, dfa, fin =>
      if fin.eof then .ok (some dfa)
      else do
        let found ← getNextLexeme (fuel + 1) dfa fin
        match found with
        | none => return none
        | some (_, dfa, fin) => scannerLoop fuel dfa fin

/-- The lexeme list `scanner_run` builds for a file with this text. -/
def scannerRun (fuel : Nat) (text : List UInt8) : Except Fault (Option (List LexemeEntry)) := do
  let dfa ← scannerLoop fuel dfaInit { text := text, pos := 0, eof := false }
  return dfa.map Dfa.tokenTable

end Pl0
