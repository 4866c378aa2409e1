import Pl0.Common

set_option autoImplicit false

namespace Pl0

/-- The code sets of `gencode.c`: `generatedCode` at 0, 1, ... and `finalCode` at
-1. A set is the list of its `instructionCount` instructions; like `appendCode`,
it knows no limit. The lists are the rows of the array as long as none of them is longer than
a row. -/
abbrev CodeSets := Int → List Instruction

abbrev FINAL_CODE : Int := -1

def getCodeLength (code : CodeSets) (set : Int) : Int :=
  (code set).length

/-- The row of the array in which `generatedCode[set][index]` lies: nothing checks the index,
and behind the cells of one row come those of the next. -/
def rowOf (set : Int) (index : Nat) : Int :=
  set + index / maxCodeLength

theorem rowOf_eq_iff (set : Int) (index : Nat) :
    rowOf set index = set ↔ (index : Int) < maxCodeLength := by
  unfold rowOf maxCodeLength
  omega

def appendCode (code : CodeSets) (set op r l m : Int) : CodeSets :=
  Function.update code set (code set ++ [⟨op, r, l, m⟩])

def insertCode (code : CodeSets) (set op r l m : Int) (index : Int) : CodeSets :=
  if index < 0 ∨ index > getCodeLength code set - 1 then
    if getCodeLength code set = 0 then appendCode code set op r l m else code
  else
    Function.update code set
      ((code set).take index.toNat ++ ⟨op, r, l, m⟩ :: (code set).drop index.toNat)

def prependCode (code : CodeSets) (set op r l m : Int) : CodeSets :=
  insertCode code set op r l m 0

def changeM (code : CodeSets) (set index m : Int) : CodeSets :=
  if index < 0 ∨ index > getCodeLength code set - 1 then code
  else Function.update code set ((code set).modify index.toNat fun ir => { ir with m := m })

theorem modify_length_append {α : Type} (before after : List α) (a : α) (f : α → α) :
    (before ++ a :: after).modify before.length f = before ++ f a :: after := by
  induction before with
  | nil => rfl
  | cons b before ih =>
      rw [List.cons_append, List.length_cons, List.modify_succ_cons, ih]
      rfl

def generateLiteral (code : CodeSets) (set r value : Int) : CodeSets :=
  appendCode code set Opcode.lit.toInt r 0 value

def generateReturn (code : CodeSets) (set : Int) : CodeSets :=
  appendCode code set Opcode.rtn.toInt 0 0 0

def generateLoad (code : CodeSets) (set r : Int) (ident : Symbol) (currentLevel : Int) : CodeSets :=
  appendCode code set Opcode.lod.toInt r (currentLevel - ident.level) ident.addr

def generateBecomes (code : CodeSets) (set r : Int) (ident : Symbol) (currentLevel : Int) :
    CodeSets :=
  appendCode code set Opcode.sto.toInt r (currentLevel - ident.level) ident.addr

def generateCall (code : CodeSets) (set : Int) (ident : Symbol) (currentLevel : Int) : CodeSets :=
  appendCode code set Opcode.cal.toInt 0 (currentLevel - ident.level) ident.addr

def generateVariableSpace (code : CodeSets) (set space : Int) : CodeSets :=
  prependCode code set Opcode.inc.toInt 0 0 space

def generateJump (code : CodeSets) (set : Int) : CodeSets :=
  appendCode code set Opcode.jmp.toInt 0 0 0

def generateConditionalJump (code : CodeSets) (set r : Int) : CodeSets :=
  appendCode code set Opcode.jpc.toInt r 0 0

def generateRead (code : CodeSets) (set r : Int) (ident : Symbol) (currentLevel : Int) : CodeSets :=
  appendCode (appendCode code set Opcode.sio.toInt r 0 2) set Opcode.sto.toInt r
    (currentLevel - ident.level) ident.addr

def generateWrite (code : CodeSets) (set r : Int) (ident : Symbol)
    (currentLevel : Int) : CodeSets :=
  let loaded :=
    if ident.kind = .varS then
      appendCode code set Opcode.lod.toInt r (currentLevel - ident.level) ident.addr
    else appendCode code set Opcode.lod.toInt r 0 ident.val
  appendCode loaded set Opcode.sio.toInt r 0 1

def generateHalt (code : CodeSets) (set : Int) : CodeSets :=
  appendCode code set Opcode.sio.toInt 0 0 3

/-- The opcode of an arithmetic operator; 0 for any other token. -/
def calculationOp : Token → Int
  | .plussym => Opcode.add.toInt
  | .minussym => Opcode.sub.toInt
  | .multsym => Opcode.mul.toInt
  | .slashsym => Opcode.div.toInt
  | _ => 0

def generateCalculation (code : CodeSets) (set : Int) (token : Token) (i j k : Int) : CodeSets :=
  appendCode code set (calculationOp token) i j k

/-- The opcode of a relational operator; 0 for any other token. -/
def relOpOp : Token → Int
  | .oddsym => Opcode.odd.toInt
  | .eqlsym => Opcode.eql.toInt
  | .neqsym => Opcode.neq.toInt
  | .lessym => Opcode.lss.toInt
  | .leqsym => Opcode.leq.toInt
  | .gtrsym => Opcode.gtr.toInt
  | .geqsym => Opcode.geq.toInt
  | _ => 0

def generateRelOp (code : CodeSets) (set : Int) (token : Token) (i j k : Int) : CodeSets :=
  appendCode code set (relOpOp token) i j k

def generateNegation (code : CodeSets) (set i j k : Int) : CodeSets :=
  appendCode code set Opcode.neg.toInt i j k

def generateProcedureJumps (code : CodeSets) (set : Int) (space : Nat) : CodeSets :=
  (List.range space).foldl (fun code _ => generateJump code set) code

/-- The body of the inner loop of `prepareMcode`: move one instruction of set `i`
into the final code. -/
def moveInstruction (i : Int) (code : CodeSets) (inst : Instruction) : CodeSets :=
  let code := appendCode code FINAL_CODE inst.op inst.r inst.l inst.m
  if inst.op = Opcode.jmp.toInt ∨ inst.op = Opcode.jpc.toInt then
    let jump := (code FINAL_CODE).getD i.toNat ⟨0, 0, 0, 0⟩
    changeM code FINAL_CODE (getCodeLength code FINAL_CODE - 1) (inst.m + jump.m + 1)
  else code

/-- The body of the outer loop of `prepareMcode`. -/
def moveSet (code : CodeSets) (i : Int) : CodeSets :=
  (code i).foldl (moveInstruction i)
    (changeM code FINAL_CODE i (getCodeLength code FINAL_CODE))

/-- The number of sets before the first empty one; 0 when every set is used. -/
def usedSets (code : CodeSets) : Nat :=
  ((List.range maxCodeSets).find? fun (i : Nat) => getCodeLength code i = 0).getD 0

def prepareMcode (code : CodeSets) : CodeSets :=
  let sets := usedSets code
  if sets = 0 then code
  else
    (List.range sets).reverse.foldl (fun code (i : Nat) => moveSet code i)
      (generateProcedureJumps code FINAL_CODE sets)

end Pl0
