import Mathlib.Logic.Function.Basic

set_option autoImplicit false

namespace Pl0

abbrev maxStackHeight : Int := 2000
abbrev maxCodeLength : Int := 500
abbrev maxCodeSets : Nat := 100
abbrev maxLexiLevels : Int := 5
abbrev commonRegisterNumber : Int := 16
abbrev maxIdentLength : Nat := 11
abbrev maxNumberLength : Nat := 6
abbrev maxBufferSize : Nat := maxIdentLength + 2
abbrev maxNumber : Int := 90000

/-- The bytes of a C string, without its terminator. -/
abbrev Name := List UInt8

/-- The token codes of the scanner and the parser. `unset` is 0, the value of a
node straight from `calloc`; no enumerator of the source has it. -/
inductive Token
  | unset
  | nulsym | identsym | numbersym | plussym | minussym | multsym | slashsym
  | oddsym | eqlsym | neqsym | lessym | leqsym | gtrsym | geqsym
  | lparentsym | rparentsym | commasym | semicolonsym | periodsym | becomessym
  | beginsym | endsym | ifsym | thensym | whilesym | dosym | callsym
  | constsym | varsym | procsym | writesym | readsym | elsesym | commentsym
  deriving DecidableEq, Repr

/-- The enumerator's value; the token sets are sorted by it. -/
def Token.toNat : Token → Nat
  | .unset => 0
  | .nulsym => 1 | .identsym => 2 | .numbersym => 3 | .plussym => 4 | .minussym => 5
  | .multsym => 6 | .slashsym => 7 | .oddsym => 8 | .eqlsym => 9 | .neqsym => 10
  | .lessym => 11 | .leqsym => 12 | .gtrsym => 13 | .geqsym => 14 | .lparentsym => 15
  | .rparentsym => 16 | .commasym => 17 | .semicolonsym => 18 | .periodsym => 19
  | .becomessym => 20 | .beginsym => 21 | .endsym => 22 | .ifsym => 23 | .thensym => 24
  | .whilesym => 25 | .dosym => 26 | .callsym => 27 | .constsym => 28 | .varsym => 29
  | .procsym => 30 | .writesym => 31 | .readsym => 32 | .elsesym => 33 | .commentsym => 34

theorem Token.toNat_injective : Function.Injective Token.toNat := by
  intro a b same
  cases a <;> cases b <;> first | rfl | simp [Token.toNat] at same

inductive SymbolType
  | constS | varS | procS
  deriving DecidableEq, Repr

/-- `id` is the address of the `calloc`ed node, kept as the serial number of its
allocation: two symbols are one object exactly when their ids agree. -/
structure Symbol where
  kind : SymbolType
  name : Name
  val : Int
  level : Int
  addr : Int
  id : Nat
  deriving DecidableEq, Repr

structure Instruction where
  op : Int
  r : Int
  l : Int
  m : Int
  deriving DecidableEq, Repr

inductive Opcode
  | lit | rtn | lod | sto | cal | inc | jmp | jpc | sio | sio2 | sio3
  | neg | add | sub | mul | div | odd | mod | eql | neq | lss | leq | gtr | geq
  deriving DecidableEq, Repr

def Opcode.toInt : Opcode → Int
  | .lit => 1 | .rtn => 2 | .lod => 3 | .sto => 4 | .cal => 5 | .inc => 6 | .jmp => 7
  | .jpc => 8 | .sio => 9 | .sio2 => 10 | .sio3 => 11 | .neg => 12 | .add => 13 | .sub => 14
  | .mul => 15 | .div => 16 | .odd => 17 | .mod => 18 | .eql => 19 | .neq => 20 | .lss => 21
  | .leq => 22 | .gtr => 23 | .geq => 24

def Opcode.ofInt? : Int → Option Opcode
  | 1 => some .lit | 2 => some .rtn | 3 => some .lod | 4 => some .sto | 5 => some .cal
  | 6 => some .inc | 7 => some .jmp | 8 => some .jpc | 9 => some .sio | 10 => some .sio2
  | 11 => some .sio3 | 12 => some .neg | 13 => some .add | 14 => some .sub | 15 => some .mul
  | 16 => some .div | 17 => some .odd | 18 => some .mod | 19 => some .eql | 20 => some .neq
  | 21 => some .lss | 22 => some .leq | 23 => some .gtr | 24 => some .geq
  | _ => none

@[simp] theorem Opcode.ofInt?_toInt (op : Opcode) : Opcode.ofInt? op.toInt = some op := by
  cases op <;> rfl

@[simp] theorem Opcode.toInt_inj {a b : Opcode} : a.toInt = b.toInt ↔ a = b := by
  constructor
  · intro same
    have decoded := congrArg Opcode.ofInt? same
    simpa using decoded
  · rintro rfl
    rfl

theorem Opcode.ofInt?_eq_some {value : Int} {op : Opcode}
    (decoded : Opcode.ofInt? value = some op) :
    value = op.toInt := by
  unfold Opcode.ofInt? at decoded
  split at decoded <;> cases decoded <;> rfl

/-- What undefined behaviour a run of the C code met. -/
inductive Fault
  | nullDeref
  | outOfBounds
  | divisionByZero
  | overflow
  deriving DecidableEq, Repr

def intMin : Int := -2147483648
def intMax : Int := 2147483647

/-- The values of the C type `int`. -/
def InInt (value : Int) : Prop := intMin ≤ value ∧ value ≤ intMax

instance (value : Int) : Decidable (InInt value) :=
  inferInstanceAs (Decidable (intMin ≤ value ∧ value ≤ intMax))

end Pl0
