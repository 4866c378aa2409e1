import Pl0.Common

set_option autoImplicit false

namespace Pl0

inductive VmStatus
  | uninit | idle | running | halting | error
  deriving DecidableEq, Repr

/-- `code` holds the loaded instructions, so its length is `numInstructions`; the
cells behind them are never fetched. `input` is what `scanf` has yet to read and
`output` what was printed so far. -/
structure VirtualMachine where
  sp : Int
  bp : Int
  pc : Int
  prePc : Int
  ir : Instruction
  r : Int → Int
  stack : Int → Int
  code : List Instruction
  frameBreak : Int → Int
  frameLevel : Int
  status : VmStatus
  input : List Int
  output : List Int

/-- An array access; outside the array the C code is undefined. -/
def checkIndex (index size : Int) : Except Fault Unit :=
  if 0 ≤ index ∧ index < size then .ok () else .error .outOfBounds

def readReg (vm : VirtualMachine) (i : Int) : Except Fault Int := do
  checkIndex i commonRegisterNumber
  return vm.r i

def writeReg (vm : VirtualMachine) (i value : Int) : Except Fault VirtualMachine := do
  checkIndex i commonRegisterNumber
  return { vm with r := Function.update vm.r i value }

def readStack (vm : VirtualMachine) (i : Int) : Except Fault Int := do
  checkIndex i maxStackHeight
  return vm.stack i

def writeStack (vm : VirtualMachine) (i value : Int) : Except Fault VirtualMachine := do
  checkIndex i maxStackHeight
  return { vm with stack := Function.update vm.stack i value }

def writeFrameBreak (vm : VirtualMachine) (i value : Int) : Except Fault VirtualMachine := do
  checkIndex i maxLexiLevels
  return { vm with frameBreak := Function.update vm.frameBreak i value }

/-- The result of an `int` operation; signed overflow is undefined. -/
def toInt (value : Int) : Except Fault Int :=
  if InInt value then .ok value else .error .overflow

def baseLoop (vm : VirtualMachine) : Nat → Int → Except Fault Int
  | 0, base => .ok base
  | level + 1, base => do
      let next ← readStack vm (base + 1)
      baseLoop vm level next

/-- `level` counts down to zero, so a negative level follows no link. -/
def base (vm : VirtualMachine) (l b : Int) : Except Fault Int :=
  baseLoop vm l.toNat b

def ofBool (b : Bool) : Int := if b then 1 else 0

/-- The value of `r[j] op r[k]` for the three-register instructions. -/
def calculate (op : Opcode) (x y : Int) : Except Fault Int :=
  match op with
  | .add => toInt (x + y)
  | .sub => toInt (x - y)
  | .mul => toInt (x * y)
  | .div => if y = 0 then .error .divisionByZero else toInt (x.tdiv y)
  | .mod =>
      if y = 0 then .error .divisionByZero
      else do
        let _ ← toInt (x.tdiv y)
        return x.tmod y
  | .eql => .ok (ofBool (x = y))
  | .neq => .ok (ofBool (x ≠ y))
  | .lss => .ok (ofBool (x < y))
  | .leq => .ok (ofBool (x ≤ y))
  | .gtr => .ok (ofBool (x > y))
  | .geq => .ok (ofBool (x ≥ y))
  | _ => .ok 0

def prefetch (vm : VirtualMachine) : Except Fault (Bool × VirtualMachine) :=
  if vm.pc ≥ maxCodeLength then .ok (false, vm)
  else if vm.pc ≥ vm.code.length then .ok (false, vm)
  else if vm.pc < 0 then .error .outOfBounds
  else
    let ir := vm.code.getD vm.pc.toNat ⟨0, 0, 0, 0⟩
    .ok (true, { vm with ir := ir, pc := vm.pc + 1, prePc := vm.pc })

/-- The `bp` that RTN goes back to; the base level has no caller. -/
def callerBp (vm : VirtualMachine) (sp : Int) : Except Fault Int :=
  if vm.bp = 1 then .ok vm.bp else readStack vm (sp + 3)

def executeRtn (vm : VirtualMachine) : Except Fault VirtualMachine := do
  let sp := vm.bp - 1
  let bp ← callerBp vm sp
  let pc ← readStack vm (sp + 4)
  let cleared ← writeFrameBreak vm vm.frameLevel 0
  return { cleared with
    sp := sp, bp := bp, pc := pc, frameLevel := vm.frameLevel - 1
    status := if vm.bp = 1 then .idle else vm.status }

def executeCal (vm : VirtualMachine) (j k : Int) : Except Fault VirtualMachine := do
  let saved ← writeStack vm (vm.sp + 1) 0
  let staticLink ← base saved j vm.bp
  let saved ← writeStack saved (vm.sp + 2) staticLink
  let saved ← writeStack saved (vm.sp + 3) vm.bp
  let saved ← writeStack saved (vm.sp + 4) vm.pc
  let saved ← writeFrameBreak saved vm.frameLevel vm.sp
  return { saved with bp := vm.sp + 1, pc := k, frameLevel := vm.frameLevel + 1 }

def executeSio (vm : VirtualMachine) (i k : Int) : Except Fault VirtualMachine :=
  match k with
  | 1 => do
      let value ← readReg vm i
      return { vm with output := vm.output ++ [value] }
  | 2 =>
      match vm.input with
      | [] => do
          checkIndex i commonRegisterNumber
          return vm
      | value :: rest => do
          let vm ← writeReg vm i value
          return { vm with input := rest }
  | 3 => .ok { vm with status := .idle }
  | _ => .ok vm

def instructionExecution (vm : VirtualMachine) : Except Fault VirtualMachine :=
  let i := vm.ir.r
  let j := vm.ir.l
  let k := vm.ir.m
  match Opcode.ofInt? vm.ir.op with
  | some .lit => writeReg vm i k
  | some .rtn => executeRtn vm
  | some .lod => do
      let b ← base vm j vm.bp
      let value ← readStack vm (b + k)
      writeReg vm i value
  | some .sto => do
      let b ← base vm j vm.bp
      let value ← readReg vm i
      writeStack vm (b + k) value
  | some .cal => executeCal vm j k
  | some .inc => do
      let sp ← toInt (vm.sp + k)
      return { vm with sp := sp }
  | some .jmp => .ok { vm with pc := k }
  | some .jpc => do
      let value ← readReg vm i
      return if value = 0 then { vm with pc := k } else vm
  | some .sio => executeSio vm i k
  | some .neg => do
      let value ← readReg vm j
      let negated ← toInt (-value)
      writeReg vm i negated
  | some .odd => do
      let value ← readReg vm i
      writeReg vm i (value.tmod 2)
  | some .sio2 | some .sio3 | none => .ok vm
  | some op => do
      let x ← readReg vm j
      let y ← readReg vm k
      let value ← calculate op x y
      writeReg vm i value

/-- One turn of the loop of `run_vm`. -/
def step (vm : VirtualMachine) : Except Fault VirtualMachine := do
  let (fetched, vm) ← prefetch vm
  if fetched then instructionExecution vm else return { vm with status := .error }

/-- `run_vm` from a loaded machine; `none` while the machine still runs after
`fuel` turns. -/
def runVm : Nat → VirtualMachine → Except Fault (Option VirtualMachine)
  | 0, vm => .ok (if vm.status = .running then none else some vm)
  | fuel + 1, vm =>
      if vm.status = .running then do
        let vm ← step vm
        runVm fuel vm
      else .ok (some vm)

def initVm : VirtualMachine :=
  { sp := 0, bp := 1, pc := 0, prePc := 0, ir := ⟨0, 0, 0, 0⟩, r := fun _ => 0,
    stack := fun _ => 0, code := [], frameBreak := fun _ => 0, frameLevel := 0,
    status := .idle, input := [], output := [] }

/-- The machine as `run_vm` enters its loop, with the code loaded. -/
def startVm (code : List Instruction) (input : List Int) : VirtualMachine :=
  { initVm with code := code, input := input, status := .running }

end Pl0
