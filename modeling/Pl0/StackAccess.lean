import Pl0.Registers
import Pl0.VirtualMachineStep

set_option autoImplicit false

namespace Pl0

/-- The computation makes no access out of range. -/
def InRange {α : Type} (x : Except Fault α) : Prop := x ≠ .error .outOfBounds

namespace InRange

variable {α β : Type}

theorem ok (a : α) : InRange (.ok a : Except Fault α) := by
  intro fault
  cases fault

theorem of_ok {x : Except Fault α} {a : α} (returned : x = .ok a) : InRange x := by
  rw [returned]
  exact .ok a

theorem bind {x : Except Fault α} {f : α → Except Fault β} (first : InRange x)
    (next : ∀ a, x = .ok a → InRange (f a)) : InRange (x >>= f) := by
  cases x with
  | error fault =>
      intro same
      apply first
      cases same
      rfl
  | ok a => exact next a rfl

theorem pure (a : α) : InRange (Pure.pure a : Except Fault α) := .ok a

end InRange

section Accesses

variable {vm : VirtualMachine} {i : Int}

theorem inRange_readReg (inside : 0 ≤ i ∧ i < commonRegisterNumber) : InRange (readReg vm i) :=
  .of_ok (readReg_eq_ok.mpr ⟨inside, rfl⟩)

theorem inRange_writeReg (value : Int) (inside : 0 ≤ i ∧ i < commonRegisterNumber) :
    InRange (writeReg vm i value) :=
  .of_ok (writeReg_eq_ok.mpr ⟨inside, rfl⟩)

theorem inRange_readStack (inside : 0 ≤ i ∧ i < maxStackHeight) : InRange (readStack vm i) :=
  .of_ok (readStack_eq_ok.mpr ⟨inside, rfl⟩)

theorem inRange_writeStack (value : Int) (inside : 0 ≤ i ∧ i < maxStackHeight) :
    InRange (writeStack vm i value) :=
  .of_ok (writeStack_eq_ok.mpr ⟨inside, rfl⟩)

theorem inRange_writeFrameBreak (value : Int) (inside : 0 ≤ i ∧ i < maxLexiLevels) :
    InRange (writeFrameBreak vm i value) :=
  .of_ok (writeFrameBreak_eq_ok.mpr ⟨inside, rfl⟩)

theorem inRange_toInt (value : Int) : InRange (toInt value) := by
  unfold toInt
  split
  · exact .ok _
  · intro fault
    cases fault

theorem inRange_calculate (op : Opcode) (x y : Int) : InRange (calculate op x y) := by
  have divided : InRange (.error .divisionByZero : Except Fault Int) := by
    intro fault
    cases fault
  unfold calculate
  split
  · exact inRange_toInt _
  · exact inRange_toInt _
  · exact inRange_toInt _
  · split
    · exact divided
    · exact inRange_toInt _
  · split
    · exact divided
    · exact (inRange_toInt _).bind fun _ _ => .pure _
  all_goals exact .ok _

end Accesses

/-- What an instruction asks of the machine for its accesses to be in range. -/
structure Accessible (vm : VirtualMachine) (ir : Instruction) : Prop where
  registers : ∀ i ∈ registerOperands ir, 0 ≤ i ∧ i < commonRegisterNumber
  operand : Opcode.ofInt? ir.op = some .lod ∨ Opcode.ofInt? ir.op = some .sto →
    ∃ target, base vm ir.l vm.bp = .ok target ∧ 0 ≤ target + ir.m ∧ target + ir.m < maxStackHeight
  calls : Opcode.ofInt? ir.op = some .cal → 0 ≤ vm.sp + 1 ∧ vm.sp + 4 < maxStackHeight ∧
    (0 ≤ vm.frameLevel ∧ vm.frameLevel < maxLexiLevels) ∧ ∃ target,
      base { vm with stack := Function.update vm.stack (vm.sp + 1) 0 } ir.l vm.bp = .ok target
  returns : Opcode.ofInt? ir.op = some .rtn → 0 ≤ vm.bp + 2 ∧ vm.bp + 3 < maxStackHeight ∧
    0 ≤ vm.frameLevel ∧ vm.frameLevel < maxLexiLevels

section Execution

variable {vm : VirtualMachine} {ir : Instruction}

theorem Accessible.executeCal (accessible : Accessible vm ir)
    (op : Opcode.ofInt? ir.op = some .cal) : InRange (executeCal (vm.fetched ir) ir.l ir.m) := by
  obtain ⟨low, high, level, target, resolved⟩ := accessible.calls op
  have unfetched := base_congr { vm with stack := Function.update vm.stack (vm.sp + 1) 0 }
    { vm.fetched ir with stack := Function.update vm.stack (vm.sp + 1) 0 } rfl ir.l vm.bp
  unfold Pl0.executeCal
  refine (inRange_writeStack _ ⟨low, by show vm.sp + 1 < _; omega⟩).bind fun saved written => ?_
  obtain ⟨-, rfl⟩ := writeStack_eq_ok.mp written
  refine (InRange.of_ok (unfetched.trans resolved)).bind fun link _ => ?_
  refine (inRange_writeStack _ (by show 0 ≤ vm.sp + 2 ∧ vm.sp + 2 < _; omega)).bind
    fun saved written => ?_
  obtain ⟨-, rfl⟩ := writeStack_eq_ok.mp written
  refine (inRange_writeStack _ (by show 0 ≤ vm.sp + 3 ∧ vm.sp + 3 < _; omega)).bind
    fun saved written => ?_
  obtain ⟨-, rfl⟩ := writeStack_eq_ok.mp written
  refine (inRange_writeStack _ (by show 0 ≤ vm.sp + 4 ∧ vm.sp + 4 < _; omega)).bind
    fun saved written => ?_
  obtain ⟨-, rfl⟩ := writeStack_eq_ok.mp written
  exact (inRange_writeFrameBreak _ level).bind fun _ _ => .pure _

theorem Accessible.executeRtn (accessible : Accessible vm ir)
    (op : Opcode.ofInt? ir.op = some .rtn) : InRange (executeRtn (vm.fetched ir)) := by
  obtain ⟨low, high, level⟩ := accessible.returns op
  have caller : InRange (callerBp (vm.fetched ir) (vm.bp - 1)) := by
    unfold callerBp
    split
    · exact .ok _
    · exact inRange_readStack (by omega)
  unfold Pl0.executeRtn
  refine caller.bind fun bp _ => ?_
  refine (inRange_readStack (by show 0 ≤ vm.bp - 1 + 4 ∧ vm.bp - 1 + 4 < _; omega)).bind
    fun pc _ => ?_
  exact (inRange_writeFrameBreak _ level).bind fun _ _ => .pure _

theorem Accessible.executeSio (inside : 0 ≤ ir.r ∧ ir.r < commonRegisterNumber) :
    InRange (executeSio (vm.fetched ir) ir.r ir.m) := by
  unfold Pl0.executeSio
  split
  · exact (inRange_readReg inside).bind fun _ _ => .pure _
  · split
    · exact (InRange.of_ok (a := ()) (checkIndex_eq_ok.mpr inside)).bind fun _ _ => .pure _
    · exact (inRange_writeReg _ inside).bind fun _ _ => .pure _
  · exact .ok _
  · exact .ok _

/-- An instruction that can make its accesses makes none out of range. -/
theorem Accessible.executes (accessible : Accessible vm ir) :
    InRange (instructionExecution (vm.fetched ir)) := by
  have register := accessible.registers
  unfold instructionExecution
  change InRange (match Opcode.ofInt? ir.op with | _ => _)
  cases decoded : Opcode.ofInt? ir.op with
  | none =>
      simp only [VirtualMachine.fetched, decoded]
      exact .ok _
  | some op =>
      unfold registerOperands at register
      rw [decoded] at register
      cases op
      case lit =>
        simp only [VirtualMachine.fetched, decoded]
        exact inRange_writeReg _ (register ir.r (by simp))
      case rtn =>
        simp only [VirtualMachine.fetched, decoded]
        exact accessible.executeRtn decoded
      case lod =>
        obtain ⟨target, resolved, low, high⟩ := accessible.operand (.inl decoded)
        have found := (base_fetched vm ir ir.l vm.bp).trans resolved
        simp only [VirtualMachine.fetched, decoded]
        refine (InRange.of_ok found).bind fun b same => ?_
        obtain rfl := Except.ok.inj (found.symm.trans same)
        exact (inRange_readStack ⟨low, high⟩).bind fun _ _ =>
          inRange_writeReg _ (register ir.r (by simp))
      case sto =>
        obtain ⟨target, resolved, low, high⟩ := accessible.operand (.inr decoded)
        have found := (base_fetched vm ir ir.l vm.bp).trans resolved
        simp only [VirtualMachine.fetched, decoded]
        refine (InRange.of_ok found).bind fun b same => ?_
        obtain rfl := Except.ok.inj (found.symm.trans same)
        exact (inRange_readReg (register ir.r (by simp))).bind fun _ _ =>
          inRange_writeStack _ ⟨low, high⟩
      case cal =>
        simp only [VirtualMachine.fetched, decoded]
        exact accessible.executeCal decoded
      case inc =>
        simp only [VirtualMachine.fetched, decoded]
        exact (inRange_toInt _).bind fun _ _ => .pure _
      case jmp =>
        simp only [VirtualMachine.fetched, decoded]
        exact .ok _
      case jpc =>
        simp only [VirtualMachine.fetched, decoded]
        exact (inRange_readReg (register ir.r (by simp))).bind fun _ _ => .pure _
      case sio =>
        simp only [VirtualMachine.fetched, decoded]
        exact Accessible.executeSio (register ir.r (by simp))
      case sio2 | sio3 =>
        simp only [VirtualMachine.fetched, decoded]
        exact .ok _
      case neg =>
        simp only [VirtualMachine.fetched, decoded]
        exact (inRange_readReg (register ir.l (by simp))).bind fun _ _ =>
          (inRange_toInt _).bind fun _ _ => inRange_writeReg _ (register ir.r (by simp))
      case odd =>
        simp only [VirtualMachine.fetched, decoded]
        exact (inRange_readReg (register ir.r (by simp))).bind fun _ _ =>
          inRange_writeReg _ (register ir.r (by simp))
      all_goals
        simp only [VirtualMachine.fetched, decoded]
        exact (inRange_readReg (register ir.l (by simp))).bind fun _ _ =>
          (inRange_readReg (register ir.m (by simp))).bind fun _ _ =>
            (inRange_calculate _ _ _).bind fun _ _ => inRange_writeReg _ (register ir.r (by simp))

end Execution

end Pl0
