import Pl0.StateExcept
import Pl0.VirtualMachine

set_option autoImplicit false

namespace Pl0

theorem checkIndex_eq_ok {index size : Int} {u : Unit} :
    checkIndex index size = .ok u ↔ 0 ≤ index ∧ index < size := by
  unfold checkIndex
  split <;> simp_all

theorem readReg_eq_ok {vm : VirtualMachine} {i value : Int} :
    readReg vm i = .ok value ↔ (0 ≤ i ∧ i < commonRegisterNumber) ∧ vm.r i = value := by
  simp only [readReg, Except.bind_eq_ok, checkIndex_eq_ok, Except.pure_eq_ok, exists_const]

theorem writeReg_eq_ok {vm vm' : VirtualMachine} {i value : Int} :
    writeReg vm i value = .ok vm' ↔ (0 ≤ i ∧ i < commonRegisterNumber) ∧
      { vm with r := Function.update vm.r i value } = vm' := by
  simp only [writeReg, Except.bind_eq_ok, checkIndex_eq_ok, Except.pure_eq_ok, exists_const]

theorem readStack_eq_ok {vm : VirtualMachine} {i value : Int} :
    readStack vm i = .ok value ↔ (0 ≤ i ∧ i < maxStackHeight) ∧ vm.stack i = value := by
  simp only [readStack, Except.bind_eq_ok, checkIndex_eq_ok, Except.pure_eq_ok, exists_const]

theorem writeStack_eq_ok {vm vm' : VirtualMachine} {i value : Int} :
    writeStack vm i value = .ok vm' ↔ (0 ≤ i ∧ i < maxStackHeight) ∧
      { vm with stack := Function.update vm.stack i value } = vm' := by
  simp only [writeStack, Except.bind_eq_ok, checkIndex_eq_ok, Except.pure_eq_ok, exists_const]

theorem writeFrameBreak_eq_ok {vm vm' : VirtualMachine} {i value : Int} :
    writeFrameBreak vm i value = .ok vm' ↔ (0 ≤ i ∧ i < maxLexiLevels) ∧
      { vm with frameBreak := Function.update vm.frameBreak i value } = vm' := by
  simp only [writeFrameBreak, Except.bind_eq_ok, checkIndex_eq_ok, Except.pure_eq_ok, exists_const]

theorem toInt_eq_ok {value result : Int} :
    toInt value = .ok result ↔ InInt value ∧ value = result := by
  unfold toInt
  split <;> simp_all

/-- The machine after a successful `prefetch`. -/
def VirtualMachine.fetched (vm : VirtualMachine) (ir : Instruction) : VirtualMachine :=
  { vm with ir := ir, pc := vm.pc + 1, prePc := vm.pc }

/-- The instruction at `pc` is there to be fetched. -/
structure Fetches (vm : VirtualMachine) (ir : Instruction) : Prop where
  nonneg : 0 ≤ vm.pc
  bounded : vm.pc < maxCodeLength
  there : vm.code[vm.pc.toNat]? = some ir

theorem Fetches.unique {vm : VirtualMachine} {first second : Instruction}
    (one : Fetches vm first) (two : Fetches vm second) : first = second :=
  Option.some.inj (one.there.symm.trans two.there)

/-- The instruction the next turn executes, if `prefetch` finds one. -/
def VirtualMachine.next? (vm : VirtualMachine) : Option Instruction :=
  if 0 ≤ vm.pc ∧ vm.pc < maxCodeLength then vm.code[vm.pc.toNat]? else none

theorem next?_eq_some {vm : VirtualMachine} {ir : Instruction} :
    vm.next? = some ir ↔ Fetches vm ir := by
  unfold VirtualMachine.next?
  constructor
  · intro found
    split at found
    · rename_i inside
      exact ⟨inside.1, inside.2, found⟩
    · cases found
  · intro fetches
    rw [if_pos ⟨fetches.nonneg, fetches.bounded⟩, fetches.there]

theorem step_of_fetches {vm : VirtualMachine} {ir : Instruction} (fetches : Fetches vm ir) :
    step vm = instructionExecution (vm.fetched ir) := by
  have below := List.getElem?_eq_some_iff.mp fetches.there
  obtain ⟨inside, same⟩ := below
  have nonneg := fetches.nonneg
  have bounded := fetches.bounded
  have notOver : ¬ vm.pc ≥ vm.code.length := by omega
  have looked : vm.code.getD vm.pc.toNat ⟨0, 0, 0, 0⟩ = ir := by
    rw [List.getD_eq_getElem?_getD, fetches.there]
    rfl
  have decoded : prefetch vm = .ok (true, vm.fetched ir) := by
    unfold prefetch
    rw [if_neg (by omega), if_neg notOver, if_neg (by omega), looked]
    rfl
  unfold step
  rw [Except.bind_of_ok decoded]
  rfl

theorem step_eq_ok {vm vm' : VirtualMachine} (stepped : step vm = .ok vm') :
    vm' = { vm with status := .error } ∨
      ∃ ir, Fetches vm ir ∧ instructionExecution (vm.fetched ir) = .ok vm' := by
  unfold step at stepped
  obtain ⟨⟨fetched, loaded⟩, prefetched, executed⟩ := Except.bind_eq_ok.mp stepped
  unfold prefetch at prefetched
  split at prefetched
  · cases prefetched
    exact Or.inl (Except.pure_eq_ok.mp executed).symm
  · rename_i short
    split at prefetched
    · cases prefetched
      exact Or.inl (Except.pure_eq_ok.mp executed).symm
    · rename_i inside
      split at prefetched
      · cases prefetched
      · rename_i nonneg
        cases prefetched
        have below : vm.pc.toNat < vm.code.length := by omega
        have looked : vm.code[vm.pc.toNat]? = some (vm.code.getD vm.pc.toNat ⟨0, 0, 0, 0⟩) := by
          rw [List.getD_eq_getElem?_getD, List.getElem?_eq_getElem below]
          rfl
        exact Or.inr ⟨_, ⟨by omega, by omega, looked⟩, executed⟩

/-- The opcodes that change more than registers, the console and `status`. -/
def Opcode.isControl : Opcode → Bool
  | .rtn | .sto | .cal | .inc | .jmp | .jpc => true
  | _ => false

/-- Everything but the program counter, the instruction register, the registers,
the console and the status. -/
structure SameFrame (vm vm' : VirtualMachine) : Prop where
  sp : vm'.sp = vm.sp
  bp : vm'.bp = vm.bp
  stack : vm'.stack = vm.stack
  frameBreak : vm'.frameBreak = vm.frameBreak
  frameLevel : vm'.frameLevel = vm.frameLevel

/-- What executing one instruction can do to the activation records. -/
inductive Effect (vm : VirtualMachine) (ir : Instruction) (vm' : VirtualMachine) : Prop
  | inner (op : ∀ op, Opcode.ofInt? ir.op = some op → op.isControl = false)
      (same : SameFrame vm vm') (pc : vm'.pc = vm.pc + 1)
  | jmp (op : Opcode.ofInt? ir.op = some .jmp) (same : SameFrame vm vm')
      (status : vm'.status = vm.status) (pc : vm'.pc = ir.m)
  | jpc (op : Opcode.ofInt? ir.op = some .jpc) (same : SameFrame vm vm')
      (status : vm'.status = vm.status) (pc : vm'.pc = ir.m ∨ vm'.pc = vm.pc + 1)
  | sto (target value : Int) (op : Opcode.ofInt? ir.op = some .sto)
      (resolved : base vm ir.l vm.bp = .ok target)
      (sp : vm'.sp = vm.sp) (bp : vm'.bp = vm.bp)
      (stack : vm'.stack = Function.update vm.stack (target + ir.m) value)
      (frameBreak : vm'.frameBreak = vm.frameBreak) (frameLevel : vm'.frameLevel = vm.frameLevel)
      (status : vm'.status = vm.status) (pc : vm'.pc = vm.pc + 1)
  | inc (op : Opcode.ofInt? ir.op = some .inc) (sp : vm'.sp = vm.sp + ir.m) (bp : vm'.bp = vm.bp)
      (stack : vm'.stack = vm.stack) (frameBreak : vm'.frameBreak = vm.frameBreak)
      (frameLevel : vm'.frameLevel = vm.frameLevel)
      (status : vm'.status = vm.status) (pc : vm'.pc = vm.pc + 1)
  | cal (link : Int) (op : Opcode.ofInt? ir.op = some .cal)
      (resolved : base { vm with stack := Function.update vm.stack (vm.sp + 1) 0 } ir.l vm.bp =
        .ok link)
      (sp : vm'.sp = vm.sp) (bp : vm'.bp = vm.sp + 1)
      (stack : vm'.stack = Function.update (Function.update (Function.update
        (Function.update vm.stack (vm.sp + 1) 0) (vm.sp + 2) link) (vm.sp + 3) vm.bp)
        (vm.sp + 4) (vm.pc + 1))
      (frameBreak : vm'.frameBreak = Function.update vm.frameBreak vm.frameLevel vm.sp)
      (frameLevel : vm'.frameLevel = vm.frameLevel + 1)
      (level : 0 ≤ vm.frameLevel ∧ vm.frameLevel < maxLexiLevels)
      (status : vm'.status = vm.status) (pc : vm'.pc = ir.m)
      (room : 0 ≤ vm.sp + 2 ∧ vm.sp + 2 < maxStackHeight)
  | rtn (op : Opcode.ofInt? ir.op = some .rtn) (sp : vm'.sp = vm.bp - 1)
      (bp : vm'.bp = if vm.bp = 1 then vm.bp else vm.stack (vm.bp + 2))
      (stack : vm'.stack = vm.stack)
      (frameBreak : vm'.frameBreak = Function.update vm.frameBreak vm.frameLevel 0)
      (frameLevel : vm'.frameLevel = vm.frameLevel - 1)
      (level : 0 ≤ vm.frameLevel ∧ vm.frameLevel < maxLexiLevels)
      (status : vm'.status = if vm.bp = 1 then .idle else vm.status)
      (pc : vm'.pc = vm.stack (vm.bp + 3))

theorem baseLoop_congr {vm vm' : VirtualMachine} (same : vm'.stack = vm.stack) (levels : Nat)
    (b : Int) : baseLoop vm' levels b = baseLoop vm levels b := by
  induction levels generalizing b with
  | zero => rfl
  | succ levels ih => simp only [baseLoop, readStack, same, ih]

theorem base_congr (vm vm' : VirtualMachine) (same : vm'.stack = vm.stack) (l b : Int) :
    base vm' l b = base vm l b :=
  baseLoop_congr same l.toNat b

@[simp] theorem base_fetched (vm : VirtualMachine) (ir : Instruction) (l b : Int) :
    base (vm.fetched ir) l b = base vm l b :=
  base_congr vm (vm.fetched ir) rfl l b

theorem executeRtn_effect {vm vm' : VirtualMachine} {ir : Instruction}
    (op : Opcode.ofInt? ir.op = some .rtn) (executed : executeRtn (vm.fetched ir) = .ok vm') :
    Effect vm ir vm' := by
  unfold executeRtn at executed
  simp only [Except.bind_eq_ok, readStack_eq_ok, writeFrameBreak_eq_ok,
    Except.pure_eq_ok] at executed
  obtain ⟨bp, restored, pc, ⟨-, rfl⟩, cleared, ⟨level, rfl⟩, rfl⟩ := executed
  have saved : (vm.fetched ir).bp - 1 + 4 = vm.bp + 3 := by
    simp only [VirtualMachine.fetched]
    omega
  refine .rtn op rfl ?_ rfl rfl rfl level rfl (congrArg vm.stack saved)
  dsimp only
  unfold callerBp at restored
  split at restored
  · rename_i isMain
    cases restored
    exact (if_pos isMain).symm
  · rename_i notMain
    obtain ⟨-, rfl⟩ := readStack_eq_ok.mp restored
    have linked : (vm.fetched ir).bp - 1 + 3 = vm.bp + 2 := by
      simp only [VirtualMachine.fetched]
      omega
    exact (congrArg vm.stack linked).trans (if_neg notMain).symm

theorem executeCal_effect {vm vm' : VirtualMachine} {ir : Instruction}
    (op : Opcode.ofInt? ir.op = some .cal)
    (executed : executeCal (vm.fetched ir) ir.l ir.m = .ok vm') : Effect vm ir vm' := by
  unfold executeCal at executed
  simp only [Except.bind_eq_ok, writeStack_eq_ok, writeFrameBreak_eq_ok,
    Except.pure_eq_ok] at executed
  obtain ⟨_, ⟨-, rfl⟩, link, resolved, _, ⟨room, rfl⟩, _, ⟨-, rfl⟩, _, ⟨-, rfl⟩, _,
    ⟨level, rfl⟩, rfl⟩ :=
    executed
  have unfetched := base_congr
    { vm.fetched ir with stack := Function.update vm.stack (vm.sp + 1) 0 }
    { vm with stack := Function.update vm.stack (vm.sp + 1) 0 } rfl ir.l vm.bp
  exact .cal link op (unfetched.trans resolved) rfl rfl rfl rfl rfl level rfl rfl room

theorem executeSio_same {vm vm' : VirtualMachine} {i k : Int}
    (executed : executeSio vm i k = .ok vm') : SameFrame vm vm' ∧ vm'.pc = vm.pc := by
  unfold executeSio at executed
  split at executed
  · simp only [Except.bind_eq_ok, Except.pure_eq_ok] at executed
    obtain ⟨value, -, rfl⟩ := executed
    exact ⟨⟨rfl, rfl, rfl, rfl, rfl⟩, rfl⟩
  · split at executed
    · simp only [Except.bind_eq_ok, Except.pure_eq_ok] at executed
      obtain ⟨-, -, rfl⟩ := executed
      exact ⟨⟨rfl, rfl, rfl, rfl, rfl⟩, rfl⟩
    · simp only [Except.bind_eq_ok, writeReg_eq_ok, Except.pure_eq_ok] at executed
      obtain ⟨_, ⟨-, rfl⟩, rfl⟩ := executed
      exact ⟨⟨rfl, rfl, rfl, rfl, rfl⟩, rfl⟩
  · cases executed
    exact ⟨⟨rfl, rfl, rfl, rfl, rfl⟩, rfl⟩
  · cases executed
    exact ⟨⟨rfl, rfl, rfl, rfl, rfl⟩, rfl⟩

theorem writeReg_inner {vm vm' : VirtualMachine} {ir : Instruction} {i value : Int}
    (op : ∀ op, Opcode.ofInt? ir.op = some op → op.isControl = false)
    (written : writeReg (vm.fetched ir) i value = .ok vm') : Effect vm ir vm' := by
  obtain ⟨-, rfl⟩ := writeReg_eq_ok.mp written
  exact .inner op ⟨rfl, rfl, rfl, rfl, rfl⟩ rfl

theorem instructionExecution_effect {vm vm' : VirtualMachine} {ir : Instruction}
    (executed : instructionExecution (vm.fetched ir) = .ok vm') : Effect vm ir vm' := by
  have plain : ∀ {op : Opcode}, Opcode.ofInt? ir.op = some op → op.isControl = false →
      ∀ other, Opcode.ofInt? ir.op = some other → other.isControl = false := by
    intro op decoded quiet other same
    rw [decoded] at same
    cases same
    exact quiet
  unfold instructionExecution at executed
  change (match Opcode.ofInt? ir.op with | _ => _) = _ at executed
  cases decoded : Opcode.ofInt? ir.op with
  | none =>
      simp only [VirtualMachine.fetched, decoded] at executed
      cases executed
      exact .inner (by simp [decoded]) ⟨rfl, rfl, rfl, rfl, rfl⟩ rfl
  | some op =>
      cases op
      case rtn =>
        simp only [VirtualMachine.fetched, decoded] at executed
        exact executeRtn_effect decoded executed
      case cal =>
        simp only [VirtualMachine.fetched, decoded] at executed
        exact executeCal_effect decoded executed
      case sto =>
        simp only [VirtualMachine.fetched, decoded, Except.bind_eq_ok, readReg_eq_ok,
          writeStack_eq_ok] at executed
        obtain ⟨target, resolved, value, -, -, rfl⟩ := executed
        exact .sto target value decoded ((base_fetched vm ir _ _).symm.trans resolved)
          rfl rfl rfl rfl rfl rfl rfl
      case inc =>
        simp only [VirtualMachine.fetched, decoded, Except.bind_eq_ok, toInt_eq_ok,
          Except.pure_eq_ok] at executed
        obtain ⟨sp, ⟨-, rfl⟩, rfl⟩ := executed
        exact .inc decoded rfl rfl rfl rfl rfl rfl rfl
      case jmp =>
        simp only [VirtualMachine.fetched, decoded] at executed
        cases executed
        exact .jmp decoded ⟨rfl, rfl, rfl, rfl, rfl⟩ rfl rfl
      case jpc =>
        simp only [VirtualMachine.fetched, decoded, Except.bind_eq_ok, readReg_eq_ok,
          Except.pure_eq_ok] at executed
        obtain ⟨value, -, rfl⟩ := executed
        split
        · exact .jpc decoded ⟨rfl, rfl, rfl, rfl, rfl⟩ rfl (Or.inl rfl)
        · exact .jpc decoded ⟨rfl, rfl, rfl, rfl, rfl⟩ rfl (Or.inr rfl)
      case sio =>
        simp only [VirtualMachine.fetched, decoded] at executed
        obtain ⟨same, pc⟩ := executeSio_same executed
        exact .inner (plain decoded rfl) ⟨same.sp, same.bp, same.stack, same.frameBreak,
          same.frameLevel⟩ pc
      case sio2 =>
        simp only [VirtualMachine.fetched, decoded] at executed
        cases executed
        exact .inner (plain decoded rfl) ⟨rfl, rfl, rfl, rfl, rfl⟩ rfl
      case sio3 =>
        simp only [VirtualMachine.fetched, decoded] at executed
        cases executed
        exact .inner (plain decoded rfl) ⟨rfl, rfl, rfl, rfl, rfl⟩ rfl
      case lit =>
        simp only [VirtualMachine.fetched, decoded] at executed
        exact writeReg_inner (plain decoded rfl) executed
      case lod =>
        simp only [VirtualMachine.fetched, decoded, Except.bind_eq_ok] at executed
        obtain ⟨_, -, _, -, written⟩ := executed
        exact writeReg_inner (plain decoded rfl) written
      case neg =>
        simp only [VirtualMachine.fetched, decoded, Except.bind_eq_ok] at executed
        obtain ⟨_, -, _, -, written⟩ := executed
        exact writeReg_inner (plain decoded rfl) written
      case odd =>
        simp only [VirtualMachine.fetched, decoded, Except.bind_eq_ok] at executed
        obtain ⟨_, -, written⟩ := executed
        exact writeReg_inner (plain decoded rfl) written
      all_goals
        simp only [VirtualMachine.fetched, decoded, Except.bind_eq_ok] at executed
        obtain ⟨_, -, _, -, _, -, written⟩ := executed
        exact writeReg_inner (plain decoded rfl) written

theorem executeSio_code {vm vm' : VirtualMachine} {i k : Int}
    (executed : executeSio vm i k = .ok vm') : vm'.code = vm.code := by
  unfold executeSio at executed
  split at executed
  · simp only [Except.bind_eq_ok, Except.pure_eq_ok] at executed
    obtain ⟨value, -, rfl⟩ := executed
    rfl
  · split at executed
    · simp only [Except.bind_eq_ok, Except.pure_eq_ok] at executed
      obtain ⟨-, -, rfl⟩ := executed
      rfl
    · simp only [Except.bind_eq_ok, writeReg_eq_ok, Except.pure_eq_ok] at executed
      obtain ⟨_, ⟨-, rfl⟩, rfl⟩ := executed
      rfl
  · cases executed
    rfl
  · cases executed
    rfl

theorem instructionExecution_code {vm vm' : VirtualMachine}
    (executed : instructionExecution vm = .ok vm') : vm'.code = vm.code := by
  have written : ∀ {i value : Int}, writeReg vm i value = .ok vm' → vm'.code = vm.code := by
    intro i value written
    obtain ⟨-, rfl⟩ := writeReg_eq_ok.mp written
    rfl
  unfold instructionExecution at executed
  dsimp only at executed
  split at executed
  case h_2 =>
    unfold executeRtn at executed
    simp only [Except.bind_eq_ok, writeFrameBreak_eq_ok, Except.pure_eq_ok] at executed
    obtain ⟨_, -, _, -, _, ⟨-, rfl⟩, rfl⟩ := executed
    rfl
  case h_4 =>
    simp only [Except.bind_eq_ok, writeStack_eq_ok] at executed
    obtain ⟨_, -, _, -, -, rfl⟩ := executed
    rfl
  case h_5 =>
    unfold executeCal at executed
    simp only [Except.bind_eq_ok, writeStack_eq_ok, writeFrameBreak_eq_ok,
      Except.pure_eq_ok] at executed
    obtain ⟨_, ⟨-, rfl⟩, _, -, _, ⟨-, rfl⟩, _, ⟨-, rfl⟩, _, ⟨-, rfl⟩, _, ⟨-, rfl⟩, rfl⟩ := executed
    rfl
  case h_1 => exact written executed
  case h_3 =>
    simp only [Except.bind_eq_ok] at executed
    obtain ⟨_, -, _, -, loaded⟩ := executed
    exact written loaded
  case h_6 =>
    simp only [Except.bind_eq_ok, Except.pure_eq_ok] at executed
    obtain ⟨_, -, rfl⟩ := executed
    rfl
  case h_8 =>
    simp only [Except.bind_eq_ok, Except.pure_eq_ok] at executed
    obtain ⟨_, -, rfl⟩ := executed
    split <;> rfl
  case h_9 => exact executeSio_code executed
  case h_10 =>
    simp only [Except.bind_eq_ok] at executed
    obtain ⟨_, -, _, -, negated⟩ := executed
    exact written negated
  case h_11 =>
    simp only [Except.bind_eq_ok] at executed
    obtain ⟨_, -, tested⟩ := executed
    exact written tested
  case h_15 =>
    simp only [Except.bind_eq_ok] at executed
    obtain ⟨_, -, _, -, _, -, calculated⟩ := executed
    exact written calculated
  all_goals
    cases executed
    rfl

theorem step_code {vm vm' : VirtualMachine} (stepped : step vm = .ok vm') : vm'.code = vm.code := by
  rcases step_eq_ok stepped with rfl | ⟨ir, -, executed⟩
  · rfl
  · exact (instructionExecution_code executed).trans rfl

end Pl0
