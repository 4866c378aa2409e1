import Pl0.Registers
import Pl0.VirtualMachineStep

set_option autoImplicit false

namespace Pl0

open StateExcept

/-- Execute instructions in order, each as after a prefetch. -/
def execute : List Instruction → VirtualMachine → Except Fault VirtualMachine
  | [], vm => .ok vm
  | ir :: rest, vm => do
      let vm ← instructionExecution (vm.fetched ir)
      execute rest vm

theorem execute_append {first : List Instruction} {vm vm' : VirtualMachine}
    (done : execute first vm = .ok vm') (second : List Instruction) :
    execute (first ++ second) vm = execute second vm' := by
  induction first generalizing vm with
  | nil =>
      cases done
      rfl
  | cons ir rest ih =>
      rw [execute] at done
      obtain ⟨next, executed, more⟩ := Except.bind_eq_ok.mp done
      rw [List.cons_append, execute, Except.bind_of_ok executed]
      exact ih more

theorem execute_one (ir : Instruction) (vm : VirtualMachine) :
    execute [ir] vm = instructionExecution (vm.fetched ir) := by
  rw [execute]
  cases instructionExecution (vm.fetched ir) <;> rfl

/-- `vm'` is `vm` so many instructions later; of the registers only those from `n` on
changed, and of the rest only what every prefetch writes. -/
structure Advanced (n turns : Int) (vm vm' : VirtualMachine) : Prop where
  pc : vm'.pc = vm.pc + turns
  below : ∀ i < n, vm'.r i = vm.r i
  rest : vm' = { vm with r := vm'.r, pc := vm'.pc, ir := vm'.ir, prePc := vm'.prePc }

namespace Advanced

variable {n turns turns' : Int} {vm vm' vm'' : VirtualMachine}

theorem refl (n : Int) (vm : VirtualMachine) : Advanced n 0 vm vm :=
  ⟨(Int.add_zero _).symm, fun _ _ => rfl, rfl⟩

theorem trans (first : Advanced n turns vm vm') (second : Advanced n turns' vm' vm'') :
    Advanced n (turns + turns') vm vm'' where
  pc := by rw [second.pc, first.pc, Int.add_assoc]
  below := fun i less => (second.below i less).trans (first.below i less)
  rest := by
    rw [second.rest, first.rest]

theorem mono {lower : Int} (advanced : Advanced n turns vm vm') (fewer : lower ≤ n) :
    Advanced lower turns vm vm' :=
  ⟨advanced.pc, fun i less => advanced.below i (by omega), advanced.rest⟩

theorem stack (advanced : Advanced n turns vm vm') : vm'.stack = vm.stack := by
  rw [advanced.rest]

theorem bp (advanced : Advanced n turns vm vm') : vm'.bp = vm.bp := by
  rw [advanced.rest]

theorem sp (advanced : Advanced n turns vm vm') : vm'.sp = vm.sp := by
  rw [advanced.rest]

theorem code (advanced : Advanced n turns vm vm') : vm'.code = vm.code := by
  rw [advanced.rest]

end Advanced

/-- The code runs to its end, leaves the value in register `n` and the registers below as
they were. -/
def Computes (code : List Instruction) (n v : Int) (vm : VirtualMachine) : Prop :=
  ∃ vm', execute code vm = .ok vm' ∧ Advanced n code.length vm vm' ∧ vm'.r n = v

namespace Computes

variable {first second : List Instruction} {n m x v : Int} {vm : VirtualMachine}

theorem nil (vm : VirtualMachine) (n : Int) : Computes [] n (vm.r n) vm :=
  ⟨vm, rfl, .refl n vm, rfl⟩

/-- The second part finds the value of the first in its register. -/
theorem append (done : Computes first m x vm) (above : n ≤ m)
    (next : ∀ vm', Advanced m first.length vm vm' → vm'.r m = x → Computes second n v vm') :
    Computes (first ++ second) n v vm := by
  obtain ⟨vm', executed, advanced, value⟩ := done
  obtain ⟨vm'', rest, further, result⟩ := next vm' advanced value
  refine ⟨vm'', (execute_append executed second).trans rest, ?_, result⟩
  rw [List.length_append]
  push_cast
  exact (advanced.mono above).trans further

/-- One instruction that writes register `n`. -/
theorem written {ir : Instruction}
    (executed : instructionExecution (vm.fetched ir) = writeReg (vm.fetched ir) n v)
    (inside : 0 ≤ n ∧ n < commonRegisterNumber) : Computes [ir] n v vm := by
  refine ⟨{ vm.fetched ir with r := Function.update vm.r n v }, ?_, ⟨rfl, ?_, rfl⟩, ?_⟩
  · rw [execute_one, executed]
    exact writeReg_eq_ok.mpr ⟨inside, rfl⟩
  · intro i less
    exact Function.update_of_ne (Int.ne_of_lt less) _ _
  · exact Function.update_self _ _ _

end Computes

section Instructions

variable {n x y z : Int} {vm : VirtualMachine}

theorem computes_lit (value : Int) (inside : 0 ≤ n ∧ n < commonRegisterNumber) :
    Computes [instr .lit n 0 value] n value vm :=
  .written rfl inside

theorem computes_lod {l m b value : Int} (linked : base vm l vm.bp = .ok b)
    (read : readStack vm (b + m) = .ok value) (inside : 0 ≤ n ∧ n < commonRegisterNumber) :
    Computes [instr .lod n l m] n value vm := by
  apply Computes.written _ inside
  have found : base (vm.fetched (instr .lod n l m)) l vm.bp = .ok b := by
    rw [base_fetched]
    exact linked
  have cell : readStack (vm.fetched (instr .lod n l m)) (b + m) = .ok value := read
  change (do
    let b ← base (vm.fetched (instr .lod n l m)) l vm.bp
    let value ← readStack (vm.fetched (instr .lod n l m)) (b + m)
    writeReg (vm.fetched (instr .lod n l m)) n value) = _
  rw [Except.bind_of_ok found, Except.bind_of_ok cell]

theorem computes_neg (small : InInt (-(vm.r n))) (inside : 0 ≤ n ∧ n < commonRegisterNumber) :
    Computes [instr .neg n n 0] n (-(vm.r n)) vm := by
  apply Computes.written _ inside
  have operand : readReg (vm.fetched (instr .neg n n 0)) n = .ok (vm.r n) :=
    readReg_eq_ok.mpr ⟨inside, rfl⟩
  have negated : toInt (-(vm.r n)) = .ok (-(vm.r n)) := toInt_eq_ok.mpr ⟨small, rfl⟩
  change (do
    let value ← readReg (vm.fetched (instr .neg n n 0)) n
    let negated ← toInt (-value)
    writeReg (vm.fetched (instr .neg n n 0)) n negated) = _
  rw [Except.bind_of_ok operand, Except.bind_of_ok negated]

theorem computes_odd (inside : 0 ≤ n ∧ n < commonRegisterNumber) :
    Computes [instr .odd n n 0] n ((vm.r n).tmod 2) vm := by
  apply Computes.written _ inside
  have operand : readReg (vm.fetched (instr .odd n n 0)) n = .ok (vm.r n) :=
    readReg_eq_ok.mpr ⟨inside, rfl⟩
  change (do
    let value ← readReg (vm.fetched (instr .odd n n 0)) n
    writeReg (vm.fetched (instr .odd n n 0)) n (value.tmod 2)) = _
  rw [Except.bind_of_ok operand]

/-- A three-register instruction on `n` and the register above. -/
theorem computes_operator {op : Opcode}
    (arithmetic : instructionExecution (vm.fetched (instr op n n (n + 1))) =
      (do
        let x ← readReg (vm.fetched (instr op n n (n + 1))) n
        let y ← readReg (vm.fetched (instr op n n (n + 1))) (n + 1)
        let value ← calculate op x y
        writeReg (vm.fetched (instr op n n (n + 1))) n value))
    (result : calculate op (vm.r n) (vm.r (n + 1)) = .ok z) (low : 0 ≤ n)
    (high : n + 1 < commonRegisterNumber) : Computes [instr op n n (n + 1)] n z vm := by
  apply Computes.written _ ⟨low, by omega⟩
  have left : readReg (vm.fetched (instr op n n (n + 1))) n = .ok (vm.r n) :=
    readReg_eq_ok.mpr ⟨⟨low, by omega⟩, rfl⟩
  have right : readReg (vm.fetched (instr op n n (n + 1))) (n + 1) = .ok (vm.r (n + 1)) :=
    readReg_eq_ok.mpr ⟨⟨by omega, high⟩, rfl⟩
  rw [arithmetic, Except.bind_of_ok left, Except.bind_of_ok right, Except.bind_of_ok result]

end Instructions

end Pl0
