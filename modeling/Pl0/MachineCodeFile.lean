import Pl0.TokenFile
import Pl0.VirtualMachineStep

set_option autoImplicit false

namespace Pl0

open StateExcept

/- The machine-code file between the compiler and the virtual machine: `printMcode` writes
the final code into it, and `load_code` reads it back with `fscanf`. -/

/-- What `"%d"` prints. -/
def printInt (value : Int) : Name :=
  if value < 0 then 45 :: printDecimal value.natAbs else printDecimal value.natAbs

def putInstruction (ir : Instruction) : List UInt8 :=
  printInt ir.op ++ [32] ++ printInt ir.r ++ [32] ++ printInt ir.l ++ [32] ++ printInt ir.m ++ [10]

/-- The text `printMcode` writes. -/
def printMcode (finalCode : List Instruction) : List UInt8 :=
  finalCode.flatMap putInstruction

/-- The part of `struct virtualMachine` that `load_code` works on, with its file. -/
structure CodeLoader where
  fin : TextFile
  code : Nat → Instruction

namespace CodeLoader

/-- `fscanf(fin, "%d ", ..)` into a field of `code[pcounter]`. -/
def readField (this : CodeLoader) (pcounter : Nat) (store : Instruction → Int → Instruction) :
    Except Fault CodeLoader := do
  let (value, fin) ← scanfInt this.fin
  match value with
  | none => return { this with fin := fin }
  | some value =>
      return {
        fin := fin
        code := Function.update this.code pcounter (store (this.code pcounter) value) }

def readInstruction (this : CodeLoader) (pcounter : Nat) : Except Fault CodeLoader := do
  let this ← this.readField pcounter fun ir op => { ir with op := op }
  let this ← this.readField pcounter fun ir r => { ir with r := r }
  let this ← this.readField pcounter fun ir l => { ir with l := l }
  this.readField pcounter fun ir m => { ir with m := m }

/-- The loop of `load_code` from its test on, with `code[pcounter]` next. -/
def load (this : CodeLoader) (pcounter : Nat) : Except Fault (Int × CodeLoader) :=
  if this.fin.eof then .ok (pcounter, this)
  else do
    let this ← this.readInstruction pcounter
    if (pcounter + 1 : Int) ≥ maxCodeLength then return (-1, this)
    else this.load (pcounter + 1)
termination_by maxCodeLength.toNat - pcounter
decreasing_by
  rename_i short
  simp only [maxCodeLength] at short ⊢
  omega

end CodeLoader

/-- `load_code` on a file, which is `none` when it cannot be opened: the result, and the code
array of the machine. -/
def loadCode (file : Option (List UInt8)) (code : Nat → Instruction) :
    Except Fault (Int × (Nat → Instruction)) :=
  match file with
  | none => .ok (-1, code)
  | some text => do
      let (count, loader) ← CodeLoader.load
        { fin := { rest := text, eof := false }, code := code } 0
      return (count, loader.code)

/-- The machine with so many instructions in its code array. -/
def VirtualMachine.withCode (vm : VirtualMachine) (numInstructions : Nat)
    (code : Nat → Instruction) :
    VirtualMachine :=
  { vm with code := (List.range numInstructions).map code }

/-- `run_vm` on a file, with the code array that the machine comes with; `none` while the
machine still runs after `fuel` turns. -/
def runVmFile (fuel : Nat) (vm : VirtualMachine) (code : Nat → Instruction)
    (file : Option (List UInt8)) : Except Fault (Option VirtualMachine) :=
  if vm.status ≠ .idle then .ok (some vm)
  else do
    let (numIR, code) ← loadCode file code
    if numIR = -1 then
      return some { vm.withCode vm.code.length code with status := .error }
    else runVm fuel { vm.withCode numIR.toNat code with status := .running }

/-- The values of the C type `int` in every field. -/
structure Instruction.IsInt (ir : Instruction) : Prop where
  op : InInt ir.op
  r : InInt ir.r
  l : InInt ir.l
  m : InInt ir.m

theorem skipSpace_space {sep : UInt8} (space : isSpace sep = true) (more : List UInt8) :
    TextFile.skipSpace ⟨sep :: more, false⟩ = TextFile.skipSpace ⟨more, false⟩ := by
  unfold TextFile.skipSpace TextFile.takeClass
  rw [List.dropWhile_cons_of_pos space]

theorem isDigit_space {sep : UInt8} (space : isSpace sep = true) : isDigit sep = false := by
  by_contra digit
  rw [Bool.not_eq_false] at digit
  rw [isDigit_not_space digit] at space
  cases space

/-- `%d` reads what `%d` prints, and the white space behind it. -/
theorem scanfInt_printInt {value : Int} (int : InInt value) {sep : UInt8}
    (space : isSpace sep = true)
    (more : List UInt8) : scanfInt ⟨printInt value ++ sep :: more, false⟩ =
      .ok (some value, TextFile.skipSpace ⟨more, false⟩) := by
  obtain ⟨nonempty, digit⟩ := printDecimal_digits value.natAbs
  have taken : TextFile.takeClass ⟨printDecimal value.natAbs ++ sep :: more, false⟩ isDigit =
      (printDecimal value.natAbs, ⟨sep :: more, false⟩) :=
        takeClass_word digit (isDigit_space space)
  unfold scanfInt printInt
  by_cases negative : value < 0
  · have sign : TextFile.takeSign ⟨45 :: (printDecimal value.natAbs ++ sep :: more), false⟩ =
        (-1, ⟨printDecimal value.natAbs ++ sep :: more, false⟩) := rfl
    have read : -1 * (digitsValue (printDecimal value.natAbs) : Int) = value := by
      rw [digitsValue_printDecimal]
      omega
    rw [if_pos negative, List.cons_append, skipSpace_word _ (by rfl)]
    simp only [sign, taken, if_neg nonempty, read, if_pos int, skipSpace_space space]
  · obtain ⟨first, others, split⟩ := List.exists_cons_of_ne_nil nonempty
    have firstDigit := digit first (split ▸ List.mem_cons_self)
    have sign : TextFile.takeSign ⟨printDecimal value.natAbs ++ sep :: more, false⟩ =
        (1, ⟨printDecimal value.natAbs ++ sep :: more, false⟩) := by
      rw [split]
      exact takeSign_digit _ _ firstDigit
    have start : TextFile.skipSpace ⟨printDecimal value.natAbs ++ sep :: more, false⟩ =
        ⟨printDecimal value.natAbs ++ sep :: more, false⟩ := by
      rw [split]
      exact skipSpace_word _ (isDigit_not_space firstDigit)
    have read : 1 * (digitsValue (printDecimal value.natAbs) : Int) = value := by
      rw [digitsValue_printDecimal]
      omega
    rw [if_neg negative, start]
    simp only [sign, taken, if_neg nonempty, read, if_pos int, skipSpace_space space]

theorem printInt_first (value : Int) : ∃ first others, printInt value = first :: others ∧
    isSpace first = false := by
  unfold printInt
  by_cases negative : value < 0
  · exact ⟨45, printDecimal value.natAbs, if_pos negative, by rfl⟩
  · obtain ⟨nonempty, digit⟩ := printDecimal_digits value.natAbs
    obtain ⟨first, others, split⟩ := List.exists_cons_of_ne_nil nonempty
    rw [if_neg negative]
    exact ⟨first, others, split, isDigit_not_space (digit first (split ▸ List.mem_cons_self))⟩

theorem skipSpace_printInt (value : Int) (more : List UInt8) :
    TextFile.skipSpace ⟨printInt value ++ more, false⟩ = ⟨printInt value ++ more, false⟩ := by
  obtain ⟨first, others, split, word⟩ := printInt_first value
  rw [split]
  exact skipSpace_word _ word

/-- Behind the blanks of an instruction the file is at the next one, or at its end. -/
theorem skipSpace_printMcode (rest : List Instruction) :
    TextFile.skipSpace ⟨printMcode rest, false⟩ = ⟨printMcode rest, rest.isEmpty⟩ := by
  cases rest with
  | nil => rfl
  | cons ir rest =>
      unfold printMcode
      rw [List.flatMap_cons, putInstruction]
      simp only [List.append_assoc]
      exact skipSpace_printInt _ _

namespace CodeLoader

variable {this : CodeLoader} {pcounter : Nat}

theorem readField_printInt (store : Instruction → Int → Instruction) {value : Int} {sep : UInt8}
    {more : List UInt8} (unread : this.fin = ⟨printInt value ++ sep :: more, false⟩)
    (int : InInt value) (space : isSpace sep = true) : this.readField pcounter store =
      .ok { fin := TextFile.skipSpace ⟨more, false⟩
            code := Function.update this.code pcounter (store (this.code pcounter) value) } := by
  unfold readField
  rw [unread, Except.bind_of_ok (scanfInt_printInt int space more)]
  rfl

/-- The four reads of an instruction fill one place of the code array. -/
theorem readInstruction_printMcode {ir : Instruction} {rest : List Instruction}
    (unread : this.fin = ⟨printMcode (ir :: rest), false⟩) (int : ir.IsInt) :
    ∃ next, this.readInstruction pcounter = .ok next ∧ next.fin = ⟨printMcode rest, rest.isEmpty⟩ ∧
      next.code = Function.update this.code pcounter ir := by
  have text : printMcode (ir :: rest) = printInt ir.op ++ 32 :: (printInt ir.r ++ 32 ::
      (printInt ir.l ++ 32 :: (printInt ir.m ++ 10 :: printMcode rest))) := by
    unfold printMcode
    rw [List.flatMap_cons, putInstruction]
    simp only [List.append_assoc, List.cons_append, List.nil_append]
  have space : isSpace 32 = true := by rfl
  rw [text] at unread
  unfold readInstruction
  rw [Except.bind_of_ok (readField_printInt _ unread int.op space)]
  rw [Except.bind_of_ok (readField_printInt _ (skipSpace_printInt _ _) int.r space)]
  rw [Except.bind_of_ok (readField_printInt _ (skipSpace_printInt _ _) int.l space)]
  refine ⟨_, readField_printInt _ (skipSpace_printInt _ _) int.m (by rfl),
    skipSpace_printMcode rest, ?_⟩
  simp only [Function.update_self, Function.update_idem]

/-- The code array with instructions from `pcounter` on. -/
def filled (code : Nat → Instruction) (pcounter : Nat) (list : List Instruction) :
    Nat → Instruction :=
  fun i => if pcounter ≤ i then list.getD (i - pcounter) (code i) else code i

theorem filled_update (code : Nat → Instruction) (pcounter : Nat) (ir : Instruction)
    (rest : List Instruction) : filled (Function.update code pcounter ir) (pcounter + 1) rest =
      filled code pcounter (ir :: rest) := by
  funext i
  unfold filled
  by_cases behind : pcounter + 1 ≤ i
  · have index : i - pcounter = i - (pcounter + 1) + 1 := by omega
    rw [if_pos behind, if_pos (by omega), index, List.getD_cons_succ,
      Function.update_of_ne (by omega)]
  · rw [if_neg behind]
    by_cases here : i = pcounter
    · rw [here, if_pos (Nat.le_refl _), Function.update_self, Nat.sub_self, List.getD_cons_zero]
    · rw [if_neg (by omega), Function.update_of_ne here]

/-- A turn of the loop takes one instruction; the last one that fits is number 498. -/
theorem load_printMcode {list : List Instruction} (ints : ∀ ir ∈ list, ir.IsInt) :
    ∀ {this : CodeLoader} {pcounter : Nat}, this.fin = ⟨printMcode list, list.isEmpty⟩ →
      (pcounter : Int) < maxCodeLength →
        (pcounter + list.length < maxCodeLength → ∃ fin, this.load pcounter =
          .ok (pcounter + list.length, { fin := fin, code := filled this.code pcounter list })) ∧
        (maxCodeLength ≤ pcounter + list.length →
          ∃ loader, this.load pcounter = .ok (-1, loader)) := by
  induction list with
  | nil =>
      intro this pcounter unread short
      rw [load, unread, if_pos (by rfl)]
      have same : filled this.code pcounter [] = this.code := by
        funext i
        unfold filled
        rw [List.getD_nil, ite_self]
      constructor
      · intro _
        refine ⟨this.fin, ?_⟩
        rw [same, List.length_nil, Int.natCast_zero, Int.add_zero]
      · intro full
        rw [List.length_nil] at full
        omega
  | cons ir rest ih =>
      intro this pcounter unread short
      obtain ⟨next, read, behind, stored⟩ :=
        readInstruction_printMcode unread (ints ir List.mem_cons_self)
      have open_ : ¬ this.fin.eof = true := by
        rw [unread]
        exact Bool.false_ne_true
      rw [load, if_neg open_, Except.bind_of_ok read, List.length_cons, Int.natCast_add,
        Int.natCast_one]
      by_cases full : (pcounter + 1 : Int) ≥ maxCodeLength
      · rw [if_pos full]
        constructor
        · intro fits
          omega
        · exact fun _ => ⟨_, rfl⟩
      · rw [if_neg full]
        obtain ⟨fits, overflows⟩ :=
          ih (fun other member => ints other (List.mem_cons_of_mem _ member))
          behind (show ((pcounter + 1 : Nat) : Int) < maxCodeLength by omega)
        rw [stored, filled_update] at fits
        have count : ((pcounter + 1 : Nat) : Int) + rest.length = pcounter + (rest.length + 1) := by
          omega
        rw [count] at fits overflows
        exact ⟨fits, overflows⟩

end CodeLoader

theorem loadCode_of_load {text : List UInt8} {code : Nat → Instruction} {count : Int}
    {loader : CodeLoader} (loads : CodeLoader.load ⟨⟨text, false⟩, code⟩ 0 = .ok (count, loader)) :
    loadCode (some text) code = .ok (count, loader.code) := by
  change (CodeLoader.load ⟨⟨text, false⟩, code⟩ 0 >>= fun x => pure (x.1, x.2.code)) = _
  rw [Except.bind_of_ok loads]
  rfl

/-- The machine-code file holds the code, as long as the code array has room for it and one
more; a larger file stops the machine before its first turn. -/
theorem mcode_file_round_trip (list : List Instruction) (ints : ∀ ir ∈ list, ir.IsInt)
    (code : Nat → Instruction) :
    (1 ≤ list.length → list.length < maxCodeLength → ∃ loaded,
      loadCode (some (printMcode list)) code = .ok (list.length, loaded) ∧
        ∀ (i : Nat) (ir : Instruction), list[i]? = some ir → loaded i = ir) ∧
    (maxCodeLength ≤ list.length →
      (∃ loaded, loadCode (some (printMcode list)) code = .ok (-1, loaded)) ∧
      ∀ (fuel : Nat) (vm : VirtualMachine), vm.status = .idle → ∃ loaded,
        runVmFile fuel vm code (some (printMcode list)) =
          .ok (some { vm with code := loaded, status := .error })) := by
  have read : list ≠ [] → _ := fun nonempty =>
    @CodeLoader.load_printMcode list ints ⟨⟨printMcode list, false⟩, code⟩ 0
      (by rw [List.isEmpty_eq_false_iff.mpr nonempty]) (by decide)
  rw [Int.natCast_zero, Int.zero_add] at read
  constructor
  · intro some_ fits
    obtain ⟨fin, loads⟩ := (read (List.ne_nil_of_length_pos some_)).1 fits
    refine ⟨CodeLoader.filled code 0 list, ?_, ?_⟩
    · exact loadCode_of_load loads
    · intro i ir there
      unfold CodeLoader.filled
      rw [if_pos (Nat.zero_le i), Nat.sub_zero, List.getD_eq_getElem?_getD, there]
      rfl
  · intro full
    have some_ : 0 < list.length := by
      have positive : (0 : Int) < maxCodeLength := by decide
      omega
    obtain ⟨loader, loads⟩ := (read (List.ne_nil_of_length_pos some_)).2 full
    have loaded : loadCode (some (printMcode list)) code = .ok (-1, loader.code) :=
      loadCode_of_load loads
    refine ⟨⟨loader.code, loaded⟩, ?_⟩
    intro fuel vm idle
    refine ⟨(List.range vm.code.length).map loader.code, ?_⟩
    unfold runVmFile
    rw [if_neg (not_not.mpr idle), Except.bind_of_ok loaded]
    rfl

/-- A jump over a procedure that subtracts 7 from the second register and returns. -/
def shortCode : List Instruction :=
  [⟨Opcode.jmp.toInt, 0, 0, 4⟩, ⟨Opcode.lit.toInt, 1, 0, -7⟩, ⟨Opcode.add.toInt, 0, 0, 1⟩,
    ⟨Opcode.rtn.toInt, 0, 0, 0⟩, ⟨Opcode.inc.toInt, 0, 0, 4⟩, ⟨Opcode.sio.toInt, 0, 0, 3⟩]

theorem shortCode_isInt : ∀ ir ∈ shortCode, ir.IsInt := by
  have each : ∀ ir ∈ shortCode, InInt ir.op ∧ InInt ir.r ∧ InInt ir.l ∧ InInt ir.m := by
    decide
  exact fun ir member => ⟨(each ir member).1, (each ir member).2.1, (each ir member).2.2.1,
    (each ir member).2.2.2⟩

theorem mcode_file_round_trip_shortCode :
    (∃ loaded, loadCode (some (printMcode shortCode)) (fun _ => ⟨0, 0, 0, 0⟩) = .ok (6, loaded) ∧
      ∀ (i : Nat) (ir : Instruction), shortCode[i]? = some ir → loaded i = ir) ∧
    (∃ loaded, loadCode (some (printMcode (List.replicate 500 ⟨Opcode.inc.toInt, 0, 0, -4⟩)))
        (fun _ => ⟨0, 0, 0, 0⟩) = .ok (-1, loaded)) ∧
    ∀ (fuel : Nat) (vm : VirtualMachine), vm.status = .idle → ∃ loaded,
      runVmFile fuel vm (fun _ => ⟨0, 0, 0, 0⟩)
          (some (printMcode (List.replicate 500 ⟨Opcode.inc.toInt, 0, 0, -4⟩))) =
        .ok (some { vm with code := loaded, status := .error }) := by
  have long : ∀ ir ∈ List.replicate 500 (⟨Opcode.inc.toInt, 0, 0, -4⟩ : Instruction),
      ir.IsInt := by
    intro ir member
    rw [List.eq_of_mem_replicate member]
    exact ⟨by decide, by decide, by decide, by decide⟩
  exact ⟨(mcode_file_round_trip shortCode shortCode_isInt _).1 (by decide) (by decide),
    (mcode_file_round_trip _ long _).2 (by rw [List.length_replicate]; decide)⟩

end Pl0
