import Pl0.CompilerDriver
import Pl0.EndlessExecution
import Pl0.MachineCodeFile

set_option autoImplicit false

namespace Pl0

open StateExcept

/- The compiler as a whole: `driver_run` scans a text, parses its lexemes, writes the machine
code into a file, and runs the virtual machine on that file. -/

/-- The code array that `init_vm` leaves. -/
def clearedCode (_ : Nat) : Instruction := ⟨0, 0, 0, 0⟩

/-- The machine that `init_vm` leaves, with what will be typed in. -/
def idleVm (input : List Int) : VirtualMachine :=
  { initVm with input := input }

/-- The machine behind `driver_run`: `none` where the driver returns before it, and while one
of the stages still runs after so many turns. -/
def driverMachine (scanTurns parseTurns vmTurns : Nat) (text : Option (List UInt8))
    (input : List Int) : Except Fault (Option VirtualMachine) := do
  match ← scannerReturn scanTurns text with
  | none => return none
  | some (ret, tokenTable) =>
      if ret ≠ 0 then return none
      else
        match Pl0.parse parseTurns (tokenTable.map tokenOf) with
        | .ok _ s =>
            runVmFile vmTurns (idleVm input) clearedCode
              (some (printMcode (prepareMcode s.gen.code FINAL_CODE)))
        | .error _ _ => return none

/-- The machine-code file can hold the program, and `load_code` takes it. -/
structure Storable (program : List Instruction) : Prop where
  ints : ∀ ir ∈ program, ir.IsInt
  short : program.length < maxCodeLength

/-- The machine that has read the file is the one with the program. -/
theorem runVmFile_printMcode {program : List Instruction} (storable : Storable program)
    (some_ : program ≠ []) (turns : Nat) (input : List Int) :
    runVmFile turns (idleVm input) clearedCode (some (printMcode program)) =
      runVm turns (startVm program input) := by
  obtain ⟨fin, loads⟩ := (@CodeLoader.load_printMcode program storable.ints
    ⟨⟨printMcode program, false⟩, clearedCode⟩ 0
    (by rw [List.isEmpty_eq_false_iff.mpr some_]) (by decide)).1 (by
      have short := storable.short
      omega)
  rw [Int.natCast_zero, Int.zero_add] at loads
  have code : (List.range program.length).map (CodeLoader.filled clearedCode 0 program) =
      program := by
    apply List.ext_getElem?
    intro i
    rw [List.getElem?_map]
    by_cases inside : i < program.length
    · rw [List.getElem?_range inside, List.getElem?_eq_getElem inside]
      unfold CodeLoader.filled
      rw [Option.map_some, if_pos (Nat.zero_le i), Nat.sub_zero, List.getD_eq_getElem?_getD,
        List.getElem?_eq_getElem inside, Option.getD_some]
    · rw [List.getElem?_eq_none (by rw [List.length_range]; omega),
        List.getElem?_eq_none (by omega), Option.map_none]
  have count : ¬ (program.length : Int) = -1 := by omega
  have idle : ¬ (idleVm input).status ≠ .idle := not_not.mpr rfl
  unfold runVmFile
  rw [if_neg idle, Except.bind_of_ok (loadCode_of_load loads)]
  simp only [if_neg count]
  unfold VirtualMachine.withCode
  rw [Int.toNat_natCast, code]
  rfl

section Driver

variable {scanTurns parseTurns : Nat} {text : List UInt8} {tokenTable : List LexemeEntry}
  {block : BlockNode} {s : ParseState} {input : List Int}

/-- The driver of an accepted text runs its program. -/
theorem driverMachine_accepted (scanned : scannerRun scanTurns text = .ok (some tokenTable))
    (accepted : parse parseTurns (tokenTable.map tokenOf) = .ok block s)
    (storable : Storable (prepareMcode s.gen.code FINAL_CODE))
    (some_ : prepareMcode s.gen.code FINAL_CODE ≠ []) (turns : Nat) :
    driverMachine scanTurns parseTurns turns (some text) input =
      runVm turns (startVm (prepareMcode s.gen.code FINAL_CODE) input) := by
  have returned : scannerReturn scanTurns (some text) = .ok (some (0, tokenTable)) :=
    Except.bind_of_ok scanned _
  unfold driverMachine
  rw [Except.bind_of_ok returned]
  simp only [ne_eq, not_true_eq_false, if_false, accepted]
  exact runVmFile_printMcode storable some_ turns input

/-- From the text to the output: what the source of an accepted text prints, the machine behind
the driver prints, and it halts when the source terminates and runs on when it does not. -/
theorem driver_translates (scanned : scannerRun scanTurns text = .ok (some tokenTable))
    (accepted : parse parseTurns (tokenTable.map tokenOf) = .ok block s)
    (fits : Runnable block s) (storable : Storable (prepareMcode s.gen.code FINAL_CODE)) :
    (∀ m, Performs exactArithmetic (fun _ => True) [⟨block.rib, 0⟩] block.statement
        (.start block input) m →
      (∃ m', Performs intArithmetic RoomFor [⟨block.rib, 0⟩] block.statement
        (.start block input) m') →
      ∃ turns vm, driverMachine scanTurns parseTurns turns (some text) input = .ok (some vm) ∧
        vm.status = .idle ∧ vm.output = m.output) ∧
    (RunsOn intArithmetic RoomFor [⟨block.rib, 0⟩] block.statement (.start block input) →
      ∀ turns, driverMachine scanTurns parseTurns turns (some text) input = .ok none) := by
  obtain ⟨c, d, vm, begun⟩ := fits.begun accepted input
  have halt := begun.halt 0 _ rfl
  have some_ : prepareMcode s.gen.code FINAL_CODE ≠ [] :=
    List.ne_nil_of_mem (List.mem_of_getElem? halt)
  simp only [driverMachine_accepted scanned accepted storable some_]
  constructor
  · rintro m run ⟨m', inInt⟩
    obtain rfl := run.unique begun.around inInt.exact
    obtain ⟨turns, vm', ran, idle, output, -⟩ := begun.runs fits.short inInt
    exact ⟨turns, vm', ran, idle, output⟩
  · intro endless
    refine runVm_endless fun k => ?_
    obtain ⟨m, comes⟩ := endless k
    exact ⟨m, begun.keepsUp fits.short comes⟩

end Driver

/-- The text of the program `summing` and a newline. -/
def summingText : List UInt8 :=
  [118, 97, 114, 32, 110, 44, 32, 114, 59, 32, 112, 114, 111, 99, 101, 100, 117, 114, 101, 32, 102,
    59, 32, 118, 97, 114, 32, 107, 59, 32, 112, 114, 111, 99, 101, 100, 117, 114, 101, 32, 103, 59,
    32, 98, 101, 103, 105, 110, 32, 114, 32, 58, 61, 32, 114, 32, 43, 32, 107, 32, 101, 110, 100,
    59, 32, 98, 101, 103, 105, 110, 32, 107, 32, 58, 61, 32, 110, 59, 32, 110, 32, 58, 61, 32, 110,
    32, 45, 32, 49, 59, 32, 105, 102, 32, 110, 32, 62, 32, 48, 32, 116, 104, 101, 110, 32, 99, 97,
    108, 108, 32, 102, 59, 32, 99, 97, 108, 108, 32, 103, 32, 101, 110, 100, 59, 32, 98, 101, 103,
    105, 110, 32, 114, 101, 97, 100, 32, 110, 59, 32, 99, 97, 108, 108, 32, 102, 59, 32, 119, 114,
    105, 116, 101, 32, 114, 32, 101, 110, 100, 46, 10]

theorem summingText_scanned : ∃ tokenTable, scannerRun 400 summingText = .ok (some tokenTable) ∧
    tokenTable.map tokenOf = summing := by
  have looked : ((scannerRun 400 summingText).toOption.bind id).map (List.map tokenOf) =
      some summing := by
    decide +kernel
  obtain ⟨tokenTable, held, tokens⟩ := Option.map_eq_some_iff.mp looked
  refine ⟨tokenTable, ?_, tokens⟩
  cases scanned : scannerRun 400 summingText with
  | error fault =>
    rw [scanned] at held
    cases held
  | ok table =>
    rw [scanned] at held
    exact congrArg Except.ok held

theorem summing_storable {block : BlockNode} {s : ParseState}
    (accepted : parse 60 summing = .ok block s) :
    Storable (prepareMcode s.gen.code FINAL_CODE) := by
  have looked : returned?
    (fun _ (s : ParseState) => decide ((∀ ir ∈ prepareMcode s.gen.code FINAL_CODE,
      InInt ir.op ∧ InInt ir.r ∧ InInt ir.l ∧ InInt ir.m) ∧
      ((prepareMcode s.gen.code FINAL_CODE).length : Int) < maxCodeLength)) (parse 60 summing) =
        some true := by
    decide +kernel
  rw [accepted] at looked
  obtain ⟨ints, short⟩ := of_decide_eq_true (Option.some.inj looked)
  refine ⟨fun ir member => ?_, short⟩
  obtain ⟨op, r, l, m⟩ := ints ir member
  exact ⟨op, r, l, m⟩

/-- Typed 2, the compiled text prints 3. -/
theorem driver_translates_summing : ∃ turns vm,
    driverMachine 400 60 turns (some summingText) [2] = .ok (some vm) ∧ vm.status = .idle ∧
      vm.output = [3] := by
  obtain ⟨tokenTable, scanned, tokens⟩ := summingText_scanned
  obtain ⟨s, accepted, fits⟩ := summing_parsed
  have storable := summing_storable accepted
  rw [← tokens] at accepted
  obtain ⟨m, performs, printed⟩ := summing_performs
  obtain ⟨turns, vm, ran, idle, output⟩ :=
    (driver_translates scanned accepted fits storable).1 m performs.exact ⟨m, performs⟩
  exact ⟨turns, vm, ran, idle, output.trans printed⟩

end Pl0
