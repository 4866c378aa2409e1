import Pl0.MainNames

set_option autoImplicit false

namespace Pl0

open StateExcept

/-- A program without procedures that was accepted without a word, whose names have hashcodes
of their own, that writes no constant, and that the registers, the stack and the code memory of
the machine are large enough for. -/
structure Translatable (block : BlockNode) (s : ParseState) : Prop where
  silent : s.reports = []
  free : block.procedures = []
  distinct : (block.names.map fun name => hashcode (symTableInit 100) name).Nodup
  writes : ∀ name ∈ block.statement.writes, name ∈ block.varNames
  registers : ∀ ir ∈ prepareMcode s.gen.code FINAL_CODE, ∀ i ∈ registerOperands ir,
    i < commonRegisterNumber
  room : block.varDecl.length + 4 < maxStackHeight
  short : (prepareMcode s.gen.code FINAL_CODE).length < maxCodeLength

/-- The machine runs the program to its halt, prints what the source does, and leaves the
values of the variables in their cells. -/
def RunsAs (program : List Instruction) (block : BlockNode) (input : List Int)
    (final : Store) : Prop :=
  ∃ fuel vm, runVm fuel (startVm program input) = .ok (some vm) ∧ vm.status = .idle ∧
    vm.output = final.output ∧ ∀ v ∈ block.varDecl, vm.stack (1 + v.addr) = final.value v.ident

section Parse

variable {fuel : Nat} {tokens : List CurrentToken} {block : BlockNode} {s : ParseState}

/-- The code set of the main block, and how it finds its names. -/
theorem parse_main (accepted : parse fuel tokens = .ok block s) (fits : Translatable block s) :
    ∃ c, Resolves c block ∧ s.gen.code 0 = instr .inc 0 0 (block.varDecl.length + 4) ::
      (compileStatement c block.statement 0 0 ++ [instr .sio 0 0 3]) := by
  obtain ⟨g, ⟨declared, d, declares, shape, rfl⟩, last⟩ := parse_runs accepted
  have few : declared.procedureCount < maxCodeSets := by
    rw [declares.main_procedureCount shape, fits.free]
    decide
  have none : d.procDef.procedures = [] := by
    have free := fits.free
    rw [shape] at free
    exact free
  have filled := declares.filled mainGen_fresh few
  have current : declared.currentProcedure = 0 := filled.currentProcedure
  have level : declared.globalLevel = 0 := filled.globalLevel
  have own : declared.code 0 = [] := (filled.kept 0 (Int.le_refl 0)).trans rfl
  have final := finishMain_code block.statement current filled.registerPtr own
    (block.varDecl.length + 4)
  obtain ⟨symbols, entered⟩ := declares.entered none
  have names : block.names.Perm (symbols.map (·.name)) := by
    rw [shape]
    exact entered.names
  have distinct : (symbols.map fun t => hashcode (symTableInit 100) t.name).Nodup := by
    have moved :=
      (names.map fun name => hashcode (symTableInit 100) name).nodup_iff.mp fits.distinct
    rwa [List.map_map] at moved
  have holds : HoldsSymbols declared.symbolTable symbols := by
    rw [entered.table]
    exact holds_of_eachStored (eachStored_of_distinct distinct)
  have looked : ∀ symbol ∈ symbols, declared.context.lookup symbol.name = some symbol :=
    fun symbol member => holds.getSymbol_eq distinct member declared.globalLevel
  have layout := declares.main_frameLayout shape
  refine ⟨declared.context, ⟨current, ?_, ?_, ?_, ?_⟩, ?_⟩
  · intro k member
    rw [shape] at member
    rcases entered.consts k member with old | ⟨symbol, inside, named, kind, val⟩
    · cases old
    · exact ⟨symbol, named ▸ looked symbol inside, kind, val⟩
  · intro v member
    rw [shape] at member
    rcases entered.vars v member with old | ⟨symbol, inside, named, kind, deep, addr⟩
    · cases old
    · exact ⟨symbol, named ▸ looked symbol inside, kind, deep.trans level.symm, addr⟩
  · intro v member
    have bounds := layout.reserved member
    have room := fits.room
    omega
  · intro v member w member' same
    have nodup : (block.varDecl.map (·.addr)).Nodup := by
      rw [layout]
      exact addressesFrom_nodup _ _
    rw [List.inj_on_of_nodup_map nodup member member' same]
  · rw [last, final, Function.update_self]

/-- The machine enters the main block through the jump of set 0 and reserves the frame. -/
theorem main_entered (block : BlockNode) {code : CodeSets} {program : List Instruction}
    {start : Nat} {space : Int} {body : List Instruction} (placed : Placed code program 0 start)
    (row : code 0 = instr .inc 0 0 space :: body) (short : program.length ≤ maxCodeLength)
    (small : InInt space) (input : List Int) :
    ∃ vm, Turns (startVm program input) vm ∧
      StandsAt program (start + 1) block (Store.start input) 0 vm := by
  have main : code (0 : Nat) = instr .inc 0 0 space :: body := row
  have first : program[start]? = some (instr .inc 0 0 space) :=
    placed.rows 0 (instr .inc 0 0 space) (by rw [main]; rfl)
  have inside := (List.getElem?_eq_some_iff.mp first).1
  have jump : Fetches (startVm program input) (procedureJump start) :=
    ⟨Int.le_refl 0, (by decide : (0 : Int) < maxCodeLength), placed.jump⟩
  have enter : Turn (startVm program input)
      { (startVm program input).fetched (procedureJump start) with pc := start } :=
    ⟨rfl, step_of_fetches jump⟩
  have inc : Fetches
    { (startVm program input).fetched (procedureJump start) with pc := (start : Int) }
      (instr .inc 0 0 space) := by
    refine ⟨Int.natCast_nonneg start, ?_, first⟩
    change (start : Int) < _
    omega
  have grown : toInt (0 + space) = .ok space :=
    toInt_eq_ok.mpr ⟨by rw [Int.zero_add]; exact small, Int.zero_add _⟩
  have reserve : Turn
    { (startVm program input).fetched (procedureJump start) with pc := (start : Int) } _ :=
    ⟨rfl, (step_of_fetches inc).trans (Except.bind_of_ok grown _)⟩
  refine ⟨_, (Relation.ReflTransGen.single enter).tail reserve, rfl, rfl, ?_, rfl,
    fun _ _ => rfl, rfl, rfl⟩
  change (start : Int) + 1 = _
  push_cast
  omega

/-- The halt ends the run. -/
theorem StandsAt.halts {program : List Instruction} {d i : Nat} {s : Store} {vm : VirtualMachine}
    (stands : StandsAt program d block s i vm) (contains : Contains program d i [instr .sio 0 0 3])
    (short : program.length ≤ maxCodeLength) :
    ∃ vm', Turn vm vm' ∧ vm'.status = .idle ∧ vm'.output = s.output ∧ vm'.stack = vm.stack := by
  have executed : instructionExecution (vm.fetched (instr .sio 0 0 3)) =
      .ok { vm.fetched (instr .sio 0 0 3) with status := .idle } := rfl
  exact ⟨_, stands.fetched_turn contains short executed, rfl, stands.output, rfl⟩

/-- Every register operand is one of the machine: none is negative. -/
theorem Translatable.fits (fits : Translatable block s) {c : CodeContext} {d : Nat}
    (contains : Contains (prepareMcode s.gen.code FINAL_CODE) d 0
      (compileStatement c block.statement 0 0)) :
    FitsRegisters (compileStatement c block.statement 0 0) := by
  intro ir member i operand
  refine ⟨(names_statement c block.statement 0 0 ir member i operand).1, ?_⟩
  obtain ⟨j, found⟩ := List.getElem?_of_mem member
  have moved := List.mem_of_getElem? (contains j ir found)
  apply fits.registers _ moved
  rw [registerOperands_relocate]
  exact operand

/-- For every accepted program without procedures that fits the tables and the machine, and
every run of its source that terminates: if no result on the way leaves the type `int`, the
machine runs the linked code as the source runs. -/
theorem program_translated (accepted : parse fuel tokens = .ok block s)
    (fits : Translatable block s)
    {input : List Int} {final : Store}
    (run : Executes exactArithmetic block block.statement (.start input) final)
    (small : ∃ final', Executes intArithmetic block block.statement (.start input) final') :
    RunsAs (prepareMcode s.gen.code FINAL_CODE) block input final := by
  obtain ⟨final', inInt⟩ := small
  obtain rfl := run.unique inInt.of_int
  obtain ⟨c, resolves, row⟩ := parse_main accepted fits
  have short : (prepareMcode s.gen.code FINAL_CODE).length ≤ maxCodeLength := by
    have bound := fits.short
    omega
  have layout := parse_layout accepted (by rw [fits.free]; decide)
  obtain ⟨start, -, placed⟩ := layout.placed (by rw [fits.free]; decide) (k := 0) (Nat.zero_le _)
  have behind : Contains (prepareMcode s.gen.code FINAL_CODE) (start + 1) 0
      (compileStatement c block.statement 0 0 ++ [instr .sio 0 0 3]) := by
    intro j ir found
    have main : s.gen.code (0 : Nat) = instr .inc 0 0 (block.varDecl.length + 4) ::
      (compileStatement c block.statement 0 0 ++ [instr .sio 0 0 3]) := row
    have moved := placed.rows (j + 1) ir (by rw [main]; exact found)
    have place : start + 1 + 0 + j = start + (j + 1) := by omega
    rw [place]
    exact moved
  have space : InInt (block.varDecl.length + 4) := by
    have room := fits.room
    have limit : maxStackHeight = 2000 := rfl
    unfold InInt intMin intMax
    omega
  obtain ⟨vm1, entered, there⟩ := main_entered block placed row short space input
  obtain ⟨vm2, turns, done⟩ :=
    inInt.turns resolves short behind.left (fits.fits behind.left) fits.writes there
  obtain ⟨vm3, turn, idle, printed, kept⟩ := done.halts behind.right short
  obtain ⟨fuel, ran⟩ := runVm_of_turns ((entered.trans turns).tail turn) (by rw [idle]; decide)
  refine ⟨fuel, vm3, ran, idle, printed, ?_⟩
  intro v member
  rw [kept]
  exact done.cells v member

end Parse

/-- `const k = 1; var x; begin read x; while x > 0 do begin write x; x := x - k end end.` -/
def countdown : List CurrentToken :=
  [.word .constsym, .ident [107], .word .eqlsym, .number 1, .word .semicolonsym, .word .varsym,
    .ident [120], .word .semicolonsym, .word .beginsym, .word .readsym, .ident [120],
    .word .semicolonsym, .word .whilesym, .ident [120], .word .gtrsym, .number 0, .word .dosym,
    .word .beginsym, .word .writesym, .ident [120], .word .semicolonsym, .ident [120],
    .word .becomessym, .ident [120], .word .minussym, .ident [107], .word .endsym, .word .endsym,
    .word .periodsym]

/-- The body of its loop. -/
def countdownBody : StatementNode :=
  .begin <| .cons (.write [120]) <| .cons
    (.assign [120] (.cons .unset (.cons .nulsym (.ident [120]) .nil)
      (.cons .minussym (.cons .nulsym (.ident [107]) .nil) .nil))) .nil

/-- Its tree. -/
def countdownBlock : BlockNode :=
  .mk [⟨[107], 1, 0, 0, 4⟩] [⟨[120], 0, 0, 4⟩] .nil <| .begin <| .cons (.read [120]) <| .cons
    (.while
      (.relOp .gtrsym (.cons .unset (.cons .nulsym (.ident [120]) .nil) .nil)
        (.cons .unset (.cons .nulsym (.digit 0) .nil) .nil)) countdownBody) .nil

theorem countdown_parsed : ∃ s, parse 40 countdown = .ok countdownBlock s ∧
    Translatable countdownBlock s := by
  have looked : returned? (fun block s => (block, s.reports, prepareMcode s.gen.code FINAL_CODE))
      (parse 40 countdown) = some (countdownBlock, [],
        [instr .jmp 0 0 1, instr .inc 0 0 5, instr .sio 0 0 2, instr .sto 0 0 4, instr .lod 0 0 4,
          instr .lit 1 0 0, instr .gtr 0 0 1, instr .jpc 0 0 15, instr .lod 1 0 4, instr .sio 1 0 1,
          instr .lod 1 0 4, instr .lit 2 0 1, instr .sub 1 1 2, instr .sto 1 0 4, instr .jmp 0 0 4,
          instr .sio 0 0 3]) := by
    decide +kernel
  obtain ⟨block, s, accepted, found⟩ := returned?_eq_some.mp looked
  obtain ⟨rfl, silent, code⟩ := by simpa only [Prod.mk.injEq] using found
  refine ⟨s, accepted, silent, rfl, by decide +kernel, by decide, ?_, by decide, ?_⟩
  · rw [code]
    decide
  · rw [code]
    decide

/-- A round of the loop prints the variable and subtracts the constant from it. -/
theorem countdown_round (s : Store) (small : InInt (s.value [120] - 1)) :
    Executes intArithmetic countdownBlock countdownBody s
      ({ s with output := s.output ++ [s.value [120]] }.set [120] (s.value [120] - 1)) := by
  have difference : (intOnly (s.value [120] - 1)).bind some = some (s.value [120] - 1) := by
    rw [intOnly, if_pos small, Option.bind_some]
  exact .next (.write rfl) (.next (.assign (by decide) difference) (.done _))

theorem countdown_executes : ∃ final,
    Executes intArithmetic countdownBlock countdownBlock.statement (.start [2]) final ∧
      final.output = [2, 1] :=
  ⟨_, .next (.read (by decide) rfl) (.next (.again rfl (countdown_round _ (by decide))
    (.again rfl (countdown_round _ (by decide)) (.leave rfl))) (.done _)), rfl⟩

theorem program_translated_countdown : ∃ s final, parse 40 countdown = .ok countdownBlock s ∧
    Executes exactArithmetic countdownBlock countdownBlock.statement (.start [2]) final ∧
    final.output = [2, 1] ∧ RunsAs (prepareMcode s.gen.code FINAL_CODE) countdownBlock
      [2] final := by
  obtain ⟨s, accepted, fits⟩ := countdown_parsed
  obtain ⟨final, executes, printed⟩ := countdown_executes
  exact ⟨s, final, accepted, executes.of_int, printed,
    program_translated accepted fits executes.of_int ⟨final, executes⟩⟩

/-- `var x; x := 90000 * 90000.` -/
def wideProduct : List CurrentToken :=
  [.word .varsym, .ident [120], .word .semicolonsym, .ident [120], .word .becomessym,
    .number 90000, .word .multsym, .number 90000, .word .periodsym]

def wideProductBlock : BlockNode :=
  .mk [] [⟨[120], 0, 0, 4⟩] .nil <| .assign [120] <|
    .cons .unset (.cons .nulsym (.digit 90000) (.cons .multsym (.digit 90000) .nil)) .nil

/-- The product is exact in the source, and undefined on the machine. -/
theorem wideProduct_untranslated : ¬ ∀ (fuel : Nat) (tokens : List CurrentToken) (block : BlockNode)
    (s : ParseState) (input : List Int) (final : Store), parse fuel tokens = .ok block s →
      Translatable block s → Executes exactArithmetic block block.statement (.start input) final →
      RunsAs (prepareMcode s.gen.code FINAL_CODE) block input final := by
  intro always
  have looked : returned? (fun block s => (block, s.reports, prepareMcode s.gen.code FINAL_CODE))
      (parse 20 wideProduct) = some (wideProductBlock, [],
        [instr .jmp 0 0 1, instr .inc 0 0 5, instr .lit 0 0 90000, instr .lit 1 0 90000,
          instr .mul 0 0 1, instr .sto 0 0 4, instr .sio 0 0 3]) := by
    decide +kernel
  obtain ⟨block, s, accepted, found⟩ := returned?_eq_some.mp looked
  obtain ⟨rfl, silent, code⟩ := by simpa only [Prod.mk.injEq] using found
  have fits : Translatable wideProductBlock s := by
    refine ⟨silent, rfl, by decide +kernel, by decide, ?_, by decide, ?_⟩
    · rw [code]
      decide
    · rw [code]
      decide
  have product : Executes exactArithmetic wideProductBlock wideProductBlock.statement
    (.start []) _ :=
    .assign (by decide) (rfl : _ = some (8100000000 : Int))
  obtain ⟨fuel, vm, ran, -⟩ := always 20 wideProduct wideProductBlock s [] _ accepted fits product
  rw [code] at ran
  -- The fault comes at the fifth instruction, however often the loop may turn.
  rcases fuel with _ | _ | _ | _ | _ | fuel
  all_goals cases ran

end Pl0
