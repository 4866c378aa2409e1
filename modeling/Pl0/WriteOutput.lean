import Pl0.CodeExecution

set_option autoImplicit false

namespace Pl0

open StateExcept

/- Two places of the parser translate the use of a name: `factorParse`, and the write
statement with its own `generateWrite`. -/

/-- The code runs to its end and prints the value. -/
def Prints (code : List Instruction) (v : Int) (vm : VirtualMachine) : Prop :=
  ∃ vm', execute code vm = .ok vm' ∧ vm'.output = vm.output ++ [v]

/-- The write statement prints what the name has in an expression: the same value, or none
on either side. -/
def WriteAgrees (g : GenState) (symbol : Symbol) (vm : VirtualMachine) : Prop :=
  ∀ v, Prints (emittedCode g (g.writeSymbol symbol)) v vm ↔
    Computes (emittedCode g (g.loadKnown (some symbol))) g.registerPtr v vm

/-- The cell `m` of the activation `l` static links away holds the value. -/
def CellHolds (vm : VirtualMachine) (l m v : Int) : Prop :=
  ∃ b, base vm l vm.bp = .ok b ∧ readStack vm (b + m) = .ok v

section Emitted

variable (g : GenState) (symbol : Symbol)

theorem emittedCode_writeSymbol : emittedCode g (g.writeSymbol symbol) =
    [if symbol.kind = .varS then instr .lod g.registerPtr (g.globalLevel - symbol.level) symbol.addr
      else instr .lod g.registerPtr 0 symbol.val, instr .sio g.registerPtr 0 1] := by
  unfold emittedCode
  change List.drop _ (generateWrite g.code g.currentProcedure g.registerPtr symbol g.globalLevel
    g.currentProcedure) = _
  unfold generateWrite appendCode
  by_cases variable_ : symbol.kind = .varS
  · simp only [if_pos variable_, Function.update_self, List.append_assoc, List.drop_left]
    rfl
  · simp only [if_neg variable_, Function.update_self, List.append_assoc, List.drop_left]
    rfl

theorem emittedCode_load (kind : symbol.kind = .varS) :
    emittedCode g (g.loadKnown (some symbol)) =
      [instr .lod g.registerPtr (g.globalLevel - symbol.level) symbol.addr] := by
  have loaded : g.loadKnown (some symbol) = g.load symbol := by
    simp only [GenState.loadKnown, kind]
  rw [loaded]
  unfold emittedCode
  change List.drop _ (generateLoad g.code g.currentProcedure g.registerPtr symbol g.globalLevel
    g.currentProcedure) = _
  rw [generateLoad, appendCode, Function.update_self, List.drop_left]
  rfl

theorem emittedCode_literal (kind : symbol.kind = .constS) :
    emittedCode g (g.loadKnown (some symbol)) = [instr .lit g.registerPtr 0 symbol.val] := by
  have loaded : g.loadKnown (some symbol) = g.literal symbol.val := by
    simp only [GenState.loadKnown, kind]
  rw [loaded]
  unfold emittedCode
  change List.drop _ (generateLiteral g.code g.currentProcedure g.registerPtr symbol.val
    g.currentProcedure) = _
  rw [generateLiteral, appendCode, Function.update_self, List.drop_left]
  rfl

end Emitted

section Execution

variable {n l m v : Int} {vm : VirtualMachine}

theorem computes_lit_iff {value : Int} (inside : 0 ≤ n ∧ n < commonRegisterNumber) :
    Computes [instr .lit n 0 value] n v vm ↔ value = v := by
  constructor
  · rintro ⟨vm', executed, -, there⟩
    obtain ⟨other, run, -, result⟩ : Computes [instr .lit n 0 value] n value vm :=
      computes_lit value inside
    obtain rfl := Except.ok.inj (executed.symm.trans run)
    exact result.symm.trans there
  · rintro rfl
    exact computes_lit value inside

/-- LOD copies a cell to its register. -/
theorem execute_lod_eq_ok (inside : 0 ≤ n ∧ n < commonRegisterNumber) {vm' : VirtualMachine} :
    instructionExecution (vm.fetched (instr .lod n l m)) = .ok vm' ↔
      ∃ v, CellHolds vm l m v ∧
        { vm.fetched (instr .lod n l m) with r := Function.update vm.r n v } = vm' := by
  change (do
    let b ← base (vm.fetched (instr .lod n l m)) l vm.bp
    let value ← readStack (vm.fetched (instr .lod n l m)) (b + m)
    writeReg (vm.fetched (instr .lod n l m)) n value) = _ ↔ _
  rw [base_fetched]
  constructor
  · intro executed
    obtain ⟨b, linked, executed⟩ := Except.bind_eq_ok.mp executed
    obtain ⟨value, read, executed⟩ := Except.bind_eq_ok.mp executed
    obtain ⟨-, same⟩ := writeReg_eq_ok.mp executed
    exact ⟨value, ⟨b, linked, read⟩, same⟩
  · rintro ⟨value, ⟨b, linked, read⟩, same⟩
    rw [Except.bind_of_ok linked]
    exact Except.bind_eq_ok.mpr ⟨value, read, writeReg_eq_ok.mpr ⟨inside, same⟩⟩

theorem computes_lod_iff (inside : 0 ≤ n ∧ n < commonRegisterNumber) :
    Computes [instr .lod n l m] n v vm ↔ CellHolds vm l m v := by
  constructor
  · rintro ⟨vm', executed, -, there⟩
    rw [execute_one] at executed
    obtain ⟨value, holds, rfl⟩ := (execute_lod_eq_ok inside).mp executed
    have same : value = v := (Function.update_self n value vm.r).symm.trans there
    exact same ▸ holds
  · rintro ⟨b, linked, read⟩
    exact computes_lod linked read inside

theorem prints_lod_iff (inside : 0 ≤ n ∧ n < commonRegisterNumber) :
    Prints [instr .lod n l m, instr .sio n 0 1] v vm ↔ CellHolds vm l m v := by
  -- SIO prints the register that LOD wrote
  have printed : ∀ value, execute [instr .sio n 0 1]
      { vm.fetched (instr .lod n l m) with r := Function.update vm.r n value } =
        .ok { ({ vm.fetched (instr .lod n l m) with r := Function.update vm.r n value } :
          VirtualMachine).fetched (instr .sio n 0 1) with output := vm.output ++ [value] } := by
    intro value
    rw [execute_one]
    refine Except.bind_eq_ok.mpr ⟨value, readReg_eq_ok.mpr ⟨inside, ?_⟩, rfl⟩
    exact Function.update_self n value vm.r
  constructor
  · rintro ⟨vm', executed, written⟩
    rw [execute] at executed
    obtain ⟨next, loaded, rest⟩ := Except.bind_eq_ok.mp executed
    obtain ⟨value, holds, rfl⟩ := (execute_lod_eq_ok inside).mp loaded
    obtain rfl := Except.ok.inj ((printed value).symm.trans rest)
    have same : value = v := List.singleton_inj.mp (List.append_cancel_left written)
    exact same ▸ holds
  · intro holds
    have loaded : instructionExecution (vm.fetched (instr .lod n l m)) = .ok _ :=
      (execute_lod_eq_ok inside).mpr ⟨v, holds, rfl⟩
    have run := (Except.bind_of_ok loaded (execute [instr .sio n 0 1])).trans (printed v)
    exact ⟨_, run, rfl⟩

end Execution

/-- A variable is written as an expression reads it. A constant is written from the cell of
the current activation that its value numbers, so it agrees where that cell holds the
value. -/
theorem writeAgrees_iff (g : GenState) (symbol : Symbol) (vm : VirtualMachine)
    (register : 0 ≤ g.registerPtr ∧ g.registerPtr < commonRegisterNumber)
    (data : symbol.kind = .constS ∨ symbol.kind = .varS) :
    WriteAgrees g symbol vm ↔ symbol.kind = .varS ∨
      ((0 ≤ vm.bp + symbol.val ∧ vm.bp + symbol.val < maxStackHeight) ∧
        vm.stack (vm.bp + symbol.val) = symbol.val) := by
  unfold WriteAgrees
  rw [emittedCode_writeSymbol]
  rcases data with constant | variable_
  · have other : symbol.kind ≠ .varS := by
      rw [constant]
      decide
    have own : ∀ v, CellHolds vm 0 symbol.val v ↔ readStack vm (vm.bp + symbol.val) = .ok v := by
      intro v
      constructor
      · rintro ⟨b, linked, read⟩
        obtain rfl : vm.bp = b := Except.ok.inj linked
        exact read
      · exact fun read => ⟨vm.bp, rfl, read⟩
    simp only [emittedCode_literal g symbol constant, if_neg other, prints_lod_iff register,
      computes_lit_iff register, own]
    constructor
    · intro agrees
      exact .inr (readStack_eq_ok.mp ((agrees symbol.val).mpr rfl))
    · rintro (variable_ | cell) v
      · exact absurd variable_ other
      · rw [readStack_eq_ok.mpr cell, Except.ok.injEq]
  · simp only [emittedCode_load g symbol variable_, if_pos variable_, prints_lod_iff register,
      computes_lod_iff register]
    exact iff_of_true (fun _ => trivial) (.inl variable_)

/-- The symbol of `const c = 1`. -/
def constantOne : Symbol := initGen.newSymbol .constS [99] 1 0

theorem writeAgrees_iff_constantOne : WriteAgrees initGen constantOne initVm ↔
    constantOne.kind = .varS ∨
      ((0 ≤ initVm.bp + constantOne.val ∧ initVm.bp + constantOne.val < maxStackHeight) ∧
        initVm.stack (initVm.bp + constantOne.val) = constantOne.val) :=
  writeAgrees_iff initGen constantOne initVm (by decide) (.inl rfl)

theorem write_disagrees : ¬ ∀ (g : GenState) (symbol : Symbol) (vm : VirtualMachine),
    0 ≤ g.registerPtr ∧ g.registerPtr < commonRegisterNumber →
      symbol.kind = .constS ∨ symbol.kind = .varS → WriteAgrees g symbol vm := by
  intro always
  have printed := (always initGen constantOne initVm (by decide) (.inl rfl) 1).mpr
    ((computes_lit_iff (by decide)).mpr rfl)
  obtain ⟨vm', executed, output⟩ := printed
  have run : (execute (emittedCode initGen (initGen.writeSymbol constantOne)) initVm).map
      (·.output) = .ok [0] := by
    rfl
  rw [executed] at run
  have zero : vm'.output = [0] := Except.ok.inj run
  rw [zero] at output
  exact absurd output (by decide)

/-- `const c = 1; begin write c end.` prints 0. -/
example : (runVm 10 (startVm (prepareMcode (stateOf (parse 20 [.word .constsym, .ident [99],
    .word .eqlsym, .number 1, .word .semicolonsym, .word .beginsym, .word .writesym, .ident [99],
    .word .endsym, .word .periodsym])).gen.code FINAL_CODE) [])).map
      (·.map (·.output)) = .ok (some [0]) := by
  rfl

end Pl0
