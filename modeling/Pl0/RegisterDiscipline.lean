import Pl0.CodeExecution
import Pl0.CodeLayout
import Pl0.StatementExit
import Pl0.VirtualMachineStep

set_option autoImplicit false

namespace Pl0

open StateExcept

/-- Whether an instruction writes the register `r` of its own. -/
def writesRegister (ir : Instruction) : Bool :=
  match Opcode.ofInt? ir.op with
  | some .sio => ir.m = 2
  | some .rtn | some .sto | some .cal | some .inc | some .jmp | some .jpc | some .sio2 | some .sio3
  | none => false
  | some _ => true

/-- `vm'` differs from `vm` in no register but `i`, and in that one only if it may. -/
def WritesOnly (may : Bool) (i : Int) (vm vm' : VirtualMachine) : Prop :=
  ∀ j, vm'.r j ≠ vm.r j → may = true ∧ j = i

theorem writesOnly_of_eq {may : Bool} {i : Int} {vm vm' : VirtualMachine} (same : vm'.r = vm.r) :
    WritesOnly may i vm vm' :=
  fun j changed => absurd (congrFun same j) changed

theorem writesOnly_writeReg {i value : Int} {vm vm' : VirtualMachine}
    (written : writeReg vm i value = .ok vm') : WritesOnly true i vm vm' := by
  obtain ⟨-, rfl⟩ := writeReg_eq_ok.mp written
  intro j changed
  refine ⟨rfl, ?_⟩
  by_contra other
  exact changed (Function.update_of_ne other value vm.r)

theorem writesOnly_sio {i k : Int} {vm vm' : VirtualMachine}
    (executed : executeSio vm i k = .ok vm') :
    WritesOnly (k = 2) i vm vm' := by
  unfold executeSio at executed
  split at executed
  · obtain ⟨value, -, returned⟩ := Except.bind_eq_ok.mp executed
    exact writesOnly_of_eq (congrArg VirtualMachine.r (Except.pure_eq_ok.mp returned)).symm
  · split at executed
    · obtain ⟨value, -, returned⟩ := Except.bind_eq_ok.mp executed
      exact writesOnly_of_eq (congrArg VirtualMachine.r (Except.pure_eq_ok.mp returned)).symm
    · obtain ⟨next, written, returned⟩ := Except.bind_eq_ok.mp executed
      have only := writesOnly_writeReg written
      rw [← Except.pure_eq_ok.mp returned]
      exact only
  · cases executed
    exact writesOnly_of_eq rfl
  · cases executed
    exact writesOnly_of_eq rfl

theorem instructionExecution_writes {vm vm' : VirtualMachine}
    (executed : instructionExecution vm = .ok vm') :
    WritesOnly (writesRegister vm.ir) vm.ir.r vm vm' := by
  unfold instructionExecution at executed
  unfold writesRegister
  cases decoded : Opcode.ofInt? vm.ir.op with
  | none =>
      rw [decoded] at executed
      cases executed
      exact writesOnly_of_eq rfl
  | some op =>
      rw [decoded] at executed
      cases op with
      | lit => exact writesOnly_writeReg executed
      | rtn =>
          simp only [executeRtn, Except.bind_eq_ok, writeFrameBreak_eq_ok,
            Except.pure_eq_ok] at executed
          obtain ⟨_, -, _, -, _, ⟨-, rfl⟩, rfl⟩ := executed
          exact writesOnly_of_eq rfl
      | lod =>
          obtain ⟨b, -, executed⟩ := Except.bind_eq_ok.mp executed
          obtain ⟨value, -, written⟩ := Except.bind_eq_ok.mp executed
          exact writesOnly_writeReg written
      | sto =>
          obtain ⟨b, -, executed⟩ := Except.bind_eq_ok.mp executed
          obtain ⟨value, -, written⟩ := Except.bind_eq_ok.mp executed
          obtain ⟨-, rfl⟩ := writeStack_eq_ok.mp written
          exact writesOnly_of_eq rfl
      | cal =>
          simp only [executeCal, Except.bind_eq_ok, writeStack_eq_ok, writeFrameBreak_eq_ok,
            Except.pure_eq_ok] at executed
          obtain ⟨_, ⟨-, rfl⟩, _, -, _, ⟨-, rfl⟩, _, ⟨-, rfl⟩, _, ⟨-, rfl⟩, _, ⟨-, rfl⟩, rfl⟩ :=
            executed
          exact writesOnly_of_eq rfl
      | inc =>
          obtain ⟨sp, -, returned⟩ := Except.bind_eq_ok.mp executed
          exact writesOnly_of_eq (congrArg VirtualMachine.r (Except.pure_eq_ok.mp returned)).symm
      | jmp | sio2 | sio3 =>
          cases executed
          exact writesOnly_of_eq rfl
      | jpc =>
          obtain ⟨value, -, returned⟩ := Except.bind_eq_ok.mp executed
          have same := Except.pure_eq_ok.mp returned
          split at same <;> exact writesOnly_of_eq (congrArg VirtualMachine.r same).symm
      | sio => exact writesOnly_sio executed
      | neg =>
          obtain ⟨value, -, executed⟩ := Except.bind_eq_ok.mp executed
          obtain ⟨negated, -, written⟩ := Except.bind_eq_ok.mp executed
          exact writesOnly_writeReg written
      | odd =>
          obtain ⟨value, -, written⟩ := Except.bind_eq_ok.mp executed
          exact writesOnly_writeReg written
      | _ =>
          obtain ⟨x, -, executed⟩ := Except.bind_eq_ok.mp executed
          obtain ⟨y, -, executed⟩ := Except.bind_eq_ok.mp executed
          obtain ⟨value, -, written⟩ := Except.bind_eq_ok.mp executed
          exact writesOnly_writeReg written

/-- The code leaves the registers below `n` alone. -/
def WritesFrom (n : Int) (code : List Instruction) : Prop :=
  ∀ ir ∈ code, writesRegister ir = true → n ≤ ir.r

namespace WritesFrom

variable {n : Int} {a b : List Instruction} {ir : Instruction}

theorem nil : WritesFrom n [] :=
  fun _ none => absurd none List.not_mem_nil

theorem append (first : WritesFrom n a) (second : WritesFrom n b) : WritesFrom n (a ++ b) :=
  List.forall_mem_append.mpr ⟨first, second⟩

/-- An instruction without a result. -/
theorem none (without : writesRegister ir = false) : WritesFrom n [ir] := by
  intro other member written
  rw [List.mem_singleton.mp member, without] at written
  cases written

/-- What the code does when it is executed: the registers below `n` keep their values. -/
theorem executed {vm vm' : VirtualMachine} (writes : WritesFrom n a)
    (ran : execute a vm = .ok vm') :
    ∀ i < n, vm'.r i = vm.r i := by
  induction a generalizing vm with
  | nil =>
      cases ran
      exact fun _ _ => rfl
  | cons ir rest ih =>
      obtain ⟨next, first, more⟩ := Except.bind_eq_ok.mp ran
      obtain ⟨own, others⟩ := List.forall_mem_cons.mp writes
      intro i below
      rw [ih others more i below]
      by_contra changed
      obtain ⟨written, same⟩ := instructionExecution_writes first i changed
      have above : n ≤ ir.r := own written
      have there : i = ir.r := same
      omega

end WritesFrom

/-- The register that an instruction writes is one of its operands. -/
theorem writesRegister_operand {ir : Instruction} (written : writesRegister ir = true) :
    ir.r ∈ registerOperands ir := by
  unfold writesRegister at written
  unfold registerOperands
  cases decoded : Opcode.ofInt? ir.op with
  | none =>
      rw [decoded] at written
      cases written
  | some op =>
      rw [decoded] at written
      cases op <;> simp at written ⊢

theorem NamesWithin.writes {n high : Int} {code : List Instruction}
    (names : NamesWithin n high code) :
    WritesFrom n code :=
  fun ir member written => (names ir member ir.r (writesRegister_operand written)).1

/-- `g'` has the code of `g` and new instructions that write no register below `n`,
whichever set they went to and wherever in it. -/
def EmitsFrom (n : Int) (g g' : GenState) : Prop :=
  ∀ set, ∃ fresh, (g'.code set).Perm (g.code set ++ fresh) ∧ WritesFrom n fresh

namespace EmitsFrom

variable {n : Int} {g g' g'' : GenState}

theorem of_code (same : g'.code = g.code) : EmitsFrom n g g' :=
  fun set => ⟨[], by rw [same, List.append_nil], .nil⟩

theorem trans (first : EmitsFrom n g g') (second : EmitsFrom n g' g'') : EmitsFrom n g g'' := by
  intro set
  obtain ⟨early, placed, writes⟩ := first set
  obtain ⟨late, placed', writes'⟩ := second set
  refine ⟨early ++ late, ?_, writes.append writes'⟩
  rw [← List.append_assoc]
  exact placed'.trans (placed.append_right late)

theorem of_emitted {code : List Instruction} {count : Int} (emitted : Emitted g g' code count)
    (writes : WritesFrom n code) : EmitsFrom n g g' := by
  intro set
  rw [emitted.code]
  by_cases own : set = g.currentProcedure
  · rw [own, Function.update_self]
    exact ⟨code, .refl _, writes⟩
  · rw [Function.update_of_ne own]
    exact ⟨[], by rw [List.append_nil], .nil⟩

/-- The INC of a block goes before the rest of its set. -/
theorem reserveSpace (g : GenState) (space : Int) : EmitsFrom n g (g.reserveSpace space) := by
  intro set
  have inc : WritesFrom n [instr .inc 0 0 space] := .none rfl
  change ∃ fresh, (prependCode g.code g.currentProcedure Opcode.inc.toInt 0 0 space set).Perm _ ∧ _
  rw [prependCode_eq]
  by_cases own : set = g.currentProcedure
  · rw [own, Function.update_self]
    exact ⟨[instr .inc 0 0 space], (List.perm_append_singleton _ _).symm, inc⟩
  · rw [Function.update_of_ne own]
    exact ⟨[], by rw [List.append_nil], .nil⟩

end EmitsFrom

theorem makeProc_registerPtr (g : GenState) (name : Name) :
    (g.makeProc name).registerPtr = g.registerPtr := by
  unfold GenState.makeProc GenState.getFreeSet
  dsimp only
  cases (List.range maxCodeSets).find? fun i => !g.inUse i <;> rfl

theorem genBody_emitsFrom (statement : StatementNode) (g : GenState) :
    EmitsFrom g.registerPtr g (genBody statement g) :=
  .of_emitted (genBody_emits statement g) (names_statement _ _ _ _).writes

/-- Declarations leave the registers as they are, and so do the procedures among them. -/
theorem Declares.registers {g g' : GenState} {d d' : Declarations} (declares : Declares g d g' d') :
    g'.registerPtr = g.registerPtr ∧ EmitsFrom g.registerPtr g g' := by
  induction declares with
  | done g => exact ⟨rfl, .of_code rfl⟩
  | const name value small inside rest ih => exact ih
  | var name inside rest ih => exact ih
  | @proc g gb g' d inner d' name statement nested rest ihNested ih =>
      obtain ⟨balanced, emits⟩ := ihNested
      have opened : (g.makeProc name).openBlock.registerPtr = g.registerPtr :=
        makeProc_registerPtr g name
      rw [opened] at balanced emits
      have body := genBody_emitsFrom statement gb
      rw [balanced] at body
      have kept : (genBody statement gb).registerPtr = g.registerPtr := by
        rw [(genBody_emits statement gb).registerPtr, balanced, Int.add_zero]
      have made : EmitsFrom g.registerPtr g (g.makeProc name).openBlock :=
        .of_code (makeProc_code g name)
      have closed : EmitsFrom g.registerPtr (genBody statement gb)
          ((genBody statement gb).leaveProc g.currentProcedure (inner.varDecl.length + 4)) :=
        .reserveSpace (genBody statement gb).closeBlock _
      have left : ((genBody statement gb).leaveProc g.currentProcedure
          (inner.varDecl.length + 4)).registerPtr = g.registerPtr := kept
      rw [left] at ih
      exact ⟨ih.1, (((made.trans emits).trans body).trans closed).trans ih.2⟩

/-- A call of the parser that returns leaves so many registers in use beyond those before, and
its code writes none of those before. -/
def RegistersBalanced (s s' : ParseState) (count : Int) : Prop :=
  s'.gen.registerPtr = s.gen.registerPtr + count ∧ EmitsFrom s.gen.registerPtr s.gen s'.gen

theorem balanced_of_emitted {s s' : ParseState} {code : List Instruction} {count : Int}
    (emitted : Emitted s.gen s'.gen code count) (writes : WritesFrom s.gen.registerPtr code) :
    RegistersBalanced s s' count :=
  ⟨emitted.registerPtr, .of_emitted emitted writes⟩

theorem register_discipline (fuel : Nat) (preop : Token) (fsys : Symset) (s s' : ParseState) :
    (∀ f, factorParse fuel fsys s = .ok f s' → RegistersBalanced s s' 1) ∧
    (∀ e, termParse fuel preop fsys s = .ok e s' → RegistersBalanced s s' 1) ∧
    (∀ e, expressionParse fuel fsys s = .ok e s' → RegistersBalanced s s' 1) ∧
    (∀ cond, conditionParse fuel fsys s = .ok cond s' → RegistersBalanced s s' 1) ∧
    (∀ node, statementParse fuel fsys s = .ok node s' → RegistersBalanced s s' 0) ∧
    (∀ block, blockParse fuel fsys s = .ok block s' → RegistersBalanced s s' 0) := by
  refine ⟨?_, ?_, ?_, ?_, ?_, ?_⟩
  · intro f ran
    have emitted := genFactor_emits f s.gen
    rw [← factorParse_runs fuel fsys ran] at emitted
    exact balanced_of_emitted emitted (names_factor _ f _).writes
  · intro e ran
    have emitted := genFactors_emits e (some preop) s.gen
    rw [← termParse_runs fuel preop fsys ran] at emitted
    exact balanced_of_emitted emitted (names_factors _ e _ _).writes
  · intro e ran
    have emitted := genExpression_emits e s.gen
    rw [← expressionParse_runs fuel fsys ran] at emitted
    exact balanced_of_emitted emitted (names_terms _ e true _).writes
  · intro cond ran
    have emitted := genCondition_emits cond s.gen
    rw [← conditionParse_runs ran] at emitted
    exact balanced_of_emitted emitted (names_condition _ cond _).writes
  · intro node ran
    have emitted := genStatement_emits node s.gen _ rfl
    rw [← statementParse_runs fuel fsys ran] at emitted
    exact balanced_of_emitted emitted (names_statement _ node _ _).writes
  · intro block ran
    obtain ⟨declared, d, declares, -, bodyGen⟩ := blockParse_runs fuel fsys ran
    obtain ⟨balanced, emits⟩ := declares.registers
    have body := genBody_emitsFrom block.statement declared
    rw [← bodyGen, balanced] at body
    refine ⟨?_, emits.trans body⟩
    rw [bodyGen, (genBody_emits block.statement declared).registerPtr, balanced]

/-- `x = 1`, up to the semicolon behind it, where `x` is a variable: the parser takes the
slip for `:=`. -/
def slippedAssignment : ParseState :=
  { initParse [.word .eqlsym, .number 1, .word .semicolonsym] with
    gen := initGen.makeVar [120], curToken := .ident [120] }

theorem register_discipline_slipped : ∃ node s',
    statementParse 20 (createset [.semicolonsym]) slippedAssignment = .ok node s' ∧
      s'.reports = [.recovery] ∧ RegistersBalanced slippedAssignment s' 0 := by
  have looked : returned? (fun _ s' => s'.reports)
      (statementParse 20 (createset [.semicolonsym]) slippedAssignment) = some [.recovery] := by
    rfl
  obtain ⟨node, s', ran, reports⟩ := returned?_eq_some.mp looked
  obtain ⟨-, -, -, -, statement, -⟩ :=
    register_discipline 20 .unset (createset [.semicolonsym]) slippedAssignment s'
  exact ⟨node, s', ran, reports, statement node ran⟩

end Pl0
