import Pl0.ExpressionExecution
import Pl0.MachineRuns
import Pl0.StatementMeaning

set_option autoImplicit false

namespace Pl0

open StateExcept

/-- The code context finds the names of the main block, whose variables have cells of their
own. -/
structure Resolves (c : CodeContext) (block : BlockNode) : Prop where
  main : c.procedure = 0
  consts : ∀ k ∈ block.constDecl, ∃ symbol, c.lookup k.ident = some symbol ∧
    symbol.kind = .constS ∧ symbol.val = k.numer
  vars : ∀ v ∈ block.varDecl, ∃ symbol, c.lookup v.ident = some symbol ∧
    symbol.kind = .varS ∧ symbol.level = c.level ∧ symbol.addr = v.addr
  inside : ∀ v ∈ block.varDecl, 0 ≤ 1 + v.addr ∧ 1 + v.addr < maxStackHeight
  apart : ∀ v ∈ block.varDecl, ∀ w ∈ block.varDecl, v.addr = w.addr → v.ident = w.ident

/-- The machine runs the program, stands at index `i` of the set that was moved to `d`, and
holds the store. -/
structure StandsAt (program : List Instruction) (d : Nat) (block : BlockNode) (s : Store) (i : Nat)
    (vm : VirtualMachine) : Prop where
  code : vm.code = program
  running : vm.status = .running
  pc : vm.pc = d + i
  bp : vm.bp = 1
  cells : ∀ v ∈ block.varDecl, vm.stack (1 + v.addr) = s.value v.ident
  input : vm.input = s.input
  output : vm.output = s.output

section Expressions

variable {c : CodeContext} {block : BlockNode} {program : List Instruction} {d i : Nat} {s : Store}
  {n : Int} {vm vm' : VirtualMachine}

/-- A cell of the main block, as an instruction addresses it. -/
theorem Resolves.base_eq (bp : vm.bp = 1) {symbol : Symbol} (level : symbol.level = c.level) :
    base vm (c.level - symbol.level) vm.bp = .ok 1 := by
  rw [level, Int.sub_self, bp]
  rfl

theorem StandsAt.knows (stands : StandsAt program d block s i vm) (resolves : Resolves c block) :
    Knows c (block.nameIn s) vm := by
  intro name v value
  unfold BlockNode.nameIn at value
  unfold nameValue
  cases found : block.constDecl.find? fun k => k.ident = name with
  | some k =>
      rw [found] at value
      obtain ⟨symbol, looked, kind, val⟩ := resolves.consts k (List.mem_of_find?_eq_some found)
      have named : k.ident = name := by simpa using List.find?_some found
      rw [named] at looked
      simp only [looked, kind, val]
      exact value
  | none =>
      rw [found] at value
      by_cases declared : name ∈ block.varNames
      · obtain ⟨w, member, rfl⟩ := List.mem_map.mp declared
        obtain ⟨symbol, looked, kind, level, addr⟩ := resolves.vars w member
        have cell : readStack vm (1 + symbol.addr) = .ok v := by
          rw [addr]
          refine readStack_eq_ok.mpr ⟨resolves.inside w member, ?_⟩
          rw [stands.cells w member]
          exact Option.some.inj ((if_pos declared).symm.trans value)
        simp only [looked, kind]
        rw [Resolves.base_eq stands.bp level, Except.bind_of_ok rfl, cell]
        rfl
      · rw [if_neg declared] at value
        cases value

theorem StandsAt.advanced (stands : StandsAt program d block s i vm) {k : Nat}
    (advanced : Advanced n k vm vm') : StandsAt program d block s (i + k) vm' where
  code := advanced.code.trans stands.code
  running := by rw [advanced.rest]; exact stands.running
  pc := by
    rw [advanced.pc, stands.pc]
    push_cast
    omega
  bp := advanced.bp.trans stands.bp
  cells := fun v member => (congrFun advanced.stack _).trans (stands.cells v member)
  input := by rw [advanced.rest]; exact stands.input
  output := by rw [advanced.rest]; exact stands.output

/-- Plain code that computes a value is run in so many turns. -/
theorem StandsAt.computes (stands : StandsAt program d block s i vm) {code : List Instruction}
    (plain : Plain code) (contains : Contains program d i code)
    (short : program.length ≤ maxCodeLength) {v : Int} (computes : Computes code n v vm) :
    ∃ vm', Turns vm vm' ∧ StandsAt program d block s (i + code.length) vm' ∧ vm'.r n = v := by
  obtain ⟨vm', executed, advanced, value⟩ := computes
  refine ⟨vm', ?_, stands.advanced advanced, value⟩
  have here : Contains vm.code d i code := by
    rw [stands.code]
    exact contains
  exact execute_turns plain here stands.pc
    (by rw [stands.code]; exact short) stands.running executed

theorem StandsAt.fetched_turn (stands : StandsAt program d block s i vm) {ir : Instruction}
    {rest : List Instruction} (contains : Contains program d i (ir :: rest))
    (short : program.length ≤ maxCodeLength)
    (executed : instructionExecution (vm.fetched (relocate d ir)) = .ok vm') : Turn vm vm' := by
  have here : Contains vm.code d i (ir :: rest) := by
    rw [stands.code]
    exact contains
  exact here.turn stands.pc (by rw [stands.code]; exact short) stands.running executed

end Expressions

section Instructions

variable {c : CodeContext} {block : BlockNode} {program : List Instruction} {d i : Nat} {s : Store}
  {n : Int} {vm : VirtualMachine} {name : Name}

theorem StandsAt.pc_succ (stands : StandsAt program d block s i vm) :
    vm.pc + 1 = d + (i + 1 : Nat) := by
  rw [stands.pc]
  push_cast
  omega

theorem Resolves.ofVar (resolves : Resolves c block) (declared : name ∈ block.varNames) :
    ∃ v symbol, v ∈ block.varDecl ∧ v.ident = name ∧ c.lookup name = some symbol ∧
      symbol.kind = .varS ∧ symbol.level = c.level ∧ symbol.addr = v.addr := by
  obtain ⟨v, member, rfl⟩ := List.mem_map.mp declared
  obtain ⟨symbol, looked, found⟩ := resolves.vars v member
  exact ⟨v, symbol, member, rfl, looked, found⟩

/-- A store changes the cell of its variable and no other. -/
theorem StandsAt.store (stands : StandsAt program d block s i vm) (resolves : Resolves c block)
    (declared : name ∈ block.varNames) (contains : Contains program d i (compileStore c n name))
    (short : program.length ≤ maxCodeLength) (register : 0 ≤ n ∧ n < commonRegisterNumber) :
    ∃ vm', Turn vm vm' ∧ StandsAt program d block (s.set name (vm.r n)) (i + 1) vm' := by
  obtain ⟨v, symbol, member, named, looked, -, level, addr⟩ := resolves.ofVar declared
  have code : compileStore c n name = [instr .sto n (c.level - symbol.level) symbol.addr] := by
    unfold compileStore
    rw [looked]
  rw [code] at contains
  have executed : instructionExecution
    (vm.fetched (instr .sto n (c.level - symbol.level) symbol.addr)) =
      .ok { vm.fetched (instr .sto n (c.level - symbol.level) symbol.addr) with
        stack := Function.update vm.stack (1 + symbol.addr) (vm.r n) } := by
    have linked := Resolves.base_eq (c := c) stands.bp level
    rw [← base_fetched vm (instr .sto n (c.level - symbol.level) symbol.addr)] at linked
    refine Except.bind_eq_ok.mpr ⟨1, linked, Except.bind_eq_ok.mpr ⟨vm.r n, ?_, ?_⟩⟩
    · exact readReg_eq_ok.mpr ⟨register, rfl⟩
    · refine writeStack_eq_ok.mpr ⟨?_, rfl⟩
      change 0 ≤ 1 + symbol.addr ∧ 1 + symbol.addr < _
      rw [addr]
      exact resolves.inside v member
  refine ⟨_, stands.fetched_turn contains short executed, stands.code, stands.running,
    stands.pc_succ, stands.bp, ?_, stands.input, stands.output⟩
  · intro w other
    change Function.update vm.stack (1 + symbol.addr) (vm.r n) (1 + w.addr) =
      Function.update s.value name (vm.r n) w.ident
    by_cases same : w.ident = name
    · obtain ⟨symbol', looked', -, -, addr'⟩ := resolves.vars w other
      rw [same, looked, Option.some.injEq] at looked'
      rw [← addr', ← looked', same, Function.update_self, Function.update_self]
    · have apart : 1 + w.addr ≠ 1 + symbol.addr := by
        intro equal
        apply same
        rw [← named]
        exact resolves.apart w other v member (by omega)
      rw [Function.update_of_ne apart, Function.update_of_ne same]
      exact stands.cells w other

/-- A conditional jump leads to its target when its register is 0. -/
theorem StandsAt.branches (stands : StandsAt program d block s i vm) {target : Nat}
    (contains : Contains program d i [instr .jpc n 0 target])
    (short : program.length ≤ maxCodeLength)
    (register : 0 ≤ n ∧ n < commonRegisterNumber) :
    ∃ vm', Turn vm vm' ∧
      StandsAt program d block s (if vm.r n = 0 then target else i + 1) vm' := by
  have read : readReg (vm.fetched (instr .jpc n 0 (target + d))) n = .ok (vm.r n) :=
    readReg_eq_ok.mpr ⟨register, rfl⟩
  have executed : instructionExecution (vm.fetched (instr .jpc n 0 (target + d))) =
      .ok (if vm.r n = 0 then { vm.fetched (instr .jpc n 0 (target + d)) with pc := target + d }
        else vm.fetched (instr .jpc n 0 (target + d))) := by
    exact Except.bind_of_ok read _
  refine ⟨_, stands.fetched_turn contains short executed, ?_⟩
  by_cases zero : vm.r n = 0
  · rw [if_pos zero, if_pos zero]
    refine ⟨stands.code, stands.running, ?_, stands.bp, stands.cells, stands.input, stands.output⟩
    exact Int.add_comm _ _
  · rw [if_neg zero, if_neg zero]
    exact ⟨stands.code, stands.running, stands.pc_succ, stands.bp, stands.cells, stands.input,
      stands.output⟩

theorem StandsAt.jumps (stands : StandsAt program d block s i vm) {target : Nat}
    (contains : Contains program d i [instr .jmp 0 0 target])
    (short : program.length ≤ maxCodeLength) :
    ∃ vm', Turn vm vm' ∧ StandsAt program d block s target vm' := by
  have executed : instructionExecution (vm.fetched (instr .jmp 0 0 (target + d))) =
      .ok { vm.fetched (instr .jmp 0 0 (target + d)) with pc := target + d } := rfl
  exact ⟨_, stands.fetched_turn contains short executed, stands.code, stands.running,
    Int.add_comm _ _, stands.bp, stands.cells, stands.input, stands.output⟩

/-- A number read goes to the register. -/
theorem StandsAt.reads (stands : StandsAt program d block s i vm) {rest : List Instruction}
    (contains : Contains program d i (instr .sio n 0 2 :: rest))
    (short : program.length ≤ maxCodeLength)
    (register : 0 ≤ n ∧ n < commonRegisterNumber) {v : Int} {input : List Int}
    (more : s.input = v :: input) :
    ∃ vm', Turn vm vm' ∧ StandsAt program d block { s with input := input } (i + 1) vm' ∧
      vm'.r n = v := by
  have waiting : (vm.fetched (instr .sio n 0 2)).input = v :: input := stands.input.trans more
  have executed : instructionExecution (vm.fetched (instr .sio n 0 2)) =
      .ok { vm.fetched (instr .sio n 0 2) with r := Function.update vm.r n v, input := input } := by
    change executeSio (vm.fetched (instr .sio n 0 2)) n 2 = _
    unfold executeSio
    simp only [waiting]
    have written : writeReg (vm.fetched (instr .sio n 0 2)) n v =
        .ok { vm.fetched (instr .sio n 0 2) with r := Function.update vm.r n v } :=
      writeReg_eq_ok.mpr ⟨register, rfl⟩
    rw [Except.bind_of_ok written]
    rfl
  exact ⟨_, stands.fetched_turn contains short executed, ⟨stands.code, stands.running,
    stands.pc_succ, stands.bp, stands.cells, rfl, stands.output⟩, Function.update_self _ _ _⟩

theorem StandsAt.prints (stands : StandsAt program d block s i vm)
    (contains : Contains program d i [instr .sio n 0 1]) (short : program.length ≤ maxCodeLength)
    (register : 0 ≤ n ∧ n < commonRegisterNumber) :
    ∃ vm', Turn vm vm' ∧
      StandsAt program d block { s with output := s.output ++ [vm.r n] } (i + 1) vm' := by
  have executed : instructionExecution (vm.fetched (instr .sio n 0 1)) =
      .ok { vm.fetched (instr .sio n 0 1) with output := vm.output ++ [vm.r n] } :=
    Except.bind_eq_ok.mpr ⟨vm.r n, readReg_eq_ok.mpr ⟨register, rfl⟩, rfl⟩
  exact ⟨_, stands.fetched_turn contains short executed, stands.code, stands.running,
    stands.pc_succ, stands.bp, stands.cells, stands.input, congrArg (· ++ [vm.r n]) stands.output⟩

end Instructions

section Statements

variable {c : CodeContext} {block : BlockNode} {program : List Instruction} {d i : Nat} {s : Store}
  {n : Int} {vm : VirtualMachine}

theorem intArithmetic_condition {env : Name → Option Int} {cond : ConditionNode} {holds : Bool}
    (value : intArithmetic.condition env cond = some holds) :
    conditionInt env cond ∧ conditionValue env cond = some holds := by
  change (if conditionInt env cond then conditionValue env cond else none) = some holds at value
  by_cases small : conditionInt env cond
  · rw [if_pos small] at value
    exact ⟨small, value⟩
  · rw [if_neg small] at value
    cases value

/-- A test leads into its branch, or to where the failed test goes. -/
theorem StandsAt.guard (stands : StandsAt program d block s i vm) (resolves : Resolves c block)
    {cond : ConditionNode} {holds : Bool} {branch : List Instruction} {failed : Nat} {stop : Int}
    (contains : Contains program d i (guarded (compileCondition c n cond) branch n failed stop))
    (short : program.length ≤ maxCodeLength)
    (fits : FitsRegisters (guarded (compileCondition c n cond) branch n failed stop))
    (value : intArithmetic.condition (block.nameIn s) cond = some holds) :
    ∃ vm', Turns vm vm' ∧ StandsAt program d block s
      (if holds then i + (compileCondition c n cond).length + 1 else failed) vm' := by
  obtain ⟨small, exact_⟩ := intArithmetic_condition value
  have test : Contains program d i (compileCondition c n cond) := contains.left.left.left
  obtain ⟨v, computes, zero⟩ :=
    computes_condition cond (stands.knows resolves) small exact_ fits.left.left.left
  obtain ⟨vm1, turns, there, tested⟩ :=
    stands.computes (plain_condition c n cond) test short computes
  have jump : Contains program d (i + (compileCondition c n cond).length) [instr .jpc n 0 failed] :=
    contains.left.left.right
  have register := fits.left.left.right _ List.mem_cons_self n List.mem_cons_self
  obtain ⟨vm2, turn, behind⟩ := there.branches jump short register
  refine ⟨vm2, turns.tail turn, ?_⟩
  rw [tested] at behind
  cases holds with
  | true =>
      rw [if_neg (zero.mpr rfl)] at behind
      exact behind
  | false =>
      rw [if_pos (by simpa using zero)] at behind
      exact behind

/-- Where the branch and the jump behind it lie. -/
theorem Contains.guarded {test branch : List Instruction} {failed stop : Int}
    (contains : Contains program d i (guarded test branch n failed stop)) :
    Contains program d (i + test.length + 1) branch ∧
      Contains program d (i + test.length + 1 + branch.length) [instr .jmp 0 0 stop] := by
  have behind : i + (test ++ [instr .jpc n 0 failed]).length = i + test.length + 1 := by
    rw [List.length_append, List.length_singleton, Nat.add_assoc]
  have last : i + (test ++ [instr .jpc n 0 failed] ++ branch).length =
      i + test.length + 1 + branch.length := by
    rw [List.length_append, ← Nat.add_assoc, behind]
  exact ⟨behind ▸ contains.left.right, last ▸ contains.right⟩

theorem guarded_behind (c : CodeContext) (cond : ConditionNode) (sts : StatementNode)
    (n failed stop : Int) (i : Nat) :
    i + (guarded (compileCondition c n cond) (compileBranch c cond sts n i) n failed
      stop).length = behindBranch c cond sts n i := by
  have place := length_guardedBranch c cond sts n failed stop i
  omega

/-- In the main block no return follows a begin statement. -/
theorem Resolves.begin_code (resolves : Resolves c block) (list : StatementList)
    (n : Int) (i : Nat) :
    compileStatement c (.begin list) n i = compileStatements c list n i := by
  rw [compileStatement, compileReturn, resolves.main, if_neg (by decide), List.append_nil]

theorem Resolves.store_code (resolves : Resolves c block) {name : Name}
    (declared : name ∈ block.varNames)
    (n : Int) : ∃ l m, compileStore c n name = [instr .sto n l m] := by
  obtain ⟨v, symbol, -, -, looked, -⟩ := resolves.ofVar declared
  refine ⟨c.level - symbol.level, symbol.addr, ?_⟩
  unfold compileStore
  rw [looked]

theorem Resolves.read_code (resolves : Resolves c block) {name : Name}
    (declared : name ∈ block.varNames)
    (n : Int) : compileRead c n name = instr .sio n 0 2 :: compileStore c n name := by
  obtain ⟨v, symbol, -, -, looked, -⟩ := resolves.ofVar declared
  unfold compileRead compileStore
  rw [looked]

/-- A variable is written as an expression reads it. -/
theorem Resolves.write_code (resolves : Resolves c block) {name : Name}
    (declared : name ∈ block.varNames)
    (n : Int) : compileWrite c n name = compileName c n name ++ [instr .sio n 0 1] := by
  obtain ⟨v, symbol, -, -, looked, kind, -⟩ := resolves.ofVar declared
  unfold compileWrite compileName
  simp only [looked, kind, if_true]
  rfl

/-- The code of a statement runs as the statement does, and comes out behind it. -/
theorem Executes.turns {node : StatementNode} {s s' : Store}
    (executes : Executes intArithmetic block node s s') (resolves : Resolves c block)
    (short : program.length ≤ maxCodeLength) :
    ∀ {n : Int} {i : Nat} {vm : VirtualMachine}, Contains program d i
      (compileStatement c node n i) →
      FitsRegisters (compileStatement c node n i) → (∀ name ∈ node.writes, name ∈ block.varNames) →
        StandsAt program d block s i vm → ∃ vm', Turns vm vm' ∧
          StandsAt program d block s' (i + (compileStatement c node n i).length) vm' := by
  induction executes with
  | empty s =>
      intro n i vm _ _ _ stands
      exact ⟨vm, .refl, stands⟩
  | @assign name e v s declared value =>
      intro n i vm contains fits _ stands
      have computes := computes_terms e (stands.knows resolves) value fits.left
      obtain ⟨vm1, turns, there, computed⟩ :=
        stands.computes (plain_expression c n e) contains.left short computes
      obtain ⟨l, m, code⟩ := resolves.store_code declared n
      have store : FitsRegisters (compileStore c n name) := fits.right
      rw [code] at store
      have register := store _ List.mem_cons_self n List.mem_cons_self
      obtain ⟨vm2, turn, behind⟩ := there.store resolves declared contains.right short register
      refine ⟨vm2, turns.tail turn, ?_⟩
      rw [computed] at behind
      have place : i + (compileStatement c (.assign name e) n i).length =
          i + (compileExpression c n e).length + 1 := by
        rw [compileStatement, List.length_append, code, List.length_singleton, Nat.add_assoc]
      rw [place]
      exact behind
  | done s =>
      intro n i vm _ _ _ stands
      rw [resolves.begin_code]
      exact ⟨vm, .refl, stands⟩
  | @next sts rest s s' s'' first more ihFirst ihMore =>
      intro n i vm contains fits writes stands
      rw [resolves.begin_code, compileStatements] at contains fits ⊢
      obtain ⟨vm1, turns, there⟩ := ihFirst contains.left fits.left
        (fun name member => writes name (List.mem_append_left _ member)) stands
      have later : compileStatement c (.begin rest) n (i + (compileStatement c sts n i).length) =
          compileStatements c rest n (i + (compileStatement c sts n i).length) :=
            resolves.begin_code _ _ _
      obtain ⟨vm2, turns', behind⟩ := ihMore (by rw [later]; exact contains.right)
        (by rw [later]; exact fits.right)
          (fun name member => writes name (List.mem_append_right _ member))
        there
      refine ⟨vm2, turns.trans turns', ?_⟩
      rw [later] at behind
      rw [List.length_append, ← Nat.add_assoc]
      exact behind
  | @ifHolds cond ifsts s s' test branch ih =>
      intro n i vm contains fits writes stands
      rw [compileStatement_ifS] at contains fits ⊢
      obtain ⟨vm1, turns, there⟩ := stands.guard resolves contains short fits test
      obtain ⟨inner, jump⟩ := contains.guarded
      obtain ⟨vm2, turns', behind⟩ := ih inner fits.left.right writes there
      obtain ⟨vm3, turn, done⟩ := behind.jumps jump short
      refine ⟨vm3, (turns.trans turns').tail turn, ?_⟩
      rw [guarded_behind]
      exact done
  | @ifFails cond ifsts s test =>
      intro n i vm contains fits writes stands
      rw [compileStatement_ifS] at contains fits ⊢
      obtain ⟨vm1, turns, there⟩ := stands.guard resolves contains short fits test
      refine ⟨vm1, turns, ?_⟩
      rw [guarded_behind]
      exact there
  | @thenBranch cond ifsts elsests s s' test branch ih =>
      intro n i vm contains fits writes stands
      rw [compileStatement_ifElse] at contains fits ⊢
      obtain ⟨vm1, turns, there⟩ := stands.guard resolves contains.left short fits.left test
      obtain ⟨inner, jump⟩ := contains.left.guarded
      obtain ⟨vm2, turns', behind⟩ := ih inner fits.left.left.right
        (fun name member => writes name (List.mem_append_left _ member)) there
      obtain ⟨vm3, turn, done⟩ := behind.jumps jump short
      refine ⟨vm3, (turns.trans turns').tail turn, ?_⟩
      rw [List.length_append, ← Nat.add_assoc, guarded_behind]
      exact done
  | @elseBranch cond ifsts elsests s s' test branch ih =>
      intro n i vm contains fits writes stands
      rw [compileStatement_ifElse] at contains fits ⊢
      obtain ⟨vm1, turns, there⟩ := stands.guard resolves contains.left short fits.left test
      have other := contains.right
      rw [guarded_behind] at other
      obtain ⟨vm2, turns', done⟩ := ih other fits.right
        (fun name member => writes name (List.mem_append_right _ member)) there
      refine ⟨vm2, turns.trans turns', ?_⟩
      rw [List.length_append, ← Nat.add_assoc, guarded_behind]
      exact done
  | @leave cond sts s test =>
      intro n i vm contains fits writes stands
      rw [compileStatement_while] at contains fits ⊢
      obtain ⟨vm1, turns, there⟩ := stands.guard resolves contains short fits test
      refine ⟨vm1, turns, ?_⟩
      rw [guarded_behind]
      exact there
  | @again cond sts s s' s'' test body rest ihBody ihRest =>
      intro n i vm contains fits writes stands
      have loop := contains
      have whole := fits
      rw [compileStatement_while] at loop whole
      obtain ⟨vm1, turns, there⟩ := stands.guard resolves loop short whole test
      obtain ⟨inner, jump⟩ := loop.guarded
      obtain ⟨vm2, turns', behind⟩ := ihBody inner whole.left.right writes there
      obtain ⟨vm3, turn, again⟩ := behind.jumps jump short
      obtain ⟨vm4, turns'', done⟩ := ihRest contains fits writes again
      exact ⟨vm4, ((turns.trans turns').tail turn).trans turns'', done⟩
  | @read name v input s declared more =>
      intro n i vm contains fits writes stands
      obtain ⟨l, m, code⟩ := resolves.store_code declared n
      rw [compileStatement, resolves.read_code declared] at contains fits ⊢
      have register := fits _ List.mem_cons_self n List.mem_cons_self
      obtain ⟨vm1, turn, there, value⟩ := stands.reads contains short register more
      obtain ⟨vm2, turn', behind⟩ :=
        there.store resolves declared (Contains.right (a := [_]) contains) short register
      refine ⟨vm2, (Relation.ReflTransGen.single turn).tail turn', ?_⟩
      rw [value] at behind
      rw [code]
      exact behind
  | @write name v s value =>
      intro n i vm contains fits writes stands
      have declared := writes name List.mem_cons_self
      rw [compileStatement, resolves.write_code declared] at contains fits ⊢
      have computes := computes_compileName (stands.knows resolves _ _ value) fits.left
      obtain ⟨vm1, turns, there, loaded⟩ :=
        stands.computes (plain_name c n name) contains.left short computes
      have register := fits.right _ List.mem_cons_self n List.mem_cons_self
      obtain ⟨vm2, turn, behind⟩ := there.prints contains.right short register
      refine ⟨vm2, turns.tail turn, ?_⟩
      rw [loaded] at behind
      rw [List.length_append, List.length_singleton, ← Nat.add_assoc]
      exact behind

end Statements

end Pl0
