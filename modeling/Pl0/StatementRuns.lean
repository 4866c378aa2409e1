import Pl0.CodeRuns
import Pl0.StatementFlow

set_option autoImplicit false

namespace Pl0

open ControlFlow

/-- What an instruction of a statement's code does to the machine. A call is one step, which
comes back to the next instruction in a state that `calls` allows; a return leaves the code. -/
def codeTurn (calls : Instruction → VirtualMachine → VirtualMachine → Prop) (ir : Instruction)
    (vm : VirtualMachine) (next : Option VirtualMachine) : Prop :=
  if ir.op = Opcode.cal.toInt then ∃ vm', calls ir vm vm' ∧ next = some { vm' with pc := vm.pc + 1 }
  else ∃ vm', instructionExecution (vm.fetched ir) = .ok vm' ∧
    next = if ir.op = Opcode.rtn.toInt then none else some vm'

abbrev codeMachine (calls : Instruction → VirtualMachine → VirtualMachine → Prop) :
    Machine Instruction VirtualMachine where
  place vm := vm.pc
  turn := codeTurn calls

section Turns

variable (calls : Instruction → VirtualMachine → VirtualMachine → Prop) {ir : Instruction}
  {vm vm' : VirtualMachine} {o : Option VirtualMachine}

/-- Apart from calls and returns, the turns are those of `run_vm`. -/
theorem codeTurn_iff_step (fetches : Fetches vm ir) (noCall : ir.op ≠ Opcode.cal.toInt)
    (noReturn : ir.op ≠ Opcode.rtn.toInt) :
    codeTurn calls ir vm (some vm') ↔ step vm = .ok vm' := by
  rw [codeTurn, if_neg noCall, step_of_fetches fetches]
  simp only [if_neg noReturn]
  constructor
  · rintro ⟨next, executed, same⟩
    rw [executed, Option.some.inj same]
  · intro executed
    exact ⟨vm', executed, rfl⟩

theorem codeMachine_follows : (codeMachine calls).Follows targets := by
  intro ir vm next turn
  change codeTurn calls ir vm next at turn
  change next.map (·.pc) ∈ targets ir vm.pc
  unfold codeTurn at turn
  split at turn
  · rename_i call
    obtain ⟨vm', -, rfl⟩ := turn
    unfold targets
    rw [call, if_neg (by decide), if_neg (by decide), if_neg (by decide)]
    exact List.mem_singleton.mpr rfl
  · rename_i noCall
    obtain ⟨vm', executed, rfl⟩ := turn
    split
    · rename_i return_
      unfold targets
      rw [return_, if_neg (by decide), if_neg (by decide), if_pos rfl]
      exact List.mem_singleton.mpr rfl
    · rename_i noReturn
      rcases executed_follows_targets noCall executed with goes | returns
      · exact goes
      · exact absurd (none_mem_targets returns) noReturn

theorem codeTurn_jmp {stop : Int} (turn : codeTurn calls (instr .jmp 0 0 stop) vm o) :
    ∃ vm', o = some vm' ∧ vm'.pc = stop := by
  obtain ⟨vm', executed, rfl⟩ := turn
  cases executed
  exact ⟨_, rfl, rfl⟩

theorem codeTurn_jpc {n failed : Int} (turn : codeTurn calls (instr .jpc n 0 failed) vm o) :
    ∃ vm', o = some vm' ∧ (vm.r n = 0 ∧ vm'.pc = failed ∨ vm.r n ≠ 0 ∧ vm'.pc = vm.pc + 1) := by
  obtain ⟨vm', executed, rfl⟩ := turn
  refine ⟨vm', rfl, ?_⟩
  obtain ⟨value, read, goes⟩ := Except.bind_eq_ok.mp executed
  obtain ⟨-, rfl⟩ := readReg_eq_ok.mp read
  cases goes
  by_cases zero : vm.r n = 0
  · exact .inl ⟨zero, congrArg VirtualMachine.pc (if_pos zero)⟩
  · exact .inr ⟨zero, congrArg VirtualMachine.pc (if_neg zero)⟩

theorem codeTurn_rtn (turn : codeTurn calls (instr .rtn 0 0 0) vm o) : o = none := by
  obtain ⟨vm', -, rfl⟩ := turn
  rfl

end Turns

/-- The code of a condition and the jump behind it, which goes to `failed` when the condition does
not hold. -/
def Tests (calls : Instruction → VirtualMachine → VirtualMachine → Prop) (c : CodeContext)
    (cond : ConditionNode) (n : Int) (start : Nat) (failed : Int) (vm : VirtualMachine)
    (holds : Bool) (vm' : VirtualMachine) : Prop :=
  ∃ between, (codeMachine calls).Exits (compileCondition c n cond) start vm (some between) ∧
    codeTurn calls (instr .jpc n 0 failed) between (some vm') ∧ (holds = true ↔ between.r n ≠ 0)

/-- A statement that has no other statement in it. -/
def StatementNode.isSimple : StatementNode → Bool
  | .empty | .assign _ _ | .read _ | .write _ | .call _ => true
  | .begin _ | .ifS _ _ | .ifElse _ _ _ | .while _ _ => false

section Finishes

variable (calls : Instruction → VirtualMachine → VirtualMachine → Prop) (c : CodeContext)

mutual
/-- How a statement of a procedure goes on from a state, along its tree: it comes to its end, in
a state, or the return behind a begin statement in it is executed. -/
inductive Finishes : StatementNode → Int → Nat → VirtualMachine → Option VirtualMachine → Prop
  | simple {node : StatementNode} {n : Int} {start : Nat} {vm vm' : VirtualMachine}
      (simple : node.isSimple = true)
      (ran : (codeMachine calls).Exits (compileStatement c node n start) start vm (some vm')) :
      Finishes node n start vm (some vm')
  | beginEnds {list : StatementList} {n : Int} {start : Nat} {vm vm' : VirtualMachine}
      (ran : FinishesAll list n start vm (some vm'))
      (returned : codeTurn calls (instr .rtn 0 0 0) vm' none) :
      Finishes (.begin list) n start vm none
  | beginReturns {list : StatementList} {n : Int} {start : Nat} {vm : VirtualMachine}
      (ran : FinishesAll list n start vm none) : Finishes (.begin list) n start vm none
  | ifFails {cond : ConditionNode} {ifsts : StatementNode} {n : Int} {start : Nat}
      {vm vm' : VirtualMachine}
      (test : Tests calls c cond n start (behindBranch c cond ifsts n start) vm false vm') :
      Finishes (.ifS cond ifsts) n start vm (some vm')
  | ifHolds {cond : ConditionNode} {ifsts : StatementNode} {n : Int} {start : Nat}
      {vm vm1 vm2 vm' : VirtualMachine}
      (test : Tests calls c cond n start (behindBranch c cond ifsts n start) vm true vm1)
      (branch : Finishes ifsts (n + 1) (start + (compileCondition c n cond).length + 1) vm1
        (some vm2))
      (jumped : codeTurn calls (instr .jmp 0 0 (behindBranch c cond ifsts n start)) vm2
        (some vm')) : Finishes (.ifS cond ifsts) n start vm (some vm')
  | ifReturns {cond : ConditionNode} {ifsts : StatementNode} {n : Int} {start : Nat}
      {vm vm1 : VirtualMachine}
      (test : Tests calls c cond n start (behindBranch c cond ifsts n start) vm true vm1)
      (branch : Finishes ifsts (n + 1) (start + (compileCondition c n cond).length + 1) vm1
        none) : Finishes (.ifS cond ifsts) n start vm none
  | elseBranch {cond : ConditionNode} {ifsts elsests : StatementNode} {n : Int} {start : Nat}
      {vm vm1 : VirtualMachine} {o : Option VirtualMachine}
      (test : Tests calls c cond n start (behindBranch c cond ifsts n start) vm false vm1)
      (branch : Finishes elsests (n + 1) (behindBranch c cond ifsts n start) vm1 o) :
      Finishes (.ifElse cond ifsts elsests) n start vm o
  | thenBranch {cond : ConditionNode} {ifsts elsests : StatementNode} {n : Int} {start : Nat}
      {vm vm1 vm2 vm' : VirtualMachine}
      (test : Tests calls c cond n start (behindBranch c cond ifsts n start) vm true vm1)
      (branch : Finishes ifsts (n + 1) (start + (compileCondition c n cond).length + 1) vm1
        (some vm2))
      (jumped : codeTurn calls (instr .jmp 0 0 (behindBranch c cond ifsts n start +
        (compileOther c cond ifsts elsests n start).length)) vm2 (some vm')) :
      Finishes (.ifElse cond ifsts elsests) n start vm (some vm')
  | thenReturns {cond : ConditionNode} {ifsts elsests : StatementNode} {n : Int} {start : Nat}
      {vm vm1 : VirtualMachine}
      (test : Tests calls c cond n start (behindBranch c cond ifsts n start) vm true vm1)
      (branch : Finishes ifsts (n + 1) (start + (compileCondition c n cond).length + 1) vm1
        none) : Finishes (.ifElse cond ifsts elsests) n start vm none
  | whileFails {cond : ConditionNode} {sts : StatementNode} {n : Int} {start : Nat}
      {vm vm' : VirtualMachine}
      (test : Tests calls c cond n start (behindBranch c cond sts n start) vm false vm') :
      Finishes (.while cond sts) n start vm (some vm')
  | whileAgain {cond : ConditionNode} {sts : StatementNode} {n : Int} {start : Nat}
      {vm vm1 vm2 vm3 : VirtualMachine} {o : Option VirtualMachine}
      (test : Tests calls c cond n start (behindBranch c cond sts n start) vm true vm1)
      (body : Finishes sts (n + 1) (start + (compileCondition c n cond).length + 1) vm1
        (some vm2))
      (jumped : codeTurn calls (instr .jmp 0 0 start) vm2 (some vm3))
      (rest : Finishes (.while cond sts) n start vm3 o) : Finishes (.while cond sts) n start vm o
  | whileReturns {cond : ConditionNode} {sts : StatementNode} {n : Int} {start : Nat}
      {vm vm1 : VirtualMachine}
      (test : Tests calls c cond n start (behindBranch c cond sts n start) vm true vm1)
      (body : Finishes sts (n + 1) (start + (compileCondition c n cond).length + 1) vm1 none) :
      Finishes (.while cond sts) n start vm none

inductive FinishesAll : StatementList → Int → Nat → VirtualMachine → Option VirtualMachine → Prop
  | nil (n : Int) (start : Nat) (vm : VirtualMachine) : FinishesAll .nil n start vm (some vm)
  | next {sts : StatementNode} {rest : StatementList} {n : Int} {start : Nat}
      {vm vm1 : VirtualMachine} {o : Option VirtualMachine}
      (first : Finishes sts n start vm (some vm1))
      (more : FinishesAll rest n (start + (compileStatement c sts n start).length) vm1 o) :
      FinishesAll (.cons sts rest) n start vm o
  | returns {sts : StatementNode} {rest : StatementList} {n : Int} {start : Nat}
      {vm : VirtualMachine} (first : Finishes sts n start vm none) :
      FinishesAll (.cons sts rest) n start vm none
end

end Finishes

section Guarded

variable {test branch code : List Instruction} {n failed stop start begins i : Int}
  {ir : Instruction}

theorem at_guarded_test (present : At test start i ir) :
    At (guarded test branch n failed stop) start i ir := by
  unfold guarded
  rw [List.append_assoc, List.append_assoc]
  exact at_append.mpr (.inl present)

theorem at_guarded_jpc : At (guarded test branch n failed stop) start (start + test.length)
    (instr .jpc n 0 failed) := by
  refine at_append.mpr (.inl (at_append.mpr (.inl (at_append.mpr (.inr ?_)))))
  exact at_singleton.mpr ⟨rfl, rfl⟩

theorem at_guarded_jmp : At (guarded test branch n failed stop) start
    (start + test.length + 1 + branch.length) (instr .jmp 0 0 stop) := by
  refine at_append.mpr (.inr (at_singleton.mpr ⟨?_, rfl⟩))
  simp only [List.length_append, List.length_singleton]
  omega

variable {calls : Instruction → VirtualMachine → VirtualMachine → Prop}
  {vm vm1 vm2 vm3 between : VirtualMachine} {o : Option VirtualMachine} {count : Nat}

theorem leads_test
    (sub : ∀ i ir, At (guarded test branch n failed stop) start i ir → At code begins i ir)
    (tested : (codeMachine calls).Exits test start vm (some between))
    (jumped : codeTurn calls (instr .jpc n 0 failed) between (some vm1)) :
    (codeMachine calls).Leads code begins vm (some vm1) := by
  have first : (codeMachine calls).Leads code begins vm (some between) :=
    tested.leads.mono fun i ir present => sub i ir (at_guarded_test present)
  have place : (codeMachine calls).place between = start + test.length := tested.stop between rfl
  have jump : (codeMachine calls).Turns code begins between (some vm1) :=
    ⟨_, place ▸ sub _ _ at_guarded_jpc, jumped⟩
  exact first.trans jump.leads

theorem leads_branch
    (sub : ∀ i ir, At (guarded test branch n failed stop) start i ir → At code begins i ir)
    (ran : (codeMachine calls).Exits branch (start + test.length + 1) vm1 o) :
    (codeMachine calls).Leads code begins vm1 o :=
  ran.leads.mono fun i ir present => sub i ir (at_guarded_branch present)

theorem leads_jump
    (sub : ∀ i ir, At (guarded test branch n failed stop) start i ir → At code begins i ir)
    (ran : (codeMachine calls).Exits branch (start + test.length + 1) vm1 (some vm2))
    (jumped : codeTurn calls (instr .jmp 0 0 stop) vm2 (some vm3)) :
    (codeMachine calls).Leads code begins vm1 (some vm3) := by
  have place : (codeMachine calls).place vm2 = start + test.length + 1 + branch.length :=
    ran.stop vm2 rfl
  have jump : (codeMachine calls).Turns code begins vm2 (some vm3) :=
    ⟨_, place ▸ sub _ _ at_guarded_jmp, jumped⟩
  exact (leads_branch sub ran).trans jump.leads

/-- A run that enters a guarded branch first makes the test and the jump. -/
theorem test_of_runs
    (sub : ∀ i ir, At (guarded test branch n failed stop) start i ir → At code begins i ir)
    (inside : start + (guarded test branch n failed stop).length ≤ begins + code.length)
    (straight : Straight targets test) (runs : (codeMachine calls).Runs code begins count vm o)
    (entry : vm.pc = start) (passes : ∀ vm', o = some vm' → vm'.pc = begins + code.length) :
    ∃ between vm1 count', count' < count ∧
      (codeMachine calls).Exits test start vm (some between) ∧
      codeTurn calls (instr .jpc n 0 failed) between (some vm1) ∧
      (between.r n = 0 ∧ vm1.pc = failed ∨ between.r n ≠ 0 ∧ vm1.pc = start + test.length + 1) ∧
      (codeMachine calls).Runs code begins count' vm1 o := by
  rw [length_guarded] at inside
  have follows := codeMachine_follows calls
  have here : (codeMachine calls).place vm = start := entry
  have beyond : ∀ vm', o = some vm' → start + test.length ≤ (codeMachine calls).place vm' := by
    intro vm' is
    have behind : (codeMachine calls).place vm' = _ := passes vm' is
    omega
  rcases runs.split follows (straight.closed start)
    (fun i ir present => sub i ir (at_guarded_test present)) (by omega) (by omega) beyond with
      ⟨-, returned⟩ | ⟨count1, count2, between, total, tested, place, more⟩
  · exact absurd rfl (returned.noReturn follows straight.noReturn)
  · have ran : (codeMachine calls).Exits test start vm (some between) :=
      .stopping entry ⟨count1, tested⟩ place
    have jump : At code begins ((codeMachine calls).place between) (instr .jpc n 0 failed) :=
      place ▸ sub _ _ at_guarded_jpc
    rcases more.first jump with ended | ⟨-, returned⟩ | ⟨count', vm1, fewer, turn, rest⟩
    · have behind : (codeMachine calls).place between = _ := passes between ended
      omega
    · obtain ⟨_, impossible, -⟩ := codeTurn_jpc calls returned
      cases impossible
    · obtain ⟨vm', same, goes⟩ := codeTurn_jpc calls turn
      obtain rfl := Option.some.inj same
      refine ⟨between, vm1, count', by omega, ran, turn, ?_, rest⟩
      rcases goes with failed | ⟨held, next⟩
      · exact .inl failed
      · exact .inr ⟨held, next.trans (congrArg (· + 1) place)⟩

/-- A run in the branch returns there, or makes the jump behind it. -/
theorem branch_of_runs
    (sub : ∀ i ir, At (guarded test branch n failed stop) start i ir → At code begins i ir)
    (inside : start + (guarded test branch n failed stop).length ≤ begins + code.length)
    (closed : Closed targets branch (start + test.length + 1))
    (runs : (codeMachine calls).Runs code begins count vm1 o)
    (entry : vm1.pc = start + test.length + 1)
    (passes : ∀ vm', o = some vm' → vm'.pc = begins + code.length) :
    (o = none ∧ (codeMachine calls).Exits branch (start + test.length + 1) vm1 none) ∨
      ∃ vm2 vm3 count', count' ≤ count ∧
        (codeMachine calls).Exits branch (start + test.length + 1) vm1 (some vm2) ∧
        codeTurn calls (instr .jmp 0 0 stop) vm2 (some vm3) ∧ vm3.pc = stop ∧
        (codeMachine calls).Runs code begins count' vm3 o := by
  rw [length_guarded] at inside
  have follows := codeMachine_follows calls
  have here : (codeMachine calls).place vm1 = start + test.length + 1 := entry
  have beyond : ∀ vm', o = some vm' →
      start + test.length + 1 + branch.length ≤ (codeMachine calls).place vm' := by
    intro vm' is
    have behind : (codeMachine calls).place vm' = _ := passes vm' is
    omega
  rcases runs.split follows closed (fun i ir present => sub i ir (at_guarded_branch present))
    (by omega) (by omega) beyond with
      ⟨rfl, returned⟩ | ⟨count1, count2, vm2, total, ran, place, more⟩
  · exact .inl ⟨rfl, .returning entry ⟨count, returned⟩⟩
  · have jump : At code begins ((codeMachine calls).place vm2) (instr .jmp 0 0 stop) :=
      place ▸ sub _ _ at_guarded_jmp
    rcases more.first jump with ended | ⟨-, returned⟩ | ⟨count', vm3, fewer, turn, rest⟩
    · have behind : (codeMachine calls).place vm2 = _ := passes vm2 ended
      omega
    · obtain ⟨_, impossible, -⟩ := codeTurn_jmp calls returned
      cases impossible
    · obtain ⟨vm', same, goes⟩ := codeTurn_jmp calls turn
      obtain rfl := Option.some.inj same
      have stopped : (codeMachine calls).Exits branch (start + test.length + 1) vm1 (some vm2) :=
        .stopping entry ⟨count1, ran⟩ place
      exact .inr ⟨vm2, vm3, count', by omega, stopped, turn, goes, rest⟩

end Guarded

section Completion

variable {calls : Instruction → VirtualMachine → VirtualMachine → Prop} {c : CodeContext}

section IfElse

variable (c) (cond : ConditionNode) (ifsts elsests : StatementNode) (n : Int) (start : Nat)

/-- The code of an if statement in front of its else branch. -/
def compileThen : List Instruction :=
  guarded (compileCondition c n cond) (compileBranch c cond ifsts n start) n
    (behindBranch c cond ifsts n start)
    (behindBranch c cond ifsts n start + (compileOther c cond ifsts elsests n start).length)

theorem length_compileThen : (start : Int) + (compileThen c cond ifsts elsests n start).length =
    behindBranch c cond ifsts n start :=
  length_guardedBranch c cond ifsts n _ _ start

theorem length_compileIfElse :
    (start : Int) + (compileStatement c (.ifElse cond ifsts elsests) n start).length =
      behindBranch c cond ifsts n start + (compileOther c cond ifsts elsests n start).length := by
  rw [compileStatement_ifElse, List.length_append, Int.natCast_add, ← Int.add_assoc,
    length_guardedBranch]

variable {c cond ifsts elsests n start} {i : Int} {ir : Instruction}

theorem at_compileThen (present : At (compileThen c cond ifsts elsests n start) start i ir) :
    At (compileStatement c (.ifElse cond ifsts elsests) n start) start i ir := by
  rw [compileStatement_ifElse]
  exact at_append.mpr (.inl present)

theorem at_compileOther (present : At (compileOther c cond ifsts elsests n start)
    (behindBranch c cond ifsts n start) i ir) :
    At (compileStatement c (.ifElse cond ifsts elsests) n start) start i ir := by
  rw [compileStatement_ifElse]
  refine at_append.mpr (.inr ?_)
  rw [length_guardedBranch]
  exact present

end IfElse

theorem compileReturn_procedure (procedure : 0 < c.procedure) :
    compileReturn c = [instr .rtn 0 0 0] :=
  if_pos procedure

theorem exits_return {start : Int} {vm : VirtualMachine} (entry : vm.pc = start)
    (returned : codeTurn calls (instr .rtn 0 0 0) vm none) :
    (codeMachine calls).Exits [instr .rtn 0 0 0] start vm none := by
  have turn : (codeMachine calls).Turns [instr .rtn 0 0 0] start vm none :=
    ⟨_, at_singleton.mpr ⟨entry, rfl⟩, returned⟩
  exact .returning entry turn.leads

theorem return_of_exits {start : Int} {vm : VirtualMachine} {o : Option VirtualMachine}
    (exits : (codeMachine calls).Exits [instr .rtn 0 0 0] start vm o) :
    o = none ∧ codeTurn calls (instr .rtn 0 0 0) vm none := by
  obtain ⟨count, runs⟩ := exits.leads
  rcases runs.first (at_singleton.mpr ⟨exits.entry, rfl⟩) with rfl | both | ⟨_, vm', -, turn, -⟩
  · have behind : vm.pc = start + 1 := exits.stop vm rfl
    have entry : vm.pc = start := exits.entry
    omega
  · exact both
  · cases codeTurn_rtn calls turn

section Tests

variable {cond : ConditionNode} {branch code : List Instruction} {n failed stop begins : Int}
  {start : Nat} {vm vm' : VirtualMachine} {holds : Bool}

theorem Tests.leads (test : Tests calls c cond n start failed vm holds vm')
    (sub : ∀ i ir, At (guarded (compileCondition c n cond) branch n failed stop) start i ir →
      At code begins i ir) : (codeMachine calls).Leads code begins vm (some vm') := by
  obtain ⟨between, ran, jumped, -⟩ := test
  exact leads_test sub ran jumped

theorem Tests.goes (test : Tests calls c cond n start failed vm holds vm') :
    holds = false ∧ vm'.pc = failed ∨
      holds = true ∧ vm'.pc = start + (compileCondition c n cond).length + 1 := by
  obtain ⟨between, ran, turn, held⟩ := test
  obtain ⟨other, same, goes⟩ := codeTurn_jpc calls turn
  obtain rfl := Option.some.inj same
  have place : between.pc = start + (compileCondition c n cond).length := ran.stop between rfl
  rcases goes with ⟨zero, failed⟩ | ⟨nonzero, next⟩
  · have fails : ¬ holds = true := fun is => held.mp is zero
    exact .inl ⟨Bool.not_eq_true _ ▸ fails, failed⟩
  · exact .inr ⟨held.mpr nonzero, by rw [next, place]⟩

theorem Tests.failed_pc (test : Tests calls c cond n start failed vm false vm') :
    vm'.pc = failed := by
  rcases test.goes with ⟨-, place⟩ | ⟨is, -⟩
  · exact place
  · cases is

theorem Tests.held_pc (test : Tests calls c cond n start failed vm true vm') :
    vm'.pc = start + (compileCondition c n cond).length + 1 := by
  rcases test.goes with ⟨is, -⟩ | ⟨-, place⟩
  · cases is
  · exact place

end Tests

theorem jump_pc {stop : Int} {vm vm' : VirtualMachine}
    (jumped : codeTurn calls (instr .jmp 0 0 stop) vm (some vm')) : vm'.pc = stop := by
  obtain ⟨other, same, goes⟩ := codeTurn_jmp calls jumped
  obtain rfl := Option.some.inj same
  exact goes

mutual
/-- The machine follows the tree. -/
theorem Finishes.exits (procedure : 0 < c.procedure) {node : StatementNode} {n : Int} {start : Nat}
    {vm : VirtualMachine} {o : Option VirtualMachine} (entry : vm.pc = start) :
    Finishes calls c node n start vm o →
      (codeMachine calls).Exits (compileStatement c node n start) start vm o
  | .simple _ ran => ran
  | .beginEnds ran returned => by
      rw [compileStatement, compileReturn_procedure procedure]
      have list := ran.exits procedure entry
      exact list.append (exits_return (list.stop _ rfl) returned)
  | .beginReturns ran => by
      rw [compileStatement, compileReturn_procedure procedure]
      exact (ran.exits procedure entry).left _
  | .ifFails test => by
      rw [compileStatement_ifS]
      refine .stopping entry (test.leads fun _ _ present => present) ?_
      rw [length_guardedBranch]
      exact test.failed_pc
  | .ifHolds test branch jumped => by
      have ran := branch.exits procedure test.held_pc
      rw [compileStatement_ifS]
      refine .stopping entry ((test.leads fun _ _ present => present).trans
        (leads_jump (fun _ _ present => present) ran jumped)) ?_
      rw [length_guardedBranch]
      exact jump_pc jumped
  | .ifReturns test branch => by
      have ran := branch.exits procedure test.held_pc
      rw [compileStatement_ifS]
      exact .returning entry ((test.leads fun _ _ present => present).trans
        (leads_branch (fun _ _ present => present) ran))
  | .elseBranch test branch => by
      have ran := branch.exits procedure test.failed_pc
      refine ⟨entry, (test.leads fun _ _ => at_compileThen).trans
        (ran.leads.mono fun _ _ => at_compileOther), fun vm' is => ?_⟩
      rw [length_compileIfElse]
      exact ran.stop vm' is
  | .thenBranch test branch jumped => by
      have ran := branch.exits procedure test.held_pc
      refine .stopping entry ((test.leads fun _ _ => at_compileThen).trans
        (leads_jump (fun _ _ => at_compileThen) ran jumped)) ?_
      rw [length_compileIfElse]
      exact jump_pc jumped
  | .thenReturns test branch => by
      have ran := branch.exits procedure test.held_pc
      exact .returning entry ((test.leads fun _ _ => at_compileThen).trans
        (leads_branch (fun _ _ => at_compileThen) ran))
  | .whileFails test => by
      rw [compileStatement_while]
      refine .stopping entry (test.leads fun _ _ present => present) ?_
      rw [length_guardedBranch]
      exact test.failed_pc
  | .whileAgain test body jumped rest => by
      have ran := body.exits procedure test.held_pc
      have again := rest.exits procedure (jump_pc jumped)
      rw [compileStatement_while] at again ⊢
      have once := (test.leads fun _ _ present => present).trans
        (leads_jump (fun _ _ present => present) ran jumped)
      exact ⟨entry, once.trans again.leads, again.stop⟩
  | .whileReturns test body => by
      have ran := body.exits procedure test.held_pc
      rw [compileStatement_while]
      exact .returning entry ((test.leads fun _ _ present => present).trans
        (leads_branch (fun _ _ present => present) ran))

theorem FinishesAll.exits (procedure : 0 < c.procedure) {list : StatementList} {n : Int}
    {start : Nat} {vm : VirtualMachine} {o : Option VirtualMachine} (entry : vm.pc = start) :
    FinishesAll calls c list n start vm o →
      (codeMachine calls).Exits (compileStatements c list n start) start vm o
  | .nil _ _ _ => .nil entry
  | .next first more => by
      have one := first.exits procedure entry
      rw [compileStatements]
      exact one.append (more.exits procedure (one.stop _ rfl))
  | .returns first => (first.exits procedure entry).left _
end

theorem hasBegin_of_isSimple {node : StatementNode} (simple : node.isSimple = true) :
    node.hasBegin = false := by
  cases node <;> first | rfl | cases simple

theorem finishes_simple {node : StatementNode} (simple : node.isSimple = true) {n : Int}
    {start : Nat} {vm : VirtualMachine} {o : Option VirtualMachine}
    (exits : (codeMachine calls).Exits (compileStatement c node n start) start vm o) :
    Finishes calls c node n start vm o := by
  obtain ⟨count, runs⟩ := exits.leads
  have quiet := compileStatement_noReturn c node n start (.inr (hasBegin_of_isSimple simple))
  have ends := runs.noReturn (codeMachine_follows calls) quiet
  obtain ⟨vm', rfl⟩ := Option.ne_none_iff_exists'.mp ends
  exact .simple simple exits

/-- The loop, by induction on the number of turns. -/
theorem finishes_while {cond : ConditionNode} {sts : StatementNode} {n : Int} {start : Nat}
    (body : ∀ {vm : VirtualMachine} {o : Option VirtualMachine},
      (codeMachine calls).Exits (compileBranch c cond sts n start)
        (start + (compileCondition c n cond).length + 1) vm o →
      Finishes calls c sts (n + 1) (start + (compileCondition c n cond).length + 1) vm o)
    (count : Nat) : ∀ {vm : VirtualMachine} {o : Option VirtualMachine},
      (codeMachine calls).Runs (compileStatement c (.while cond sts) n start) start count vm o →
      vm.pc = start → (∀ vm', o = some vm' →
        vm'.pc = start + (compileStatement c (.while cond sts) n start).length) →
      Finishes calls c (.while cond sts) n start vm o := by
  have closed : Closed targets (compileBranch c cond sts n start) _ :=
    compileStatement_closed c sts (n + 1) (start + (compileCondition c n cond).length + 1)
  have last := length_guardedBranch c cond sts n (behindBranch c cond sts n start) start start
  rw [compileStatement_while]
  induction count using Nat.strong_induction_on with
  | h count ih =>
      intro vm o runs entry passes
      obtain ⟨between, vm1, count1, fewer, tested, jump, goes, rest⟩ := test_of_runs
        (fun _ _ present => present) (Int.le_refl _) (straight_condition c n cond) runs entry passes
      rcases goes with ⟨zero, failed⟩ | ⟨nonzero, next⟩
      · obtain rfl := rest.ended (failed.trans last.symm)
        exact .whileFails ⟨between, tested, jump, by simp [zero]⟩
      · have test : Tests calls c cond n start (behindBranch c cond sts n start) vm true vm1 :=
          ⟨between, tested, jump, by simp [nonzero]⟩
        rcases branch_of_runs (fun _ _ present => present) (Int.le_refl _) closed rest next passes
          with ⟨rfl, returned⟩ | ⟨vm2, vm3, count2, fewer', ran, back, again, more⟩
        · exact .whileReturns test (body returned)
        · exact .whileAgain test (body ran) back (ih count2 (by omega) more again passes)

mutual
/-- The tree follows the machine. -/
theorem finishes_of_exits (procedure : 0 < c.procedure) : ∀ (node : StatementNode) (n : Int)
    (start : Nat) {vm : VirtualMachine} {o : Option VirtualMachine},
      (codeMachine calls).Exits (compileStatement c node n start) start vm o →
        Finishes calls c node n start vm o
  | .empty, _, _, _, _, exits => finishes_simple rfl exits
  | .assign _ _, _, _, _, _, exits => finishes_simple rfl exits
  | .read _, _, _, _, _, exits => finishes_simple rfl exits
  | .write _, _, _, _, _, exits => finishes_simple rfl exits
  | .call _, _, _, _, _, exits => finishes_simple rfl exits
  | .begin list, n, start, vm, o, exits => by
      have closed := compileStatements_closed c list n start
      have returns : Closed targets [instr .rtn 0 0 0]
          (start + (compileStatements c list n start).length) := by
        intro i j flows
        obtain ⟨-, target⟩ := flows_singleton.mp flows
        simp at target
      rw [compileStatement, compileReturn_procedure procedure,
        Machine.exits_append (codeMachine_follows calls) closed returns] at exits
      rcases exits with ⟨rfl, inside⟩ | ⟨vm1, ran, last⟩
      · exact .beginReturns (finishesAll_of_exits procedure list n start inside)
      · obtain ⟨rfl, returned⟩ := return_of_exits last
        exact .beginEnds (finishesAll_of_exits procedure list n start ran) returned
  | .ifS cond ifsts, n, start, vm, o, exits => by
      have closed : Closed targets (compileBranch c cond ifsts n start) _ :=
        compileStatement_closed c ifsts (n + 1) (start + (compileCondition c n cond).length + 1)
      have last := length_guardedBranch c cond ifsts n (behindBranch c cond ifsts n start)
        (behindBranch c cond ifsts n start) start
      rw [compileStatement_ifS] at exits
      obtain ⟨count, runs⟩ := exits.leads
      obtain ⟨between, vm1, count1, -, tested, jump, goes, rest⟩ := test_of_runs
        (fun _ _ present => present) (Int.le_refl _) (straight_condition c n cond) runs exits.entry
        exits.stop
      rcases goes with ⟨zero, failed⟩ | ⟨nonzero, next⟩
      · obtain rfl := rest.ended (failed.trans last.symm)
        exact .ifFails ⟨between, tested, jump, by simp [zero]⟩
      · have test : Tests calls c cond n start (behindBranch c cond ifsts n start) vm true vm1 :=
          ⟨between, tested, jump, by simp [nonzero]⟩
        rcases branch_of_runs (fun _ _ present => present) (Int.le_refl _) closed rest next
          exits.stop with ⟨rfl, returned⟩ | ⟨vm2, vm3, count2, -, ran, jumped, behind, more⟩
        · exact .ifReturns test (finishes_of_exits procedure ifsts _ _ returned)
        · obtain rfl := more.ended (behind.trans last.symm)
          exact .ifHolds test (finishes_of_exits procedure ifsts _ _ ran) jumped
  | .ifElse cond ifsts elsests, n, start, vm, o, exits => by
      have closed : Closed targets (compileBranch c cond ifsts n start) _ :=
        compileStatement_closed c ifsts (n + 1) (start + (compileCondition c n cond).length + 1)
      have other : Closed targets (compileOther c cond ifsts elsests n start) _ :=
        compileStatement_closed c elsests (n + 1) (behindBranch c cond ifsts n start)
      have last := length_compileIfElse c cond ifsts elsests n start
      have inside : (start : Int) + (compileThen c cond ifsts elsests n start).length ≤
          start + (compileStatement c (.ifElse cond ifsts elsests) n start).length := by
        rw [length_compileThen, last]
        omega
      obtain ⟨count, runs⟩ := exits.leads
      obtain ⟨between, vm1, count1, -, tested, jump, goes, rest⟩ := test_of_runs
        (fun _ _ => at_compileThen) inside (straight_condition c n cond) runs exits.entry exits.stop
      rcases goes with ⟨zero, failed⟩ | ⟨nonzero, next⟩
      · have ran := rest.exits (codeMachine_follows calls) other (fun _ _ => at_compileOther) failed
          last.symm exits.stop
        exact .elseBranch ⟨between, tested, jump, by simp [zero]⟩
          (finishes_of_exits procedure elsests _ _ ran)
      · have test : Tests calls c cond n start (behindBranch c cond ifsts n start) vm true vm1 :=
          ⟨between, tested, jump, by simp [nonzero]⟩
        rcases branch_of_runs (fun _ _ => at_compileThen) inside closed rest next exits.stop with
          ⟨rfl, returned⟩ | ⟨vm2, vm3, count2, -, ran, jumped, behind, more⟩
        · exact .thenReturns test (finishes_of_exits procedure ifsts _ _ returned)
        · obtain rfl := more.ended (behind.trans last.symm)
          exact .thenBranch test (finishes_of_exits procedure ifsts _ _ ran) jumped
  | .while cond sts, n, start, vm, o, exits => by
      obtain ⟨count, runs⟩ := exits.leads
      exact finishes_while (finishes_of_exits procedure sts _ _) count runs exits.entry exits.stop

theorem finishesAll_of_exits (procedure : 0 < c.procedure) : ∀ (list : StatementList) (n : Int)
    (start : Nat) {vm : VirtualMachine} {o : Option VirtualMachine},
      (codeMachine calls).Exits (compileStatements c list n start) start vm o →
        FinishesAll calls c list n start vm o
  | .nil, n, start, vm, o, exits => by
      obtain ⟨count, runs⟩ := exits.leads
      have entry : vm.pc = start := exits.entry
      obtain rfl := runs.ended (entry.trans (Int.add_zero _).symm)
      exact .nil n start vm
  | .cons sts rest, n, start, vm, o, exits => by
      have first := compileStatement_closed c sts n start
      have second := compileStatements_closed c rest n
        (start + (compileStatement c sts n start).length)
      rw [Int.natCast_add] at second
      rw [compileStatements, Machine.exits_append (codeMachine_follows calls) first second] at exits
      rcases exits with ⟨rfl, inside⟩ | ⟨vm1, ran, more⟩
      · exact .returns (finishes_of_exits procedure sts n start inside)
      · exact .next (finishes_of_exits procedure sts n start ran)
          (finishesAll_of_exits procedure rest n _ more)
end

theorem exits_iff_finishes (procedure : 0 < c.procedure) {node : StatementNode} {n : Int}
    {start : Nat} {vm : VirtualMachine} (entry : vm.pc = start) {o : Option VirtualMachine} :
    (codeMachine calls).Exits (compileStatement c node n start) start vm o ↔
      Finishes calls c node n start vm o :=
  ⟨finishes_of_exits procedure node n start, Finishes.exits procedure entry⟩

/-- The code of a statement is left behind its end only, exactly when it is in the main procedure
or no begin statement in it comes to its end. -/
theorem compileStatement_exitsBehind {node : StatementNode} {n : Int} {start : Nat}
    {vm : VirtualMachine} (entry : vm.pc = start) :
    (codeMachine calls).ExitsBehind (compileStatement c node n start) start vm ↔
      c.procedure ≤ 0 ∨ ¬ Finishes calls c node n start vm none := by
  have follows := codeMachine_follows calls
  rw [Machine.exitsBehind_iff follows (compileStatement_closed c node n start) entry]
  by_cases procedure : 0 < c.procedure
  · rw [exits_iff_finishes procedure entry, or_iff_right (Int.not_le.mpr procedure)]
  · have inMain : c.procedure ≤ 0 := Int.not_lt.mp procedure
    refine iff_of_true (fun exits => ?_) (.inl inMain)
    obtain ⟨count, runs⟩ := exits.leads
    exact runs.noReturn follows (compileStatement_noReturn c node n start (.inl inMain)) rfl

end Completion

end Pl0
