import Pl0.Compile
import Pl0.ControlFlow
import Pl0.VirtualMachineStep

set_option autoImplicit false

namespace Pl0

open ControlFlow

/-- Where an instruction at `i` passes control to. A call is one step, which comes
back to the next instruction; a conditional jump may go either way. -/
def targets (ir : Instruction) (i : Int) : List (Option Int) :=
  if ir.op = Opcode.jmp.toInt then [some ir.m]
  else if ir.op = Opcode.jpc.toInt then [some ir.m, some (i + 1)]
  else if ir.op = Opcode.rtn.toInt then [none]
  else [some (i + 1)]

@[simp] theorem targets_jmp (r l m i : Int) : targets (instr .jmp r l m) i = [some m] := rfl

@[simp] theorem targets_jpc (r l m i : Int) :
    targets (instr .jpc r l m) i = [some m, some (i + 1)] := rfl

@[simp] theorem targets_rtn (r l m i : Int) : targets (instr .rtn r l m) i = [none] := rfl

theorem none_mem_targets {ir : Instruction} {i : Int} (returns : none ∈ targets ir i) :
    ir.op = Opcode.rtn.toInt := by
  unfold targets at returns
  split at returns
  · simp at returns
  · split at returns
    · simp at returns
    · split at returns
      · assumption
      · simp at returns

/-- An instruction that is executed follows its targets. A call is no single turn. -/
theorem executed_follows_targets {vm vm' : VirtualMachine} {ir : Instruction}
    (noCall : ir.op ≠ Opcode.cal.toInt)
    (executed : instructionExecution (vm.fetched ir) = .ok vm') :
    some vm'.pc ∈ targets ir vm.pc ∨ none ∈ targets ir vm.pc := by
  have other : ∀ {op : Opcode}, Opcode.ofInt? ir.op = some op → ir.op = op.toInt :=
    fun decoded => Opcode.ofInt?_eq_some decoded
  have next : ∀ op : Opcode, ir.op = op.toInt → op ≠ .jmp → op ≠ .jpc → op ≠ .rtn →
      vm'.pc = vm.pc + 1 → some vm'.pc ∈ targets ir vm.pc := by
    intro op same noJmp noJpc noRtn pc
    unfold targets
    rw [same, if_neg (by simpa using noJmp), if_neg (by simpa using noJpc),
      if_neg (by simpa using noRtn), pc]
    exact List.mem_singleton.mpr rfl
  cases instructionExecution_effect executed with
  | inner op same pc =>
      refine .inl ?_
      have quiet : ∀ op : Opcode, op.isControl = true → ir.op ≠ op.toInt := by
        intro control isControl same
        have decoded : Opcode.ofInt? ir.op = some control := by rw [same, Opcode.ofInt?_toInt]
        rw [op control decoded] at isControl
        cases isControl
      unfold targets
      rw [if_neg (quiet .jmp rfl), if_neg (quiet .jpc rfl), if_neg (quiet .rtn rfl), pc]
      exact List.mem_singleton.mpr rfl
  | jmp op same status pc =>
      refine .inl ?_
      unfold targets
      rw [if_pos (other op), pc]
      exact List.mem_singleton.mpr rfl
  | jpc op same status pc =>
      refine .inl ?_
      unfold targets
      rw [other op, if_neg (by decide), if_pos rfl]
      rcases pc with taken | passed
      · rw [taken]
        simp
      · rw [passed]
        simp
  | sto target value op _ _ _ _ _ _ _ pc =>
      exact .inl (next .sto (other op) (by decide) (by decide) (by decide) pc)
  | inc op _ _ _ _ _ _ pc =>
      exact .inl (next .inc (other op) (by decide) (by decide) (by decide) pc)
  | cal link op => exact absurd (other op) noCall
  | rtn op =>
      refine .inr ?_
      unfold targets
      rw [other op, if_neg (by decide), if_neg (by decide), if_pos rfl]
      exact List.mem_singleton.mpr rfl

/-- A turn of the machine follows the targets of its instruction. A halt stays
where it is. -/
theorem step_follows_targets {vm vm' : VirtualMachine} {ir : Instruction} (fetches : Fetches vm ir)
    (noCall : ir.op ≠ Opcode.cal.toInt) (stepped : step vm = .ok vm') :
    some vm'.pc ∈ targets ir vm.pc ∨ none ∈ targets ir vm.pc := by
  rw [step_of_fetches fetches] at stepped
  exact executed_follows_targets noCall stepped

theorem straight_nil : Straight targets [] :=
  fun _ member => absurd member List.not_mem_nil

theorem straight_one {op : Int} (noJmp : op ≠ Opcode.jmp.toInt) (noJpc : op ≠ Opcode.jpc.toInt)
    (noRtn : op ≠ Opcode.rtn.toInt) (r l m : Int) : Straight targets [⟨op, r, l, m⟩] := by
  intro one member i
  obtain rfl := List.mem_singleton.mp member
  unfold targets
  rw [if_neg noJmp, if_neg noJpc, if_neg noRtn]

theorem straight_instr (op : Opcode) (plain : op ≠ .jmp ∧ op ≠ .jpc ∧ op ≠ .rtn) (r l m : Int) :
    Straight targets [instr op r l m] :=
  straight_one (fun same => plain.1 (Opcode.toInt_inj.mp same))
    (fun same => plain.2.1 (Opcode.toInt_inj.mp same))
    (fun same => plain.2.2 (Opcode.toInt_inj.mp same)) r l m

/-- The instructions that do nothing but write a register. -/
def Opcode.isPlain : Opcode → Bool
  | .rtn | .sto | .cal | .inc | .jmp | .jpc | .sio | .sio2 | .sio3 => false
  | _ => true

def Plain (code : List Instruction) : Prop :=
  ∀ ir ∈ code, ∀ op, Opcode.ofInt? ir.op = some op → op.isPlain = true

namespace Plain

variable {a b code : List Instruction}

theorem nil : Plain [] :=
  fun _ member => absurd member List.not_mem_nil

theorem append (first : Plain a) (second : Plain b) : Plain (a ++ b) :=
  List.forall_mem_append.mpr ⟨first, second⟩

theorem one {ir : Instruction} (plain : ∀ op, Opcode.ofInt? ir.op = some op → op.isPlain = true) :
    Plain [ir] :=
  fun _ member => List.mem_singleton.mp member ▸ plain

theorem instr {op : Opcode} (plain : op.isPlain = true) (r l m : Int) : Plain [instr op r l m] := by
  apply one
  intro other found
  have same : some op = some other := (Opcode.ofInt?_toInt op).symm.trans found
  exact Option.some.inj same ▸ plain

theorem ne (plain : Plain code) (op : Opcode) (other : op.isPlain = false) :
    ∀ ir ∈ code, ir.op ≠ op.toInt := by
  intro ir member same
  have found := plain ir member op (by rw [same, Opcode.ofInt?_toInt])
  rw [other] at found
  cases found

theorem straight (plain : Plain code) : Straight targets code := by
  intro ir member i
  unfold targets
  rw [if_neg (plain.ne .jmp rfl ir member), if_neg (plain.ne .jpc rfl ir member),
    if_neg (plain.ne .rtn rfl ir member)]

end Plain

/- Expressions and conditions are straight-line code. -/

theorem plain_calculation (n : Int) (op : Token) : Plain (compileCalculation n op) := by
  apply Plain.one
  intro other found
  cases op <;> cases found <;> rfl

theorem plain_relOp (op : Token) (i j k : Int) : Plain [⟨relOpOp op, i, j, k⟩] := by
  apply Plain.one
  intro other found
  cases op <;> cases found <;> rfl

theorem plain_sign (n : Int) (preop : Token) : Plain (compileSign n preop) := by
  cases preop with
  | minussym => exact .instr rfl _ _ _
  | _ => exact .nil

theorem plain_name (c : CodeContext) (n : Int) (name : Name) : Plain (compileName c n name) := by
  unfold compileName
  cases c.lookup name with
  | none => exact .nil
  | some sym =>
      cases kind : sym.kind with
      | varS =>
          simp only [kind]
          exact .instr rfl _ _ _
      | constS =>
          simp only [kind]
          exact .instr rfl _ _ _
      | procS =>
          simp only [kind]
          exact .nil

mutual
theorem plain_factor (c : CodeContext) : ∀ (f : FactorNode) (n : Int), Plain (compileFactor c f n)
  | .ident name, n => plain_name c n name
  | .digit _, _ => .instr rfl _ _ _
  | .exp e, n => plain_terms c e true n

theorem plain_factors (c : CodeContext) : ∀ (e : FactorExp) (sign : Option Token) (n : Int),
    Plain (compileFactors c e sign n)
  | .nil, _, _ => .nil
  | .cons _ factor next, some preop, n =>
      ((plain_factor c factor n).append (plain_sign n preop)).append (plain_factors c next none n)
  | .cons op factor next, none, n =>
      ((plain_factor c factor (n + 1)).append (plain_calculation n op)).append
        (plain_factors c next none n)

theorem plain_terms (c : CodeContext) : ∀ (e : TermExp) (first : Bool) (n : Int),
    Plain (compileTerms c e first n)
  | .nil, _, _ => .nil
  | .cons op term next, true, n =>
      (plain_factors c term (some op) n).append (plain_terms c next false n)
  | .cons op term next, false, n =>
      ((plain_factors c term (some .unset) (n + 1)).append (plain_calculation n op)).append
        (plain_terms c next false n)
end

theorem plain_expression (c : CodeContext) (n : Int) (e : TermExp) :
    Plain (compileExpression c n e) :=
  plain_terms c e true n

theorem plain_condition (c : CodeContext) (n : Int) (cond : ConditionNode) :
    Plain (compileCondition c n cond) := by
  cases cond with
  | odd right => exact (plain_expression c n right).append (.instr rfl _ _ _)
  | relOp op left right =>
      exact ((plain_expression c n left).append (plain_expression c (n + 1) right)).append
        (plain_relOp op _ _ _)

theorem straight_expression (c : CodeContext) (n : Int) (e : TermExp) :
    Straight targets (compileExpression c n e) :=
  (plain_expression c n e).straight

theorem straight_condition (c : CodeContext) (n : Int) (cond : ConditionNode) :
    Straight targets (compileCondition c n cond) :=
  (plain_condition c n cond).straight

theorem straight_store (c : CodeContext) (n : Int) (name : Name) :
    Straight targets (compileStore c n name) := by
  unfold compileStore
  cases c.lookup name with
  | none => exact straight_nil
  | some sym => exact straight_instr _ (by decide) _ _ _

theorem straight_read (c : CodeContext) (n : Int) (name : Name) :
    Straight targets (compileRead c n name) := by
  unfold compileRead
  cases c.lookup name with
  | none => exact straight_nil
  | some sym =>
      exact (straight_instr .sio (by decide) _ _ _).append
        (straight_instr .sto (by decide) _ _ _)

theorem straight_write (c : CodeContext) (n : Int) (name : Name) :
    Straight targets (compileWrite c n name) := by
  unfold compileWrite
  cases c.lookup name with
  | none => exact straight_nil
  | some sym =>
      have shown := straight_instr .sio (by decide) n 0 1
      by_cases kind : sym.kind = .varS
      · simp only [kind, if_true]
        exact (straight_instr .lod (by decide) _ _ _).append shown
      · simp only [kind, if_false]
        exact (straight_instr .lod (by decide) _ _ _).append shown

theorem straight_call (c : CodeContext) (name : Name) : Straight targets (compileCall c name) := by
  unfold compileCall
  cases c.lookup name with
  | none => exact straight_nil
  | some sym => exact straight_instr _ (by decide) _ _ _

/-- A test, a branch that is skipped to `failed` when the test fails, and a jump to
`stop` behind the branch. -/
def guarded (test branch : List Instruction) (n failed stop : Int) : List Instruction :=
  test ++ [instr .jpc n 0 failed] ++ branch ++ [instr .jmp 0 0 stop]

section Guarded

variable {test branch : List Instruction} {n failed stop start : Int}

theorem length_guarded : (guarded test branch n failed stop).length =
    test.length + branch.length + 2 := by
  simp only [guarded, List.length_append, List.length_singleton]
  omega

theorem flows_guarded {i : Int} {j : Option Int} :
    Flows targets (guarded test branch n failed stop) start i j ↔
      Flows targets test start i j ∨
      (i = start + test.length ∧ (j = some failed ∨ j = some (i + 1))) ∨
      Flows targets branch (start + test.length + 1) i j ∨
      (i = start + test.length + 1 + branch.length ∧ j = some stop) := by
  have atBranch : start + ↑(test ++ [instr .jpc n 0 failed]).length = start + test.length + 1 := by
    simp only [List.length_append, List.length_singleton]
    omega
  have atJump : start + ↑(test ++ [instr .jpc n 0 failed] ++ branch).length =
      start + test.length + 1 + branch.length := by
    simp only [List.length_append, List.length_singleton]
    omega
  unfold guarded
  rw [flows_append, flows_append, flows_append, flows_singleton, flows_singleton, atBranch, atJump,
    targets_jpc, targets_jmp, or_assoc, or_assoc]
  constructor
  · rintro (inTest | ⟨rfl, target⟩ | inBranch | ⟨rfl, target⟩)
    · exact .inl inTest
    · exact .inr (.inl ⟨rfl, by simpa using target⟩)
    · exact .inr (.inr (.inl inBranch))
    · exact .inr (.inr (.inr ⟨rfl, by simpa using target⟩))
  · rintro (inTest | ⟨rfl, target⟩ | inBranch | ⟨rfl, target⟩)
    · exact .inl inTest
    · exact .inr (.inl ⟨rfl, by simpa using target⟩)
    · exact .inr (.inr (.inl inBranch))
    · exact .inr (.inr (.inr ⟨rfl, by simpa using target⟩))

theorem guarded_test (straight : Straight targets test) :
    Reaches targets (guarded test branch n failed stop) start start (start + test.length) := by
  have through : Reaches targets test start start (start + test.length) := straight.passes start
  unfold guarded
  rw [List.append_assoc, List.append_assoc]
  exact through.left _

/-- The test may fail. -/
theorem guarded_failed (straight : Straight targets test) :
    Reaches targets (guarded test branch n failed stop) start start failed :=
  (guarded_test straight).tail (flows_guarded.mpr (.inr (.inl ⟨rfl, .inl rfl⟩)))

/-- The test may succeed. -/
theorem guarded_branch (straight : Straight targets test) :
    Reaches targets (guarded test branch n failed stop) start start (start + test.length + 1) :=
  (guarded_test straight).tail (flows_guarded.mpr (.inr (.inl ⟨rfl, .inr rfl⟩)))

theorem at_guarded_branch {i : Int} {ir : Instruction}
    (present : At branch (start + test.length + 1) i ir) :
    At (guarded test branch n failed stop) start i ir := by
  have place : start + ↑(test ++ [instr .jpc n 0 failed]).length = start + test.length + 1 := by
    simp only [List.length_append, List.length_singleton]
    omega
  refine at_append.mpr (.inl (at_append.mpr (.inr ?_)))
  rw [place]
  exact present

theorem guarded_stop (straight : Straight targets test)
    (passes : Passes targets branch (start + test.length + 1)) :
    Reaches targets (guarded test branch n failed stop) start start stop := by
  have through : Reaches targets (guarded test branch n failed stop) start _ _ :=
    Reaches.mono (fun _ _ => at_guarded_branch) passes
  exact ((guarded_branch straight).trans through).tail
    (flows_guarded.mpr (.inr (.inr (.inr ⟨rfl, rfl⟩))))

theorem guarded_within {low high : Int} (straight : Straight targets test)
    (closed : Closed targets branch (start + test.length + 1)) (below : low ≤ start)
    (above : start + test.length + branch.length + 1 ≤ high)
    (failedIn : low ≤ failed ∧ failed ≤ high)
    (stopIn : low ≤ stop ∧ stop ≤ high) :
    JumpsWithin targets low high (guarded test branch n failed stop) start := by
  intro i j flows
  rcases flows_guarded.mp flows with inTest | ⟨rfl, target | target⟩ | inBranch | ⟨rfl, target⟩
  · have bounds := straight.closed start i j inTest
    omega
  · cases target
    exact failedIn
  · cases target
    omega
  · have bounds := closed i j inBranch
    omega
  · cases target
    exact stopIn

theorem guarded_noReturn (straight : Straight targets test) (quiet : NoReturn targets branch) :
    NoReturn targets (guarded test branch n failed stop) := by
  have jpc : NoReturn targets [instr .jpc n 0 failed] := by
    intro ir member i
    rw [List.mem_singleton.mp member]
    simp
  have jmp : NoReturn targets [instr .jmp 0 0 stop] := by
    intro ir member i
    rw [List.mem_singleton.mp member]
    simp
  exact ((straight.noReturn.append jpc).append quiet).append jmp

end Guarded

/-- A begin statement stands somewhere in the statement. -/
def StatementNode.hasBegin : StatementNode → Bool
  | .begin _ => true
  | .ifS _ ifsts => ifsts.hasBegin
  | .ifElse _ ifsts elsests => ifsts.hasBegin || elsests.hasBegin
  | .while _ sts => sts.hasBegin
  | _ => false

/-- Every way through the statement ends in a begin statement. -/
def StatementNode.endsInBegin : StatementNode → Bool
  | .begin _ => true
  | .ifElse _ ifsts elsests => ifsts.endsInBegin && elsests.endsInBegin
  | _ => false

section Compiled

variable (c : CodeContext)

/-- The code of a branch or of a loop body. -/
def compileBranch (cond : ConditionNode) (sts : StatementNode) (n : Int) (start : Nat) :
    List Instruction :=
  compileStatement c sts (n + 1) (start + (compileCondition c n cond).length + 1)

/-- The index behind the jump that ends a branch or a loop body. -/
def behindBranch (cond : ConditionNode) (sts : StatementNode) (n : Int) (start : Nat) : Nat :=
  start + (compileCondition c n cond).length + 1 + (compileBranch c cond sts n start).length + 1

def compileOther (cond : ConditionNode) (ifsts elsests : StatementNode) (n : Int)
    (start : Nat) : List Instruction :=
  compileStatement c elsests (n + 1) (behindBranch c cond ifsts n start)

theorem compileStatement_ifS (cond : ConditionNode) (ifsts : StatementNode) (n : Int)
    (start : Nat) : compileStatement c (.ifS cond ifsts) n start =
      guarded (compileCondition c n cond) (compileBranch c cond ifsts n start) n
        (behindBranch c cond ifsts n start) (behindBranch c cond ifsts n start) := by
  rw [compileStatement]
  rfl

theorem compileStatement_ifElse (cond : ConditionNode) (ifsts elsests : StatementNode) (n : Int)
    (start : Nat) : compileStatement c (.ifElse cond ifsts elsests) n start =
      guarded (compileCondition c n cond) (compileBranch c cond ifsts n start) n
        (behindBranch c cond ifsts n start)
        (behindBranch c cond ifsts n start + (compileOther c cond ifsts elsests n start).length) ++
      compileOther c cond ifsts elsests n start := by
  rw [compileStatement]
  rfl

theorem compileStatement_while (cond : ConditionNode) (sts : StatementNode) (n : Int)
    (start : Nat) : compileStatement c (.while cond sts) n start =
      guarded (compileCondition c n cond) (compileBranch c cond sts n start) n
        (behindBranch c cond sts n start) start := by
  rw [compileStatement]
  rfl

theorem length_guardedBranch (cond : ConditionNode) (sts : StatementNode) (n failed stop : Int)
    (start : Nat) : (start : Int) + (guarded (compileCondition c n cond)
      (compileBranch c cond sts n start) n failed stop).length = behindBranch c cond
        sts n start := by
  rw [length_guarded]
  unfold behindBranch
  omega

theorem behindBranch_eq (cond : ConditionNode) (sts : StatementNode) (n : Int) (start : Nat) :
    (behindBranch c cond sts n start : Int) =
      start + (compileCondition c n cond).length + 1 +
        (compileBranch c cond sts n start).length + 1 :=
  rfl

mutual
theorem compileStatement_closed : ∀ (node : StatementNode) (n : Int) (start : Nat),
    Closed targets (compileStatement c node n start) start
  | .empty, _, _ => .nil
  | .assign name e, n, start =>
      ((straight_expression c n e).append (straight_store c n name)).closed start
  | .begin list, n, start => by
      have inner := compileStatements_closed list n start
      have returned : Closed targets (compileReturn c)
          (start + (compileStatements c list n start).length) := by
        unfold compileReturn
        split
        · intro i j flows
          obtain ⟨-, target⟩ := flows_singleton.mp flows
          simp at target
        · exact .nil
      exact inner.append returned
  | .ifS cond ifsts, n, start => by
      have branch : Closed targets (compileBranch c cond ifsts n start) _ :=
        compileStatement_closed ifsts (n + 1) (start + (compileCondition c n cond).length + 1)
      have position := behindBranch_eq c cond ifsts n start
      have stop := length_guardedBranch c cond ifsts n
        (behindBranch c cond ifsts n start) (behindBranch c cond ifsts n start) start
      rw [compileStatement_ifS]
      unfold Closed
      rw [stop]
      apply guarded_within (straight_condition c n cond) branch <;> omega
  | .ifElse cond ifsts elsests, n, start => by
      have branch : Closed targets (compileBranch c cond ifsts n start) _ :=
        compileStatement_closed ifsts (n + 1) (start + (compileCondition c n cond).length + 1)
      have position := behindBranch_eq c cond ifsts n start
      have other : Closed targets (compileOther c cond ifsts elsests n start) _ :=
        compileStatement_closed elsests (n + 1) (behindBranch c cond ifsts n start)
      have middle := length_guardedBranch c cond ifsts n (behindBranch c cond ifsts n start)
        (behindBranch c cond ifsts n start + (compileOther c cond ifsts elsests n start).length)
        start
      rw [compileStatement_ifElse]
      unfold Closed
      rw [List.length_append, Int.natCast_add, ← Int.add_assoc, middle]
      apply JumpsWithin.append
      · apply guarded_within (straight_condition c n cond) branch <;> omega
      · rw [middle]
        exact other.mono (by omega) (by omega)
  | .while cond sts, n, start => by
      have body : Closed targets (compileBranch c cond sts n start) _ :=
        compileStatement_closed sts (n + 1) (start + (compileCondition c n cond).length + 1)
      have position := behindBranch_eq c cond sts n start
      have stop := length_guardedBranch c cond sts n (behindBranch c cond sts n start) start start
      rw [compileStatement_while]
      unfold Closed
      rw [stop]
      apply guarded_within (straight_condition c n cond) body <;> omega
  | .read name, n, start => (straight_read c n name).closed start
  | .write name, n, start => (straight_write c n name).closed start
  | .call name, _, start => (straight_call c name).closed start

theorem compileStatements_closed : ∀ (list : StatementList) (n : Int) (start : Nat),
    Closed targets (compileStatements c list n start) start
  | .nil, _, _ => .nil
  | .cons sts next, n, start => by
      have rest := compileStatements_closed next n (start + (compileStatement c sts n start).length)
      rw [Int.natCast_add] at rest
      exact (compileStatement_closed sts n start).append rest
end

mutual
/-- Outside the begin statements of a procedure control gets through. -/
theorem compileStatement_passes : ∀ (node : StatementNode) (n : Int) (start : Nat),
    c.procedure ≤ 0 ∨ node.endsInBegin = false →
    Passes targets (compileStatement c node n start) start
  | .empty, _, _, _ => .nil
  | .assign name e, n, start, _ =>
      ((straight_expression c n e).append (straight_store c n name)).passes start
  | .begin list, n, start, outside => by
      have inMain : c.procedure ≤ 0 := by
        rcases outside with inMain | open_
        · exact inMain
        · cases open_
      have noReturn : compileReturn c = [] := if_neg (by omega)
      rw [compileStatement, noReturn, List.append_nil]
      exact compileStatements_passes list n start inMain
  | .ifS cond ifsts, n, start, _ => by
      have stop := length_guardedBranch c cond ifsts n
        (behindBranch c cond ifsts n start) (behindBranch c cond ifsts n start) start
      rw [compileStatement_ifS]
      unfold Passes
      rw [stop]
      exact guarded_failed (straight_condition c n cond)
  | .ifElse cond ifsts elsests, n, start, outside => by
      have middle := length_guardedBranch c cond ifsts n (behindBranch c cond ifsts n start)
        (behindBranch c cond ifsts n start + (compileOther c cond ifsts elsests n start).length)
        start
      have eitherOpen : (c.procedure ≤ 0 ∨ ifsts.endsInBegin = false) ∨
          (c.procedure ≤ 0 ∨ elsests.endsInBegin = false) := by
        rcases outside with inMain | open_
        · exact .inl (.inl inMain)
        · rcases Bool.and_eq_false_iff.mp open_ with first | second
          · exact .inl (.inr first)
          · exact .inr (.inr second)
      rw [compileStatement_ifElse]
      unfold Passes
      rw [List.length_append, Int.natCast_add, ← Int.add_assoc, middle]
      rcases eitherOpen with thenOpen | elseOpen
      · have branch := compileStatement_passes ifsts (n + 1)
          (start + (compileCondition c n cond).length + 1) thenOpen
        exact (guarded_stop (straight_condition c n cond) branch).left _
      · have other := compileStatement_passes elsests (n + 1) (behindBranch c cond ifsts n start)
          elseOpen
        refine ((guarded_failed (straight_condition c n cond)).left _).trans (Reaches.right _ ?_)
        rw [middle]
        exact other
  | .while cond sts, n, start, _ => by
      have stop := length_guardedBranch c cond sts n (behindBranch c cond sts n start) start start
      rw [compileStatement_while]
      unfold Passes
      rw [stop]
      exact guarded_failed (straight_condition c n cond)
  | .read name, n, start, _ => (straight_read c n name).passes start
  | .write name, n, start, _ => (straight_write c n name).passes start
  | .call name, _, start, _ => (straight_call c name).passes start

theorem compileStatements_passes : ∀ (list : StatementList) (n : Int) (start : Nat),
    c.procedure ≤ 0 → Passes targets (compileStatements c list n start) start
  | .nil, _, _, _ => .nil
  | .cons sts next, n, start, inMain => by
      have rest := compileStatements_passes next n
        (start + (compileStatement c sts n start).length) inMain
      rw [Int.natCast_add] at rest
      exact (compileStatement_passes sts n start (.inl inMain)).append rest
end

theorem noReturn_nil : NoReturn targets [] :=
  fun _ member => absurd member List.not_mem_nil

mutual
/-- Only the begin statements of a procedure return. -/
theorem compileStatement_noReturn : ∀ (node : StatementNode) (n : Int) (start : Nat),
    c.procedure ≤ 0 ∨ node.hasBegin = false → NoReturn targets (compileStatement c node n start)
  | .empty, _, _, _ => noReturn_nil
  | .assign name e, n, _, _ =>
      ((straight_expression c n e).append (straight_store c n name)).noReturn
  | .begin list, n, start, outside => by
      have inMain : c.procedure ≤ 0 := by
        rcases outside with inMain | without
        · exact inMain
        · cases without
      have noReturn : compileReturn c = [] := if_neg (by omega)
      rw [compileStatement, noReturn, List.append_nil]
      exact compileStatements_noReturn list n start inMain
  | .ifS cond ifsts, n, start, outside => by
      rw [compileStatement_ifS]
      exact guarded_noReturn (straight_condition c n cond)
        (compileStatement_noReturn ifsts _ _ outside)
  | .ifElse cond ifsts elsests, n, start, outside => by
      have both : (c.procedure ≤ 0 ∨ ifsts.hasBegin = false) ∧
          (c.procedure ≤ 0 ∨ elsests.hasBegin = false) := by
        rcases outside with inMain | without
        · exact ⟨.inl inMain, .inl inMain⟩
        · have parts := Bool.or_eq_false_iff.mp without
          exact ⟨.inr parts.1, .inr parts.2⟩
      rw [compileStatement_ifElse]
      exact (guarded_noReturn (straight_condition c n cond)
        (compileStatement_noReturn ifsts _ _ both.1)).append
          (compileStatement_noReturn elsests _ _ both.2)
  | .while cond sts, n, start, outside => by
      rw [compileStatement_while]
      exact guarded_noReturn (straight_condition c n cond)
        (compileStatement_noReturn sts _ _ outside)
  | .read name, n, _, _ => (straight_read c n name).noReturn
  | .write name, n, _, _ => (straight_write c n name).noReturn
  | .call name, _, _, _ => (straight_call c name).noReturn

theorem compileStatements_noReturn : ∀ (list : StatementList) (n : Int) (start : Nat),
    c.procedure ≤ 0 → NoReturn targets (compileStatements c list n start)
  | .nil, _, _, _ => noReturn_nil
  | .cons sts next, n, start, inMain =>
      (compileStatement_noReturn sts n start (.inl inMain)).append
        (compileStatements_noReturn next n _ inMain)
end

/-- In a procedure no path gets behind a statement that ends in begin statements. -/
theorem compileStatement_confined (inProcedure : 0 < c.procedure) : ∀ (node : StatementNode)
    (n : Int) (start : Nat), node.endsInBegin = true →
      Confined targets (compileStatement c node n start) start
  | .begin list, n, start, _ => by
      have returned : compileReturn c = [instr .rtn 0 0 0] := if_pos inProcedure
      rw [compileStatement, returned]
      exact (compileStatements_closed c list n start).confined_return fun _ => rfl
  | .ifElse cond ifsts elsests, n, start, both => by
      obtain ⟨thenEnds, elseEnds⟩ := Bool.and_eq_true_iff.mp both
      have branch : Confined targets (compileBranch c cond ifsts n start) _ :=
        compileStatement_confined inProcedure ifsts (n + 1)
          (start + (compileCondition c n cond).length + 1) thenEnds
      have other : Confined targets (compileOther c cond ifsts elsests n start) _ :=
        compileStatement_confined inProcedure elsests (n + 1) (behindBranch c cond ifsts n start)
          elseEnds
      have position := behindBranch_eq c cond ifsts n start
      have middle := length_guardedBranch c cond ifsts n (behindBranch c cond ifsts n start)
        (behindBranch c cond ifsts n start +
          (compileOther c cond ifsts elsests n start).length) start
      rw [compileStatement_ifElse]
      apply confined_of_invariant (S := fun i =>
        ((start : Int) ≤ i ∧ i ≤ start + (compileCondition c n cond).length) ∨
        Reaches targets (compileBranch c cond ifsts n start)
          (start + (compileCondition c n cond).length + 1)
          (start + (compileCondition c n cond).length + 1) i ∨
        Reaches targets (compileOther c cond ifsts elsests n start)
          (behindBranch c cond ifsts n start)
          (behindBranch c cond ifsts n start) i)
      · left
        omega
      · intro i inside
        rw [List.length_append]
        rcases inside with inTest | inThen | inElse
        · omega
        · have bounds := branch i inThen
          push_cast at bounds
          omega
        · have bounds := other i inElse
          omega
      · intro i j inside flows
        rcases flows_append.mp flows with inGuarded | inOther
        · rcases flows_guarded.mp inGuarded with inTest |
            ⟨rfl, target | target⟩ | inBranch | ⟨rfl, _⟩
          · have bounds := (straight_condition c n cond).closed start i j inTest
            left
            omega
          · cases target
            exact .inr (.inr .refl)
          · cases target
            exact .inr (.inl .refl)
          · have own := inBranch.bounds
            rcases inside with inTest | inThen | inElse
            · omega
            · exact .inr (.inl (inThen.tail inBranch))
            · have bounds := other i inElse
              omega
          -- The jump behind the then branch is never reached.
          · rcases inside with inTest | inThen | inElse
            · omega
            · have bounds := branch _ inThen
              push_cast at bounds
              omega
            · have bounds := other _ inElse
              omega
        · rw [middle] at inOther
          have own := inOther.bounds
          rcases inside with inTest | inThen | inElse
          · omega
          · have bounds := branch i inThen
            push_cast at bounds
            omega
          · exact .inr (.inr (inElse.tail inOther))

end Compiled

end Pl0
