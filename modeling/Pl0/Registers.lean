import Pl0.StatementFlow

set_option autoImplicit false

namespace Pl0

/-- The registers that an instruction reads and writes. -/
def registerOperands (ir : Instruction) : List Int :=
  match Opcode.ofInt? ir.op with
  | some .lit | some .lod | some .sto | some .jpc | some .odd | some .sio => [ir.r]
  | some .neg => [ir.r, ir.l]
  | some .rtn | some .cal | some .inc | some .jmp | some .sio2 | some .sio3 | none => []
  | some _ => [ir.r, ir.l, ir.m]

/-- The machine has the registers of this code. -/
def FitsRegisters (code : List Instruction) : Prop :=
  ∀ ir ∈ code, ∀ i ∈ registerOperands ir, 0 ≤ i ∧ i < commonRegisterNumber

instance (code : List Instruction) : Decidable (FitsRegisters code) :=
  inferInstanceAs
    (Decidable (∀ ir ∈ code, ∀ i ∈ registerOperands ir, 0 ≤ i ∧ i < commonRegisterNumber))

/- How many registers an operand needs; the flag marks the first one of a list, which
needs none below its own. -/
mutual
def FactorNode.registers : FactorNode → Nat
  | .ident _ => 1
  | .digit _ => 1
  | .exp e => e.registers true

def FactorExp.registers : FactorExp → Bool → Nat
  | .nil, _ => 1
  | .cons _ factor next, first =>
      max (factor.registers + if first then 0 else 1) (next.registers false)

def TermExp.registers : TermExp → Bool → Nat
  | .nil, _ => 1
  | .cons _ term next, first =>
      max (term.registers true + if first then 0 else 1) (next.registers false)
end

def ConditionNode.registers : ConditionNode → Nat
  | .odd right => right.registers true
  | .relOp _ left right => max (left.registers true) (right.registers true + 1)

/- How many registers a statement needs: the branches of an if and the body of a loop keep
the register of the condition. -/
mutual
def StatementNode.registers : StatementNode → Nat
  | .empty => 0
  | .assign _ e => e.registers true
  | .begin list => list.registers
  | .ifS cond ifsts => max cond.registers (ifsts.registers + 1)
  | .ifElse cond ifsts elsests =>
      max cond.registers (max ifsts.registers elsests.registers + 1)
  | .while cond sts => max cond.registers (sts.registers + 1)
  | .read _ => 1
  | .write _ => 1
  | .call _ => 0

def StatementList.registers : StatementList → Nat
  | .nil => 0
  | .cons sts next => max sts.registers next.registers
end

/-- The code names no registers but those from `low` on and below `high`. -/
def NamesWithin (low high : Int) (code : List Instruction) : Prop :=
  ∀ ir ∈ code, ∀ i ∈ registerOperands ir, low ≤ i ∧ i < high

namespace NamesWithin

variable {low high low' high' : Int} {a b : List Instruction} {ir : Instruction}

theorem nil : NamesWithin low high [] :=
  fun _ none => absurd none List.not_mem_nil

theorem append (first : NamesWithin low high a) (second : NamesWithin low high b) :
    NamesWithin low high (a ++ b) :=
  List.forall_mem_append.mpr ⟨first, second⟩

theorem mono (names : NamesWithin low high a) (below : low' ≤ low) (above : high ≤ high') :
    NamesWithin low' high' a := by
  intro ir member i operand
  have inside := names ir member i operand
  omega

theorem one (within : ∀ i ∈ registerOperands ir, low ≤ i ∧ i < high) : NamesWithin low high [ir] :=
  fun _ only => List.mem_singleton.mp only ▸ within

/-- An instruction with one register operand. -/
theorem result (only : registerOperands ir = [ir.r]) (above : low ≤ ir.r) (below : ir.r < high) :
    NamesWithin low high [ir] := by
  apply one
  rw [only]
  intro i member
  rw [List.mem_singleton.mp member]
  exact ⟨above, below⟩

/-- An instruction without register operands. -/
theorem none (noRegister : registerOperands ir = []) : NamesWithin low high [ir] := by
  apply one
  rw [noRegister]
  intro i member
  exact absurd member List.not_mem_nil

theorem fits (names : NamesWithin low high a) (nonneg : 0 ≤ low)
    (room : high ≤ commonRegisterNumber) :
    FitsRegisters a :=
  names.mono nonneg room

end NamesWithin

theorem FitsRegisters.append {a b : List Instruction} (first : FitsRegisters a)
    (second : FitsRegisters b) : FitsRegisters (a ++ b) :=
  NamesWithin.append first second

section Compile

variable (c : CodeContext)

/-- The instruction of an operator on the registers `n` and `n + 1`. -/
theorem names_operator (op n : Int) : NamesWithin n (n + 2) [⟨op, n, n, n + 1⟩] := by
  apply NamesWithin.one
  intro i member
  have among : i = n ∨ i = n + 1 := by
    unfold registerOperands at member
    split at member <;> simp at member <;> omega
  omega

theorem names_sign (n : Int) (preop : Token) : NamesWithin n (n + 1) (compileSign n preop) := by
  cases preop with
  | minussym =>
      apply NamesWithin.one
      intro i member
      have same : i = n := by simpa [registerOperands, instr, Opcode.ofInt?_toInt] using member
      omega
  | _ => exact .nil

theorem names_name (n : Int) (name : Name) : NamesWithin n (n + 1) (compileName c n name) := by
  unfold compileName
  split
  · exact .nil
  · split
    · exact .result rfl (Int.le_refl n) (Int.lt_succ n)
    · exact .result rfl (Int.le_refl n) (Int.lt_succ n)
    · exact .nil

mutual
theorem FactorNode.registers_pos : ∀ f : FactorNode, 1 ≤ f.registers
  | .ident _ => Nat.le_refl 1
  | .digit _ => Nat.le_refl 1
  | .exp e => TermExp.registers_pos e true

theorem FactorExp.registers_pos : ∀ (e : FactorExp) (first : Bool), 1 ≤ e.registers first
  | .nil, _ => Nat.le_refl 1
  | .cons _ _ next, _ => Nat.le_trans (FactorExp.registers_pos next false) (Nat.le_max_right _ _)

theorem TermExp.registers_pos : ∀ (e : TermExp) (first : Bool), 1 ≤ e.registers first
  | .nil, _ => Nat.le_refl 1
  | .cons _ _ next, _ => Nat.le_trans (TermExp.registers_pos next false) (Nat.le_max_right _ _)
end

mutual
theorem names_factor : ∀ (f : FactorNode) (n : Int),
    NamesWithin n (n + f.registers) (compileFactor c f n)
  | .ident name, n => names_name c n name
  | .digit _, n => .result rfl (Int.le_refl n) (Int.lt_succ n)
  | .exp e, n => names_terms e true n

theorem names_factors : ∀ (e : FactorExp) (sign : Option Token) (n : Int),
    NamesWithin n (n + e.registers sign.isSome) (compileFactors c e sign n)
  | .nil, _, _ => .nil
  | .cons _ factor next, some preop, n => by
      have positive := factor.registers_pos
      simp only [FactorExp.registers, Option.isSome_some, if_true]
      have first := (names_factor factor n).mono (Int.le_refl n)
        (by omega : _ ≤ n + ((max (factor.registers + 0) (next.registers false) : Nat) : Int))
      have sign := (names_sign n preop).mono (Int.le_refl n)
        (by omega : _ ≤ n + ((max (factor.registers + 0) (next.registers false) : Nat) : Int))
      exact (first.append sign).append ((names_factors next none n).mono (Int.le_refl n) (by
        simp only [Option.isSome_none]
        omega))
  | .cons op factor next, none, n => by
      have positive := factor.registers_pos
      simp only [FactorExp.registers, Option.isSome_none, Bool.false_eq_true, if_false]
      have second := (names_factor factor (n + 1)).mono (by omega : n ≤ n + 1)
        (by omega : _ ≤ n + ((max (factor.registers + 1) (next.registers false) : Nat) : Int))
      have operator := (names_operator (calculationOp op) n).mono (Int.le_refl n)
        (by omega : _ ≤ n + ((max (factor.registers + 1) (next.registers false) : Nat) : Int))
      exact (second.append operator).append ((names_factors next none n).mono (Int.le_refl n) (by
        simp only [Option.isSome_none]
        omega))

theorem names_terms : ∀ (e : TermExp) (first : Bool) (n : Int),
    NamesWithin n (n + e.registers first) (compileTerms c e first n)
  | .nil, _, _ => .nil
  | .cons op term next, true, n => by
      simp only [TermExp.registers, if_true]
      have first := (names_factors term (some op) n).mono (Int.le_refl n)
        (by simp only [Option.isSome_some]; omega :
          _ ≤ n + ((max (term.registers true + 0) (next.registers false) : Nat) : Int))
      exact first.append ((names_terms next false n).mono (Int.le_refl n) (by omega))
  | .cons op term next, false, n => by
      have positive := term.registers_pos true
      simp only [TermExp.registers, Bool.false_eq_true, if_false]
      have second := (names_factors term (some .unset) (n + 1)).mono (by omega : n ≤ n + 1)
        (by simp only [Option.isSome_some]; omega :
          _ ≤ n + ((max (term.registers true + 1) (next.registers false) : Nat) : Int))
      have operator := (names_operator (calculationOp op) n).mono (Int.le_refl n)
        (by omega : _ ≤ n + ((max (term.registers true + 1) (next.registers false) : Nat) : Int))
      exact (second.append operator).append
        ((names_terms next false n).mono (Int.le_refl n) (by omega))
end

theorem names_condition (cond : ConditionNode) (n : Int) :
    NamesWithin n (n + cond.registers) (compileCondition c n cond) := by
  cases cond with
  | odd right =>
      have positive := right.registers_pos true
      rw [ConditionNode.registers]
      exact (names_terms c right true n).append (.result rfl (Int.le_refl n) (by
        show n < _
        omega))
  | relOp op left right =>
      have positive := right.registers_pos true
      rw [ConditionNode.registers]
      have first := (names_terms c left true n).mono (Int.le_refl n)
        (by omega : _ ≤ n + ((max (left.registers true) (right.registers true + 1) : Nat) : Int))
      exact (first.append ((names_terms c right true (n + 1)).mono (by omega) (by omega))).append
        ((names_operator (relOpOp op) n).mono (Int.le_refl n) (by omega))

theorem ConditionNode.registers_pos (cond : ConditionNode) : 1 ≤ cond.registers := by
  cases cond with
  | odd right => exact right.registers_pos true
  | relOp op left right =>
      exact Nat.le_trans (left.registers_pos true) (Nat.le_max_left _ _)

theorem names_guarded {low high n : Int} {test branch : List Instruction}
    (first : NamesWithin low high test) (second : NamesWithin low high branch) (above : low ≤ n)
    (below : n < high) (failed stop : Int) :
    NamesWithin low high (guarded test branch n failed stop) :=
  ((first.append (.result rfl above below)).append second).append (.none rfl)

mutual
/-- A statement compiled for the registers from `n` on names no others, and of those no more
than it needs. -/
theorem names_statement : ∀ (node : StatementNode) (n : Int) (start : Nat),
    NamesWithin n (n + node.registers) (compileStatement c node n start)
  | .empty, _, _ => .nil
  | .assign name e, n, _ => by
      have positive := e.registers_pos true
      rw [StatementNode.registers]
      apply (names_terms c e true n).append
      unfold compileStore
      split
      · exact .nil
      · exact .result rfl (Int.le_refl n) (by
          show n < _
          omega)
  | .begin list, n, start => by
      rw [StatementNode.registers]
      apply (names_statements list n start).append
      unfold compileReturn
      split
      · exact .none rfl
      · exact .nil
  | .ifS cond ifsts, n, start => by
      have positive := cond.registers_pos
      rw [StatementNode.registers, compileStatement_ifS]
      exact names_guarded ((names_condition c cond n).mono (Int.le_refl n) (by omega))
        ((names_statement ifsts (n + 1) _).mono (by omega) (by omega)) (Int.le_refl n)
          (by omega) _ _
  | .ifElse cond ifsts elsests, n, start => by
      have positive := cond.registers_pos
      rw [StatementNode.registers, compileStatement_ifElse]
      exact (names_guarded ((names_condition c cond n).mono (Int.le_refl n) (by omega))
        ((names_statement ifsts (n + 1) _).mono (by omega) (by omega)) (Int.le_refl n)
          (by omega) _ _).append
        ((names_statement elsests (n + 1) _).mono (by omega) (by omega))
  | .while cond sts, n, start => by
      have positive := cond.registers_pos
      rw [StatementNode.registers, compileStatement_while]
      exact names_guarded ((names_condition c cond n).mono (Int.le_refl n) (by omega))
        ((names_statement sts (n + 1) _).mono (by omega) (by omega)) (Int.le_refl n) (by omega) _ _
  | .read name, n, _ => by
      unfold compileStatement compileRead
      split
      · exact .nil
      · exact (NamesWithin.result rfl (Int.le_refl n) (Int.lt_succ n)).append
          (.result rfl (Int.le_refl n) (Int.lt_succ n))
  | .write name, n, _ => by
      unfold compileStatement compileWrite
      split
      · exact .nil
      · have loaded : ∀ l m : Int, NamesWithin n (n + 1) [instr .lod n l m] := fun l m =>
          .result rfl (Int.le_refl n) (Int.lt_succ n)
        apply NamesWithin.append (a := [_]) _ (.result rfl (Int.le_refl n) (Int.lt_succ n))
        split
        · exact loaded _ _
        · exact loaded _ _
  | .call name, _, _ => by
      unfold compileStatement compileCall
      split
      · exact .nil
      · exact .none rfl

theorem names_statements : ∀ (list : StatementList) (n : Int) (start : Nat),
    NamesWithin n (n + list.registers) (compileStatements c list n start)
  | .nil, _, _ => .nil
  | .cons sts next, n, start => by
      rw [StatementList.registers]
      exact ((names_statement sts n start).mono (Int.le_refl n) (by omega)).append
        ((names_statements next n _).mono (Int.le_refl n) (by omega))
end

/-- A statement that needs no more registers than there are from `n` on is compiled to code
that names no other. -/
theorem fits_statement (node : StatementNode) (n : Int) (start : Nat) (nonneg : 0 ≤ n)
    (room : n + node.registers ≤ commonRegisterNumber) :
    FitsRegisters (compileStatement c node n start) :=
  (names_statement c node n start).fits nonneg room

end Compile

end Pl0
