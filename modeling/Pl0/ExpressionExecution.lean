import Pl0.CodeExecution
import Pl0.ExpressionValue
import Pl0.ParseRuns

set_option autoImplicit false

namespace Pl0

open StateExcept

/-- What a name stands for in a state of the machine: the value of a constant, or the cell
of a variable. -/
def nameValue (c : CodeContext) (vm : VirtualMachine) (name : Name) : Option Int :=
  match c.lookup name with
  | none => none
  | some sym =>
      match sym.kind with
      | .constS => some sym.val
      | .varS => (do
          let b ← base vm (c.level - sym.level) vm.bp
          readStack vm (b + sym.addr)).toOption
      | .procS => none

theorem nameValue_congr {c : CodeContext} {vm vm' : VirtualMachine} (stack : vm'.stack = vm.stack)
    (bp : vm'.bp = vm.bp) : nameValue c vm' = nameValue c vm := by
  funext name
  unfold nameValue readStack
  simp only [base_congr vm' vm stack.symm, stack, bp]

/-- The machine knows the value of every name that has one. -/
def Knows (c : CodeContext) (env : Name → Option Int) (vm : VirtualMachine) : Prop :=
  ∀ name v, env name = some v → nameValue c vm name = some v

theorem Knows.advanced {c : CodeContext} {env : Name → Option Int} {n turns : Int}
    {vm vm' : VirtualMachine} (names : Knows c env vm) (advanced : Advanced n turns vm vm') :
    Knows c env vm' := by
  intro name v value
  rw [nameValue_congr advanced.stack advanced.bp]
  exact names name v value

namespace FitsRegisters

theorem left {a b : List Instruction} (fits : FitsRegisters (a ++ b)) : FitsRegisters a :=
  (List.forall_mem_append.mp fits).1

theorem right {a b : List Instruction} (fits : FitsRegisters (a ++ b)) : FitsRegisters b :=
  (List.forall_mem_append.mp fits).2

end FitsRegisters

section Operators

variable {n x y z w : Int} {vm : VirtualMachine} {op : Token}

theorem calculation_operands (opcode : Opcode) (arithmetic : opcode = .add ∨ opcode = .sub ∨
    opcode = .mul ∨ opcode = .div) (fits : FitsRegisters [instr opcode n n (n + 1)]) :
    0 ≤ n ∧ n + 1 < commonRegisterNumber := by
  have operands : registerOperands (instr opcode n n (n + 1)) = [n, n, n + 1] := by
    rcases arithmetic with rfl | rfl | rfl | rfl <;> rfl
  have all := fits _ (List.mem_singleton.mpr rfl)
  rw [operands] at all
  exact ⟨(all n (by simp)).1, (all (n + 1) (by simp)).2⟩

theorem computes_addOperate (left : vm.r n = x) (right : vm.r (n + 1) = y)
    (result : addOperate op x y = some z) (small : intOnly z = some w)
    (fits : FitsRegisters (compileCalculation n op)) :
    Computes (compileCalculation n op) n w vm := by
  obtain ⟨inside, same⟩ := intOnly_eq_some small
  have checked : toInt z = .ok w := toInt_eq_ok.mpr ⟨inside, same.symm⟩
  unfold compileCalculation at fits ⊢
  cases op with
  | plussym =>
      obtain ⟨low, high⟩ := calculation_operands .add (by simp) fits
      cases result
      have computed : calculate .add (vm.r n) (vm.r (n + 1)) = .ok w := by
        rw [left, right]
        exact checked
      exact computes_operator rfl computed low high
  | minussym =>
      obtain ⟨low, high⟩ := calculation_operands .sub (by simp) fits
      cases result
      have computed : calculate .sub (vm.r n) (vm.r (n + 1)) = .ok w := by
        rw [left, right]
        exact checked
      exact computes_operator rfl computed low high
  | _ => cases result

theorem computes_mulOperate (left : vm.r n = x) (right : vm.r (n + 1) = y)
    (result : mulOperate op x y = some z) (small : intOnly z = some w)
    (fits : FitsRegisters (compileCalculation n op)) :
    Computes (compileCalculation n op) n w vm := by
  obtain ⟨inside, same⟩ := intOnly_eq_some small
  have checked : toInt z = .ok w := toInt_eq_ok.mpr ⟨inside, same.symm⟩
  unfold compileCalculation at fits ⊢
  cases op with
  | multsym =>
      obtain ⟨low, high⟩ := calculation_operands .mul (by simp) fits
      cases result
      have computed : calculate .mul (vm.r n) (vm.r (n + 1)) = .ok w := by
        rw [left, right]
        exact checked
      exact computes_operator rfl computed low high
  | slashsym =>
      obtain ⟨low, high⟩ := calculation_operands .div (by simp) fits
      unfold mulOperate at result
      dsimp only at result
      by_cases zero : y = 0
      · rw [if_pos zero] at result
        cases result
      · rw [if_neg zero, Option.some.injEq] at result
        have computed : calculate .div (vm.r n) (vm.r (n + 1)) = .ok w := by
          rw [left, right]
          change (if y = 0 then _ else _) = _
          rw [if_neg zero, result]
          exact checked
        exact computes_operator rfl computed low high
  | _ => cases result

theorem computes_sign {preop : Token} (value : vm.r n = x) (sign : signedInt preop x = some y)
    (fits : FitsRegisters (compileSign n preop)) : Computes (compileSign n preop) n y vm := by
  unfold signedInt at sign
  by_cases minus : preop = .minussym
  · subst minus
    rw [if_pos rfl] at sign
    obtain ⟨small, rfl⟩ := intOnly_eq_some sign
    rw [← value] at small ⊢
    exact computes_neg small (fits _ (List.mem_singleton.mpr rfl) n List.mem_cons_self)
  · rw [if_neg minus, Option.some.injEq] at sign
    have unsigned : compileSign n preop = [] := by
      cases preop with
      | minussym => exact absurd rfl minus
      | _ => rfl
    rw [unsigned, ← sign, ← value]
    exact .nil vm n

end Operators

section Expressions

variable {c : CodeContext} {env : Name → Option Int}

theorem computes_compileName {n v : Int} {vm : VirtualMachine} {name : Name}
    (value : nameValue c vm name = some v) (fits : FitsRegisters (compileName c n name)) :
    Computes (compileName c n name) n v vm := by
  unfold nameValue at value
  unfold compileName at fits ⊢
  cases found : c.lookup name with
  | none =>
      rw [found] at value
      cases value
  | some sym =>
      rw [found] at value fits
      cases kind : sym.kind with
      | procS =>
          simp only [kind] at value
          cases value
      | constS =>
          simp only [kind] at value fits ⊢
          cases value
          exact computes_lit _ (fits _ (List.mem_singleton.mpr rfl) n (List.mem_singleton.mpr rfl))
      | varS =>
          simp only [kind] at value fits ⊢
          have inside := fits _ (List.mem_singleton.mpr rfl) n (List.mem_singleton.mpr rfl)
          cases linked : base vm (c.level - sym.level) vm.bp with
          | error fault =>
              rw [linked] at value
              cases value
          | ok b =>
              rw [linked, Except.bind_of_ok rfl] at value
              cases read : readStack vm (b + sym.addr) with
              | error fault =>
                  rw [read] at value
                  cases value
              | ok cell =>
                  rw [read] at value
                  cases value
                  exact computes_lod linked read inside

/- The registers are a stack: what came before is in register `n`, and the code of the next
operand works above it. -/
mutual
theorem computes_factor : ∀ (f : FactorNode) {n v : Int} {vm : VirtualMachine},
    Knows c env vm → factorInt env f = some v → FitsRegisters (compileFactor c f n) →
      Computes (compileFactor c f n) n v vm
  | .ident _, _, _, _, names, value, fits => computes_compileName (names _ _ value) fits
  | .digit number, n, _, _, _, value, fits => by
      cases value
      exact computes_lit number (fits _ (List.mem_singleton.mpr rfl) n (List.mem_singleton.mpr rfl))
  | .exp e, _, _, _, names, value, fits => computes_terms e names value fits

theorem computes_moreFactors :
    ∀ (e : FactorExp) {preop : Token} {n x v : Int} {vm : VirtualMachine},
    Knows c env vm → vm.r n = x → factorsInt env e preop (some x) = some v →
      FitsRegisters (compileFactors c e none n) → Computes (compileFactors c e none n) n v vm
  | .nil, _, n, _, _, vm, _, before, value, _ => by
      cases value
      rw [← before]
      exact .nil vm n
  | .cons op factor next, preop, n, x, v, vm, names, before, value, fits => by
      unfold factorsInt at value
      obtain ⟨y, operand, value⟩ := Option.bind_eq_some_iff.mp value
      obtain ⟨z, result, value⟩ := Option.bind_eq_some_iff.mp value
      obtain ⟨w, small, value⟩ := Option.bind_eq_some_iff.mp value
      unfold compileFactors at fits ⊢
      have right := computes_factor factor names operand fits.left.left
      refine Computes.append (m := n) ?_ (Int.le_refl n) fun vm' advanced there =>
        computes_moreFactors next (names.advanced advanced) there value fits.right
      refine right.append (by omega) fun vm' advanced there => ?_
      exact computes_mulOperate ((advanced.below n (by omega)).trans before) there result small
        fits.left.right

theorem computes_factors : ∀ (e : FactorExp) {preop : Token} {n v : Int} {vm : VirtualMachine},
    Knows c env vm → factorsInt env e preop none = some v →
      FitsRegisters (compileFactors c e (some preop) n) →
        Computes (compileFactors c e (some preop) n) n v vm
  | .nil, _, _, _, _, _, value, _ => by cases value
  | .cons op factor next, preop, n, v, vm, names, value, fits => by
      unfold factorsInt at value
      obtain ⟨x, operand, value⟩ := Option.bind_eq_some_iff.mp value
      obtain ⟨y, sign, value⟩ := Option.bind_eq_some_iff.mp value
      unfold compileFactors at fits ⊢
      have first := computes_factor factor names operand fits.left.left
      refine Computes.append (m := n) ?_ (Int.le_refl n) fun vm' advanced there =>
        computes_moreFactors next (names.advanced advanced) there value fits.right
      exact first.append (Int.le_refl n) fun vm' advanced there =>
        computes_sign there sign fits.left.right

theorem computes_moreTerms : ∀ (e : TermExp) {n x v : Int} {vm : VirtualMachine},
    Knows c env vm → vm.r n = x → termsInt env e (some x) = some v →
      FitsRegisters (compileTerms c e false n) → Computes (compileTerms c e false n) n v vm
  | .nil, n, _, _, vm, _, before, value, _ => by
      cases value
      rw [← before]
      exact .nil vm n
  | .cons op term next, n, x, v, vm, names, before, value, fits => by
      unfold termsInt at value
      obtain ⟨y, operand, value⟩ := Option.bind_eq_some_iff.mp value
      obtain ⟨z, result, value⟩ := Option.bind_eq_some_iff.mp value
      obtain ⟨w, small, value⟩ := Option.bind_eq_some_iff.mp value
      unfold compileTerms at fits ⊢
      rw [if_neg Bool.false_ne_true] at fits ⊢
      have right := computes_factors term names operand fits.left.left
      refine Computes.append (m := n) ?_ (Int.le_refl n) fun vm' advanced there =>
        computes_moreTerms next (names.advanced advanced) there value fits.right
      refine right.append (by omega) fun vm' advanced there => ?_
      exact computes_addOperate ((advanced.below n (by omega)).trans before) there result small
        fits.left.right

theorem computes_terms : ∀ (e : TermExp) {n v : Int} {vm : VirtualMachine},
    Knows c env vm → termsInt env e none = some v →
      FitsRegisters (compileTerms c e true n) → Computes (compileTerms c e true n) n v vm
  | .nil, _, _, _, _, value, _ => by cases value
  | .cons op term next, n, v, vm, names, value, fits => by
      unfold termsInt at value
      obtain ⟨x, operand, value⟩ := Option.bind_eq_some_iff.mp value
      unfold compileTerms at fits ⊢
      rw [if_pos rfl] at fits ⊢
      have first := computes_factors term names operand fits.left
      exact first.append (Int.le_refl n) fun vm' advanced there =>
        computes_moreTerms next (names.advanced advanced) there value fits.right
end

end Expressions

section Conditions

variable {c : CodeContext} {env : Name → Option Int}

theorem ofBool_ne_zero (b : Bool) : ofBool b ≠ 0 ↔ b = true := by
  cases b <;> decide

/-- The remainder of a negative odd number is `-1`. -/
theorem tmod_two_ne_zero (x : Int) : x.tmod 2 ≠ 0 ↔ decide (x % 2 = 1) = true := by
  rw [decide_eq_true_iff, Ne, ← Int.dvd_iff_tmod_eq_zero]
  omega

theorem computes_compared {n x y : Int} {op : Token} {holds : Bool} {vm : VirtualMachine}
    (left : vm.r n = x) (right : vm.r (n + 1) = y) (result : compared op x y = some holds)
    (fits : FitsRegisters [⟨relOpOp op, n, n, n + 1⟩]) :
    Computes [⟨relOpOp op, n, n, n + 1⟩] n (ofBool holds) vm := by
  subst left right
  have operands : registerOperands ⟨relOpOp op, n, n, n + 1⟩ = [n, n, n + 1] := by
    cases op with
    | eqlsym | neqsym | lessym | leqsym | gtrsym | geqsym => rfl
    | _ => cases result
  have all := fits _ (List.mem_singleton.mpr rfl)
  rw [operands] at all
  have low : 0 ≤ n := (all n (by simp)).1
  have high : n + 1 < commonRegisterNumber := (all (n + 1) (by simp)).2
  cases op with
  | eqlsym =>
      cases result
      show Computes [instr .eql n n (n + 1)] n _ vm
      exact computes_operator rfl rfl low high
  | neqsym =>
      cases result
      show Computes [instr .neq n n (n + 1)] n _ vm
      exact computes_operator rfl rfl low high
  | lessym =>
      cases result
      show Computes [instr .lss n n (n + 1)] n _ vm
      exact computes_operator rfl rfl low high
  | leqsym =>
      cases result
      show Computes [instr .leq n n (n + 1)] n _ vm
      exact computes_operator rfl rfl low high
  | gtrsym =>
      cases result
      show Computes [instr .gtr n n (n + 1)] n _ vm
      exact computes_operator rfl rfl low high
  | geqsym =>
      cases result
      show Computes [instr .geq n n (n + 1)] n _ vm
      exact computes_operator rfl rfl low high
  | _ => cases result

/-- The register of a condition is not zero exactly when the condition holds, as JPC
tests it. -/
theorem computes_condition (cond : ConditionNode) {n : Int} {holds : Bool} {vm : VirtualMachine}
    (names : Knows c env vm) (small : conditionInt env cond)
    (value : conditionValue env cond = some holds)
    (fits : FitsRegisters (compileCondition c n cond)) :
    ∃ v, Computes (compileCondition c n cond) n v vm ∧ (v ≠ 0 ↔ holds = true) := by
  cases cond with
  | odd right =>
      obtain ⟨x, operand⟩ := Option.isSome_iff_exists.mp small
      have known : holds = decide (x % 2 = 1) := by
        rw [conditionValue, expressionInt_value operand] at value
        exact (Option.some.inj value).symm
      refine ⟨x.tmod 2, ?_, known ▸ tmod_two_ne_zero x⟩
      have first := computes_terms right names operand fits.left
      refine first.append (Int.le_refl n) fun vm' advanced there => ?_
      rw [← there]
      exact computes_odd (fits.right _ (List.mem_singleton.mpr rfl) n (List.mem_singleton.mpr rfl))
  | relOp op left right =>
      obtain ⟨x, first⟩ := Option.isSome_iff_exists.mp small.1
      obtain ⟨y, second⟩ := Option.isSome_iff_exists.mp small.2
      have result : compared op x y = some holds := by
        rw [conditionValue, expressionInt_value first, expressionInt_value second] at value
        exact value
      refine ⟨ofBool holds, ?_, ofBool_ne_zero holds⟩
      rw [compileCondition] at fits ⊢
      rw [List.append_assoc]
      have before := computes_terms left names first fits.left.left
      refine before.append (Int.le_refl n) fun vm' advanced there => ?_
      have after := computes_terms right (names.advanced advanced) second fits.left.right
      refine after.append (by omega) fun vm'' further other => ?_
      have kept : vm''.r n = x := (further.below n (by omega)).trans there
      exact computes_compared kept other result fits.right

end Conditions

/-- The code of a parsed expression computes its exact value, and that of a parsed condition
tests it, in the register that was the next one. Names have their values where the machine
stands, and no result on the way leaves the type `int`. -/
theorem expression_code_value (fuel : Nat) (fsys : Symset) (s s' : ParseState)
    (vm : VirtualMachine) :
    (∀ e v, expressionParse fuel fsys s = .ok e s' →
      FitsRegisters (emittedCode s.gen s'.gen) →
      expressionValue (nameValue s.gen.context vm) e = some v →
      (expressionInt (nameValue s.gen.context vm) e).isSome →
      Computes (emittedCode s.gen s'.gen) s.gen.registerPtr v vm) ∧
    (∀ cond holds, conditionParse fuel fsys s = .ok cond s' →
      FitsRegisters (emittedCode s.gen s'.gen) →
      conditionValue (nameValue s.gen.context vm) cond = some holds →
      conditionInt (nameValue s.gen.context vm) cond →
      ∃ v, Computes (emittedCode s.gen s'.gen) s.gen.registerPtr v vm ∧
        (v ≠ 0 ↔ holds = true)) := by
  constructor
  · intro e v ran fits value small
    have emitted := genExpression_emits e s.gen
    rw [← expressionParse_runs fuel fsys ran] at emitted
    rw [emitted.appended] at fits ⊢
    obtain ⟨w, inside⟩ := Option.isSome_iff_exists.mp small
    have same : v = w := Option.some.inj (value.symm.trans (expressionInt_value inside))
    rw [same]
    exact computes_terms e (fun _ _ => id) inside fits
  · intro cond holds ran fits value small
    have emitted := genCondition_emits cond s.gen
    rw [← conditionParse_runs ran] at emitted
    rw [emitted.appended] at fits ⊢
    exact computes_condition cond (fun _ _ => id) small value fits

/-- `odd -(7 / 2)`, up to the `then` behind it. -/
def oddNegative : ParseState :=
  { initParse [.word .minussym, .word .lparentsym, .number 7, .word .slashsym, .number 2,
      .word .rparentsym, .word .thensym] with curToken := .word .oddsym }

theorem oddNegative_tested : ∃ cond s',
    conditionParse 20 (createset [.thensym]) oddNegative = .ok cond s' ∧
    ∃ v, Computes (emittedCode oddNegative.gen s'.gen) 0 v initVm ∧ (v ≠ 0 ↔ true = true) := by
  have looked : returned? (fun cond s' => (cond, emittedCode oddNegative.gen s'.gen))
      (conditionParse 20 (createset [.thensym]) oddNegative) =
        some (.odd (.cons .minussym (.cons .nulsym (.exp (.cons .unset (.cons .nulsym (.digit 7)
          (.cons .slashsym (.digit 2) .nil)) .nil)) .nil) .nil),
        [instr .lit 0 0 7, instr .lit 1 0 2, instr .div 0 0 1, instr .neg 0 0 0,
          instr .odd 0 0 0]) := by
    rfl
  obtain ⟨cond, s', ran, found⟩ := returned?_eq_some.mp looked
  obtain ⟨tree, code⟩ := Prod.mk.inj found
  refine ⟨cond, s', ran, ?_⟩
  have tested :=
    (expression_code_value 20 (createset [.thensym]) oddNegative s' initVm).2 cond true ran
  rw [code, tree] at tested
  rw [code]
  exact tested (by decide) (by decide) (by decide)

/-- `90000 * 90000`, up to the semicolon behind it. -/
def largeProduct : ParseState :=
  { initParse [.word .multsym, .number 90000, .word .semicolonsym] with curToken := .number 90000 }

theorem product_overflows : ¬ ∀ (fuel : Nat) (fsys : Symset) (s s' : ParseState)
    (vm : VirtualMachine) (e : TermExp) (v : Int), expressionParse fuel fsys s = .ok e s' →
      FitsRegisters (emittedCode s.gen s'.gen) →
      expressionValue (nameValue s.gen.context vm) e = some v →
      Computes (emittedCode s.gen s'.gen) s.gen.registerPtr v vm := by
  intro always
  have looked : returned? (fun e s' => (e, emittedCode largeProduct.gen s'.gen))
      (expressionParse 20 (createset [.semicolonsym]) largeProduct) =
        some (.cons .unset (.cons .nulsym (.digit 90000) (.cons .multsym (.digit 90000) .nil)) .nil,
        [instr .lit 0 0 90000, instr .lit 1 0 90000, instr .mul 0 0 1]) := by
    rfl
  obtain ⟨e, s', ran, found⟩ := returned?_eq_some.mp looked
  obtain ⟨tree, code⟩ := Prod.mk.inj found
  have leaves := always 20 (createset [.semicolonsym]) largeProduct s' initVm e 8100000000 ran
  rw [code, tree] at leaves
  obtain ⟨vm', executed, -⟩ := leaves (by decide) rfl
  have overflow : execute [instr .lit 0 0 90000, instr .lit 1 0 90000, instr .mul 0 0 1] initVm =
      .error .overflow := by
    rfl
  rw [overflow] at executed
  cases executed

end Pl0
