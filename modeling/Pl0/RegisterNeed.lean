import Pl0.FrameLayout
import Pl0.ParsedTrees
import Pl0.RegisterDiscipline
import Pl0.Registers

set_option autoImplicit false

namespace Pl0

open StateExcept

theorem fits_append {a b : List Instruction} :
    FitsRegisters (a ++ b) ↔ FitsRegisters a ∧ FitsRegisters b :=
  List.forall_mem_append

/-- An instruction with one register operand names a register only where there is one. -/
theorem FitsRegisters.room {ir : Instruction} (fits : FitsRegisters [ir])
    (only : registerOperands ir = [ir.r]) : ir.r + 1 ≤ commonRegisterNumber := by
  have inside := fits ir List.mem_cons_self ir.r (by rw [only]; exact List.mem_cons_self)
  omega

section Compile

variable (c : CodeContext)

theorem name_needs {name : Name} {n : Int} (suits : Suits .factor (c.lookup name))
    (fits : FitsRegisters (compileName c n name)) : n + 1 ≤ commonRegisterNumber := by
  obtain ⟨symbol, found, kind⟩ := suits
  unfold compileName at fits
  rw [found] at fits
  cases which : symbol.kind with
  | varS =>
      simp only [which] at fits
      exact fits.room rfl
  | constS =>
      simp only [which] at fits
      exact fits.room rfl
  | procS => exact absurd which kind

/- The deepest operand of an expression is loaded into the last register that the expression
needs, so its code fits only where there are as many. -/
mutual
theorem factor_needs : ∀ (f : FactorNode) (n : Int), f.Grammatical → f.Suited c.lookup →
    FitsRegisters (compileFactor c f n) → n + f.registers ≤ commonRegisterNumber
  | .ident _, _, _, suited, fits => name_needs c suited fits
  | .digit _, _, _, _, fits => FitsRegisters.room fits rfl
  | .exp e, n, tree, suited, fits =>
      terms_needs e true n tree suited (fun first => nomatch first) fits

theorem factors_needs : ∀ (e : FactorExp) (sign : Option Token) (n : Int),
    e.Grammatical sign.isSome → e.Suited c.lookup →
    (sign.isSome = false → n + 1 ≤ commonRegisterNumber) →
    FitsRegisters (compileFactors c e sign n) → n + e.registers sign.isSome ≤ commonRegisterNumber
  | .nil, _, _, tree, _, started, _ => started tree
  | .cons op factor next, some preop, n, tree, suited, _, fits => by
      obtain ⟨-, factorTree, nextTree⟩ := tree
      obtain ⟨own, rest⟩ := fits_append.mp fits
      have first := factor_needs factor n factorTree suited.1 (fits_append.mp own).1
      have positive := factor.registers_pos
      have later := factors_needs next none n nextTree suited.2 (fun _ => by omega) rest
      simp only [FactorExp.registers, Option.isSome_some, if_true]
      simp only [Option.isSome_none] at later
      omega
  | .cons op factor next, none, n, tree, suited, started, fits => by
      obtain ⟨-, factorTree, nextTree⟩ := tree
      obtain ⟨own, rest⟩ := fits_append.mp fits
      have first := factor_needs factor (n + 1) factorTree suited.1 (fits_append.mp own).1
      have later := factors_needs next none n nextTree suited.2 started rest
      simp only [FactorExp.registers, Option.isSome_none, Bool.false_eq_true, if_false] at later ⊢
      omega

theorem terms_needs : ∀ (e : TermExp) (first : Bool) (n : Int), e.Grammatical first →
    e.Suited c.lookup → (first = false → n + 1 ≤ commonRegisterNumber) →
    FitsRegisters (compileTerms c e first n) → n + e.registers first ≤ commonRegisterNumber
  | .nil, _, _, tree, _, started, _ => started tree
  | .cons op term next, true, n, tree, suited, _, fits => by
      obtain ⟨-, termTree, nextTree⟩ := tree
      obtain ⟨own, rest⟩ := fits_append.mp fits
      have first :=
        factors_needs term (some op) n termTree suited.1 (fun signed => nomatch signed) own
      have positive := term.registers_pos true
      simp only [Option.isSome_some] at first
      have later := terms_needs next false n nextTree suited.2 (fun _ => by omega) rest
      simp only [TermExp.registers, if_true]
      omega
  | .cons op term next, false, n, tree, suited, started, fits => by
      obtain ⟨-, termTree, nextTree⟩ := tree
      obtain ⟨own, rest⟩ := fits_append.mp fits
      have first := factors_needs term (some .unset) (n + 1) termTree suited.1
        (fun signed => nomatch signed) (fits_append.mp own).1
      have later := terms_needs next false n nextTree suited.2 started rest
      simp only [Option.isSome_some] at first
      simp only [TermExp.registers, Bool.false_eq_true, if_false]
      omega
end

theorem expression_needs {e : TermExp} {n : Int} (tree : e.Grammatical true)
    (suited : e.Suited c.lookup) (fits : FitsRegisters (compileExpression c n e)) :
    n + e.registers true ≤ commonRegisterNumber :=
  terms_needs c e true n tree suited (fun first => nomatch first) fits

theorem condition_needs {cond : ConditionNode} {n : Int} (tree : cond.Grammatical)
    (suited : cond.Suited c.lookup) (fits : FitsRegisters (compileCondition c n cond)) :
    n + cond.registers ≤ commonRegisterNumber := by
  cases cond with
  | odd right => exact expression_needs c tree suited (fits_append.mp fits).1
  | relOp op left right =>
      obtain ⟨-, leftTree, rightTree⟩ := tree
      obtain ⟨both, -⟩ := fits_append.mp fits
      obtain ⟨leftFits, rightFits⟩ := fits_append.mp both
      have first := expression_needs c leftTree suited.1 leftFits
      have second := expression_needs c rightTree suited.2 rightFits
      rw [ConditionNode.registers]
      omega

theorem fits_guarded_iff {test branch : List Instruction} {n failed stop : Int}
    (fits : FitsRegisters (guarded test branch n failed stop)) :
    FitsRegisters test ∧ FitsRegisters branch := by
  obtain ⟨both, -⟩ := fits_append.mp fits
  obtain ⟨tested, branchFits⟩ := fits_append.mp both
  exact ⟨(fits_append.mp tested).1, branchFits⟩

mutual
/-- The branches of an if and the body of a loop are compiled above the register of the
condition, which is there because the code of the condition fits. -/
theorem statement_needs : ∀ (node : StatementNode) (n : Int) (start : Nat), node.Grammatical →
    node.Known c.lookup → n ≤ commonRegisterNumber →
    FitsRegisters (compileStatement c node n start) →
    n + node.registers ≤ commonRegisterNumber
  | .empty, n, _, _, _, room, _ => by
      rw [StatementNode.registers]
      omega
  | .assign name e, _, _, tree, known, _, fits =>
      expression_needs c tree known.2 (fits_append.mp fits).1
  | .begin list, n, start, tree, known, room, fits =>
      statements_needs list true n start tree known room (fits_append.mp fits).1
  | .ifS cond ifsts, n, start, tree, known, room, fits => by
      rw [compileStatement_ifS] at fits
      obtain ⟨test, branch⟩ := fits_guarded_iff fits
      have first := condition_needs c tree.1 known.1 test
      have positive := cond.registers_pos
      have second := statement_needs ifsts (n + 1) _ tree.2 known.2 (by omega) branch
      rw [StatementNode.registers]
      omega
  | .ifElse cond ifsts elsests, n, start, tree, known, room, fits => by
      rw [compileStatement_ifElse] at fits
      obtain ⟨guard, other⟩ := fits_append.mp fits
      obtain ⟨test, branch⟩ := fits_guarded_iff guard
      have first := condition_needs c tree.1 known.1 test
      have positive := cond.registers_pos
      have second := statement_needs ifsts (n + 1) _ tree.2.1 known.2.1 (by omega) branch
      have third := statement_needs elsests (n + 1) _ tree.2.2 known.2.2 (by omega) other
      rw [StatementNode.registers]
      omega
  | .while cond sts, n, start, tree, known, room, fits => by
      rw [compileStatement_while] at fits
      obtain ⟨test, body⟩ := fits_guarded_iff fits
      have first := condition_needs c tree.1 known.1 test
      have positive := cond.registers_pos
      have second := statement_needs sts (n + 1) _ tree.2 known.2 (by omega) body
      rw [StatementNode.registers]
      omega
  | .read name, n, start, _, known, _, fits => by
      obtain ⟨symbol, found, -⟩ := known
      unfold compileStatement compileRead at fits
      rw [found] at fits
      exact ((fits_append (a := [_])).mp fits).1.room rfl
  | .write name, n, start, _, known, _, fits => by
      obtain ⟨symbol, found, -⟩ := known
      unfold compileStatement compileWrite at fits
      rw [found] at fits
      exact ((fits_append (a := [_])).mp fits).2.room rfl
  | .call name, n, _, _, _, room, _ => by
      rw [StatementNode.registers]
      omega

theorem statements_needs : ∀ (list : StatementList) (some_ : Bool) (n : Int) (start : Nat),
    list.Grammatical some_ → list.Known c.lookup → n ≤ commonRegisterNumber →
    FitsRegisters (compileStatements c list n start) → n + list.registers ≤ commonRegisterNumber
  | .nil, _, n, _, _, _, room, _ => by
      rw [StatementList.registers]
      omega
  | .cons sts next, _, n, start, tree, known, room, fits => by
      obtain ⟨own, rest⟩ := fits_append.mp fits
      have first := statement_needs sts n start tree.1 known.1 room own
      have later := statements_needs next false n _ tree.2 known.2 room rest
      rw [StatementList.registers]
      omega
end

/-- The code of a statement that the parser has read names only registers that there are
exactly when the statement needs no more. -/
theorem fits_statement_iff {g : GenState} {node : StatementNode} (complete : Complete g node)
    {start : Nat} : FitsRegisters (compileStatement g.context node 0 start) ↔
      (node.registers : Int) ≤ commonRegisterNumber := by
  constructor
  · intro fits
    have needs := statement_needs g.context node 0 start complete.1 complete.2 (by decide) fits
    omega
  · intro room
    exact fits_statement g.context node 0 start (Int.le_refl 0) (by omega)

end Compile

/-- The machine has the registers of every instruction so far. -/
def AllFit (g : GenState) : Prop :=
  ∀ set, FitsRegisters (g.code set)

theorem AllFit.of_code {g g' : GenState} (same : g'.code = g.code) : AllFit g' ↔ AllFit g := by
  unfold AllFit
  rw [same]

theorem allFit_update {code : CodeSets} {set : Int} {row : List Instruction} :
    (∀ other, FitsRegisters (Function.update code set row other)) ↔
      FitsRegisters row ∧ ∀ other, other ≠ set → FitsRegisters (code other) := by
  constructor
  · intro fits
    have own := fits set
    rw [Function.update_self] at own
    refine ⟨own, fun other different => ?_⟩
    have kept := fits other
    rwa [Function.update_of_ne different] at kept
  · rintro ⟨own, others⟩ other
    by_cases same : other = set
    · rw [same, Function.update_self]
      exact own
    · rw [Function.update_of_ne same]
      exact others other same

theorem allFit_iff_own {g : GenState} (set : Int) :
    AllFit g ↔ FitsRegisters (g.code set) ∧ ∀ other, other ≠ set →
    FitsRegisters (g.code other) := by
  have whole := @allFit_update g.code set (g.code set)
  rwa [Function.update_eq_self] at whole

/-- Code that comes behind a set. -/
theorem allFit_emitted {g g' : GenState} {code : List Instruction} {count : Int}
    (emitted : Emitted g g' code count) : AllFit g' ↔ AllFit g ∧ FitsRegisters code := by
  unfold AllFit
  rw [emitted.code, allFit_update, fits_append]
  have own := @allFit_iff_own g g.currentProcedure
  unfold AllFit at own
  rw [own]
  tauto

theorem allFit_reserveSpace (g : GenState) (space : Int) : AllFit (g.reserveSpace space) ↔
    AllFit g := by
  have inc : FitsRegisters [instr .inc 0 0 space] := NamesWithin.none rfl
  have code : (g.reserveSpace space).code = Function.update g.code g.currentProcedure
      ([instr .inc 0 0 space] ++ g.code g.currentProcedure) := prependCode_eq _ _ _ _ _ _
  unfold AllFit
  rw [code, allFit_update, fits_append]
  have own := @allFit_iff_own g g.currentProcedure
  unfold AllFit at own
  rw [own]
  tauto

/-- The statement part of a block, whose registers start at 0. -/
theorem allFit_genBody {g : GenState} {statement : StatementNode} (complete : Complete g statement)
    (unused : g.registerPtr = 0) : AllFit (genBody statement g) ↔
      AllFit g ∧ (statement.registers : Int) ≤ commonRegisterNumber := by
  have emitted := genBody_emits statement g
  rw [unused] at emitted
  rw [allFit_emitted emitted, fits_statement_iff complete]

/-- Declarations leave only instructions with registers that there are exactly when no
procedure among them needs more. -/
theorem DeclaresWith.allFit {g g' : GenState} {d d' : Declarations}
    (declares : DeclaresWith Complete g d g' d') (unused : g.registerPtr = 0) :
    ∃ procedures, d'.procDef.procedures = d.procDef.procedures ++ procedures ∧
      (AllFit g' ↔ AllFit g ∧
        ∀ p ∈ procedures, (p.body.statement.registers : Int) ≤ commonRegisterNumber) := by
  induction declares with
  | done => exact ⟨[], (List.append_nil _).symm, by simp⟩
  | const name value small inside _ ih => exact ih unused
  | var name inside _ ih => exact ih unused
  | @proc g gb g' d inner d' name statement nested complete rest ihNested ih =>
      have opened : (g.makeProc name).openBlock.registerPtr = 0 :=
        (makeProc_registerPtr g name).trans unused
      have start : AllFit (g.makeProc name).openBlock ↔ AllFit g :=
        AllFit.of_code (makeProc_code g name)
      obtain ⟨within, added, inside⟩ := ihNested opened
      have free : gb.registerPtr = 0 := nested.declares.registers.1.trans opened
      have body := allFit_genBody complete free
      have left : ((genBody statement gb).leaveProc g.currentProcedure
          (inner.varDecl.length + 4)).registerPtr = 0 := by
        change (genBody statement gb).registerPtr = 0
        rw [(genBody_emits statement gb).registerPtr, free, Int.add_zero]
      have closed : AllFit ((genBody statement gb).leaveProc g.currentProcedure
          (inner.varDecl.length + 4)) ↔ AllFit (genBody statement gb) :=
        allFit_reserveSpace (genBody statement gb).closeBlock _
      obtain ⟨later, behind, whole⟩ := ih left
      refine ⟨⟨name, g.globalLevel + 1, g.procedureCount + 1, g.currentProcedure,
        inner.block statement⟩ :: (within ++ later), ?_, ?_⟩
      · rw [behind, d.addProc_procedures, added, List.append_assoc]
        rfl
      · have own : (inner.block statement).statement = statement := rfl
        rw [whole, closed, body, inside, start, List.forall_mem_cons, List.forall_mem_append, own]
        constructor
        · rintro ⟨⟨⟨before, first⟩, needs⟩, second⟩
          exact ⟨before, needs, first, second⟩
        · rintro ⟨before, needs, first, second⟩
          exact ⟨⟨⟨before, first⟩, needs⟩, second⟩

/-- For every accepted program: each register operand of each instruction in each code set is
a register of the machine exactly when no statement part of a block needs more registers than
there are. -/
theorem registers_exist_iff {fuel : Nat} {tokens : List CurrentToken} {block : BlockNode}
    {s : ParseState} (accepted : parse fuel tokens = .ok block s) :
    (∀ set, FitsRegisters (s.gen.code set)) ↔
      ∀ b ∈ block.blocks, (b.2.statement.registers : Int) ≤ commonRegisterNumber := by
  obtain ⟨g, ⟨declared, d, declares, shape, complete, rfl⟩, last⟩ :=
    parse_runsWith statements_complete accepted
  obtain ⟨procedures, added, whole⟩ := declares.allFit rfl
  have within : block.procedures = procedures := by
    rw [shape]
    exact added
  have free : declared.registerPtr = 0 := declares.declares.registers.1
  have start : AllFit mainGen := fun _ => NamesWithin.nil
  have halted : AllFit s.gen ↔ AllFit (genBody block.statement declared) := by
    rw [last]
    have halts := allFit_emitted (emitted_emit
      ((genBody block.statement declared).reserveSpace (block.varDecl.length + 4))
      Opcode.sio.toInt 0 0 3 rfl)
    have plain : FitsRegisters [instr .sio 0 0 3] :=
      NamesWithin.result rfl (Int.le_refl 0) (by decide)
    exact halts.trans (by rw [allFit_reserveSpace]; exact and_iff_left plain)
  change AllFit s.gen ↔ _
  rw [halted, allFit_genBody complete free, whole, BlockNode.blocks, within, List.forall_mem_cons,
    List.forall_mem_map, and_iff_right start]
  exact and_comm

/-- `var x; x := 1+(1+( ... (1+(1)) ... ))` with 16 opening parentheses. -/
def deepSum : List CurrentToken :=
  [.word .varsym, .ident [120], .word .semicolonsym, .ident [120], .word .becomessym] ++
    (List.replicate 16 [.number 1, .word .plussym, .word .lparentsym]).flatten ++
    .number 1 :: (List.replicate 16 (.word .rparentsym) ++ [.word .periodsym])

/-- The program is accepted, without a report, and its innermost number goes to register 16. -/
theorem deepSum_accepted : ∃ block s, parse 100 deepSum = .ok block s ∧
    (s.reports, (s.gen.code 0)[17]?) = ([], some (instr .lit 16 0 1)) := by
  apply returned?_eq_some.mp
  decide +kernel

theorem registers_exist_iff_deepSum : ∃ block s, parse 100 deepSum = .ok block s ∧
    ((∀ set, FitsRegisters (s.gen.code set)) ↔
      ∀ b ∈ block.blocks, (b.2.statement.registers : Int) ≤ commonRegisterNumber) := by
  obtain ⟨block, s, accepted, -⟩ := deepSum_accepted
  exact ⟨block, s, accepted, registers_exist_iff accepted⟩

theorem deepSum_exceeds : ¬ ∀ (fuel : Nat) (tokens : List CurrentToken) (block : BlockNode)
    (s : ParseState), parse fuel tokens = .ok block s → ∀ set, FitsRegisters (s.gen.code set) := by
  intro claim
  obtain ⟨block, s, accepted, looked⟩ := deepSum_accepted
  have row : (s.gen.code 0)[17]? = some (instr .lit 16 0 1) := congrArg Prod.snd looked
  have fits := claim _ _ _ _ accepted 0 _ (List.mem_of_getElem? row) 16 List.mem_cons_self
  exact absurd fits.2 (by decide)

end Pl0
