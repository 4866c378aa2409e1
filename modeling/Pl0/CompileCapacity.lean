import Pl0.BlockSegments
import Pl0.CodeSize
import Pl0.ProcedureNumbering
import Pl0.StoredDeclarations

set_option autoImplicit false

namespace Pl0

open StateExcept

section Sets

theorem Declares.setsTaken {g g' : GenState} {d d' : Declarations} (declares : Declares g d g' d')
    (taken : SetsTaken g) : SetsTaken g' := by
  induction declares with
  | done => exact taken
  | const name value small inside _ ih => exact ih ⟨taken.count, taken.inUse⟩
  | var name inside _ ih => exact ih ⟨taken.count, taken.inUse⟩
  | proc name statement _ _ ihNested ih =>
      exact ih ((ihNested (taken.opened name)).left statement _ _)

theorem Declares.currentProcedure {g g' : GenState} {d d' : Declarations}
    (declares : Declares g d g' d') : g'.currentProcedure = g.currentProcedure := by
  induction declares with
  | done => rfl
  | const name value small inside _ ih => exact ih
  | var name inside _ ih => exact ih
  | proc name statement _ _ _ ih => exact ih

/-- A set that holds code goes on holding code. -/
theorem EmitsFrom.used {n : Int} {g g' : GenState} (emits : EmitsFrom n g g') {set : Int}
    (used : g.code set ≠ []) : g'.code set ≠ [] := by
  obtain ⟨fresh, placed, -⟩ := emits set
  intro empty
  rw [empty] at placed
  have whole := placed.symm.eq_nil
  exact used (List.append_eq_nil_iff.mp whole).1

/-- The INC of a procedure goes to the set that it got. -/
theorem leaveProc_used (statement : StatementNode) (gb : GenState) (set space : Int) :
    ((genBody statement gb).leaveProc set space).code gb.currentProcedure ≠ [] := by
  change prependCode (genBody statement gb).code
    (genBody statement gb).currentProcedure _ _ _ _ _ ≠ []
  rw [prependCode_eq, (genBody_emits statement gb).currentProcedure, Function.update_self]
  exact List.cons_ne_nil _ _

/-- With more procedures than sets, code goes to the set of the final code. -/
theorem Declares.overflows {g g' : GenState} {d d' : Declarations} (declares : Declares g d g' d')
    (taken : SetsTaken g) (few : g.procedureCount < maxCodeSets)
    (many : maxCodeSets ≤ g'.procedureCount) : g'.code FINAL_CODE ≠ [] := by
  induction declares with
  | done => omega
  | const name value small inside _ ih => exact ih ⟨taken.count, taken.inUse⟩ few many
  | var name inside _ ih => exact ih ⟨taken.count, taken.inUse⟩ few many
  | @proc g gb g' d inner d' name statement nested rest ihNested ih =>
      have opened : (g.makeProc name).openBlock.procedureCount = g.procedureCount + 1 :=
        makeProc_procedureCount g name
      have body := genBody_emits statement gb
      have entered := nested.setsTaken (taken.opened name)
      by_cases full : (maxCodeSets : Int) ≤ g.procedureCount + 1
      · have current : gb.currentProcedure = FINAL_CODE :=
          nested.currentProcedure.trans (taken.makeProc_full full name).1
        have own := leaveProc_used statement gb g.currentProcedure (inner.varDecl.length + 4)
        rw [current] at own
        exact rest.registers.2.used own
      · by_cases inside : (maxCodeSets : Int) ≤ gb.procedureCount
        · have early := ihNested (taken.opened name) (by omega) inside
          have behind := (genBody_emitsFrom statement gb).used early
          have closed := (EmitsFrom.reserveSpace (n := 0) (genBody statement gb).closeBlock
            (inner.varDecl.length + 4)).used behind
          exact rest.registers.2.used closed
        · refine ih (entered.left statement _ _) ?_ many
          change (genBody statement gb).procedureCount < _
          rw [body.procedureCount]
          omega

end Sets

section Lengths

/-- The set of a procedure holds the code of its statement part, as the parser read it. -/
def CompiledFrom (code : CodeSets) (p : Procedure) : Prop :=
  ∃ g : GenState, Complete g p.body.statement ∧ g.currentProcedure = p.addr ∧
    code p.addr = instr .inc 0 0 (p.body.varDecl.length + 4) ::
      compileStatement g.context p.body.statement 0 0

theorem CompiledFrom.congr {code code' : CodeSets} {p : Procedure} (read : CompiledFrom code p)
    (same : code' p.addr = code p.addr) : CompiledFrom code' p := by
  obtain ⟨g, complete, current, row⟩ := read
  exact ⟨g, complete, current, same.trans row⟩

theorem CompiledFrom.length {code : CodeSets} {p : Procedure} (read : CompiledFrom code p)
    (positive : 0 < p.addr) :
    (code p.addr).length = p.body.statement.codeSize true + 1 := by
  obtain ⟨g, complete, current, row⟩ := read
  have inProcedure : decide (g.context.procedure > 0) = true := by
    change decide (g.currentProcedure > 0) = true
    rw [current]
    exact decide_eq_true positive
  rw [row, List.length_cons,
    length_compileStatement g.context _ 0 0 complete.1 complete.2, inProcedure]

/-- As long as there are sets left, each new procedure has a set that is read so. -/
theorem DeclaresWith.compiledFrom {g g' : GenState} {d d' : Declarations}
    (declares : DeclaresWith Complete g d g' d') (fresh : Fresh g)
    (room : g'.procedureCount < maxCodeSets) (unused : g.registerPtr = 0) :
    ∀ p ∈ d'.procDef.procedures, p ∈ d.procDef.procedures ∨
      (g.procedureCount < p.addr ∧ p.addr ≤ g'.procedureCount ∧ CompiledFrom g'.code p) := by
  induction declares with
  | done => exact fun p member => .inl member
  | const name value small inside _ ih =>
      exact ih ⟨fresh.count, fresh.inUse, fresh.rows⟩ room unused
  | var name inside _ ih => exact ih ⟨fresh.count, fresh.inUse, fresh.rows⟩ room unused
  | @proc g gb g' d inner d' name statement nested complete rest ihNested ih =>
      obtain ⟨within, behind⟩ := nested.declares.procedureCount_between rest.declares
      have openedFresh : Fresh (g.makeProc name).openBlock := fresh.opened name
      have opened : (g.makeProc name).openBlock.registerPtr = 0 :=
        (makeProc_registerPtr g name).trans unused
      have openedCount : (g.makeProc name).openBlock.procedureCount = g.procedureCount + 1 :=
        makeProc_procedureCount g name
      have filled := nested.declares.filled openedFresh (by omega)
      have step : Filled g d _ (d.addProc g name (inner.block statement)) :=
        filled_proc fresh (by omega) filled
      have later := rest.declares.filled step.fresh room
      have count : ((genBody statement gb).leaveProc g.currentProcedure
          (inner.varDecl.length + 4)).procedureCount = gb.procedureCount :=
        (genBody_emits statement gb).procedureCount
      have row : ((genBody statement gb).leaveProc g.currentProcedure
          (inner.varDecl.length + 4)).code = _ :=
        leaveProc_code statement fresh (by omega) filled g.currentProcedure _
      intro p member
      rcases ih step.fresh room (step.registerPtr.trans unused) p member with before |
        ⟨above, below, read⟩
      · rw [d.addProc_procedures] at before
        rcases List.mem_append.mp before with old | new
        · exact .inl old
        · right
          rcases List.mem_cons.mp new with rfl | inside
          · have current : gb.currentProcedure = g.procedureCount + 1 := by
              rw [filled.currentProcedure, makeProc_eq fresh (by omega) name]
              rfl
            refine ⟨by dsimp only; omega, by dsimp only; omega, gb, complete, current, ?_⟩
            dsimp only
            rw [later.kept _ (by omega), row, Function.update_self, unused]
            rfl
          · rcases ihNested openedFresh (by omega) opened p inside with none | ⟨above, below, read⟩
            · cases none
            · rw [openedCount] at above
              refine ⟨by omega, by omega, read.congr ?_⟩
              rw [later.kept _ (by omega), row, Function.update_of_ne (by omega)]
      · rw [count] at above
        exact .inr ⟨by omega, below, read⟩

end Lengths

section Ledger

/-- What the counters tell of the symbols that were declared so far: each variable lies below
the counter of its level, each procedure has been counted, and only constants can be equal. -/
structure Ledger (g : GenState) : Prop where
  levels : ∀ d ∈ declarations g.trace, d.2.kind ≠ .procS → 0 ≤ d.2.level ∧ d.2.level < maxLexiLevels
  consts : ∀ d ∈ declarations g.trace, d.2.kind = .constS → d.2.addr = 0
  vars : ∀ d ∈ declarations g.trace, d.2.kind = .varS → d.2.addr < g.offsetArray d.2.level
  procs : ∀ d ∈ declarations g.trace, d.2.kind = .procS → d.2.addr ≤ g.procedureCount
  distinct : (declarations g.trace).Pairwise fun earlier later =>
    later.2.kind ≠ .constS → compareDataType earlier.2 later.2 = false

/-- The new symbol is a constant, or the counters have just moved past its address. -/
inductive Counts (g g' : GenState) (symbol : Symbol) : Prop
  | const (kind : symbol.kind = .constS) (addr : symbol.addr = 0)
      (inside : 0 ≤ symbol.level ∧ symbol.level < maxLexiLevels)
  | var (kind : symbol.kind = .varS) (inside : 0 ≤ symbol.level ∧ symbol.level < maxLexiLevels)
      (free : g.offsetArray symbol.level ≤ symbol.addr)
      (counted : symbol.addr < g'.offsetArray symbol.level)
  | proc (kind : symbol.kind = .procS) (free : g.procedureCount < symbol.addr)
      (counted : symbol.addr ≤ g'.procedureCount)

theorem compareDataType_eq_false {left right : Symbol}
    (different : left.kind = right.kind → left.level = right.level → left.addr ≠ right.addr) :
    compareDataType left right = false := by
  rw [← Bool.not_eq_true, compareDataType_iff]
  rintro ⟨-, kind, level, addr⟩
  exact different kind level addr

theorem Ledger.declare {g g' : GenState} {scope : List Int} {symbol : Symbol} (ledger : Ledger g)
    (trace : g'.trace = g.trace ++ [.declare scope symbol])
    (offsets : ∀ level, g.offsetArray level ≤ g'.offsetArray level)
    (count : g.procedureCount ≤ g'.procedureCount) (counts : Counts g g' symbol) : Ledger g' := by
  have whole : declarations g'.trace = declarations g.trace ++ [(scope, symbol)] := by
    rw [trace, declarations_declare]
  constructor
  · rw [whole, List.forall_mem_append]
    refine ⟨ledger.levels, fun d only => ?_⟩
    rw [List.mem_singleton.mp only]
    intro noProc
    cases counts with
    | const kind addr inside => exact inside
    | var kind inside free counted => exact inside
    | proc kind free counted => exact absurd kind noProc
  · rw [whole, List.forall_mem_append]
    refine ⟨ledger.consts, fun d only => ?_⟩
    rw [List.mem_singleton.mp only]
    intro isConst
    cases counts with
    | const kind addr inside => exact addr
    | var kind inside free counted => exact absurd (isConst.symm.trans kind) (by decide)
    | proc kind free counted => exact absurd (isConst.symm.trans kind) (by decide)
  · rw [whole, List.forall_mem_append]
    refine ⟨fun d member kind => Int.lt_of_lt_of_le (ledger.vars d member kind) (offsets _),
      fun d only => ?_⟩
    rw [List.mem_singleton.mp only]
    intro isVar
    cases counts with
    | const kind addr inside => exact absurd (isVar.symm.trans kind) (by decide)
    | var kind inside free counted => exact counted
    | proc kind free counted => exact absurd (isVar.symm.trans kind) (by decide)
  · rw [whole, List.forall_mem_append]
    refine ⟨fun d member kind => Int.le_trans (ledger.procs d member kind) count, fun d only => ?_⟩
    rw [List.mem_singleton.mp only]
    intro isProc
    cases counts with
    | const kind addr inside => exact absurd (isProc.symm.trans kind) (by decide)
    | var kind inside free counted => exact absurd (isProc.symm.trans kind) (by decide)
    | proc kind free counted => exact counted
  · rw [whole, List.pairwise_append]
    refine ⟨ledger.distinct, List.pairwise_singleton _ _, fun d member last only noConst => ?_⟩
    rw [List.mem_singleton.mp only] at noConst ⊢
    apply compareDataType_eq_false
    intro same level
    cases counts with
    | const kind addr inside => exact absurd kind noConst
    | var kind inside free counted =>
        have below := ledger.vars d member (same.trans kind)
        rw [level] at below
        dsimp only at below ⊢
        omega
    | proc kind free counted =>
        have below := ledger.procs d member (same.trans kind)
        dsimp only
        omega

/-- The statement part of a block declares nothing. -/
theorem Ledger.genBody {g : GenState} (ledger : Ledger g) (statement : StatementNode) :
    Ledger (genBody statement g) := by
  have body := genBody_emits statement g
  have same : declarations (Pl0.genBody statement g).trace = declarations g.trace := by
    obtain ⟨events, grown, none⟩ := genBody_declarations statement g
    rw [grown, declarations_append, none, List.append_nil]
  refine ⟨?_, ?_, ?_, ?_, ?_⟩
  · rw [same]
    exact ledger.levels
  · rw [same]
    exact ledger.consts
  · rw [same, body.offsetArray]
    exact ledger.vars
  · rw [same, body.procedureCount]
    exact ledger.procs
  · rw [same]
    exact ledger.distinct

theorem Declares.ledger {g g' : GenState} {d d' : Declarations} (declares : Declares g d g' d')
    (before : Ledger g) : Ledger g' := by
  induction declares with
  | done => exact before
  | @const g _ _ _ name value small inside _ ih =>
      apply ih
      exact before.declare rfl (fun _ => Int.le_refl _) (Int.le_refl _) (.const rfl rfl inside)
  | @var g _ _ _ name inside _ ih =>
      apply ih
      have moved : (g.makeVar name).offsetArray = Function.update g.offsetArray g.globalLevel
          (g.offsetArray g.globalLevel + 1) := rfl
      have trace : (g.makeVar name).trace = g.trace ++ [.declare g.scope
          (g.newSymbol .varS name 0 (g.offsetArray g.globalLevel))] := rfl
      have count : (g.makeVar name).procedureCount = g.procedureCount := rfl
      apply before.declare trace _ (Int.le_of_eq count.symm)
      · refine .var rfl inside (Int.le_refl _) ?_
        rw [moved]
        change g.offsetArray g.globalLevel < Function.update g.offsetArray g.globalLevel
          (g.offsetArray g.globalLevel + 1) g.globalLevel
        rw [Function.update_self]
        omega
      · intro level
        rw [moved]
        by_cases own : level = g.globalLevel
        · rw [own, Function.update_self]
          omega
        · rw [Function.update_of_ne own]
  | @proc g gb _ _ _ _ name statement _ _ ihNested ih =>
      obtain ⟨symbol, kind, -, addr, -, trace⟩ := makeProc_symbol g name
      have count := makeProc_procedureCount g name
      have made : Ledger (g.makeProc name) := by
        apply before.declare trace
        · rw [makeProc_offsetArray]
          exact fun _ => Int.le_refl _
        · omega
        · exact .proc kind (by omega) (by omega)
      have opened : Ledger (g.makeProc name).openBlock :=
        ⟨made.levels, made.consts, made.vars, made.procs, made.distinct⟩
      have body := (ihNested opened).genBody statement
      exact ih ⟨body.levels, body.consts, body.vars, body.procs, body.distinct⟩

end Ledger

section Capacity

variable {fuel : Nat} {tokens : List CurrentToken} {block : BlockNode} {s : ParseState}

/-- The main set holds the code of the statement part, as the parser read it, and the halt. -/
theorem parse_codeLengths (accepted : parse fuel tokens = .ok block s)
    (few : block.procedures.length < maxCodeSets) :
    (s.gen.code 0).length = block.statement.codeSize false + 2 ∧
      ∀ p ∈ block.procedures, (s.gen.code p.addr).length = p.body.statement.codeSize true + 1 := by
  obtain ⟨g, ⟨declared, d, declares, shape, complete, rfl⟩, last⟩ :=
    parse_runsWith statements_complete accepted
  have count := declares.declares.main_procedureCount shape
  have procedures : block.procedures = d.procDef.procedures := by
    rw [shape]
    rfl
  have filled := declares.declares.filled mainGen_fresh (by omega)
  have current : declared.currentProcedure = 0 := filled.currentProcedure
  have register : declared.registerPtr = 0 := filled.registerPtr
  have own : declared.code 0 = [] := (filled.kept 0 (Int.le_refl 0)).trans rfl
  have final := finishMain_code block.statement current register own (block.varDecl.length + 4)
  rw [← last] at final
  constructor
  · have inMain : decide (declared.context.procedure > 0) = false := by
      change decide (declared.currentProcedure > 0) = false
      rw [current]
      rfl
    rw [final, Function.update_self, List.length_cons, List.length_append, List.length_singleton,
      length_compileStatement declared.context _ 0 0 complete.1 complete.2, inMain]
  · intro p member
    rw [procedures] at member
    rcases declares.compiledFrom mainGen_fresh (by omega) rfl p member with none |
      ⟨above, below, read⟩
    · cases none
    · have positive : 0 < p.addr := above
      have kept : s.gen.code p.addr = declared.code p.addr := by
        rw [final, Function.update_of_ne (by omega)]
      exact (read.congr kept).length positive

/-- A set in use is the main one or that of a procedure. -/
theorem parse_set (accepted : parse fuel tokens = .ok block s) {set : Int} (low : 0 ≤ set)
    (high : set ≤ block.procedures.length) : set = 0 ∨ ∃ p ∈ block.procedures, p.addr = set := by
  obtain ⟨g, ⟨declared, d, declares, shape, rfl⟩, last⟩ := parse_runs accepted
  obtain ⟨procedures, numbers⟩ := declares.numbers
  have within : block.procedures = procedures := by
    rw [shape]
    exact numbers.added
  have addresses := numbers.numbers
  rw [← within] at addresses
  by_cases main : set = 0
  · exact .inl main
  · have member : set ∈ addressesFrom (mainGen.procedureCount + 1) block.procedures.length := by
      have noneCount : mainGen.procedureCount = 0 := rfl
      rw [mem_addressesFrom, noneCount]
      omega
    rw [← addresses] at member
    exact .inr (List.mem_map.mp member)

theorem lengths_iff (accepted : parse fuel tokens = .ok block s)
    (few : block.procedures.length < maxCodeSets) :
    (∀ set, ((s.gen.code set).length : Int) ≤ maxCodeLength) ↔
      (block.statement.codeSize false : Int) + 2 ≤ maxCodeLength ∧
        ∀ p ∈ block.procedures, (p.body.statement.codeSize true : Int) + 1 ≤ maxCodeLength := by
  obtain ⟨main, bodies⟩ := parse_codeLengths accepted few
  have layout := parse_layout accepted few
  constructor
  · intro lengths
    refine ⟨?_, fun p member => ?_⟩
    · have own := lengths 0
      omega
    · have own := lengths p.addr
      have size := bodies p member
      omega
  · rintro ⟨first, others⟩ set
    by_cases used : 0 ≤ set ∧ set ≤ block.procedures.length
    · rcases parse_set accepted used.1 used.2 with rfl | ⟨p, member, rfl⟩
      · omega
      · have size := bodies p member
        have bound := others p member
        omega
    · have empty : s.gen.code set = [] := layout.rows set (by omega)
      rw [empty]
      decide

end Capacity

end Pl0
