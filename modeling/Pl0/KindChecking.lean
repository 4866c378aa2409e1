import Pl0.BlockSegments
import Pl0.DeclarationOrder
import Pl0.NameUses

set_option autoImplicit false

namespace Pl0

open StateExcept

/-- The STO writes to the address of a symbol that an assignment or a read got for its name. -/
def StoresFound (events : List Event) (ir : Instruction) : Prop :=
  ∃ scope construct name symbol, .use scope construct name (some symbol) ∈ events ∧
    (construct = .assign ∨ construct = .read) ∧ ir.m = symbol.addr

/-- The notes of operands lie inside the code sets, and each STO there has its name. -/
structure StoresNoted (g : GenState) : Prop where
  below : ∀ scope set (index : Int) symbol, .access scope set index symbol ∈ g.trace →
    index < (g.code set).length
  stores : ∀ set, ∀ ir ∈ g.code set, ir.op = Opcode.sto.toInt → StoresFound g.trace ir

theorem StoresFound.mono {events events' : List Event} {ir : Instruction}
    (found : StoresFound events ir) (grows : ∀ event ∈ events, event ∈ events') :
    StoresFound events' ir := by
  obtain ⟨scope, construct, name, symbol, used, store⟩ := found
  exact ⟨scope, construct, name, symbol, grows _ used, store⟩

theorem Operand.storesFound {level : Int} {scope : List Int} {events : List Event}
    {ir : Instruction} {symbol : Symbol} (operand : Operand level scope events ir symbol)
    (store : ir.op = Opcode.sto.toInt) : StoresFound events ir := by
  obtain ⟨construct, name, used, -, op, fields⟩ := operand
  rw [store, Opcode.toInt_inj] at op
  have stores : construct = .assign ∨ construct = .read := by
    cases construct <;> first | exact .inl rfl | exact .inr rfl | cases op
  refine ⟨scope, construct, name, symbol, used, stores, ?_⟩
  have address : operandFields level construct symbol = (level - symbol.level, symbol.addr) := by
    unfold operandFields
    apply if_neg
    rintro ⟨write, -⟩
    rw [write] at stores
    simp at stores
  rw [address, Prod.mk.injEq] at fields
  exact fields.2

/-- New notes lie behind the old code, so they are about the new code. -/
theorem Emitted.storesNoted {g g' : GenState} {code : List Instruction} {count : Int}
    (emitted : Emitted g g' code count) (before : StoresNoted g) : StoresNoted g' := by
  have length : (g.code g.currentProcedure).length = g.codeLength := rfl
  have own : g'.code g.currentProcedure = g.code g.currentProcedure ++ code := by
    rw [emitted.code, Function.update_self]
  have other : ∀ set, set ≠ g.currentProcedure → g'.code set = g.code set := by
    intro set different
    rw [emitted.code, Function.update_of_ne different]
  constructor
  · intro scope set index symbol noted
    rcases emitted.accessed.fits _ _ _ _ noted with old | ⟨-, rfl, i, ir, rfl, found, -⟩
    · have inside := before.below _ _ _ _ old
      by_cases same : set = g.currentProcedure
      · subst same
        rw [own, List.length_append]
        omega
      · rw [other set same]
        exact inside
    · have inside := (List.getElem?_eq_some_iff.mp found).1
      rw [own, List.length_append]
      omega
  · intro set ir member store
    have kept : ∀ event ∈ g.trace, event ∈ g'.trace := fun _ => emitted.mem_trace
    by_cases same : set = g.currentProcedure
    · subst same
      rw [own] at member
      rcases List.mem_append.mp member with old | new
      · exact (before.stores _ ir old store).mono kept
      · obtain ⟨i, inside, found⟩ := List.getElem_of_mem new
        have row : code[i]? = some ir := by rw [List.getElem?_eq_getElem inside, found]
        have reaches : reachesOperand ir.op = true := by
          rw [store]
          rfl
        obtain ⟨symbol, noted⟩ := emitted.accessed.covered i ir row reaches
        rcases emitted.accessed.fits _ _ _ _ noted with stale |
          ⟨-, -, j, ir', place, there, operand⟩
        · have below := before.below _ _ _ _ stale
          omega
        · have index : i = j := by omega
          subst index
          rw [row, Option.some.injEq] at there
          subst there
          exact operand.storesFound store
    · rw [other set same] at member
      exact (before.stores set ir member store).mono kept

/-- A change that emits nothing and notes no operand. -/
theorem StoresNoted.of_same {g g' : GenState} (before : StoresNoted g) (code : g'.code = g.code)
    (trace : ∃ events, g'.trace = g.trace ++ events ∧
      ∀ scope set index symbol, .access scope set index symbol ∉ events) : StoresNoted g' := by
  obtain ⟨events, grown, none⟩ := trace
  constructor
  · intro scope set index symbol noted
    rw [grown] at noted
    rw [code]
    exact before.below _ _ _ _ ((List.mem_append.mp noted).resolve_right (none _ _ _ _))
  · intro set ir member store
    rw [code] at member
    apply (before.stores set ir member store).mono
    intro event old
    rw [grown]
    exact List.mem_append_left _ old

/-- One more instruction, before or behind a set, that is no STO. -/
theorem StoresNoted.extended {g g' : GenState} (before : StoresNoted g) (extra : Instruction)
    (trace : g'.trace = g.trace) (plain : extra.op ≠ Opcode.sto.toInt)
    (code : ∀ set, (g.code set).length ≤ (g'.code set).length ∧
      ∀ ir ∈ g'.code set, ir = extra ∨ ir ∈ g.code set) : StoresNoted g' := by
  constructor
  · intro scope set index symbol noted
    rw [trace] at noted
    have inside := before.below _ _ _ _ noted
    have longer := (code set).1
    omega
  · intro set ir member store
    rw [trace]
    rcases (code set).2 ir member with rfl | old
    · exact absurd store plain
    · exact before.stores set ir old store

theorem StoresNoted.reserveSpace {g : GenState} (before : StoresNoted g) (space : Int) :
    StoresNoted (g.reserveSpace space) := by
  have trace : (g.reserveSpace space).trace = g.trace := rfl
  have plain : Opcode.inc.toInt ≠ Opcode.sto.toInt := by decide
  apply before.extended (instr .inc 0 0 space) trace plain
  intro set
  change _ ≤ (prependCode g.code g.currentProcedure _ _ _ _ set).length ∧
    ∀ ir ∈ prependCode g.code g.currentProcedure _ _ _ _ set, _
  rw [prependCode_eq]
  by_cases same : set = g.currentProcedure
  · subst same
    rw [Function.update_self]
    exact ⟨by simp, fun ir member => List.mem_cons.mp member⟩
  · rw [Function.update_of_ne same]
    exact ⟨Nat.le_refl _, fun ir member => .inr member⟩

theorem StoresNoted.halt {g : GenState} (before : StoresNoted g) : StoresNoted g.halt := by
  have trace : g.halt.trace = g.trace := rfl
  apply before.extended (instr .sio 0 0 3) trace (by decide)
  intro set
  change _ ≤ (appendCode g.code g.currentProcedure _ _ _ _ set).length ∧
    ∀ ir ∈ appendCode g.code g.currentProcedure _ _ _ _ set, _
  unfold appendCode
  by_cases same : set = g.currentProcedure
  · subst same
    rw [Function.update_self]
    refine ⟨by simp, fun ir member => ?_⟩
    exact (List.mem_append.mp member).symm.imp_left List.mem_singleton.mp
  · rw [Function.update_of_ne same]
    exact ⟨Nat.le_refl _, fun ir member => .inr member⟩

theorem declare_no_access {scope : List Int} {declared : Symbol} :
    ∀ scope' set index symbol, Event.access scope' set index symbol ∉
      [.declare scope declared] := by
  intro scope' set index symbol member
  cases List.mem_singleton.mp member

theorem Declares.storesNoted {g g' : GenState} {d d' : Declarations} (declares : Declares g d g' d')
    (before : StoresNoted g) : StoresNoted g' := by
  induction declares with
  | done => exact before
  | const name value small inside _ ih => exact ih (before.of_same rfl ⟨_, rfl, declare_no_access⟩)
  | var name inside _ ih => exact ih (before.of_same rfl ⟨_, rfl, declare_no_access⟩)
  | @proc g gb _ _ _ _ name statement nested _ ihNested ih =>
      apply ih
      have opened : StoresNoted (g.makeProc name).openBlock := by
        obtain ⟨symbol, made⟩ := makeProc_trace g name
        exact before.of_same (makeProc_code g name) ⟨_, made, declare_no_access⟩
      have body : StoresNoted (genBody statement gb) :=
        (genBody_emits statement gb).storesNoted (ihNested opened)
      have closed : StoresNoted (genBody statement gb).closeBlock :=
        ⟨body.below, body.stores⟩
      have reserved := closed.reserveSpace
      exact ⟨(reserved _).below, (reserved _).stores⟩

/-- Each STO of an accepted program writes to the address of the symbol of a name. -/
theorem parse_storesFound {fuel : Nat} {tokens : List CurrentToken} {block : BlockNode}
    {s : ParseState} (accepted : parse fuel tokens = .ok block s) {set : Int} {ir : Instruction}
    (member : ir ∈ s.gen.code set) (store : ir.op = Opcode.sto.toInt) :
    StoresFound s.gen.trace ir := by
  obtain ⟨g, ⟨last, d, declares, -, rfl⟩, final⟩ := parse_runs accepted
  have start : StoresNoted mainGen := by
    constructor
    · intro scope set index symbol noted
      exact absurd noted List.not_mem_nil
    · intro set ir member
      exact absurd member List.not_mem_nil
  have body := (genBody_emits block.statement last).storesNoted (declares.storesNoted start)
  have whole := (body.reserveSpace (block.varDecl.length + 4)).halt
  rw [final] at member ⊢
  exact whole.stores set ir member store

/-- Every name was resolved to a symbol of a kind that its construct takes, and no STO has
the address of a constant or of a procedure. -/
structure KindChecked (s : ParseState) : Prop where
  suited : ∀ u ∈ uses s.gen.trace, Suits u.construct u.result
  stores : ∀ set, ∀ ir ∈ s.gen.code set, ir.op = Opcode.sto.toInt →
    ∃ u ∈ uses s.gen.trace, ∃ symbol, u.result = some symbol ∧ symbol.kind = .varS ∧
      ir.m = symbol.addr

/-- Where the declarations made so far are those of `g`: each name to the left of a := in the
statement is a variable. -/
def AssignsVariables (g : GenState) (statement : StatementNode) : Prop :=
  ∀ name, (.assign, name) ∈ statement.mentioned →
    ∃ symbol, g.lookup name = some symbol ∧ symbol.kind = .varS

/-- The same for each statement part of a program, with the declarations that `makeSymbol` has
entered in the table before it. The block says in which order they stand. -/
def BlockNode.OnlyAssignsVariables (block : BlockNode) : Prop :=
  ∃ g, BlockRunsWith AssignsVariables mainGen block g

/-- The use of a name on the left of a := got a variable. -/
def GotVariable : Event → Prop
  | .use _ .assign _ result => ∃ symbol, result = some symbol ∧ symbol.kind = .varS
  | _ => True

theorem genBody_gotVariable (statement : StatementNode) (g : GenState) :
    (∀ event ∈ (genBody statement g).trace, GotVariable event) ↔
      (∀ event ∈ g.trace, GotVariable event) ∧ AssignsVariables g statement := by
  obtain ⟨events, grown, -, noted⟩ := (genBody_mentions statement g).grows
  rw [grown, List.forall_mem_append]
  apply and_congr_right
  intro _
  constructor
  · intro got name member
    have used : g.useOf (.assign, name) ∈ usesIn events := by
      rw [noted]
      exact List.mem_map_of_mem member
    exact got _ (use_mem_usesIn.mp used)
  · intro assigns event member
    cases event with
    | use scope construct name result =>
        cases construct with
        | assign =>
            have used := use_mem_usesIn.mpr member
            rw [noted, List.mem_map] at used
            obtain ⟨⟨construct, other⟩, mentioned, same⟩ := used
            rw [GenState.useOf, Event.use.injEq] at same
            obtain ⟨-, rfl, rfl, rfl⟩ := same
            exact assigns _ mentioned
        | call | factor | read | write => trivial
    | declare | access | statement => trivial

theorem gotVariable_declare {events : List Event} {scope : List Int} {symbol : Symbol}
    (got : ∀ event ∈ events, GotVariable event) :
    ∀ event ∈ events ++ [.declare scope symbol], GotVariable event :=
  history_append got trivial

/-- A history whose assignments got variables is one of statements that assign to variables. -/
theorem Declares.assignsVariables {g g' : GenState} {d d' : Declarations}
    (declares : Declares g d g' d') (got : ∀ event ∈ g'.trace, GotVariable event) :
    DeclaresWith AssignsVariables g d g' d' := by
  induction declares with
  | done g d => exact .done g d
  | const name value small inside _ ih => exact .const name value small inside (ih got)
  | var name inside _ ih => exact .var name inside (ih got)
  | @proc g gb _ _ inner _ name statement nested rest ihNested ih =>
      have body : ∀ event ∈ (genBody statement gb).trace, GotVariable event :=
        fun event member => got event (rest.trace_grows.subset member)
      obtain ⟨before, assigns⟩ := (genBody_gotVariable statement gb).mp body
      exact .proc name statement (ihNested before) assigns (ih got)

theorem DeclaresWith.gotVariable {g g' : GenState} {d d' : Declarations}
    (declares : DeclaresWith AssignsVariables g d g' d')
    (before : ∀ event ∈ g.trace, GotVariable event) :
    ∀ event ∈ g'.trace, GotVariable event := by
  induction declares with
  | done => exact before
  | const name value small inside _ ih => exact ih (gotVariable_declare before)
  | var name inside _ ih => exact ih (gotVariable_declare before)
  | @proc g gb _ _ _ _ name statement _ assigns _ ihNested ih =>
      obtain ⟨symbol, made⟩ := makeProc_trace g name
      have opened : ∀ event ∈ (g.makeProc name).trace, GotVariable event := by
        rw [made]
        exact gotVariable_declare before
      exact ih ((genBody_gotVariable statement gb).mpr ⟨ihNested opened, assigns⟩)

/-- The assignments of an accepted program got variables when its statements assign to
variables. -/
theorem gotVariable_iff {fuel : Nat} {tokens : List CurrentToken} {block : BlockNode}
    {s : ParseState} (accepted : parse fuel tokens = .ok block s) :
    (∀ event ∈ s.gen.trace, GotVariable event) ↔ block.OnlyAssignsVariables := by
  obtain ⟨g, runs, final⟩ := parse_runs accepted
  rw [final]
  change (∀ event ∈ g.trace, GotVariable event) ↔ _
  constructor
  · intro got
    obtain ⟨declared, d, declares, shape, rfl⟩ := runs
    obtain ⟨before, assigns⟩ := (genBody_gotVariable block.statement declared).mp got
    exact ⟨_, declared, d, declares.assignsVariables before, shape, assigns, rfl⟩
  · rintro ⟨g', assigned⟩
    obtain rfl := runs.unique assigned.runs
    obtain ⟨declared, d, declares, shape, assigns, rfl⟩ := assigned
    have start : ∀ event ∈ mainGen.trace, GotVariable event :=
      fun _ none => absurd none List.not_mem_nil
    exact (genBody_gotVariable block.statement declared).mpr
      ⟨declares.gotVariable start, assigns⟩

/-- For every accepted program: the kinds are checked exactly when it assigns to variables
only. -/
theorem kindChecked_iff {fuel : Nat} {tokens : List CurrentToken} {block : BlockNode}
    {s : ParseState} (accepted : parse fuel tokens = .ok block s) :
    KindChecked s ↔ block.OnlyAssignsVariables := by
  rw [← gotVariable_iff accepted]
  constructor
  · intro checked event member
    cases event with
    | use scope construct name result =>
        cases construct with
        | assign =>
            obtain ⟨before, isUse⟩ := exists_use member
            exact checked.suited _ isUse
        | call | factor | read | write => trivial
    | declare | access | statement => trivial
  · intro got
    have suited : ∀ u ∈ uses s.gen.trace, Suits u.construct u.result := by
      intro u member
      by_cases assigns : u.construct = .assign
      · have variable_ := got _ (Use.event_mem member)
        rw [Use.event, assigns] at variable_
        rw [assigns]
        exact variable_
      · exact accepted_suits accepted (Use.event_mem member) (.inl assigns)
    refine ⟨suited, ?_⟩
    intro set ir member store
    obtain ⟨scope, construct, name, symbol, used, stores, address⟩ :=
      parse_storesFound accepted member store
    obtain ⟨before, isUse⟩ := exists_use used
    obtain ⟨_, same, kind⟩ := suited _ isUse
    cases same
    refine ⟨_, isUse, symbol, rfl, ?_, address⟩
    rcases stores with rfl | rfl
    · exact kind
    · exact kind

/-- `const c = 1; begin c := 2 end.` -/
def assignedConstant : List CurrentToken :=
  [.word .constsym, .ident [99], .word .eqlsym, .number 1, .word .semicolonsym, .word .beginsym,
    .ident [99], .word .becomessym, .number 2, .word .endsym, .word .periodsym]

/-- The program is accepted, and the assignment got the constant. -/
theorem assignedConstant_accepted : ∃ block s, parse 20 assignedConstant = .ok block s ∧
    (uses s.gen.trace).map (fun u => (u.construct, u.result.map Symbol.kind)) =
      [(.assign, some .constS)] := by
  apply returned?_eq_some.mp
  rfl

theorem assignedConstant_unchecked {s : ParseState}
    (kinds : (uses s.gen.trace).map (fun u => (u.construct, u.result.map Symbol.kind)) =
      [(.assign, some .constS)]) : ¬ KindChecked s := by
  intro checked
  obtain ⟨u, rest, split, assigned, -⟩ := List.map_eq_cons_iff.mp kinds
  have suits := checked.suited u (by rw [split]; simp)
  rw [Prod.mk.injEq] at assigned
  rw [assigned.1] at suits
  obtain ⟨symbol, found, kind⟩ := suits
  rw [found] at assigned
  have constant := Option.some.inj assigned.2
  exact absurd (kind.symm.trans constant) (by decide)

/-- `var x; begin x := 2 end.` -/
def assignedVariable : List CurrentToken :=
  [.word .varsym, .ident [120], .word .semicolonsym, .word .beginsym,
    .ident [120], .word .becomessym, .number 2, .word .endsym, .word .periodsym]

def assignedVariableBlock : BlockNode :=
  .mk [] [⟨[120], 0, 0, 4⟩] .nil
    (.begin (.cons (.assign [120] (.cons .unset (.cons .nulsym (.digit 2) .nil) .nil)) .nil))

theorem assignedVariable_accepted :
    ∃ s, parse 20 assignedVariable = .ok assignedVariableBlock s := by
  have looked : returned? (fun block _ => block) (parse 20 assignedVariable) =
      some assignedVariableBlock := by
    rfl
  obtain ⟨block, s, accepted, rfl⟩ := returned?_eq_some.mp looked
  exact ⟨s, accepted⟩

theorem assignedVariableBlock_only : assignedVariableBlock.OnlyAssignsVariables := by
  refine ⟨_, mainGen.makeVar [120], _, .var [120] (by decide) (.done _ _), rfl, ?_, rfl⟩
  intro name mentioned
  obtain rfl : name = [120] := by
    simpa [assignedVariableBlock, BlockNode.statement, StatementNode.mentioned,
      StatementList.mentioned, TermExp.idents, FactorExp.idents, FactorNode.idents] using mentioned
  exact ⟨_, rfl, rfl⟩

theorem kindChecked_iff_assignedConstant :
    (∃ block s, parse 20 assignedVariable = .ok block s ∧ KindChecked s) ∧
      ∃ block s, parse 20 assignedConstant = .ok block s ∧ ¬ block.OnlyAssignsVariables := by
  constructor
  · obtain ⟨s, accepted⟩ := assignedVariable_accepted
    exact ⟨_, s, accepted, (kindChecked_iff accepted).mpr assignedVariableBlock_only⟩
  · obtain ⟨block, s, accepted, kinds⟩ := assignedConstant_accepted
    exact ⟨block, s, accepted,
      fun only => assignedConstant_unchecked kinds ((kindChecked_iff accepted).mpr only)⟩

theorem constant_assignment_accepted : ¬ ∀ (fuel : Nat) (tokens : List CurrentToken)
    (block : BlockNode) (s : ParseState), parse fuel tokens = .ok block s → KindChecked s := by
  intro always
  obtain ⟨block, s, accepted, kinds⟩ := assignedConstant_accepted
  exact assignedConstant_unchecked kinds (always _ _ _ _ accepted)

end Pl0
