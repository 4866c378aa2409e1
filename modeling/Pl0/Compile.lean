import Pl0.GenReplay

set_option autoImplicit false

namespace Pl0

/-- What the code of a statement depends on besides the statement: how names
resolve, the level, and the set it goes to. -/
structure CodeContext where
  lookup : Name → Option Symbol
  level : Int
  procedure : Int

def GenState.context (g : GenState) : CodeContext :=
  { lookup := g.lookup, level := g.globalLevel, procedure := g.currentProcedure }

def instr (op : Opcode) (r l m : Int) : Instruction :=
  ⟨op.toInt, r, l, m⟩

def compileName (c : CodeContext) (n : Int) (name : Name) : List Instruction :=
  match c.lookup name with
  | none => []
  | some sym =>
      match sym.kind with
      | .varS => [instr .lod n (c.level - sym.level) sym.addr]
      | .constS => [instr .lit n 0 sym.val]
      | .procS => []

/-- The negation of the first factor of a term, whose value is in register `n`. -/
def compileSign (n : Int) (preop : Token) : List Instruction :=
  match preop with
  | .minussym => [instr .neg n n 0]
  | _ => []

def compileCalculation (n : Int) (op : Token) : List Instruction :=
  [⟨calculationOp op, n, n, n + 1⟩]

/- `n` is the register of the result; in the rest of a term or an expression it
already holds what came before. -/
mutual
def compileFactor (c : CodeContext) : FactorNode → Int → List Instruction
  | .ident name, n => compileName c n name
  | .digit value, n => [instr .lit n 0 value]
  | .exp e, n => compileTerms c e true n

def compileFactors (c : CodeContext) : FactorExp → Option Token → Int → List Instruction
  | .nil, _, _ => []
  | .cons op factor next, sign, n =>
      (match sign with
        | some preop => compileFactor c factor n ++ compileSign n preop
        | none => compileFactor c factor (n + 1) ++ compileCalculation n op) ++
        compileFactors c next none n

def compileTerms (c : CodeContext) : TermExp → Bool → Int → List Instruction
  | .nil, _, _ => []
  | .cons op term next, first, n =>
      (if first then compileFactors c term (some op) n
        else compileFactors c term (some .unset) (n + 1) ++ compileCalculation n op) ++
        compileTerms c next false n
end

def compileExpression (c : CodeContext) (n : Int) (e : TermExp) : List Instruction :=
  compileTerms c e true n

def compileCondition (c : CodeContext) (n : Int) : ConditionNode → List Instruction
  | .odd right => compileExpression c n right ++ [instr .odd n n 0]
  | .relOp op left right =>
      compileExpression c n left ++ compileExpression c (n + 1) right ++
        [⟨relOpOp op, n, n, n + 1⟩]

def compileStore (c : CodeContext) (n : Int) (name : Name) : List Instruction :=
  match c.lookup name with
  | none => []
  | some sym => [instr .sto n (c.level - sym.level) sym.addr]

def compileRead (c : CodeContext) (n : Int) (name : Name) : List Instruction :=
  match c.lookup name with
  | none => []
  | some sym => [instr .sio n 0 2, instr .sto n (c.level - sym.level) sym.addr]

def compileWrite (c : CodeContext) (n : Int) (name : Name) : List Instruction :=
  match c.lookup name with
  | none => []
  | some sym =>
      [if sym.kind = .varS then instr .lod n (c.level - sym.level) sym.addr
        else instr .lod n 0 sym.val, instr .sio n 0 1]

def compileCall (c : CodeContext) (name : Name) : List Instruction :=
  match c.lookup name with
  | none => []
  | some sym => [instr .cal 0 (c.level - sym.level) sym.addr]

/-- The return behind a begin statement of a procedure. -/
def compileReturn (c : CodeContext) : List Instruction :=
  if c.procedure > 0 then [instr .rtn 0 0 0] else []

/- `start` is the index of the first instruction in its set: the jumps are
relative to the set. -/
mutual
def compileStatement (c : CodeContext) : StatementNode → Int → Nat → List Instruction
  | .empty, _, _ => []
  | .assign name e, n, _ => compileExpression c n e ++ compileStore c n name
  | .begin list, n, start => compileStatements c list n start ++ compileReturn c
  | .ifS cond ifsts, n, start =>
      let test := compileCondition c n cond
      let branch := compileStatement c ifsts (n + 1) (start + test.length + 1)
      let stop := start + test.length + 1 + branch.length + 1
      test ++ [instr .jpc n 0 stop] ++ branch ++ [instr .jmp 0 0 stop]
  | .ifElse cond ifsts elsests, n, start =>
      let test := compileCondition c n cond
      let branch := compileStatement c ifsts (n + 1) (start + test.length + 1)
      let middle := start + test.length + 1 + branch.length + 1
      let other := compileStatement c elsests (n + 1) middle
      test ++ [instr .jpc n 0 middle] ++ branch ++
        [instr .jmp 0 0 ↑(middle + other.length)] ++ other
  | .while cond sts, n, start =>
      let test := compileCondition c n cond
      let body := compileStatement c sts (n + 1) (start + test.length + 1)
      test ++ [instr .jpc n 0 ↑(start + test.length + 1 + body.length + 1)] ++ body ++
        [instr .jmp 0 0 start]
  | .read name, n, _ => compileRead c n name
  | .write name, n, _ => compileWrite c n name
  | .call name, _, _ => compileCall c name

def compileStatements (c : CodeContext) : StatementList → Int → Nat → List Instruction
  | .nil, _, _ => []
  | .cons sts next, n, start =>
      let first := compileStatement c sts n start
      first ++ compileStatements c next n (start + first.length)
end

/-- What the history tells of code that was compiled in a context. -/
inductive Logged (c : CodeContext) (scope : List Int) : Event → Prop
  | use (construct : Construct) (name : Name) :
      Logged c scope (.use scope construct name (c.lookup name))
  | access (index : Int) (symbol : Symbol) : Logged c scope (.access scope c.procedure index symbol)
  | statement (body : Bool) (node : StatementNode) (n : Int) (start : Nat) :
      Logged c scope
        (.statement scope body c.procedure start (compileStatement c node n start) node)

/-- Whether an instruction reaches an operand in the stack. -/
def reachesOperand (op : Int) : Bool :=
  op = Opcode.lod.toInt || op = Opcode.sto.toInt || op = Opcode.cal.toInt

def operandOp : Construct → Opcode
  | .factor | .write => .lod
  | .assign | .read => .sto
  | .call => .cal

/-- The `l` and `m` by which a construct reaches its symbol. For a constant,
`generateWrite` puts the value where the address of a variable goes. -/
def operandFields (level : Int) (construct : Construct) (symbol : Symbol) : Int × Int :=
  if construct = .write ∧ symbol.kind ≠ .varS then (0, symbol.val)
  else (level - symbol.level, symbol.addr)

/-- The instruction reaches the symbol that a use in the block got. -/
def Operand (level : Int) (scope : List Int) (events : List Event) (ir : Instruction)
    (symbol : Symbol) : Prop :=
  ∃ construct name, .use scope construct name (some symbol) ∈ events ∧
    (construct = .factor → symbol.kind = .varS) ∧
    ir.op = (operandOp construct).toInt ∧ (ir.l, ir.m) = operandFields level construct symbol

/-- The new notes of operands are about the new code, and each instruction there that
reaches an operand has its note. -/
structure Accessed (g g' : GenState) (code : List Instruction) : Prop where
  fits : ∀ scope set index symbol, .access scope set index symbol ∈ g'.trace →
    .access scope set index symbol ∈ g.trace ∨ scope = g.scope ∧ set = g.currentProcedure ∧
      ∃ (i : Nat) (ir : Instruction), index = g.codeLength + i ∧ code[i]? = some ir ∧
        Operand g.globalLevel g.scope g'.trace ir symbol
  covered : ∀ (i : Nat) (ir : Instruction), code[i]? = some ir → reachesOperand ir.op = true →
    ∃ symbol, .access g.scope g.currentProcedure (g.codeLength + i) symbol ∈ g'.trace

theorem Operand.mono {level : Int} {scope : List Int} {events events' : List Event}
    {ir : Instruction} {symbol : Symbol} (operand : Operand level scope events ir symbol)
    (grows : ∀ event ∈ events, event ∈ events') : Operand level scope events' ir symbol := by
  obtain ⟨construct, name, used, instruction⟩ := operand
  exact ⟨construct, name, grows _ used, instruction⟩

/-- Code that reaches no operand, with no note of one. -/
theorem accessed_plain {g g' : GenState} {code : List Instruction}
    (same : ∀ scope set index symbol, .access scope set index symbol ∈ g'.trace →
      .access scope set index symbol ∈ g.trace)
    (plain : ∀ ir ∈ code, reachesOperand ir.op = false) : Accessed g g' code where
  fits := fun _ _ _ _ noted => .inl (same _ _ _ _ noted)
  covered := by
    intro i ir found reaches
    rw [plain ir (List.mem_of_getElem? found)] at reaches
    cases reaches

/-- An instruction behind others that reach no operand, and the note of its own. -/
theorem accessed_operand {g g' : GenState} {before : List Instruction} {ir : Instruction}
    {symbol : Symbol} (trace : g'.trace = g.trace ++
      [.access g.scope g.currentProcedure (g.codeLength + before.length) symbol])
    (plain : ∀ other ∈ before, reachesOperand other.op = false)
    (operand : Operand g.globalLevel g.scope g.trace ir symbol) :
    Accessed g g' (before ++ [ir]) where
  fits := by
    intro scope set index other noted
    rw [trace] at noted
    rcases List.mem_append.mp noted with early | late
    · exact .inl early
    · cases List.mem_singleton.mp late
      refine .inr ⟨rfl, rfl, before.length, ir, rfl, ?_, ?_⟩
      · rw [List.getElem?_append_right (Nat.le_refl _), Nat.sub_self]
        rfl
      · apply operand.mono
        intro event member
        rw [trace]
        exact List.mem_append_left _ member
  covered := by
    intro i other found reaches
    by_cases early : i < before.length
    · rw [List.getElem?_append_left early] at found
      rw [plain other (List.mem_of_getElem? found)] at reaches
      cases reaches
    · have bound := (List.getElem?_eq_some_iff.mp found).1
      rw [List.length_append, List.length_singleton] at bound
      have last : i = before.length := by omega
      refine ⟨symbol, ?_⟩
      rw [trace, last]
      simp

/-- What came behind the instructions that the current set had. -/
def emittedCode (g g' : GenState) : List Instruction :=
  (g'.code g.currentProcedure).drop (g.code g.currentProcedure).length

/-- `g'` is `g` with `code` appended to the current set, `count` more registers in
use and more history. -/
structure Emitted (g g' : GenState) (code : List Instruction) (count : Int) : Prop where
  accessed : Accessed g g' code
  code : g'.code = Function.update g.code g.currentProcedure (g.code g.currentProcedure ++ code)
  registerPtr : g'.registerPtr = g.registerPtr + count
  symbolTable : g'.symbolTable = g.symbolTable
  globalLevel : g'.globalLevel = g.globalLevel
  offsetArray : g'.offsetArray = g.offsetArray
  procedureCount : g'.procedureCount = g.procedureCount
  currentProcedure : g'.currentProcedure = g.currentProcedure
  inUse : g'.inUse = g.inUse
  allocated : g'.allocated = g.allocated
  scope : g'.scope = g.scope
  trace : ∃ events, g'.trace = g.trace ++ events ∧ ∀ event ∈ events, Logged g.context g.scope event

namespace Emitted

theorem refl (g : GenState) : Emitted g g [] 0 :=
  ⟨accessed_plain (fun _ _ _ _ noted => noted) fun _ none => absurd none List.not_mem_nil,
    by rw [List.append_nil, Function.update_eq_self],
    (Int.add_zero _).symm, rfl, rfl, rfl, rfl, rfl, rfl, rfl, rfl, [], (List.append_nil _).symm,
    fun _ member => absurd member List.not_mem_nil⟩

theorem context {g g' : GenState} {code : List Instruction} {count : Int}
    (emitted : Emitted g g' code count) : g'.context = g.context := by
  unfold GenState.context GenState.lookup
  rw [emitted.symbolTable, emitted.globalLevel, emitted.currentProcedure]

theorem lookup {g g' : GenState} {code : List Instruction} {count : Int}
    (emitted : Emitted g g' code count) : g'.lookup = g.lookup :=
  congrArg CodeContext.lookup emitted.context

theorem own {g g' : GenState} {code : List Instruction} {count : Int}
    (emitted : Emitted g g' code count) :
    g'.code g'.currentProcedure = g.code g.currentProcedure ++ code := by
  rw [emitted.currentProcedure, emitted.code, Function.update_self]

theorem appended {g g' : GenState} {code : List Instruction} {count : Int}
    (emitted : Emitted g g' code count) : emittedCode g g' = code := by
  unfold emittedCode
  rw [emitted.code, Function.update_self, List.drop_left]

theorem codeLength {g g' : GenState} {code : List Instruction} {count : Int}
    (emitted : Emitted g g' code count) : g'.codeLength = g.codeLength + code.length := by
  unfold GenState.codeLength getCodeLength
  rw [emitted.own, List.length_append]
  rfl

theorem mem_trace {g g' : GenState} {code : List Instruction} {count : Int}
    (emitted : Emitted g g' code count) {event : Event} (member : event ∈ g.trace) :
    event ∈ g'.trace := by
  obtain ⟨events, grown, -⟩ := emitted.trace
  rw [grown]
  exact List.mem_append_left _ member

theorem trans {g g' g'' : GenState} {code code' : List Instruction} {count count' : Int}
    (first : Emitted g g' code count) (second : Emitted g' g'' code' count') :
    Emitted g g'' (code ++ code') (count + count') where
  code := by
    rw [second.code, first.code, first.currentProcedure, Function.update_self,
      Function.update_idem, List.append_assoc]
  registerPtr := by rw [second.registerPtr, first.registerPtr, Int.add_assoc]
  symbolTable := second.symbolTable.trans first.symbolTable
  globalLevel := second.globalLevel.trans first.globalLevel
  offsetArray := second.offsetArray.trans first.offsetArray
  procedureCount := second.procedureCount.trans first.procedureCount
  currentProcedure := second.currentProcedure.trans first.currentProcedure
  inUse := second.inUse.trans first.inUse
  allocated := second.allocated.trans first.allocated
  scope := second.scope.trans first.scope
  trace := by
    obtain ⟨events, grown, logged⟩ := first.trace
    obtain ⟨events', grown', logged'⟩ := second.trace
    refine ⟨events ++ events', by rw [grown', grown, List.append_assoc], ?_⟩
    rw [first.context, first.scope] at logged'
    intro event member
    rcases List.mem_append.mp member with early | late
    · exact logged event early
    · exact logged' event late
  accessed := by
    have behind := first.codeLength
    constructor
    · intro scope set index symbol noted
      rcases second.accessed.fits _ _ _ _ noted with early |
        ⟨rfl, rfl, i, ir, place, found, operand⟩
      · rcases first.accessed.fits _ _ _ _ early with old |
          ⟨own, current, i, ir, place, found, operand⟩
        · exact .inl old
        · refine .inr ⟨own, current, i, ir, place, ?_, operand.mono fun _ => second.mem_trace⟩
          exact (List.getElem?_append_left (List.getElem?_eq_some_iff.mp found).1).trans found
      · refine .inr ⟨first.scope, first.currentProcedure, code.length + i, ir, ?_, ?_, ?_⟩
        · rw [place, behind]
          omega
        · rw [List.getElem?_append_right (Nat.le_add_right _ _), Nat.add_sub_cancel_left]
          exact found
        · rw [← first.globalLevel, ← first.scope]
          exact operand
    · intro i ir found reaches
      by_cases early : i < code.length
      · rw [List.getElem?_append_left early] at found
        obtain ⟨symbol, noted⟩ := first.accessed.covered i ir found reaches
        exact ⟨symbol, second.mem_trace noted⟩
      · rw [List.getElem?_append_right (Nat.not_lt.mp early)] at found
        obtain ⟨symbol, noted⟩ := second.accessed.covered _ ir found reaches
        rw [first.scope, first.currentProcedure, behind] at noted
        have place : g.codeLength + code.length + ((i - code.length : Nat) : Int) =
            g.codeLength + i := by omega
        rw [place] at noted
        exact ⟨symbol, noted⟩

/-- The same step with its code and its register count written another way. -/
theorem cast {g g' : GenState} {code code' : List Instruction} {count count' : Int}
    (emitted : Emitted g g' code count) (same : code = code') (sameCount : count = count') :
    Emitted g g' code' count' := by
  subst same sameCount
  exact emitted

end Emitted

theorem emitted_record {g : GenState} {event : Event} (logged : Logged g.context g.scope event)
    (plain : ∀ scope set index symbol, event ≠ .access scope set index symbol) :
    Emitted g (g.record event) [] 0 :=
  ⟨accessed_plain (fun scope set index symbol noted => by
      rcases List.mem_append.mp noted with early | late
      · exact early
      · exact absurd (List.mem_singleton.mp late).symm (plain scope set index symbol))
      fun _ none => absurd none List.not_mem_nil,
    by rw [List.append_nil, Function.update_eq_self]; rfl,
    (Int.add_zero _).symm, rfl, rfl, rfl, rfl, rfl, rfl, rfl, rfl, [event], rfl,
    fun _ member => List.mem_singleton.mp member ▸ logged⟩

theorem emitted_emit (g : GenState) (op r l m : Int) (plain : reachesOperand op = false) :
    Emitted g (g.emit fun code set => appendCode code set op r l m) [⟨op, r, l, m⟩] 0 :=
  ⟨accessed_plain (fun _ _ _ _ noted => noted) fun _ only => List.mem_singleton.mp only ▸ plain,
    rfl, (Int.add_zero _).symm, rfl, rfl, rfl, rfl, rfl, rfl, rfl, rfl, [],
    (List.append_nil _).symm, fun _ member => absurd member List.not_mem_nil⟩

theorem emitted_addRegister (g : GenState) (count : Int) :
    Emitted g (g.addRegister count) [] count :=
  ⟨accessed_plain (fun _ _ _ _ noted => noted) fun _ none => absurd none List.not_mem_nil,
    by rw [List.append_nil, Function.update_eq_self]; rfl,
    rfl, rfl, rfl, rfl, rfl, rfl, rfl, rfl, rfl, [], (List.append_nil _).symm,
    fun _ member => absurd member List.not_mem_nil⟩

theorem emitted_use (g : GenState) (construct : Construct) (name : Name) :
    Emitted g (g.use construct name) [] 0 :=
  emitted_record (.use construct name) (by simp)

theorem use_mem (g : GenState) (construct : Construct) (name : Name) :
    .use g.scope construct name (g.lookup name) ∈ (g.use construct name).trace :=
  List.mem_append_right _ (List.mem_singleton.mpr rfl)

/-- The instruction by which a construct reaches the symbol it got. -/
theorem emitted_operand {g : GenState} {construct : Construct} {name : Name} {symbol : Symbol}
    (used : .use g.scope construct name (some symbol) ∈ g.trace)
    (loads : construct = .factor → symbol.kind = .varS) {op : Opcode}
    (same : op = operandOp construct) (r : Int) {l m : Int}
    (fields : (l, m) = operandFields g.globalLevel construct symbol) :
    Emitted g ((g.access symbol).emit fun code set => appendCode code set op.toInt r l m)
      [instr op r l m] 0 := by
  have operand : Operand g.globalLevel g.scope g.trace (instr op r l m) symbol :=
    ⟨construct, name, used, loads, by rw [same]; rfl, fields⟩
  have noted : (g.access symbol).trace = g.trace ++ [.access g.scope g.currentProcedure
      (g.codeLength + (([] : List Instruction).length : Int)) symbol] := by
    rw [List.length_nil, Int.natCast_zero, Int.add_zero]
    rfl
  have accessed : Accessed g ((g.access symbol).emit fun code set =>
      appendCode code set op.toInt r l m) ([] ++ [instr op r l m]) :=
    accessed_operand noted (fun _ none => absurd none List.not_mem_nil) operand
  exact ⟨accessed, rfl, (Int.add_zero _).symm, rfl, rfl, rfl, rfl, rfl, rfl, rfl, rfl,
    [.access g.scope g.currentProcedure g.codeLength symbol], rfl,
    fun _ member => List.mem_singleton.mp member ▸ .access _ symbol⟩

theorem operandFields_address (level : Int) {construct : Construct} {symbol : Symbol}
    (stored : construct ≠ .write ∨ symbol.kind = .varS) :
    (level - symbol.level, symbol.addr) = operandFields level construct symbol := by
  unfold operandFields
  rw [if_neg]
  rintro ⟨writes, kind⟩
  exact stored.elim (fun other => other writes) kind

theorem emitted_load {g : GenState} {name : Name} {sym : Symbol}
    (used : .use g.scope .factor name (some sym) ∈ g.trace) (kind : sym.kind = .varS) :
    Emitted g (g.load sym) [instr .lod g.registerPtr (g.globalLevel - sym.level) sym.addr] 1 :=
  ((emitted_operand used (fun _ => kind) rfl g.registerPtr
    (operandFields_address _ (.inl (by decide)))).trans (emitted_addRegister _ 1)).cast rfl rfl

theorem emitted_literal (g : GenState) (value : Int) :
    Emitted g (g.literal value) [instr .lit g.registerPtr 0 value] 1 :=
  ((emitted_emit g _ _ _ _ rfl).trans (emitted_addRegister _ 1)).cast rfl rfl

theorem emitted_loadKnown (g : GenState) (name : Name)
    (used : .use g.scope .factor name (g.lookup name) ∈ g.trace) :
    Emitted g (g.loadKnown (g.lookup name)) (compileName g.context g.registerPtr name) 1 := by
  have same : g.context.lookup name = g.lookup name := rfl
  unfold GenState.loadKnown compileName
  rw [same]
  cases found : g.lookup name with
  | none => exact emitted_addRegister g 1
  | some sym =>
      rw [found] at used
      cases kind : sym.kind with
      | varS =>
          simp only [kind]
          exact emitted_load used kind
      | constS =>
          simp only [kind]
          exact emitted_literal g sym.val
      | procS =>
          simp only [kind]
          exact emitted_addRegister g 1

theorem emitted_negate (g : GenState) (preop : Token) :
    Emitted g (g.negate preop) (compileSign (g.registerPtr - 1) preop) 0 := by
  cases preop with
  | minussym => exact emitted_emit g _ _ _ _ rfl
  | _ => exact .refl g

theorem calculationOp_plain (op : Token) : reachesOperand (calculationOp op) = false := by
  cases op <;> rfl

theorem relOpOp_plain (op : Token) : reachesOperand (relOpOp op) = false := by
  cases op <;> rfl

theorem emitted_calculate (g : GenState) (op : Token) :
    Emitted g (g.calculate op)
      [⟨calculationOp op, g.registerPtr - 2, g.registerPtr - 2, g.registerPtr - 1⟩] (-1) :=
  ((emitted_emit g _ _ _ _ (calculationOp_plain op)).trans
    (emitted_addRegister _ (-1))).cast rfl rfl

theorem emitted_testOdd (g : GenState) :
    Emitted g g.testOdd [instr .odd (g.registerPtr - 1) (g.registerPtr - 1) 0] 0 :=
  emitted_emit g _ _ _ _ rfl

theorem emitted_compare (g : GenState) (op : Token) :
    Emitted g (g.compare op)
      [⟨relOpOp op, g.registerPtr - 2, g.registerPtr - 2, g.registerPtr - 1⟩] (-1) :=
  ((emitted_emit g _ _ _ _ (relOpOp_plain op)).trans (emitted_addRegister _ (-1))).cast rfl rfl

/-- The register of the result: the next free one for the first operand, and the
last one in use for the others. -/
def resultRegister (g : GenState) (first : Bool) : Int :=
  if first then g.registerPtr else g.registerPtr - 1

/-- How many registers the operands add. -/
def addedRegisters (first : Bool) : Int :=
  if first then 1 else 0

/-- One operator and its right operand. -/
theorem Emitted.operator {g g' : GenState} {code : List Instruction}
    (operand : Emitted g g' code 1) (op : Token) :
    Emitted g (g'.calculate op) (code ++ compileCalculation (g.registerPtr - 1) op) 0 := by
  have calculated := emitted_calculate g' op
  have left : g'.registerPtr - 2 = g.registerPtr - 1 := by
    rw [operand.registerPtr]
    omega
  have right : g'.registerPtr - 1 = g.registerPtr - 1 + 1 := by
    rw [operand.registerPtr]
    omega
  rw [left, right] at calculated
  exact operand.trans calculated

mutual
theorem genFactor_emits : ∀ (f : FactorNode) (g : GenState),
    Emitted g (genFactor f g) (compileFactor g.context f g.registerPtr) 1
  | .ident name, g => by
      have used := emitted_use g .factor name
      have loaded := emitted_loadKnown (g.use .factor name) name (use_mem g .factor name)
      rw [used.context, used.registerPtr, Int.add_zero] at loaded
      exact (used.trans loaded).cast rfl rfl
  | .digit value, g => emitted_literal g value
  | .exp e, g => genTerms_emits e true g

theorem genFactors_emits : ∀ (e : FactorExp) (sign : Option Token) (g : GenState),
    Emitted g (genFactors e sign g)
      (compileFactors g.context e sign (resultRegister g sign.isSome)) (addedRegisters sign.isSome)
  | .nil, none, g => .refl g
  | .nil, some _, g => emitted_addRegister g 1
  | .cons op factor next, some preop, g => by
      have operand := genFactor_emits factor g
      have sign := emitted_negate (genFactor factor g) preop
      have result : (genFactor factor g).registerPtr - 1 = g.registerPtr := by
        rw [operand.registerPtr]
        omega
      rw [result] at sign
      have signed := operand.trans sign
      have rest := genFactors_emits next none ((genFactor factor g).negate preop)
      have result' : resultRegister ((genFactor factor g).negate preop) false = g.registerPtr := by
        change ((genFactor factor g).negate preop).registerPtr - 1 = g.registerPtr
        rw [signed.registerPtr]
        omega
      rw [signed.context, Option.isSome_none, result'] at rest
      exact (signed.trans rest).cast rfl rfl
  | .cons op factor next, none, g => by
      have operand := (genFactor_emits factor g).operator op
      have rest := genFactors_emits next none ((genFactor factor g).calculate op)
      have result : resultRegister ((genFactor factor g).calculate op) false =
          g.registerPtr - 1 := by
        change ((genFactor factor g).calculate op).registerPtr - 1 = g.registerPtr - 1
        rw [operand.registerPtr, Int.add_zero]
      have right : g.registerPtr = g.registerPtr - 1 + 1 := by omega
      rw [operand.context, Option.isSome_none, result] at rest
      refine (operand.trans rest).cast ?_ rfl
      change _ = (compileFactor g.context factor (g.registerPtr - 1 + 1) ++ _) ++ _
      rw [← right]
      rfl

theorem genTerms_emits : ∀ (e : TermExp) (first : Bool) (g : GenState),
    Emitted g (genTerms e first g)
      (compileTerms g.context e first (resultRegister g first)) (addedRegisters first)
  | .nil, false, g => .refl g
  | .nil, true, g => emitted_addRegister g 1
  | .cons op term next, true, g => by
      have operand := genFactors_emits term (some op) g
      have rest := genTerms_emits next false (genFactors term (some op) g)
      have result : resultRegister (genFactors term (some op) g) false = g.registerPtr := by
        change (genFactors term (some op) g).registerPtr - 1 = g.registerPtr
        rw [operand.registerPtr]
        change g.registerPtr + 1 - 1 = g.registerPtr
        omega
      rw [operand.context, result] at rest
      exact (operand.trans rest).cast rfl rfl
  | .cons op term next, false, g => by
      have operand : Emitted g ((genFactors term (some .unset) g).calculate op) _ 0 :=
        Emitted.operator (genFactors_emits term (some .unset) g) op
      have rest := genTerms_emits next false ((genFactors term (some .unset) g).calculate op)
      have result : resultRegister ((genFactors term (some .unset) g).calculate op) false =
          g.registerPtr - 1 := by
        change ((genFactors term (some .unset) g).calculate op).registerPtr - 1 = g.registerPtr - 1
        rw [operand.registerPtr, Int.add_zero]
      have right : g.registerPtr = g.registerPtr - 1 + 1 := by omega
      rw [operand.context, result] at rest
      refine (operand.trans rest).cast ?_ rfl
      change _ = (compileFactors g.context term (some .unset) (g.registerPtr - 1 + 1) ++ _) ++ _
      rw [← right]
      rfl
end

theorem genExpression_emits (e : TermExp) (g : GenState) :
    Emitted g (genExpression e g) (compileExpression g.context g.registerPtr e) 1 :=
  genTerms_emits e true g

theorem genCondition_emits (cond : ConditionNode) (g : GenState) :
    Emitted g (genCondition cond g) (compileCondition g.context g.registerPtr cond) 1 := by
  cases cond with
  | odd right =>
      have operand := genExpression_emits right g
      have tested := emitted_testOdd (genExpression right g)
      have result : (genExpression right g).registerPtr - 1 = g.registerPtr := by
        rw [operand.registerPtr]
        omega
      rw [result] at tested
      exact operand.trans tested
  | relOp op left right =>
      have first := genExpression_emits left g
      have second := genExpression_emits right (genExpression left g)
      rw [first.context, first.registerPtr] at second
      have operands := first.trans second
      have compared := emitted_compare (genExpression right (genExpression left g)) op
      have result : (genExpression right (genExpression left g)).registerPtr - 2 =
        g.registerPtr := by
        rw [operands.registerPtr]
        omega
      have other : (genExpression right (genExpression left g)).registerPtr - 1 =
          g.registerPtr + 1 := by
        rw [operands.registerPtr]
        omega
      rw [result, other] at compared
      exact operands.trans compared

theorem getElem?_append_cons_of_ne {α : Type} (before after : List α) (a b : α) {i : Nat}
    (elsewhere : i ≠ before.length) : (before ++ a :: after)[i]? = (before ++ b :: after)[i]? := by
  by_cases early : i < before.length
  · rw [List.getElem?_append_left early, List.getElem?_append_left early]
  · obtain ⟨k, rfl⟩ : ∃ k, i = before.length + (k + 1) := ⟨i - before.length - 1, by omega⟩
    rw [List.getElem?_append_right (Nat.le_add_right _ _),
      List.getElem?_append_right (Nat.le_add_right _ _), Nat.add_sub_cancel_left]
    rfl

/-- Backpatching a jump changes no operand. -/
theorem Accessed.patch {g g' : GenState} {before after : List Instruction} {ir : Instruction}
    (accessed : Accessed g g' (before ++ ir :: after)) (plain : reachesOperand ir.op = false)
    (index m : Int) : Accessed g (g'.patch index m) (before ++ { ir with m := m } :: after) where
  fits := by
    intro scope set place symbol noted
    rcases accessed.fits _ _ _ _ noted with old | ⟨own, current, i, other, at_, found, operand⟩
    · exact .inl old
    · refine .inr ⟨own, current, i, other, at_, ?_, operand⟩
      rw [← found]
      apply getElem?_append_cons_of_ne
      rintro rfl
      obtain ⟨construct, name, -, -, op, -⟩ := operand
      rw [List.getElem?_append_right (Nat.le_refl _), Nat.sub_self] at found
      cases found
      rw [op] at plain
      cases construct <;> cases plain
  covered := by
    intro i other found reaches
    apply accessed.covered i other _ reaches
    rw [← found]
    apply getElem?_append_cons_of_ne
    rintro rfl
    rw [List.getElem?_append_right (Nat.le_refl _), Nat.sub_self] at found
    cases found
    rw [plain] at reaches
    cases reaches

/-- Backpatching a jump that was emitted since. -/
theorem Emitted.patch {g g' : GenState} {before after : List Instruction} {ir : Instruction}
    {count index : Int} (emitted : Emitted g g' (before ++ ir :: after) count)
    (plain : reachesOperand ir.op = false) (position : index = g.codeLength + before.length)
    (m : Int) :
    Emitted g (g'.patch index m) (before ++ { ir with m := m } :: after) count := by
  have own := emitted.own
  have whole : g'.code g'.currentProcedure =
      (g.code g.currentProcedure ++ before) ++ ir :: after := by
    rw [own, List.append_assoc]
  have place : index.toNat = (g.code g.currentProcedure ++ before).length := by
    rw [position, List.length_append]
    unfold GenState.codeLength getCodeLength
    omega
  have inside : ¬ (index < 0 ∨ index > getCodeLength g'.code g'.currentProcedure - 1) := by
    unfold getCodeLength
    rw [whole, List.length_append, List.length_cons, List.length_append, position]
    unfold GenState.codeLength getCodeLength
    omega
  refine { emitted with accessed := emitted.accessed.patch plain index m, code := ?_ }
  change changeM g'.code g'.currentProcedure index m = _
  unfold changeM
  rw [if_neg inside, whole, place, modify_length_append, emitted.code, emitted.currentProcedure,
    Function.update_idem, List.append_assoc]

/-- A statement is noted with the code that it compiles to. -/
theorem Emitted.recorded {g g' : GenState} {node : StatementNode} {n count : Int} {start : Nat}
    (emitted : Emitted g g' (compileStatement g.context node n start) count)
    (at_ : g.codeLength = start) (body : Bool) :
    Emitted g (g.recorded body node g') (compileStatement g.context node n start) count := by
  have length : (g.code g.currentProcedure).length = start := by
    unfold GenState.codeLength getCodeLength at at_
    omega
  have code : (g'.code g'.currentProcedure).drop g.codeLength.toNat =
      compileStatement g.context node n start := by
    rw [emitted.own, at_, Int.toNat_natCast, List.drop_left' length]
  have noted : Emitted g' (g.recorded body node g') [] 0 := by
    unfold GenState.recorded
    refine emitted_record ?_ (by simp)
    rw [code, at_, emitted.context, emitted.scope, emitted.currentProcedure]
    exact .statement body node n start
  exact (emitted.trans noted).cast (List.append_nil _) (Int.add_zero _)

theorem emitted_storeKnown (g : GenState) (name : Name) (sym : Option Symbol) :
    .use g.scope .assign name sym ∈ g.trace → Emitted g (g.storeKnown sym) (match sym with
      | none => []
      | some sym =>
          [instr .sto (g.registerPtr - 1) (g.globalLevel - sym.level) sym.addr]) (-1) := by
  intro used
  cases sym with
  | none => exact emitted_addRegister g (-1)
  | some sym =>
      exact ((emitted_operand used (by simp) rfl (g.registerPtr - 1)
        (operandFields_address _ (.inl (by decide)))).trans
          (emitted_addRegister _ (-1))).cast rfl rfl

theorem emitted_readSymbol {g : GenState} {name : Name} {sym : Symbol}
    (used : .use g.scope .read name (some sym) ∈ g.trace) :
    Emitted g (g.readSymbol sym) [instr .sio g.registerPtr 0 2,
      instr .sto g.registerPtr (g.globalLevel - sym.level) sym.addr] 0 := by
  have operand : Operand g.globalLevel g.scope g.trace
      (instr .sto g.registerPtr (g.globalLevel - sym.level) sym.addr) sym :=
    ⟨.read, name, used, by simp, rfl, operandFields_address _ (.inl (by decide))⟩
  have plain : ∀ other ∈ [instr .sio g.registerPtr 0 2], reachesOperand other.op = false :=
    fun _ only => List.mem_singleton.mp only ▸ rfl
  refine ⟨accessed_operand rfl plain operand, ?_, (Int.add_zero _).symm, rfl, rfl, rfl, rfl, rfl,
    rfl, rfl, rfl, [.access g.scope g.currentProcedure (g.codeLength + 1) sym], rfl,
    fun _ member => List.mem_singleton.mp member ▸ .access _ sym⟩
  change appendCode (appendCode g.code g.currentProcedure _ _ _ _) g.currentProcedure _ _ _ _ = _
  unfold appendCode
  rw [Function.update_idem, Function.update_self, List.append_assoc]
  rfl

theorem emitted_writeSymbol {g : GenState} {name : Name} {sym : Symbol}
    (used : .use g.scope .write name (some sym) ∈ g.trace) :
    Emitted g (g.writeSymbol sym)
      [if sym.kind = .varS then instr .lod g.registerPtr (g.globalLevel - sym.level) sym.addr
        else instr .lod g.registerPtr 0 sym.val, instr .sio g.registerPtr 0 1] 0 := by
  unfold GenState.writeSymbol generateWrite
  by_cases kind : sym.kind = .varS
  · simp only [kind, if_true]
    exact ((emitted_operand used (by simp) rfl g.registerPtr
      (operandFields_address _ (.inr kind))).trans
      (emitted_emit _ Opcode.sio.toInt g.registerPtr 0 1 rfl)).cast rfl rfl
  · simp only [kind, if_false]
    have fields : ((0 : Int), sym.val) = operandFields g.globalLevel .write sym :=
      (if_pos ⟨rfl, kind⟩).symm
    exact ((emitted_operand used (by simp) rfl g.registerPtr fields).trans
      (emitted_emit _ Opcode.sio.toInt g.registerPtr 0 1 rfl)).cast rfl rfl

theorem emitted_callSymbol {g : GenState} {name : Name} {sym : Symbol}
    (used : .use g.scope .call name (some sym) ∈ g.trace) :
    Emitted g (g.callSymbol sym) [instr .cal 0 (g.globalLevel - sym.level) sym.addr] 0 :=
  emitted_operand used (by simp) rfl 0 (operandFields_address _ (.inl (by decide)))

theorem emitted_finishBegin (g : GenState) :
    Emitted g g.finishBegin (compileReturn g.context) 0 := by
  unfold GenState.finishBegin compileReturn
  have same : g.context.procedure = g.currentProcedure := rfl
  rw [same]
  by_cases inProcedure : g.currentProcedure > 0
  · rw [if_pos inProcedure, if_pos inProcedure]
    exact emitted_emit g _ _ _ _ rfl
  · rw [if_neg inProcedure, if_neg inProcedure]
    exact .refl g

theorem emitted_conditionalJump (g : GenState) :
    Emitted g g.conditionalJump [instr .jpc (g.registerPtr - 1) 0 0] 0 :=
  emitted_emit g _ _ _ _ rfl

theorem emitted_jump (g : GenState) : Emitted g g.jump [instr .jmp 0 0 0] 0 :=
  emitted_emit g _ _ _ _ rfl

theorem Emitted.behindJump {g tested : GenState} {test : List Instruction} {start : Nat}
    (first : Emitted g tested test 1) (at_ : g.codeLength = start) :
    tested.conditionalJump.codeLength = ↑(start + test.length + 1) := by
  have upTo := first.trans (emitted_conditionalJump tested)
  rw [upTo.codeLength, at_, List.length_append, List.length_singleton, ← Int.natCast_add,
    Nat.add_assoc]

/-- A test and a branch that is left with a jump: the conditional jump goes behind
the branch, and the jump waits for its own target. -/
theorem Emitted.branch {g tested branch : GenState} {test code : List Instruction} {start : Nat}
    (at_ : g.codeLength = start) (first : Emitted g tested test 1)
    (taken : Emitted tested.conditionalJump branch code 0) :
    Emitted g (branch.leaveBranch tested.codeLength)
      (test ++ [instr .jpc g.registerPtr 0 ↑(start + test.length + 1 + code.length + 1)] ++ code ++
        [instr .jmp 0 0 0]) 1 ∧
    branch.codeLength = start + (test ++ [instr .jpc g.registerPtr 0
      ↑(start + test.length + 1 + code.length + 1)] ++ code).length := by
  have jumped := emitted_conditionalJump tested
  have register : tested.registerPtr - 1 = g.registerPtr := by
    rw [first.registerPtr]
    omega
  rw [register] at jumped
  have upTo := (first.trans jumped).trans taken
  have left := upTo.trans (emitted_jump branch)
  have stop := upTo.codeLength
  rw [at_, List.length_append, List.length_append, List.length_singleton] at stop
  have stop' := left.codeLength
  rw [at_, List.length_append, List.length_append, List.length_append, List.length_singleton,
    List.length_singleton] at stop'
  constructor
  · have shaped : Emitted g branch.jump
        (test ++ instr .jpc g.registerPtr 0 0 :: (code ++ [instr .jmp 0 0 0])) 1 :=
      left.cast (by simp) rfl
    have patched := shaped.patch rfl first.codeLength branch.jump.codeLength
    refine patched.cast ?_ rfl
    rw [stop']
    simp [instr]
    omega
  · rw [stop, List.length_append, List.length_append, List.length_singleton]

/-- Backpatching the jump behind the then branch to the end of the statement. -/
theorem Emitted.closeIf {g left : GenState} {before other : List Instruction} {start : Nat}
    {j2 : Int} (at_ : g.codeLength = start)
    (emitted : Emitted g left (before ++ [instr .jmp 0 0 0] ++ other) 1)
    (position : j2 = start + before.length) :
    Emitted g (left.endIf j2)
      (before ++ [instr .jmp 0 0 ↑(start + before.length + 1 + other.length)] ++ other) 0 := by
  have freed := emitted.trans (emitted_addRegister left (-1))
  have shaped : Emitted g (left.addRegister (-1)) (before ++ instr .jmp 0 0 0 :: other) 0 :=
    freed.cast (by simp) rfl
  have stop := shaped.codeLength
  rw [at_, List.length_append, List.length_cons] at stop
  have patched := shaped.patch rfl (position.trans (by rw [at_])) (left.addRegister (-1)).codeLength
  refine patched.cast ?_ rfl
  rw [stop]
  simp [instr]
  omega

/-- The jump back of a loop, and the register of its condition. -/
theorem Emitted.closeWhile {g left : GenState} {before : List Instruction} {start : Nat}
    {j2 : Int} (at_ : g.codeLength = start)
    (emitted : Emitted g left (before ++ [instr .jmp 0 0 0]) 1)
    (position : j2 = start + before.length) :
    Emitted g (left.endWhile j2 g.codeLength) (before ++ [instr .jmp 0 0 start]) 0 := by
  have patched := Emitted.patch emitted rfl (position.trans (by rw [at_])) g.codeLength
  have freed := patched.trans (emitted_addRegister _ (-1))
  refine freed.cast ?_ rfl
  rw [at_]
  simp [instr]

mutual
theorem genStatement_emits : ∀ (node : StatementNode) (g : GenState) (start : Nat),
    g.codeLength = start → Emitted g (genStatement node g)
      (compileStatement g.context node g.registerPtr start) 0
  | .empty, g, _, _ => .refl g
  | .assign name e, g, start, at_ => by
      have used := emitted_use g .assign name
      have value := genExpression_emits e (g.use .assign name)
      have upTo := used.trans value
      have noted : .use (genExpression e (g.use .assign name)).scope .assign name (g.lookup name) ∈
          (genExpression e (g.use .assign name)).trace := by
        rw [upTo.scope]
        exact value.mem_trace (use_mem g .assign name)
      have stored := emitted_storeKnown _ name (g.lookup name) noted
      have register : (genExpression e (g.use .assign name)).registerPtr - 1 = g.registerPtr := by
        rw [upTo.registerPtr]
        omega
      rw [used.context, used.registerPtr, Int.add_zero] at value
      rw [register, upTo.globalLevel] at stored
      exact ((used.trans value).trans stored).cast rfl rfl
  | .begin list, g, start, at_ => by
      have inner := genStatements_emits list g start at_
      have last := emitted_finishBegin (genStatements list g)
      rw [inner.context] at last
      exact inner.trans last
  | .ifS cond ifsts, g, start, at_ => by
      have test := genCondition_emits cond g
      have upTo := test.trans (emitted_conditionalJump (genCondition cond g))
      have branch := (genStatement_emits ifsts _ _ (test.behindJump at_)).recorded
        (test.behindJump at_) false
      rw [upTo.context, upTo.registerPtr, Int.add_zero] at branch
      obtain ⟨left, stop⟩ := test.branch at_ branch
      have closed := Emitted.closeIf at_ (left.cast (List.append_nil _).symm rfl) stop
      refine closed.cast ?_ rfl
      rw [List.append_nil, compileStatement]
      simp only [List.length_append, List.length_singleton, List.length_nil, Nat.add_assoc]
  | .ifElse cond ifsts elsests, g, start, at_ => by
      have test := genCondition_emits cond g
      have upTo := test.trans (emitted_conditionalJump (genCondition cond g))
      have branch := (genStatement_emits ifsts _ _ (test.behindJump at_)).recorded
        (test.behindJump at_) false
      rw [upTo.context, upTo.registerPtr, Int.add_zero] at branch
      obtain ⟨left, stop⟩ := test.branch at_ branch
      have middle := left.codeLength
      rw [at_, List.length_append, List.length_append, List.length_append, List.length_singleton,
        List.length_singleton, ← Int.natCast_add, ← Nat.add_assoc, ← Nat.add_assoc,
        ← Nat.add_assoc] at middle
      have other := (genStatement_emits elsests _ _ middle).recorded middle false
      rw [left.context, left.registerPtr] at other
      have closed := Emitted.closeIf at_ (left.trans other) stop
      refine closed.cast ?_ rfl
      rw [compileStatement]
      simp only [List.length_append, List.length_singleton, Nat.add_assoc]
  | .while cond sts, g, start, at_ => by
      have test := genCondition_emits cond g
      have upTo := test.trans (emitted_conditionalJump (genCondition cond g))
      have body := (genStatement_emits sts _ _ (test.behindJump at_)).recorded
        (test.behindJump at_) false
      rw [upTo.context, upTo.registerPtr, Int.add_zero] at body
      obtain ⟨left, stop⟩ := test.branch at_ body
      exact Emitted.closeWhile at_ left stop
  | .read name, g, _, _ => by
      have used := emitted_use g .read name
      have noted := use_mem g .read name
      have same : g.context.lookup name = g.lookup name := rfl
      unfold genStatement GenState.nameKnown compileStatement compileRead
      rw [same]
      cases found : g.lookup name with
      | none => exact used
      | some sym =>
          rw [found] at noted
          exact used.trans (emitted_readSymbol noted)
  | .write name, g, _, _ => by
      have used := emitted_use g .write name
      have noted := use_mem g .write name
      have same : g.context.lookup name = g.lookup name := rfl
      unfold genStatement GenState.nameKnown compileStatement compileWrite
      rw [same]
      cases found : g.lookup name with
      | none => exact used
      | some sym =>
          rw [found] at noted
          exact used.trans (emitted_writeSymbol noted)
  | .call name, g, _, _ => by
      have used := emitted_use g .call name
      have noted := use_mem g .call name
      have same : g.context.lookup name = g.lookup name := rfl
      unfold genStatement GenState.nameKnown compileStatement compileCall
      rw [same]
      cases found : g.lookup name with
      | none => exact used
      | some sym =>
          rw [found] at noted
          exact used.trans (emitted_callSymbol noted)

theorem genStatements_emits : ∀ (list : StatementList) (g : GenState) (start : Nat),
    g.codeLength = start → Emitted g (genStatements list g)
      (compileStatements g.context list g.registerPtr start) 0
  | .nil, g, _, _ => .refl g
  | .cons sts next, g, start, at_ => by
      have first := (genStatement_emits sts g start at_).recorded at_ false
      have position := first.codeLength
      rw [at_] at position
      have rest := genStatements_emits next (g.recorded false sts (genStatement sts g))
        (start + (compileStatement g.context sts g.registerPtr start).length)
        (by rw [position]; push_cast; rfl)
      rw [first.context, first.registerPtr, Int.add_zero] at rest
      exact first.trans rest
end

theorem genStatement_lookup (s : StatementNode) (g : GenState) :
    (genStatement s g).lookup = g.lookup :=
  (genStatement_emits s g _ rfl).lookup

end Pl0
