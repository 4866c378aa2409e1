import Pl0.StatementExit
import Pl0.Linker

set_option autoImplicit false

namespace Pl0

theorem prependCode_eq (code : CodeSets) (set op r l m : Int) :
    prependCode code set op r l m = Function.update code set (⟨op, r, l, m⟩ :: code set) := by
  unfold prependCode insertCode getCodeLength
  split
  · rename_i empty
    have length : (code set).length = 0 := by omega
    rw [if_pos (by omega)]
    unfold appendCode
    rw [List.length_eq_zero_iff.mp length]
    rfl
  · rfl

/-- The sets of the main block and of the procedures so far are taken, and no others. -/
structure SetsTaken (g : GenState) : Prop where
  count : 0 ≤ g.procedureCount
  inUse : ∀ i < maxCodeSets, g.inUse i = true ↔ (i : Int) ≤ g.procedureCount

namespace SetsTaken

variable {g : GenState}

/-- With a set left, a new procedure gets the set that bears its number. -/
theorem makeProc_eq (taken : SetsTaken g) (room : g.procedureCount + 1 < maxCodeSets)
    (name : Name) : g.makeProc name = { g with
      procedureCount := g.procedureCount + 1
      currentProcedure := g.procedureCount + 1
      inUse := Function.update g.inUse (g.procedureCount + 1).toNat true
        }.putNew (g.newSymbol .procS name 0 (g.procedureCount + 1)) := by
  have count := taken.count
  have below : (g.procedureCount + 1).toNat < maxCodeSets := by omega
  have found : (List.range maxCodeSets).find? (fun i => !g.inUse i) =
      some (g.procedureCount + 1).toNat := by
    rw [List.find?_range_eq_some]
    refine ⟨?_, List.mem_range.mpr below, ?_⟩
    · rw [Bool.not_eq_true', ← Bool.not_eq_true, taken.inUse _ below]
      omega
    · intro j less
      rw [Bool.not_not, taken.inUse j (by omega)]
      omega
  unfold GenState.makeProc GenState.getFreeSet
  simp only [found]
  rw [Int.toNat_of_nonneg (by omega)]

/-- With no set left, it gets the set of the final code. -/
theorem makeProc_full (taken : SetsTaken g) (full : (maxCodeSets : Int) ≤ g.procedureCount + 1)
    (name : Name) : (g.makeProc name).currentProcedure = FINAL_CODE ∧
      (g.makeProc name).inUse = g.inUse := by
  have none : (List.range maxCodeSets).find? (fun i => !g.inUse i) = none := by
    rw [List.find?_eq_none]
    intro i member
    have below := List.mem_range.mp member
    rw [Bool.not_eq_true, Bool.not_eq_false', taken.inUse i below]
    omega
  unfold GenState.makeProc GenState.getFreeSet
  simp only [none]
  exact ⟨rfl, rfl⟩

theorem opened (taken : SetsTaken g) (name : Name) : SetsTaken (g.makeProc name).openBlock := by
  have count : (g.makeProc name).openBlock.procedureCount = g.procedureCount + 1 :=
    makeProc_procedureCount g name
  have positive := taken.count
  refine ⟨by omega, fun i below => ?_⟩
  rw [count]
  change (g.makeProc name).inUse i = true ↔ _
  by_cases room : g.procedureCount + 1 < maxCodeSets
  · rw [taken.makeProc_eq room name]
    change Function.update g.inUse (g.procedureCount + 1).toNat true i = true ↔ _
    by_cases same : i = (g.procedureCount + 1).toNat
    · rw [same, Function.update_self]
      simp only [true_iff]
      omega
    · rw [Function.update_of_ne same, taken.inUse i below]
      omega
  · rw [(taken.makeProc_full (by omega) name).2, taken.inUse i below]
    omega

theorem left {gb : GenState} (taken : SetsTaken gb) (statement : StatementNode) (set space : Int) :
    SetsTaken ((genBody statement gb).leaveProc set space) := by
  have body := genBody_emits statement gb
  constructor
  · change 0 ≤ (genBody statement gb).procedureCount
    rw [body.procedureCount]
    exact taken.count
  · change ∀ i < maxCodeSets, (genBody statement gb).inUse i = true ↔
      (i : Int) ≤ (genBody statement gb).procedureCount
    rw [body.inUse, body.procedureCount]
    exact taken.inUse

end SetsTaken

/-- The code sets before any code of the sets behind `procedureCount` was emitted:
the sets in use are the first ones. -/
structure Fresh (g : GenState) : Prop where
  count : 0 ≤ g.procedureCount
  inUse : ∀ i < maxCodeSets, g.inUse i = true ↔ (i : Int) ≤ g.procedureCount
  rows : ∀ j, j < 0 ∨ g.procedureCount < j → g.code j = []

theorem Fresh.taken {g : GenState} (fresh : Fresh g) : SetsTaken g :=
  ⟨fresh.count, fresh.inUse⟩

theorem makeProc_eq {g : GenState} (fresh : Fresh g) (room : g.procedureCount + 1 < maxCodeSets)
    (name : Name) : g.makeProc name = { g with
      procedureCount := g.procedureCount + 1
      currentProcedure := g.procedureCount + 1
      inUse := Function.update g.inUse (g.procedureCount + 1).toNat true
        }.putNew (g.newSymbol .procS name 0 (g.procedureCount + 1)) :=
  fresh.taken.makeProc_eq room name

theorem Fresh.opened {g : GenState} (fresh : Fresh g) (name : Name) :
    Fresh (g.makeProc name).openBlock := by
  have taken := fresh.taken.opened name
  refine ⟨taken.count, taken.inUse, ?_⟩
  intro j outside
  have count : (g.makeProc name).openBlock.procedureCount = g.procedureCount + 1 :=
    makeProc_procedureCount g name
  rw [count] at outside
  change (g.makeProc name).code j = []
  rw [makeProc_code]
  exact fresh.rows j (by omega)

/-- The code of the procedure's set: the space of its variables, and its statement. -/
def CompiledAs (code : CodeSets) (n : Int) (p : Procedure) : Prop :=
  ∃ c : CodeContext, c.procedure = p.addr ∧ c.level = p.lexical ∧
    code p.addr = instr .inc 0 0 (p.body.varDecl.length + 4) ::
      compileStatement c p.body.statement n 0

/-- What the declarations of a block do to the code sets: the sets in use keep their
code, and each new procedure fills its own. -/
structure Filled (g : GenState) (d : Declarations) (g' : GenState) (d' : Declarations) : Prop where
  fresh : Fresh g'
  grows : g.procedureCount ≤ g'.procedureCount
  currentProcedure : g'.currentProcedure = g.currentProcedure
  globalLevel : g'.globalLevel = g.globalLevel
  registerPtr : g'.registerPtr = g.registerPtr
  kept : ∀ j ≤ g.procedureCount, g'.code j = g.code j
  used : ∀ j, g.procedureCount < j → j ≤ g'.procedureCount → g'.code j ≠ []
  compiled : ∀ p ∈ d'.procDef.procedures, p ∈ d.procDef.procedures ∨
    (g.procedureCount < p.addr ∧ p.addr ≤ g'.procedureCount ∧ CompiledAs g'.code g.registerPtr p)

theorem CompiledAs.congr {code code' : CodeSets} {n : Int} {p : Procedure}
    (compiled : CompiledAs code n p) (same : code' p.addr = code p.addr) :
    CompiledAs code' n p := by
  obtain ⟨c, procedure, level, row⟩ := compiled
  exact ⟨c, procedure, level, same.trans row⟩

/-- A declaration that leaves the sets and the procedures alone. -/
theorem Filled.of_same {g g' : GenState} {d d' : Declarations} (fresh : Fresh g)
    (code : g'.code = g.code) (inUse : g'.inUse = g.inUse)
    (count : g'.procedureCount = g.procedureCount)
    (currentProcedure : g'.currentProcedure = g.currentProcedure)
    (globalLevel : g'.globalLevel = g.globalLevel) (registerPtr : g'.registerPtr = g.registerPtr)
    (procDef : d'.procDef = d.procDef) : Filled g d g' d' where
  fresh := ⟨by rw [count]; exact fresh.count, by rw [count, inUse]; exact fresh.inUse,
    by rw [count, code]; exact fresh.rows⟩
  grows := by rw [count]
  currentProcedure := currentProcedure
  globalLevel := globalLevel
  registerPtr := registerPtr
  kept := fun j _ => by rw [code]
  used := fun j above below => by omega
  compiled := fun p member => .inl (procDef ▸ member)

theorem Filled.trans {g g' g'' : GenState} {d d' d'' : Declarations} (first : Filled g d g' d')
    (second : Filled g' d' g'' d'') : Filled g d g'' d'' where
  fresh := second.fresh
  grows := Int.le_trans first.grows second.grows
  currentProcedure := second.currentProcedure.trans first.currentProcedure
  globalLevel := second.globalLevel.trans first.globalLevel
  registerPtr := second.registerPtr.trans first.registerPtr
  kept := fun j below => (second.kept j (Int.le_trans below first.grows)).trans (first.kept j below)
  used := fun j above below => by
    by_cases early : j ≤ g'.procedureCount
    · rw [second.kept j early]
      exact first.used j above early
    · exact second.used j (by omega) below
  compiled := fun p member => by
    rcases second.compiled p member with before | ⟨above, below, compiled⟩
    · rcases first.compiled p before with old | ⟨above, below, compiled⟩
      · exact .inl old
      · exact .inr ⟨above, Int.le_trans below second.grows, compiled.congr (second.kept _ below)⟩
    · rw [first.registerPtr] at compiled
      exact .inr ⟨by have grows := first.grows; omega, below, compiled⟩

/-- Nothing is in the set of a procedure before its statement. -/
theorem Filled.own_empty {g gb : GenState} {inner : Declarations} {name : Name} (fresh : Fresh g)
    (room : g.procedureCount + 1 < maxCodeSets)
    (nested : Filled (g.makeProc name).openBlock .none gb inner) :
    gb.code (g.procedureCount + 1) = [] := by
  have made := makeProc_eq fresh room name
  have openedCount : (g.makeProc name).openBlock.procedureCount = g.procedureCount + 1 := by
    rw [made]
    rfl
  have openedCode : (g.makeProc name).openBlock.code = g.code := by
    rw [made]
    rfl
  rw [nested.kept _ (by rw [openedCount]), openedCode]
  exact fresh.rows _ (.inr (by omega))

/-- The code sets behind the body of a procedure: its own set is filled. -/
theorem leaveProc_code {g gb : GenState} {inner : Declarations} {name : Name}
    (statement : StatementNode) (fresh : Fresh g) (room : g.procedureCount + 1 < maxCodeSets)
    (nested : Filled (g.makeProc name).openBlock .none gb inner) (set space : Int) :
    ((genBody statement gb).leaveProc set space).code = Function.update gb.code
      (g.procedureCount + 1) (instr .inc 0 0 space ::
        compileStatement gb.context statement g.registerPtr 0) := by
  have made := makeProc_eq fresh room name
  have body := genBody_emits statement gb
  have current : gb.currentProcedure = g.procedureCount + 1 := by
    rw [nested.currentProcedure, made]
    rfl
  have register : gb.registerPtr = g.registerPtr := by
    rw [nested.registerPtr, made]
    rfl
  have own := nested.own_empty fresh room
  have emitted : (genBody statement gb).code = Function.update gb.code (g.procedureCount + 1)
      (compileStatement gb.context statement g.registerPtr 0) := by
    rw [body.code, current, own, List.nil_append, register]
    rfl
  change prependCode (genBody statement gb).code (genBody statement gb).currentProcedure _ _ _ _ = _
  rw [prependCode_eq, body.currentProcedure, current, emitted, Function.update_self,
    Function.update_idem]
  rfl

/-- One procedure declaration, once its own block is filled. -/
theorem filled_proc {g gb : GenState} {d inner : Declarations} {name : Name}
    {statement : StatementNode} (fresh : Fresh g) (room : g.procedureCount + 1 < maxCodeSets)
    (nested : Filled (g.makeProc name).openBlock .none gb inner) :
    Filled g d ((genBody statement gb).leaveProc g.currentProcedure (inner.varDecl.length + 4))
      (d.addProc g name (inner.block statement)) := by
  have made := makeProc_eq fresh room name
  have body := genBody_emits statement gb
  have current : gb.currentProcedure = g.procedureCount + 1 := by
    rw [nested.currentProcedure, made]
    rfl
  have level : gb.globalLevel = g.globalLevel + 1 := by
    rw [nested.globalLevel, made]
    rfl
  have register : gb.registerPtr = g.registerPtr := by
    rw [nested.registerPtr, made]
    rfl
  have openedCount : (g.makeProc name).openBlock.procedureCount = g.procedureCount + 1 := by
    rw [made]
    rfl
  have openedCode : (g.makeProc name).openBlock.code = g.code := by
    rw [made]
    rfl
  have grows := nested.grows
  rw [openedCount] at grows
  have left : ((genBody statement gb).leaveProc g.currentProcedure
      (inner.varDecl.length + 4)).code = Function.update gb.code (g.procedureCount + 1)
        (instr .inc 0 0 (inner.varDecl.length + 4) ::
          compileStatement gb.context statement g.registerPtr 0) :=
    leaveProc_code _ fresh room nested _ _
  have leftCount : ((genBody statement gb).leaveProc g.currentProcedure
      (inner.varDecl.length + 4)).procedureCount = gb.procedureCount :=
    body.procedureCount
  have procedures : (d.addProc g name (inner.block statement)).procDef.procedures =
      d.procDef.procedures ++ ⟨name, g.globalLevel + 1, g.procedureCount + 1, g.currentProcedure,
        inner.block statement⟩ :: inner.procDef.procedures := d.addProc_procedures inner g
          name statement
  have takenLeft := nested.fresh.taken.left statement g.currentProcedure (inner.varDecl.length + 4)
  refine ⟨⟨takenLeft.count, takenLeft.inUse, ?_⟩, ?_, rfl, ?_, ?_, ?_, ?_, ?_⟩
  · intro j outside
    rw [leftCount] at outside
    rw [left, Function.update_of_ne (by have count := fresh.count; omega)]
    exact nested.fresh.rows j outside
  · rw [leftCount]
    omega
  · change (genBody statement gb).globalLevel - 1 = g.globalLevel
    rw [body.globalLevel, level]
    omega
  · change (genBody statement gb).registerPtr = g.registerPtr
    rw [body.registerPtr, register]
    omega
  · intro j below
    rw [left, Function.update_of_ne (by omega), nested.kept j (by omega), openedCode]
  · intro j above below
    rw [leftCount] at below
    rw [left]
    by_cases same : j = g.procedureCount + 1
    · rw [same, Function.update_self]
      exact List.cons_ne_nil _ _
    · rw [Function.update_of_ne same]
      exact nested.used j (by omega) below
  · intro p member
    rw [procedures] at member
    rw [leftCount, left]
    rcases List.mem_append.mp member with old | new
    · exact .inl old
    · refine .inr ?_
      rcases List.mem_cons.mp new with rfl | within
      · refine ⟨by dsimp only; omega, by dsimp only; omega, gb.context, current, level, ?_⟩
        rw [Function.update_self]
        rfl
      · rcases nested.compiled p within with none | ⟨above, below, compiled⟩
        · cases none
        · rw [openedCount] at above
          rw [nested.registerPtr.symm.trans register] at compiled
          exact ⟨by omega, below, compiled.congr (Function.update_of_ne (by omega) _ _)⟩

theorem Declares.procedureCount_le {g g' : GenState} {d d' : Declarations}
    (declares : Declares g d g' d') : g.procedureCount ≤ g'.procedureCount := by
  induction declares with
  | done => exact Int.le_refl _
  | const name value small inside _ ih => exact ih
  | var name inside _ ih => exact ih
  | @proc g gb _ _ _ _ name statement _ _ ihNested ih =>
      have opened : (g.makeProc name).openBlock.procedureCount = g.procedureCount + 1 :=
        makeProc_procedureCount g name
      have body : (genBody statement gb).procedureCount = gb.procedureCount :=
        (genBody_emits statement gb).procedureCount
      rw [opened] at ihNested
      change (genBody statement gb).procedureCount ≤ _ at ih
      omega

/-- A procedure counts before the procedures inside it, and these before the ones behind. -/
theorem Declares.procedureCount_between {g gb g' : GenState} {d d' inner behind : Declarations}
    {name : Name} {statement : StatementNode} {set space : Int}
    (nested : Declares (g.makeProc name).openBlock d gb inner)
    (rest : Declares ((genBody statement gb).leaveProc set space) behind g' d') :
    g.procedureCount + 1 ≤ gb.procedureCount ∧ gb.procedureCount ≤ g'.procedureCount := by
  have within := nested.procedureCount_le
  have later := rest.procedureCount_le
  have opened : (g.makeProc name).openBlock.procedureCount = g.procedureCount + 1 :=
    makeProc_procedureCount g name
  have body : (genBody statement gb).procedureCount = gb.procedureCount :=
    (genBody_emits statement gb).procedureCount
  change (genBody statement gb).procedureCount ≤ _ at later
  rw [opened] at within
  exact ⟨within, body ▸ later⟩

/-- As long as there are sets left, the declarations of a block fill them in order. -/
theorem Declares.filled {g g' : GenState} {d d' : Declarations} (declares : Declares g d g' d')
    (fresh : Fresh g) (room : g'.procedureCount < maxCodeSets) : Filled g d g' d' := by
  induction declares with
  | done => exact .of_same fresh rfl rfl rfl rfl rfl rfl rfl
  | @const g _ d _ name value small inside _ ih =>
      have step : Filled g d (g.makeConst name value) (d.addConst g name value) :=
        .of_same fresh rfl rfl rfl rfl rfl rfl rfl
      exact step.trans (ih step.fresh room)
  | @var g _ d _ name inside _ ih =>
      have step : Filled g d (g.makeVar name) (d.addVar g name) :=
        .of_same fresh rfl rfl rfl rfl rfl rfl rfl
      exact step.trans (ih step.fresh room)
  | @proc g gb g' d inner d' name statement nestedRun rest ihNested ih =>
      obtain ⟨within, behind⟩ := nestedRun.procedureCount_between rest
      have openedFresh : Fresh (g.makeProc name).openBlock := fresh.opened name
      have step : Filled g d _ (d.addProc g name (inner.block statement)) :=
        filled_proc fresh (by omega) (ihNested openedFresh (by omega))
      exact step.trans (ih step.fresh room)

theorem mainGen_fresh : Fresh mainGen := by
  have found : (List.range maxCodeSets).find? (fun i => !initGen.setOffsets.inUse i) = some 0 := by
    rfl
  have made : mainGen = { initGen.setOffsets with
      inUse := Function.update initGen.setOffsets.inUse 0 true } := by
    unfold mainGen GenState.getFreeSet
    simp only [found]
    rfl
  rw [made]
  refine ⟨Int.le_refl 0, ?_, fun _ _ => rfl⟩
  intro i _
  change Function.update (fun _ => false) 0 true i = true ↔ (i : Int) ≤ 0
  by_cases same : i = 0
  · subst same
    rw [Function.update_self]
    simp
  · rw [Function.update_of_ne same]
    simp only [Bool.false_eq_true, false_iff]
    omega

/-- The code sets of an accepted program that uses fewer sets than there are: the
main block's, and one for each procedure. -/
structure Layout (code : CodeSets) (block : BlockNode) : Prop where
  main : ∃ c : CodeContext, c.procedure = 0 ∧ c.level = 0 ∧
    code 0 = instr .inc 0 0 (block.varDecl.length + 4) ::
      (compileStatement c block.statement 0 0 ++ [instr .sio 0 0 3])
  used : ∀ j : Int, 0 ≤ j → j ≤ block.procedures.length → code j ≠ []
  rows : ∀ j : Int, j < 0 ∨ block.procedures.length < j → code j = []
  compiled : ∀ p ∈ block.procedures, 0 < p.addr ∧ p.addr ≤ block.procedures.length ∧
    CompiledAs code 0 p

/-- The declarations of the main block count the procedures of the program, whether
there are sets for them or not. -/
theorem Declares.procedures_length {g g' : GenState} {d d' : Declarations}
    (declares : Declares g d g' d') : g'.procedureCount + d.procDef.procedures.length =
      g.procedureCount + d'.procDef.procedures.length := by
  induction declares with
  | done => rfl
  | const name value small inside _ ih => exact ih
  | var name inside _ ih => exact ih
  | @proc g gb _ d inner _ name statement _ _ ihNested ih =>
      have opened : (g.makeProc name).openBlock.procedureCount = g.procedureCount + 1 :=
        makeProc_procedureCount g name
      have body : (genBody statement gb).procedureCount = gb.procedureCount :=
        (genBody_emits statement gb).procedureCount
      have procedures : (d.addProc g name (inner.block statement)).procDef.procedures.length =
          d.procDef.procedures.length + (inner.procDef.procedures.length + 1) := by
        rw [d.addProc_procedures, List.length_append, List.length_cons]
      rw [opened] at ihNested
      rw [procedures] at ih
      change _ = (genBody statement gb).procedureCount + _ at ih
      change gb.procedureCount + (0 : Nat) = _ at ihNested
      omega

theorem Declares.main_procedureCount {g : GenState} {d : Declarations} {block : BlockNode}
    (declares : Declares mainGen .none g d) (shape : block = d.block block.statement) :
    g.procedureCount = block.procedures.length := by
  have count := declares.procedures_length
  have noneBefore : Declarations.none.procDef.procedures.length = 0 := rfl
  have noneCount : mainGen.procedureCount = 0 := rfl
  have procedures : block.procedures = d.procDef.procedures := by
    rw [shape]
    rfl
  rw [noneBefore, noneCount, ← procedures] at count
  omega

/-- The set of the main block behind its statement part. -/
theorem finishMain_code {g : GenState} (statement : StatementNode)
    (current : g.currentProcedure = 0)
    (unused : g.registerPtr = 0) (own : g.code 0 = []) (space : Int) :
    ((genBody statement g).finishMain space).code = Function.update g.code 0
      (instr .inc 0 0 space ::
        (compileStatement g.context statement 0 0 ++ [instr .sio 0 0 3])) := by
  have body := genBody_emits statement g
  have emitted : (genBody statement g).code = Function.update g.code 0
      (compileStatement g.context statement 0 0) := by
    rw [body.code, current, own, List.nil_append, unused]
    rfl
  change appendCode (prependCode (genBody statement g).code
    (genBody statement g).currentProcedure _ _ _ _)
      (genBody statement g).currentProcedure _ _ _ _ = _
  unfold appendCode
  rw [prependCode_eq, body.currentProcedure, current, emitted, Function.update_self,
    Function.update_idem, Function.update_self, Function.update_idem]
  rfl

theorem parse_layout {fuel : Nat} {tokens : List CurrentToken} {block : BlockNode} {s : ParseState}
    (accepted : parse fuel tokens = .ok block s)
    (few : block.procedures.length < maxCodeSets) : Layout s.gen.code block := by
  have noneCount : mainGen.procedureCount = 0 := rfl
  obtain ⟨g, ⟨declared, d, declares, shape, rfl⟩, last⟩ := parse_runs accepted
  have count := declares.main_procedureCount shape
  have procedures : block.procedures = d.procDef.procedures := by
    rw [shape]
    rfl
  have filled := declares.filled mainGen_fresh (by omega)
  have current : declared.currentProcedure = 0 := filled.currentProcedure
  have level : declared.globalLevel = 0 := filled.globalLevel
  have register : declared.registerPtr = 0 := filled.registerPtr
  have own : declared.code 0 = [] :=
    (filled.kept 0 (Int.le_refl 0)).trans rfl
  have final : s.gen.code = Function.update declared.code 0
      (instr .inc 0 0 (block.varDecl.length + 4) ::
        (compileStatement declared.context block.statement 0 0 ++ [instr .sio 0 0 3])) := by
    rw [last]
    exact finishMain_code block.statement current register own _
  refine ⟨⟨declared.context, current, level, ?_⟩, ?_, ?_, ?_⟩
  · rw [final, Function.update_self]
  · intro j low high
    rw [final]
    by_cases same : j = 0
    · rw [same, Function.update_self]
      exact List.cons_ne_nil _ _
    · rw [Function.update_of_ne same]
      exact filled.used j (by omega) (by omega)
  · intro j outside
    rw [final, Function.update_of_ne (by omega)]
    exact filled.fresh.rows j (by omega)
  · intro p member
    rw [procedures] at member
    rcases filled.compiled p member with none | ⟨above, below, compiled⟩
    · cases none
    · change 0 < p.addr at above
      refine ⟨above, by omega, compiled.congr ?_⟩
      rw [final, Function.update_of_ne (by omega)]

/-- Where the linker puts the code sets of an accepted program. -/
theorem Layout.placed {code : CodeSets} {block : BlockNode} (layout : Layout code block)
    (few : block.procedures.length + 1 < maxCodeSets) {k : Nat}
    (inUse : k ≤ block.procedures.length) : ∃ start, block.procedures.length + 1 ≤ start ∧
      Placed code (prepareMcode code FINAL_CODE) k start :=
  prepareMcode_placed few (fun j below => layout.used j (by omega) (by omega))
    (layout.rows _ (.inr (by omega))) (layout.rows FINAL_CODE (.inl (by decide))) (by omega)

end Pl0
