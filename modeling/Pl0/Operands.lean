import Pl0.FrameLayout

set_option autoImplicit false

namespace Pl0

theorem mem_addressesFrom {first : Int} {count : Nat} {n : Int} :
    n ∈ addressesFrom first count ↔ first ≤ n ∧ n < first + count := by
  unfold addressesFrom
  rw [List.mem_map]
  constructor
  · rintro ⟨i, inside, rfl⟩
    have below := List.mem_range.mp inside
    omega
  · rintro ⟨low, high⟩
    exact ⟨(n - first).toNat, List.mem_range.mpr (by omega), by omega⟩

theorem addressesFrom_nodup (first : Int) (count : Nat) : (addressesFrom first count).Nodup := by
  unfold addressesFrom
  apply List.Nodup.map
  · intro i j same
    dsimp only at same
    omega
  · exact List.nodup_range

/-- What the declarations of a block tell of the new blocks, `chains`: which code set is
whose, and which operand each instruction reaches. -/
structure Noted (g : GenState) (d : Declarations) (g' : GenState) (d' : Declarations)
    (chains : List (List Int)) : Prop where
  scope : g'.scope = g.scope
  procDef : d'.procDef.chains g.scope = d.procDef.chains g.scope ++ chains
  numbers : chains.map List.head? =
    (addressesFrom (g.procedureCount + 1) chains.length).map some
  count : g'.procedureCount = g.procedureCount + chains.length
  grows : ∀ event ∈ g.trace, event ∈ g'.trace
  fits : ∀ scope set (index : Int) symbol, .access scope set index symbol ∈ g'.trace →
    .access scope set index symbol ∈ g.trace ∨ scope ∈ chains ∧ scope.head? = some set ∧
      ∃ (i : Nat) (ir : Instruction), index = i ∧ (g'.code set)[i + 1]? = some ir ∧
        Operand (scope.length - 1) scope g'.trace ir symbol
  covered : ∀ chain ∈ chains, ∀ set, chain.head? = some set → ∀ (i : Nat) (ir : Instruction),
    (g'.code set)[i + 1]? = some ir → reachesOperand ir.op = true →
      ∃ symbol, .access chain set i symbol ∈ g'.trace
  declared : ∀ scope symbol, .declare scope symbol ∈ g'.trace → symbol.kind = .procS →
    .declare scope symbol ∈ g.trace ∨ symbol.addr :: scope ∈ chains

theorem Noted.bounds {g g' : GenState} {d d' : Declarations} {chains : List (List Int)}
    (noted : Noted g d g' d' chains) {chain : List Int} (member : chain ∈ chains) {set : Int}
    (head : chain.head? = some set) : g.procedureCount < set ∧ set ≤ g'.procedureCount := by
  have number : some set ∈ (addressesFrom (g.procedureCount + 1) chains.length).map some := by
    rw [← noted.numbers, ← head]
    exact List.mem_map_of_mem member
  obtain ⟨n, inside, same⟩ := List.mem_map.mp number
  cases same
  have range := mem_addressesFrom.mp inside
  have count := noted.count
  omega

theorem Noted.of_same {g g' : GenState} {d d' : Declarations} (scope : g'.scope = g.scope)
    (procDef : d'.procDef = d.procDef) (count : g'.procedureCount = g.procedureCount)
    {symbol : Symbol} (kind : symbol.kind ≠ .procS)
    (trace : g'.trace = g.trace ++ [.declare g.scope symbol]) : Noted g d g' d' [] where
  scope := scope
  procDef := by rw [procDef, List.append_nil]
  numbers := rfl
  count := by rw [count]; exact (Int.add_zero _).symm
  grows := fun event member => trace ▸ List.mem_append_left _ member
  fits := by
    intro scope set index other noted
    rw [trace] at noted
    rcases List.mem_append.mp noted with early | late
    · exact .inl early
    · cases List.mem_singleton.mp late
  covered := fun _ none => absurd none List.not_mem_nil
  declared := by
    intro scope other member procedure
    rw [trace] at member
    rcases List.mem_append.mp member with early | late
    · exact .inl early
    · cases List.mem_singleton.mp late
      exact absurd procedure kind

theorem Noted.trans {g g' g'' : GenState} {d d' d'' : Declarations}
    {chains chains' : List (List Int)}
    (first : Noted g d g' d' chains) (second : Noted g' d' g'' d'' chains')
    (kept : ∀ j ≤ g'.procedureCount, g''.code j = g'.code j) :
    Noted g d g'' d'' (chains ++ chains') where
  scope := second.scope.trans first.scope
  procDef := by
    have later := second.procDef
    rw [first.scope] at later
    rw [later, first.procDef, List.append_assoc]
  numbers := by
    have later := second.numbers
    have place : g.procedureCount + chains.length + 1 = g.procedureCount + 1 + chains.length := by
      omega
    rw [first.count, place] at later
    rw [List.map_append, first.numbers, later, ← List.map_append, addressesFrom_append,
      List.length_append]
  count := by
    rw [second.count, first.count, List.length_append]
    push_cast
    omega
  grows := fun event member => second.grows event (first.grows event member)
  fits := by
    intro scope set index symbol noted
    rcases second.fits _ _ _ _ noted with early | ⟨member, head, fits⟩
    · rcases first.fits _ _ _ _ early with old | ⟨member, head, i, ir, place, found, operand⟩
      · exact .inl old
      · refine .inr ⟨List.mem_append_left _ member, head, i, ir, place, ?_,
          operand.mono second.grows⟩
        rw [kept set (first.bounds member head).2]
        exact found
    · exact .inr ⟨List.mem_append_right _ member, head, fits⟩
  covered := by
    intro chain member set head i ir found reaches
    rcases List.mem_append.mp member with early | late
    · rw [kept set (first.bounds early head).2] at found
      obtain ⟨symbol, noted⟩ := first.covered chain early set head i ir found reaches
      exact ⟨symbol, second.grows _ noted⟩
    · exact second.covered chain late set head i ir found reaches
  declared := by
    intro scope symbol member procedure
    rcases second.declared _ _ member procedure with early | late
    · rcases first.declared _ _ early procedure with old | new
      · exact .inl old
      · exact .inr (List.mem_append_left _ new)
    · exact .inr (List.mem_append_right _ late)

/-- One procedure declaration, once its own block is noted. -/
theorem noted_proc {g gb : GenState} {inner : Declarations} {name : Name}
    {chains : List (List Int)} (d : Declarations) (statement : StatementNode) (fresh : Fresh g)
    (room : g.procedureCount + 1 < maxCodeSets) (level : g.globalLevel = g.scope.length - 1)
    (filled : Filled (g.makeProc name).openBlock .none gb inner)
    (nested : Noted (g.makeProc name).openBlock .none gb inner chains) (space : Int) :
    Noted g d ((genBody statement gb).leaveProc g.currentProcedure space)
      (d.addProc g name (inner.block statement))
      (((g.procedureCount + 1) :: g.scope) :: chains) := by
  have made := makeProc_eq fresh room name
  have body := genBody_emits statement gb
  have openedTrace : (g.makeProc name).openBlock.trace = g.trace ++
      [.declare g.scope (g.newSymbol .procS name 0 (g.procedureCount + 1))] := by
    rw [made]
    rfl
  have openedScope : (g.makeProc name).openBlock.scope = (g.procedureCount + 1) :: g.scope := by
    rw [made]
    rfl
  have openedCount : (g.makeProc name).openBlock.procedureCount = g.procedureCount + 1 := by
    rw [made]
    rfl
  have scope : gb.scope = (g.procedureCount + 1) :: g.scope := nested.scope.trans openedScope
  have current : gb.currentProcedure = g.procedureCount + 1 := by
    rw [filled.currentProcedure, made]
    rfl
  have inside : gb.globalLevel = ((g.procedureCount + 1) :: g.scope).length - 1 := by
    rw [filled.globalLevel, made, List.length_cons]
    change g.globalLevel + 1 = _
    omega
  have empty := filled.own_empty fresh room
  have start : gb.codeLength = 0 := by
    unfold GenState.codeLength getCodeLength
    rw [current, empty]
    rfl
  have left := leaveProc_code statement fresh room filled g.currentProcedure space
  have code : compileStatement gb.context statement gb.registerPtr
      (gb.code gb.currentProcedure).length =
        compileStatement gb.context statement g.registerPtr 0 := by
    rw [current, empty, filled.registerPtr, made]
    rfl
  rw [code] at body
  have early : ∀ {event}, event ∈ gb.trace →
      event ∈ ((genBody statement gb).leaveProc g.currentProcedure space).trace :=
    fun member => body.mem_trace member
  have elsewhere : ∀ chain ∈ chains, ∀ {set}, chain.head? = some set →
      ((genBody statement gb).leaveProc g.currentProcedure space).code set = gb.code set := by
    intro chain member set head
    have bounds := nested.bounds member head
    rw [openedCount] at bounds
    rw [left, Function.update_of_ne (by omega)]
  refine ⟨?_, ?_, ?_, ?_, ?_, ?_, ?_, ?_⟩
  · change (genBody statement gb).scope.tail = g.scope
    rw [body.scope, scope]
    rfl
  · have within := nested.procDef
    rw [openedScope] at within
    change inner.procDef.chains _ = [] ++ chains at within
    unfold Declarations.addProc
    rw [ProdefList.chains_append, ProdefList.chains, ProdefList.chains, List.append_nil]
    change _ ++ (_ :: inner.procDef.chains _) = _
    rw [within]
    rfl
  · rw [List.map_cons, nested.numbers, openedCount, List.length_cons, addressesFrom_cons]
    rfl
  · change (genBody statement gb).procedureCount = _
    rw [body.procedureCount, nested.count, openedCount, List.length_cons]
    push_cast
    omega
  · intro event member
    apply early
    apply nested.grows
    rw [openedTrace]
    exact List.mem_append_left _ member
  · intro set' set index symbol noted
    rcases body.accessed.fits _ _ _ _ noted with old | ⟨rfl, rfl, i, ir, place, found, operand⟩
    · rcases nested.fits _ _ _ _ old with before | ⟨member, head, i, ir, place, found, operand⟩
      · rw [openedTrace] at before
        rcases List.mem_append.mp before with before | made
        · exact .inl before
        · cases List.mem_singleton.mp made
      · refine .inr ⟨List.mem_cons_of_mem _ member, head, i, ir, place, ?_,
          operand.mono fun _ => early⟩
        rw [elsewhere _ member head]
        exact found
    · refine .inr ⟨?_, ?_, i, ir, ?_, ?_, ?_⟩
      · rw [scope]
        exact List.mem_cons_self
      · rw [scope, current]
        rfl
      · rw [place, start, Int.zero_add]
      · rw [left, current, Function.update_self, List.getElem?_cons_succ]
        exact found
      · rw [scope, ← inside, ← scope]
        exact operand
  · intro chain member set head i ir found reaches
    rcases List.mem_cons.mp member with rfl | within
    · cases head
      rw [left, Function.update_self, List.getElem?_cons_succ] at found
      obtain ⟨symbol, noted⟩ := body.accessed.covered i ir found reaches
      rw [scope, current, start, Int.zero_add] at noted
      exact ⟨symbol, noted⟩
    · rw [elsewhere _ within head] at found
      obtain ⟨symbol, noted⟩ := nested.covered chain within set head i ir found reaches
      exact ⟨symbol, early noted⟩
  · intro scope symbol member procedure
    obtain ⟨events, grown, logged⟩ := body.trace
    change _ ∈ (genBody statement gb).trace at member
    rw [grown] at member
    rcases List.mem_append.mp member with old | new
    · rcases nested.declared _ _ old procedure with before | within
      · rw [openedTrace] at before
        rcases List.mem_append.mp before with before | made
        · exact .inl before
        · cases List.mem_singleton.mp made
          exact .inr List.mem_cons_self
      · exact .inr (List.mem_cons_of_mem _ within)
    · have impossible := logged _ new
      cases impossible

/-- As long as there are sets left, the declarations of a block note their blocks. -/
theorem Declares.noted {g g' : GenState} {d d' : Declarations} (declares : Declares g d g' d')
    (fresh : Fresh g) (room : g'.procedureCount < maxCodeSets)
    (level : g.globalLevel = g.scope.length - 1) : ∃ chains, Noted g d g' d' chains := by
  induction declares with
  | done g d =>
      exact ⟨[], rfl, (List.append_nil _).symm, rfl, (Int.add_zero _).symm, fun _ => id,
        fun _ _ _ _ => .inl, fun _ none => absurd none List.not_mem_nil,
          fun _ _ member _ => .inl member⟩
  | @const g g' d d' name value small inside rest ih =>
      have filled : Filled g d (g.makeConst name value) (d.addConst g name value) :=
        .of_same fresh rfl rfl rfl rfl rfl rfl rfl
      have step : Noted g d (g.makeConst name value) (d.addConst g name value) [] :=
        .of_same rfl rfl rfl (by simp [GenState.newSymbol]) rfl
      obtain ⟨chains, noted⟩ := ih filled.fresh room level
      exact ⟨[] ++ chains, step.trans noted (rest.filled filled.fresh room).kept⟩
  | @var g g' d d' name inside rest ih =>
      have filled : Filled g d (g.makeVar name) (d.addVar g name) :=
        .of_same fresh rfl rfl rfl rfl rfl rfl rfl
      have step : Noted g d (g.makeVar name) (d.addVar g name) [] :=
        .of_same rfl rfl rfl (by simp [GenState.newSymbol]) rfl
      obtain ⟨chains, noted⟩ := ih filled.fresh room level
      exact ⟨[] ++ chains, step.trans noted (rest.filled filled.fresh room).kept⟩
  | @proc g gb g' d inner d' name statement nestedRun rest ihNested ih =>
      obtain ⟨within, behind⟩ := nestedRun.procedureCount_between rest
      have openedFresh := fresh.opened name
      have openedLevel : (g.makeProc name).openBlock.globalLevel =
          (g.makeProc name).openBlock.scope.length - 1 := by
        rw [makeProc_eq fresh (by omega) name]
        change g.globalLevel + 1 = (((g.procedureCount + 1) :: g.scope).length : Int) - 1
        rw [List.length_cons]
        omega
      have filledNested := nestedRun.filled openedFresh (by omega)
      have filled : Filled g d _ (d.addProc g name (inner.block statement)) :=
        filled_proc fresh (by omega) filledNested
      obtain ⟨chains, nested⟩ := ihNested openedFresh (by omega) openedLevel
      have step := noted_proc d statement fresh (by omega) level filledNested nested
        (inner.varDecl.length + 4)
      have leftLevel : ((genBody statement gb).leaveProc g.currentProcedure
          (inner.varDecl.length + 4)).globalLevel = ((genBody statement gb).leaveProc
            g.currentProcedure (inner.varDecl.length + 4)).scope.length - 1 := by
        rw [filled.globalLevel, step.scope]
        exact level
      obtain ⟨later, noted⟩ := ih filled.fresh room leftLevel
      exact ⟨_, step.trans noted (rest.filled filled.fresh room).kept⟩

/-- What the history of an accepted program tells of its code sets: each block has its
own, and which operand each instruction there reaches. -/
structure OperandNotes (code : CodeSets) (events : List Event) (block : BlockNode) : Prop where
  distinct : ∀ chain ∈ block.chains [0], ∀ chain' ∈ block.chains [0],
    chain.head? = chain'.head? → chain = chain'
  fits : ∀ scope set (index : Int) symbol, .access scope set index symbol ∈ events →
    scope ∈ block.chains [0] ∧ scope.head? = some set ∧ ∃ (i : Nat) (ir : Instruction),
      index = i ∧ (code set)[i + 1]? = some ir ∧ Operand (scope.length - 1) scope events ir symbol
  covered : ∀ chain ∈ block.chains [0], ∀ set, chain.head? = some set →
    ∀ (i : Nat) (ir : Instruction), (code set)[i + 1]? = some ir → reachesOperand ir.op = true →
      ∃ symbol, .access chain set i symbol ∈ events
  declared : ∀ scope symbol, .declare scope symbol ∈ events → symbol.kind = .procS →
    symbol.addr :: scope ∈ block.chains [0]

theorem chains_distinct {block : BlockNode} {chains : List (List Int)}
    (shape : block.chains [0] = [0] :: chains)
    (numbers : chains.map List.head? = (addressesFrom 1 chains.length).map some) :
    ∀ chain ∈ block.chains [0], ∀ chain' ∈ block.chains [0],
      chain.head? = chain'.head? → chain = chain' := by
  have heads : (block.chains [0]).map List.head? =
      (addressesFrom 0 (chains.length + 1)).map some := by
    rw [shape, List.map_cons, numbers, addressesFrom_cons]
    rfl
  have nodup : ((block.chains [0]).map List.head?).Nodup := by
    rw [heads]
    exact (addressesFrom_nodup _ _).map (Option.some_injective _)
  exact fun chain member chain' member' same => List.inj_on_of_nodup_map nodup member member' same

theorem parse_operandNotes {fuel : Nat} {tokens : List CurrentToken} {block : BlockNode}
    {s : ParseState} (accepted : parse fuel tokens = .ok block s)
    (few : block.procedures.length + 1 < maxCodeSets) :
    OperandNotes s.gen.code s.gen.trace block := by
  obtain ⟨g, ⟨last, d, declares, shape, rfl⟩, final⟩ := parse_runs accepted
  have procedures : block.procedures = d.procDef.procedures := by
    rw [shape]
    rfl
  have noneCount : mainGen.procedureCount = 0 := rfl
  have count := declares.main_procedureCount shape
  have filled := declares.filled mainGen_fresh (by omega)
  obtain ⟨chains, noted⟩ := declares.noted mainGen_fresh (by omega) rfl
  have body := genBody_emits block.statement last
  have scope : last.scope = [0] := noted.scope
  have current : last.currentProcedure = 0 := filled.currentProcedure
  have level : last.globalLevel = (([0] : List Int).length : Int) - 1 := filled.globalLevel
  have empty : last.code 0 = [] := (filled.kept 0 (Int.le_refl 0)).trans rfl
  have start : last.codeLength = 0 := by
    unfold GenState.codeLength getCodeLength
    rw [current, empty]
    rfl
  have whole : block.chains [0] = [0] :: chains := by
    rw [shape]
    exact congrArg _ noted.procDef
  have trace : s.gen.trace = (genBody block.statement last).trace := by
    rw [final]
    rfl
  have early : ∀ {event}, event ∈ last.trace → event ∈ s.gen.trace := fun member => by
    rw [trace]
    exact body.mem_trace member
  have own : s.gen.code 0 = instr .inc 0 0 (block.varDecl.length + 4) ::
      (compileStatement last.context block.statement last.registerPtr
        (last.code last.currentProcedure).length ++ [instr .sio 0 0 3]) := by
    rw [final]
    change appendCode (prependCode (genBody block.statement last).code
      (genBody block.statement last).currentProcedure _ _ _ _)
      (genBody block.statement last).currentProcedure _ _ _ _ 0 = _
    unfold appendCode
    rw [prependCode_eq, body.currentProcedure, current, body.code, current, empty, List.nil_append,
      Function.update_self, Function.update_self, Function.update_self]
    rfl
  have elsewhere : ∀ chain ∈ chains, ∀ {set}, chain.head? = some set →
      s.gen.code set = last.code set := by
    intro chain member set head
    have bounds := noted.bounds member head
    rw [noneCount] at bounds
    have other : set ≠ 0 := by omega
    rw [final]
    change appendCode (prependCode (genBody block.statement last).code
      (genBody block.statement last).currentProcedure _ _ _ _)
      (genBody block.statement last).currentProcedure _ _ _ _ set = _
    unfold appendCode
    rw [prependCode_eq, body.currentProcedure, current, body.code, current,
      Function.update_of_ne other, Function.update_of_ne other, Function.update_of_ne other]
  refine ⟨chains_distinct whole noted.numbers, ?_, ?_, ?_⟩
  · intro scope' set index symbol access
    rw [whole]
    rw [trace] at access
    rcases body.accessed.fits _ _ _ _ access with old | ⟨rfl, rfl, i, ir, place, found, operand⟩
    · rcases noted.fits _ _ _ _ old with none | ⟨member, head, i, ir, place, found, operand⟩
      · exact absurd none List.not_mem_nil
      · refine ⟨List.mem_cons_of_mem _ member, head, i, ir, place, ?_, operand.mono fun _ => early⟩
        rw [elsewhere _ member head]
        exact found
    · rw [scope, current]
      refine ⟨List.mem_cons_self, rfl, i, ir, ?_, ?_, ?_⟩
      · rw [place, start, Int.zero_add]
      · rw [own, List.getElem?_cons_succ,
          List.getElem?_append_left (List.getElem?_eq_some_iff.mp found).1]
        exact found
      · rw [← level, ← scope, trace]
        exact operand
  · intro chain member set head i ir found reaches
    rw [whole] at member
    rcases List.mem_cons.mp member with rfl | within
    · cases head
      rw [own, List.getElem?_cons_succ] at found
      rcases Nat.lt_or_ge i (compileStatement last.context block.statement last.registerPtr
        (last.code last.currentProcedure).length).length with inside | behind
      · rw [List.getElem?_append_left inside] at found
        obtain ⟨symbol, access⟩ := body.accessed.covered i ir found reaches
        rw [scope, current, start, Int.zero_add, ← trace] at access
        exact ⟨symbol, access⟩
      · rw [List.getElem?_append_right behind] at found
        rw [List.mem_singleton.mp (List.mem_of_getElem? found)] at reaches
        cases reaches
    · rw [elsewhere _ within head] at found
      obtain ⟨symbol, access⟩ := noted.covered chain within set head i ir found reaches
      exact ⟨symbol, early access⟩
  · intro scope' symbol member procedure
    rw [whole]
    obtain ⟨events, grown, logged⟩ := body.trace
    rw [trace, grown] at member
    rcases List.mem_append.mp member with old | new
    · rcases noted.declared _ _ old procedure with none | within
      · exact absurd none List.not_mem_nil
      · exact List.mem_cons_of_mem _ within
    · have impossible := logged _ new
      cases impossible

end Pl0
