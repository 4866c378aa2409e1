import Pl0.FrameLayout
import Pl0.LegalTree

set_option autoImplicit false

namespace Pl0

/- The order of the declarations of a block, which its three lists do not show: the fields of
a constant tell how many variables and procedures come before it, those of a variable how
many procedures. -/

theorem ProdefList.append_cancel : ∀ {first second third : ProdefList},
    first.append second = first.append third → second = third
  | .nil, _, _, same => same
  | .cons _ _ _ _ _ next, _, _, same => by
      rw [ProdefList.append, ProdefList.append, ProdefList.cons.injEq] at same
      exact next.append_cancel same.2.2.2.2.2

/-- What the declarations between two states add to the lists, none of it older than the
first of the states. -/
structure Adds (g : GenState) (d d' : Declarations) (consts : List ConstDeclNode)
    (vars : List VarDeclNode) (procs : ProdefList) : Prop where
  constDecl : d'.constDecl = d.constDecl ++ consts
  varDecl : d'.varDecl = d.varDecl ++ vars
  procDef : d'.procDef = d.procDef.append procs
  const_addr : ∀ c ∈ consts, g.offsetArray g.globalLevel ≤ c.addr
  const_paraProc : ∀ c ∈ consts, g.procedureCount ≤ c.paraProc
  var_paraProc : ∀ v ∈ vars, g.procedureCount ≤ v.paraProc

section Order

variable {g g1 g2 gb : GenState} {d d' inner : Declarations}

theorem Declares.offset_le (declares : Declares g d g1 d') (level : Int) :
    g.offsetArray level ≤ g1.offsetArray level := by
  induction declares with
  | done => exact Int.le_refl _
  | const name value small inside _ ih => exact ih
  | @var g _ _ _ name inside _ ih =>
      refine Int.le_trans ?_ ih
      change _ ≤ Function.update g.offsetArray g.globalLevel (g.offsetArray g.globalLevel + 1) level
      by_cases same : level = g.globalLevel
      · rw [same, Function.update_self]
        omega
      · rw [Function.update_of_ne same]
  | @proc g gb _ _ _ _ name statement _ _ ihNested ih =>
      have opened : (g.makeProc name).openBlock.offsetArray = g.offsetArray :=
        makeProc_offsetArray g name
      have body : (genBody statement gb).offsetArray = gb.offsetArray :=
        (genBody_emits statement gb).offsetArray
      rw [opened] at ihNested
      change (genBody statement gb).offsetArray level ≤ _ at ih
      rw [body] at ih
      exact Int.le_trans ihNested ih

/-- Behind a procedure the level is what it was, and both counts have grown. -/
theorem leaveProc_counts {name : Name} (statement : StatementNode) (set space : Int)
    (nested : Declares (g.makeProc name).openBlock .none gb inner) :
    ((genBody statement gb).leaveProc set space).globalLevel = g.globalLevel ∧
      g.offsetArray g.globalLevel ≤
        ((genBody statement gb).leaveProc set space).offsetArray g.globalLevel ∧
      g.procedureCount + 1 ≤ ((genBody statement gb).leaveProc set space).procedureCount := by
  have body := genBody_emits statement gb
  obtain ⟨own, procedures, allocated⟩ := nested.allocated
  have level := allocated.globalLevel
  have offsets := nested.offset_le g.globalLevel
  have count := nested.procedureCount_le
  have openedLevel : (g.makeProc name).openBlock.globalLevel = g.globalLevel + 1 :=
    congrArg (· + 1) (makeProc_globalLevel g name)
  have openedOffsets : (g.makeProc name).openBlock.offsetArray = g.offsetArray :=
    makeProc_offsetArray g name
  have openedCount : (g.makeProc name).openBlock.procedureCount = g.procedureCount + 1 :=
    makeProc_procedureCount g name
  rw [openedLevel] at level
  rw [openedOffsets] at offsets
  rw [openedCount] at count
  refine ⟨?_, ?_, ?_⟩
  · change (genBody statement gb).globalLevel - 1 = _
    rw [body.globalLevel, level]
    omega
  · change _ ≤ (genBody statement gb).offsetArray _
    rw [body.offsetArray]
    exact offsets
  · change _ ≤ (genBody statement gb).procedureCount
    rw [body.procedureCount]
    exact count

theorem Adds.older {old : GenState} {consts : List ConstDeclNode} {vars : List VarDeclNode}
    {procs : ProdefList} (adds : Adds g d d' consts vars procs)
    (offsets : old.offsetArray old.globalLevel ≤ g.offsetArray g.globalLevel)
    (count : old.procedureCount ≤ g.procedureCount) : Adds old d d' consts vars procs where
  constDecl := adds.constDecl
  varDecl := adds.varDecl
  procDef := adds.procDef
  const_addr c member := Int.le_trans offsets (adds.const_addr c member)
  const_paraProc c member := Int.le_trans count (adds.const_paraProc c member)
  var_paraProc v member := Int.le_trans count (adds.var_paraProc v member)

theorem makeVar_offset (g : GenState) (name : Name) :
    (g.makeVar name).offsetArray (g.makeVar name).globalLevel =
      g.offsetArray g.globalLevel + 1 :=
  Function.update_self ..

theorem Declares.adds (declares : Declares g d g1 d') :
    ∃ consts vars procs, Adds g d d' consts vars procs := by
  induction declares with
  | done g d =>
      exact ⟨[], [], .nil, (List.append_nil _).symm, (List.append_nil _).symm,
        (ProdefList.append_nil _).symm, by simp, by simp, by simp⟩
  | @const g _ d d' name value small inside _ ih =>
      obtain ⟨consts, vars, procs, adds⟩ := ih
      refine ⟨⟨name, value, g.globalLevel, g.procedureCount, g.offsetArray g.globalLevel⟩ :: consts,
        vars, procs, ?_, adds.varDecl, adds.procDef, ?_, ?_, adds.var_paraProc⟩
      · rw [adds.constDecl]
        exact List.append_assoc ..
      · exact List.forall_mem_cons.mpr ⟨Int.le_refl _, adds.const_addr⟩
      · exact List.forall_mem_cons.mpr ⟨Int.le_refl _, adds.const_paraProc⟩
  | @var g _ d d' name inside _ ih =>
      obtain ⟨consts, vars, procs, adds⟩ := ih
      have later : g.offsetArray g.globalLevel ≤
          (g.makeVar name).offsetArray (g.makeVar name).globalLevel := by
        rw [makeVar_offset]
        omega
      have older := adds.older later (Int.le_refl g.procedureCount)
      refine ⟨consts, ⟨name, g.globalLevel, g.procedureCount, g.offsetArray g.globalLevel⟩ :: vars,
        procs, adds.constDecl, ?_, adds.procDef, older.const_addr, older.const_paraProc, ?_⟩
      · rw [adds.varDecl]
        exact List.append_assoc ..
      · exact List.forall_mem_cons.mpr ⟨Int.le_refl _, adds.var_paraProc⟩
  | @proc g gb _ d inner d' name statement nested _ _ ih =>
      obtain ⟨consts, vars, procs, adds⟩ := ih
      obtain ⟨level, offsets, count⟩ :=
        leaveProc_counts statement g.currentProcedure (inner.varDecl.length + 4) nested
      have older : Adds g _ _ _ _ _ := adds.older (by rw [level]; exact offsets) (by omega)
      refine ⟨consts, vars, .cons name (g.globalLevel + 1) (g.procedureCount + 1)
        g.currentProcedure (inner.block statement) procs, adds.constDecl, adds.varDecl, ?_,
        older.const_addr, older.const_paraProc, older.var_paraProc⟩
      rw [adds.procDef]
      exact ProdefList.append_node ..

/- What comes first shows in the lists. -/

theorem const_before_var {name name' : Name} {value : Int}
    (first : Declares (g.makeConst name value) (d.addConst g name value) g1 d')
    (second : Declares (g.makeVar name') (d.addVar g name') g2 d') : False := by
  obtain ⟨consts, vars, procs, adds⟩ := first.adds
  obtain ⟨consts', vars', procs', adds'⟩ := second.adds
  have same := adds.constDecl.symm.trans adds'.constDecl
  rw [Declarations.addConst, List.append_assoc] at same
  obtain rfl := List.append_cancel_left same
  have late := adds'.const_addr _ (List.mem_append_left _ List.mem_cons_self)
  rw [makeVar_offset] at late
  dsimp only at late
  omega

theorem const_before_proc {name name' : Name} {value : Int} {statement : StatementNode}
    (first : Declares (g.makeConst name value) (d.addConst g name value) g1 d')
    (nested : Declares (g.makeProc name').openBlock .none gb inner)
    (second : Declares
      ((genBody statement gb).leaveProc g.currentProcedure (inner.varDecl.length + 4))
      (d.addProc g name' (inner.block statement)) g2 d') : False := by
  obtain ⟨consts, vars, procs, adds⟩ := first.adds
  obtain ⟨consts', vars', procs', adds'⟩ := second.adds
  obtain ⟨-, -, count⟩ :=
    leaveProc_counts statement g.currentProcedure (inner.varDecl.length + 4) nested
  have same := adds.constDecl.symm.trans adds'.constDecl
  rw [Declarations.addConst, List.append_assoc] at same
  obtain rfl := List.append_cancel_left same
  have late := adds'.const_paraProc _ (List.mem_append_left _ List.mem_cons_self)
  dsimp only at late
  omega

theorem var_before_proc {name name' : Name} {statement : StatementNode}
    (first : Declares (g.makeVar name) (d.addVar g name) g1 d')
    (nested : Declares (g.makeProc name').openBlock .none gb inner)
    (second : Declares
      ((genBody statement gb).leaveProc g.currentProcedure (inner.varDecl.length + 4))
      (d.addProc g name' (inner.block statement)) g2 d') : False := by
  obtain ⟨consts, vars, procs, adds⟩ := first.adds
  obtain ⟨consts', vars', procs', adds'⟩ := second.adds
  obtain ⟨-, -, count⟩ :=
    leaveProc_counts statement g.currentProcedure (inner.varDecl.length + 4) nested
  have same := adds.varDecl.symm.trans adds'.varDecl
  rw [Declarations.addVar, List.append_assoc] at same
  obtain rfl := List.append_cancel_left same
  have late := adds'.var_paraProc _ (List.mem_append_left _ List.mem_cons_self)
  dsimp only at late
  omega

/-- Declarations that add nothing are none. -/
theorem Declares.none_added (declares : Declares g d g1 d) : g1 = g := by
  cases declares with
  | done => rfl
  | const name value small inside rest =>
      obtain ⟨consts, vars, procs, adds⟩ := rest.adds
      have length := congrArg List.length adds.constDecl
      simp only [Declarations.addConst, List.length_append, List.length_cons] at length
      omega
  | var name inside rest =>
      obtain ⟨consts, vars, procs, adds⟩ := rest.adds
      have length := congrArg List.length adds.varDecl
      simp only [Declarations.addVar, List.length_append, List.length_cons] at length
      omega
  | proc name statement nested rest =>
      obtain ⟨consts, vars, procs, adds⟩ := rest.adds
      have same := adds.procDef
      rw [Declarations.addProc, ProdefList.append_node] at same
      cases ProdefList.append_cancel ((ProdefList.append_nil _).trans same)

/-- Two ways to declare the same lists are one. -/
theorem Declares.unique (declares : Declares g d g1 d') : ∀ {g2 : GenState},
    Declares g d g2 d' → g1 = g2 := by
  induction declares with
  | done => exact fun other => other.none_added.symm
  | @const g _ d _ name value small inside rest ih =>
      intro g2 other
      cases other with
      | done => exact (Declares.const name value small inside rest).none_added
      | const name' value' small' inside' rest' =>
          obtain ⟨consts, vars, procs, adds⟩ := rest.adds
          obtain ⟨consts', vars', procs', adds'⟩ := rest'.adds
          have same := adds.constDecl.symm.trans adds'.constDecl
          rw [Declarations.addConst, Declarations.addConst, List.append_assoc,
            List.append_assoc] at same
          have node := (List.cons.inj (List.append_cancel_left same)).1
          rw [ConstDeclNode.mk.injEq] at node
          obtain ⟨rfl, rfl, -⟩ := node
          exact ih rest'
      | var name' inside' rest' => exact (const_before_var rest rest').elim
      | proc name' statement' nested' rest' => exact (const_before_proc rest nested' rest').elim
  | @var g _ d _ name inside rest ih =>
      intro g2 other
      cases other with
      | done => exact (Declares.var name inside rest).none_added
      | const name' value' small' inside' rest' => exact (const_before_var rest' rest).elim
      | var name' inside' rest' =>
          obtain ⟨consts, vars, procs, adds⟩ := rest.adds
          obtain ⟨consts', vars', procs', adds'⟩ := rest'.adds
          have same := adds.varDecl.symm.trans adds'.varDecl
          rw [Declarations.addVar, Declarations.addVar, List.append_assoc,
            List.append_assoc] at same
          have node := (List.cons.inj (List.append_cancel_left same)).1
          rw [VarDeclNode.mk.injEq] at node
          obtain ⟨rfl, -⟩ := node
          exact ih rest'
      | proc name' statement' nested' rest' => exact (var_before_proc rest nested' rest').elim
  | @proc g gb _ d inner _ name statement nested rest ihNested ih =>
      intro g2 other
      cases other with
      | done => exact (Declares.proc name statement nested rest).none_added
      | const name' value' small' inside' rest' => exact (const_before_proc rest' nested rest).elim
      | var name' inside' rest' => exact (var_before_proc rest' nested rest).elim
      | @proc _ gb' _ _ inner' _ name' statement' nested' rest' =>
          obtain ⟨consts, vars, procs, adds⟩ := rest.adds
          obtain ⟨consts', vars', procs', adds'⟩ := rest'.adds
          have same := adds.procDef.symm.trans adds'.procDef
          rw [Declarations.addProc, Declarations.addProc, ProdefList.append_node,
            ProdefList.append_node] at same
          have node := ProdefList.append_cancel same
          rw [ProdefList.cons.injEq, Declarations.block, Declarations.block,
            BlockNode.mk.injEq] at node
          obtain ⟨rfl, -, -, -, ⟨consts, vars, procs, rfl⟩, -⟩ := node
          obtain rfl : inner = inner' := by
            cases inner
            cases inner'
            rw [Declarations.mk.injEq]
            exact ⟨consts, vars, procs⟩
          obtain rfl := ihNested nested'
          exact ih rest'

end Order

/-- A block says in which order its declarations stand, so what its parse does. -/
theorem BlockRuns.unique {g g1 g2 : GenState} {block : BlockNode} (first : BlockRuns g block g1)
    (second : BlockRuns g block g2) : g1 = g2 := by
  obtain ⟨declared, d, declares, shape, rfl⟩ := first
  obtain ⟨declared', d', declares', shape', rfl⟩ := second
  have same := shape.symm.trans shape'
  rw [Declarations.block, Declarations.block, BlockNode.mk.injEq] at same
  obtain rfl : d = d' := by
    cases d
    cases d'
    rw [Declarations.mk.injEq]
    exact ⟨same.1, same.2.1, same.2.2.1⟩
  rw [declares.unique declares']

end Pl0
