import Pl0.Operands

set_option autoImplicit false

namespace Pl0

/-- The block with this chain has a variable at the address: the block that the
declarations are of, or one of its procedures. -/
def Homes (scope : List Int) (varDecl : List VarDeclNode) (procedures : List Procedure)
    (chain : List Int) (addr : Int) : Prop :=
  (chain = scope ∧ addr ∈ varDecl.map (·.addr)) ∨
    ∃ p ∈ procedures, chain.head? = some p.addr ∧ addr ∈ p.body.varDecl.map (·.addr)

theorem Homes.mono {scope chain : List Int} {varDecl varDecl' : List VarDeclNode}
    {procedures procedures' : List Procedure} {addr : Int}
    (homes : Homes scope varDecl procedures chain addr) (vars : ∀ v ∈ varDecl, v ∈ varDecl')
    (procs : ∀ p ∈ procedures, p ∈ procedures') : Homes scope varDecl' procedures' chain addr := by
  rcases homes with ⟨same, member⟩ | ⟨p, member, head, inside⟩
  · obtain ⟨v, declared, rfl⟩ := List.mem_map.mp member
    exact .inl ⟨same, List.mem_map_of_mem (vars v declared)⟩
  · exact .inr ⟨p, procs p member, head, inside⟩

/-- The declarations only add to the nodes, and each new variable of the history has its
node. -/
structure Housed (g : GenState) (d : Declarations) (g' : GenState) (d' : Declarations) : Prop where
  scope : g'.scope = g.scope
  vars : ∀ v ∈ d.varDecl, v ∈ d'.varDecl
  procs : ∀ p ∈ d.procDef.procedures, p ∈ d'.procDef.procedures
  declared : ∀ chain symbol, .declare chain symbol ∈ g'.trace → symbol.kind = .varS →
    .declare chain symbol ∈ g.trace ∨
      Homes g.scope d'.varDecl d'.procDef.procedures chain symbol.addr

theorem Housed.trans {g g' g'' : GenState} {d d' d'' : Declarations} (first : Housed g d g' d')
    (second : Housed g' d' g'' d'') : Housed g d g'' d'' where
  scope := second.scope.trans first.scope
  vars := fun v member => second.vars v (first.vars v member)
  procs := fun p member => second.procs p (first.procs p member)
  declared := by
    intro chain symbol member kind
    rcases second.declared chain symbol member kind with early | homes
    · rcases first.declared chain symbol early kind with old | homes
      · exact .inl old
      · exact .inr (homes.mono second.vars second.procs)
    · rw [first.scope] at homes
      exact .inr homes

theorem housed_one {g g' : GenState} {d d' : Declarations} {symbol : Symbol}
    (scope : g'.scope = g.scope)
    (vars : ∀ v ∈ d.varDecl, v ∈ d'.varDecl)
    (procs : ∀ p ∈ d.procDef.procedures, p ∈ d'.procDef.procedures)
    (trace : g'.trace = g.trace ++ [.declare g.scope symbol])
    (home : symbol.kind = .varS → symbol.addr ∈ d'.varDecl.map (·.addr)) : Housed g d g' d' := by
  refine ⟨scope, vars, procs, ?_⟩
  intro chain other member kind
  rw [trace] at member
  rcases List.mem_append.mp member with early | late
  · exact .inl early
  · cases List.mem_singleton.mp late
    exact .inr (.inl ⟨rfl, home kind⟩)

theorem makeProc_declares (g : GenState) (name : Name) : ∃ symbol, symbol.kind = .procS ∧
    (g.makeProc name).trace = g.trace ++ [.declare g.scope symbol] ∧
    (g.makeProc name).scope = g.scope := by
  unfold GenState.makeProc GenState.getFreeSet
  dsimp only
  cases (List.range maxCodeSets).find? fun i => !g.inUse i with
  | none => exact ⟨_, rfl, rfl, rfl⟩
  | some i => exact ⟨_, rfl, rfl, rfl⟩

theorem housed_proc {g gb : GenState} {d inner : Declarations} {name : Name}
    {statement : StatementNode}
    (set space : Int) (nested : Housed (g.makeProc name).openBlock .none gb inner) :
    Housed g d ((genBody statement gb).leaveProc set space)
      (d.addProc g name (inner.block statement)) := by
  obtain ⟨procSymbol, procedure, trace, scope⟩ := makeProc_declares g name
  have body := genBody_emits statement gb
  have opened : (g.makeProc name).openBlock.scope = (g.procedureCount + 1) :: g.scope := by
    change (g.makeProc name).procedureCount :: (g.makeProc name).scope = _
    rw [makeProc_procedureCount, scope]
  have procs : (d.addProc g name (inner.block statement)).procDef.procedures =
      d.procDef.procedures ++ ⟨name, g.globalLevel + 1, g.procedureCount + 1, g.currentProcedure,
        inner.block statement⟩ :: inner.procDef.procedures := d.addProc_procedures inner g
          name statement
  refine ⟨?_, fun _ => id, ?_, ?_⟩
  · change (genBody statement gb).scope.tail = g.scope
    rw [body.scope, nested.scope, opened]
    rfl
  · rw [procs]
    exact fun p member => List.mem_append_left _ member
  · intro chain symbol member kind
    obtain ⟨events, grown, logged⟩ := body.trace
    change _ ∈ (genBody statement gb).trace at member
    rw [grown] at member
    rcases List.mem_append.mp member with old | new
    · rcases nested.declared _ _ old kind with before | ⟨same, inside⟩ | ⟨p, within, head, inside⟩
      · change _ ∈ (g.makeProc name).trace at before
        rw [trace] at before
        rcases List.mem_append.mp before with before | made
        · exact .inl before
        · cases List.mem_singleton.mp made
          rw [procedure] at kind
          cases kind
      · rw [opened] at same
        rw [procs, same]
        exact .inr (.inr ⟨_, List.mem_append_right _ List.mem_cons_self, rfl, inside⟩)
      · rw [procs]
        exact .inr (.inr ⟨p, List.mem_append_right _ (List.mem_cons_of_mem _ within), head, inside⟩)
    · have impossible := logged _ new
      cases impossible

theorem Declares.housed {g g' : GenState} {d d' : Declarations} (declares : Declares g d g' d') :
    Housed g d g' d' := by
  induction declares with
  | done g d => exact ⟨rfl, fun _ => id, fun _ => id, fun _ _ member _ => .inl member⟩
  | @const g _ d _ name value small inside rest ih =>
      have one : Housed g d (g.makeConst name value) (d.addConst g name value) :=
        housed_one rfl (fun _ => id) (fun _ => id) rfl fun kind => nomatch kind
      exact one.trans ih
  | @var g _ d _ name inside rest ih =>
      have one : Housed g d (g.makeVar name) (d.addVar g name) := by
        refine housed_one rfl (fun v member => List.mem_append_left _ member) (fun _ => id) rfl
          fun _ => ?_
        unfold Declarations.addVar
        rw [List.map_append]
        exact List.mem_append_right _ List.mem_cons_self
      exact one.trans ih
  | proc name statement nested rest ihNested ih => exact (housed_proc _ _ ihNested).trans ih

/-- Every variable that an accepted program declares is one of the variables of the block
that declares it, which is known by its code set. -/
theorem parse_homes {fuel : Nat} {tokens : List CurrentToken} {block : BlockNode} {s : ParseState}
    (accepted : parse fuel tokens = .ok block s) {chain : List Int} {symbol : Symbol}
    (declared : .declare chain symbol ∈ s.gen.trace) (kind : symbol.kind = .varS) :
    Homes [0] block.varDecl block.procedures chain symbol.addr := by
  obtain ⟨g, ⟨last, d, declares, shape, rfl⟩, final⟩ := parse_runs accepted
  obtain ⟨events, grown, logged⟩ := (genBody_emits block.statement last).trace
  have trace : s.gen.trace = (genBody block.statement last).trace := by
    rw [final]
    rfl
  rw [trace, grown] at declared
  rcases List.mem_append.mp declared with old | new
  · rcases declares.housed.declared _ _ old kind with none | homes
    · exact absurd none List.not_mem_nil
    · rw [shape]
      exact homes
  · have impossible := logged _ new
    cases impossible

end Pl0
