import Pl0.CodeLayout
import Pl0.RegisterDiscipline
import Pl0.ScopedNames

set_option autoImplicit false

namespace Pl0

/- Every block meets `P`, which takes what the block and those around it declare, and its
number. A procedure sees of the block around it what is declared up to itself. -/
mutual
def BlockNode.EachBlock (P : List Rib → Int → BlockNode → Prop) :
    BlockNode → List Rib → Int → Prop
  | .mk constDecl varDecl procDef statement, outer, number =>
      P (⟨constDecl, varDecl, procDef.direct⟩ :: outer) number
          (.mk constDecl varDecl procDef statement) ∧
        procDef.EachBlock P ⟨constDecl, varDecl, []⟩ outer

def ProdefList.EachBlock (P : List Rib → Int → BlockNode → Prop) :
    ProdefList → Rib → List Rib → Prop
  | .nil, _, _ => True
  | .cons ident lexical addr paraProc body next, rib, outer =>
      body.EachBlock P (rib.upTo rib.procs ⟨ident, lexical, addr, paraProc, body⟩ :: outer) addr ∧
        next.EachBlock P (rib.upTo rib.procs ⟨ident, lexical, addr, paraProc, body⟩) outer
end

/-- Every procedure that can be called from the blocks meets `P`, and so do those inside it. -/
def OpenTo (P : List Rib → Int → BlockNode → Prop) : List Rib → Prop
  | [] => True
  | rib :: outer =>
      (∀ before p after, rib.procs = before ++ p :: after →
        p.body.EachBlock P (rib.upTo before p :: outer) p.addr) ∧ OpenTo P outer

section Blocks

variable {P Q : List Rib → Int → BlockNode → Prop} {outer : List Rib} {rib : Rib}

theorem BlockNode.EachBlock.here {block : BlockNode} {number : Int}
    (each : block.EachBlock P outer number) : P (block.rib :: outer) number block := by
  cases block
  exact each.1

mutual
theorem BlockNode.EachBlock.mono (implies : ∀ ribs number block, P ribs number block →
    Q ribs number block) : ∀ (block : BlockNode) {outer : List Rib} {number : Int},
      block.EachBlock P outer number → block.EachBlock Q outer number
  | .mk _ _ procDef _, _, _, each =>
      ⟨implies _ _ _ each.1, ProdefList.EachBlock.mono implies procDef each.2⟩

theorem ProdefList.EachBlock.mono (implies : ∀ ribs number block, P ribs number block →
    Q ribs number block) : ∀ (procDef : ProdefList) {rib : Rib} {outer : List Rib},
      procDef.EachBlock P rib outer → procDef.EachBlock Q rib outer
  | .nil, _, _, _ => trivial
  | .cons _ _ _ _ body next, _, _, each =>
      ⟨BlockNode.EachBlock.mono implies body each.1, ProdefList.EachBlock.mono implies next each.2⟩
end

mutual
theorem BlockNode.EachBlock.and : ∀ (block : BlockNode) {outer : List Rib} {number : Int},
    block.EachBlock P outer number → block.EachBlock Q outer number →
      block.EachBlock (fun ribs number block => P ribs number block ∧ Q ribs number block)
        outer number
  | .mk _ _ procDef _, _, _, first, second =>
      ⟨⟨first.1, second.1⟩, ProdefList.EachBlock.and procDef first.2 second.2⟩

theorem ProdefList.EachBlock.and : ∀ (procDef : ProdefList) {rib : Rib} {outer : List Rib},
    procDef.EachBlock P rib outer → procDef.EachBlock Q rib outer →
      procDef.EachBlock (fun ribs number block => P ribs number block ∧ Q ribs number block)
        rib outer
  | .nil, _, _, _, _ => trivial
  | .cons _ _ _ _ body next, _, _, first, second =>
      ⟨BlockNode.EachBlock.and body first.1 second.1,
        ProdefList.EachBlock.and next first.2 second.2⟩
end

theorem ProdefList.EachBlock.split : ∀ (procDef : ProdefList) {rib : Rib},
    procDef.EachBlock P rib outer → ∀ before p after, procDef.direct = before ++ p :: after →
      p.body.EachBlock P (rib.upTo (rib.procs ++ before) p :: outer) p.addr
  | .nil, _, _, before, p, after, parts => by
      cases before <;> cases parts
  | .cons ident lexical addr paraProc body next, rib, each, [], p, after, parts => by
      cases parts
      rw [List.append_nil]
      exact each.1
  | .cons ident lexical addr paraProc body next, rib, each, _ :: before, p, after, parts => by
      rw [ProdefList.direct, List.cons_append, List.cons.injEq] at parts
      obtain ⟨rfl, rest⟩ := parts
      have later := ProdefList.EachBlock.split next each.2 before p after rest
      simp only [Rib.upTo, List.append_assoc, List.singleton_append] at later ⊢
      exact later

theorem BlockNode.EachBlock.opens {block : BlockNode} {number : Int}
    (each : block.EachBlock P outer number) (around : OpenTo P outer) :
    OpenTo P (block.rib :: outer) := by
  cases block with
  | mk constDecl varDecl procDef statement =>
      exact ⟨fun before p after parts =>
        ProdefList.EachBlock.split procDef each.2 before p after parts, around⟩

theorem OpenTo.upTo (opened : OpenTo P (rib :: outer)) {before after : List Procedure}
    {p : Procedure} (parts : rib.procs = before ++ p :: after) :
    OpenTo P (rib.upTo before p :: outer) := by
  refine ⟨fun earlier q later parts' => ?_, opened.2⟩
  apply opened.1 earlier q (later ++ after)
  rw [parts, List.append_cons, show before ++ [p] = earlier ++ q :: later from parts',
    List.append_assoc, List.cons_append]

theorem OpenTo.suffix : ∀ {ribs : List Rib}, OpenTo P ribs → ∀ {rest : List Rib},
    rest <:+ ribs → OpenTo P rest
  | [], opened, rest, suffix => by
      rw [List.suffix_nil.mp suffix]
      exact opened
  | rib :: ribs, opened, rest, suffix => by
      rcases List.suffix_cons_iff.mp suffix with rfl | inner
      · exact opened
      · exact opened.2.suffix inner

/-- What a called procedure can call in turn. -/
theorem OpenTo.called (opened : OpenTo P (rib :: outer)) {before after : List Procedure}
    {p : Procedure} (parts : rib.procs = before ++ p :: after) :
    P (p.body.rib :: rib.upTo before p :: outer) p.addr p.body ∧
      OpenTo P (p.body.rib :: rib.upTo before p :: outer) := by
  have each := opened.1 before p after parts
  exact ⟨each.here, each.opens (opened.upTo parts)⟩

end Blocks

section Declarations

variable {g g' : GenState} {d d' : Declarations}

/-- The constants and variables of a tree are declarations in order. -/
theorem declares_declared {consts : List (Name × Int)} {vars : List Name} :
    ∀ {g : GenState} {d : Declarations}, (∀ const ∈ consts, const.2 ≤ maxNumber) →
      (consts ≠ [] ∨ vars ≠ [] → g.LevelInside) →
      Declares (g.declared consts vars)
        { d with
          constDecl := d.constDecl ++ itemNodes GenState.makeItem GenState.constNode g consts
          varDecl := d.varDecl ++ itemNodes GenState.makeVar GenState.varNode
            (afterItems GenState.makeItem g consts) vars } g' d' → Declares g d g' d' := by
  induction consts with
  | cons const consts ih =>
      intro g d small inside rest
      have here := inside (.inl (List.cons_ne_nil _ _))
      refine .const const.1 const.2 (small const List.mem_cons_self) here (ih
        (fun other member => small other (List.mem_cons_of_mem _ member)) (fun _ => here) ?_)
      rw [Declarations.addConst, List.append_assoc]
      exact rest
  | nil =>
      induction vars with
      | nil =>
          intro g d _ _ rest
          rw [itemNodes, itemNodes, List.append_nil, List.append_nil] at rest
          exact rest
      | cons name vars ih =>
          intro g d small inside rest
          have here := inside (.inr (List.cons_ne_nil _ _))
          refine .var name here (ih small (fun _ => here) ?_)
          rw [Declarations.addVar, List.append_assoc]
          exact rest

/- The nodes of a tree are made by its declarations. -/
mutual
theorem BlockTree.build_runs : ∀ (t : BlockTree) {g : GenState}, t.Suited g →
    BlockRuns g (t.build g).1 (t.build g).2
  | .mk consts vars procs statement, g, suited => by
      obtain ⟨small, inside, procsSuited, -⟩ := suited
      have behind := procs.build_declares procsSuited
        ⟨itemNodes GenState.makeItem GenState.constNode g consts,
          itemNodes GenState.makeVar GenState.varNode (afterItems GenState.makeItem g consts) vars,
          .nil⟩
      exact ⟨_, _, declares_declared small inside behind, rfl, rfl⟩

theorem ProcTrees.build_declares : ∀ (t : ProcTrees) {old : Int} {g : GenState},
    t.Suited old g → ∀ d : Declarations, Declares (g.inProcedure old) d
      ((t.build old g).2.inProcedure old) { d with procDef := d.procDef.append (t.build old g).1 }
  | .nil, old, g, _, d => by
      rw [ProcTrees.build, ProdefList.append_nil]
      exact .done _ _
  | .cons ident body next, old, g, suited, d => by
      obtain ⟨declared, inner, nested, shape, state⟩ := body.build_runs suited.1
      have vars : (body.build (g.makeProc ident).openBlock).1.varDecl = inner.varDecl := by
        rw [shape]
        rfl
      have rest := next.build_declares suited.2 (d.addProc (g.inProcedure old) ident
        (inner.block (body.build (g.makeProc ident).openBlock).1.statement))
      rw [← makeProc_inProcedure g old] at nested
      refine .proc ident (body.build (g.makeProc ident).openBlock).1.statement nested ?_
      rw [ProcTrees.build]
      simp only
      rw [makeProc_globalLevel, makeProc_procedureCount, ← ProdefList.append_node]
      rw [state, vars] at rest
      rw [state, vars]
      rw [← shape] at rest ⊢
      exact rest
end

end Declarations

/-- The context of a code finds the names as they are meant. -/
structure Finds (c : CodeContext) (ribs : List Rib) (names : List Name) : Prop where
  level : c.level = ribs.length - 1
  found : ∀ name ∈ names, ∃ symbol, c.lookup name = some symbol ∧ Denotes ribs name symbol

/-- The code set of a block holds its statement part. -/
def CodeFor (final : CodeSets) (ribs : List Rib) (number : Int) (block : BlockNode) : Prop :=
  ∃ c behind, c.procedure = number ∧ Finds c ribs block.statement.idents ∧
    final number = instr .inc 0 0 (block.varDecl.length + 4) ::
      (compileStatement c block.statement 0 0 ++ behind)

theorem BlockNode.eachBlock_iff {P : List Rib → Int → BlockNode → Prop} {block : BlockNode}
    {outer : List Rib} {number : Int} : block.EachBlock P outer number ↔
      P (block.rib :: outer) number block ∧
        block.procDef.EachBlock P ⟨block.constDecl, block.varDecl, []⟩ outer := by
  cases block
  rfl

section Code

variable {final : CodeSets} {events : List Event}

/-- What the parse of a block's declarations leaves for its statement part: the procedures
have their code, and the names are those of the block and of the ones around it. -/
structure Prepared (final : CodeSets) (g : GenState) (outer : List Rib) (node : BlockNode)
    (g' declared : GenState) (d : Declarations) : Prop where
  declares : Declares g .none declared d
  shape : node = d.block node.statement
  state : g' = genBody node.statement declared
  describes : Describes declared (node.rib :: outer)
  procedures : node.procDef.EachBlock (CodeFor final) ⟨node.constDecl, node.varDecl, []⟩ outer

theorem Prepared.varDecl {g g' declared : GenState} {d : Declarations} {outer : List Rib}
    {node : BlockNode} (prepared : Prepared final g outer node g' declared d) :
    node.varDecl = d.varDecl := by
  rw [prepared.shape]
  rfl

theorem Describes.genBody {declared : GenState} {ribs : List Rib}
    (describes : Describes declared ribs) (statement : StatementNode) :
    Describes (genBody statement declared) ribs := by
  obtain ⟨events, grown, none, -⟩ := (genBody_mentions statement declared).grows
  have body := genBody_emits statement declared
  exact describes.same grown none body.scope body.globalLevel body.procedureCount

theorem Prepared.finds {g g' declared : GenState} {d : Declarations} {outer : List Rib}
    {node : BlockNode} (prepared : Prepared final g outer node g' declared d)
    (whole : g'.trace <+: events) (resolved : ∀ u ∈ uses events, u.Resolves) :
    Finds declared.context (node.rib :: outer) node.statement.idents := by
  obtain ⟨later, grown⟩ := whole
  rw [prepared.state] at grown
  constructor
  · change declared.globalLevel = _
    rw [prepared.describes.level, prepared.describes.length]
  · exact fun name used => prepared.describes.finds grown.symm resolved used

theorem genBody_code_ne (statement : StatementNode) (g : GenState) {j : Int}
    (other : j ≠ g.currentProcedure) : (genBody statement g).code j = g.code j := by
  rw [(genBody_emits statement g).code, Function.update_of_ne other]

/-- Behind a procedure its set holds its code, and the other sets are as its own procedures
left them. -/
structure Closed (g : GenState) (declared : GenState) (statement : StatementNode) (space : Int)
    (g' : GenState) : Prop where
  fresh : Fresh g'
  count : g'.procedureCount = declared.procedureCount
  registerPtr : g'.registerPtr = g.registerPtr
  code : g'.code = Function.update declared.code (g.procedureCount + 1)
    (instr .inc 0 0 space :: compileStatement declared.context statement g.registerPtr 0)

theorem closed_proc {g declared : GenState} {d : Declarations} {ident : Name}
    (declares : Declares (g.makeProc ident).openBlock .none declared d) (fresh : Fresh g)
    (room : declared.procedureCount < maxCodeSets) (statement : StatementNode) :
    Closed g declared statement (d.varDecl.length + 4)
      ((genBody statement declared).closeProc (d.varDecl.length + 4)) := by
  have grows : g.procedureCount + 1 ≤ declared.procedureCount := by
    rw [← makeProc_procedureCount g ident]
    exact declares.procedureCount_le
  have filled := declares.filled (fresh.opened ident) room
  have left := @filled_proc g declared .none d ident statement fresh (by omega) filled
  exact ⟨⟨left.fresh.count, left.fresh.inUse, left.fresh.rows⟩,
    (genBody_emits statement declared).procedureCount, left.registerPtr,
    leaveProc_code statement fresh (by omega) filled g.currentProcedure _⟩

theorem makeProc_currentProcedure {g : GenState} (fresh : Fresh g)
    (room : g.procedureCount + 1 < maxCodeSets) (name : Name) :
    (g.makeProc name).currentProcedure = g.procedureCount + 1 := by
  rw [makeProc_eq fresh room]
  rfl

/-- Behind a procedure only its own set is another than behind its body. -/
structure Left (g inner closed : GenState) : Prop where
  fresh : Fresh closed
  registerPtr : closed.registerPtr = g.registerPtr
  grows : g.procedureCount + 1 ≤ inner.procedureCount
  kept : ∀ j ≠ g.procedureCount + 1, closed.code j = inner.code j

theorem closed_kept {g inner : GenState} {ident : Name} {node : BlockNode} (fresh : Fresh g)
    (runs : BlockRuns (g.makeProc ident).openBlock node inner)
    (room : inner.procedureCount < maxCodeSets) :
    Left g inner (inner.closeProc (node.varDecl.length + 4)) := by
  obtain ⟨declared, d, declares, shape, rfl⟩ := runs
  have body := genBody_emits node.statement declared
  have roomed : declared.procedureCount < maxCodeSets := by
    rw [← body.procedureCount]
    exact room
  have closed := closed_proc declares fresh roomed node.statement
  have filled := declares.filled (fresh.opened ident) roomed
  have made := makeProc_procedureCount g ident
  have grows : (g.makeProc ident).procedureCount ≤ declared.procedureCount := filled.grows
  have vars : node.varDecl = d.varDecl := by
    rw [shape]
    rfl
  rw [vars]
  refine ⟨closed.fresh, closed.registerPtr, ?_, fun j other => ?_⟩
  · rw [body.procedureCount, ← made]
    exact grows
  have current : declared.currentProcedure = g.procedureCount + 1 :=
    filled.currentProcedure.trans (makeProc_currentProcedure fresh (by omega) ident)
  rw [closed.code, Function.update_of_ne other, genBody_code_ne]
  rwa [current]

mutual
theorem BlockTree.build_code (resolved : ∀ u ∈ uses events, u.Resolves) : ∀ (t : BlockTree)
    {g : GenState} {outer : List Rib}, t.Suited g → Describes g (⟨[], [], []⟩ :: outer) →
      Fresh g → g.currentProcedure ≤ g.procedureCount →
      (t.build g).2.procedureCount < maxCodeSets → g.registerPtr = 0 →
      (∀ j, g.procedureCount < j → j ≤ (t.build g).2.procedureCount →
        final j = (t.build g).2.code j) → (t.build g).2.trace <+: events →
      ∃ declared d, Prepared final g outer (t.build g).1 (t.build g).2 declared d
  | .mk consts vars procs statement, g, outer, suited, describes, fresh, own, room, unused, agree,
      whole => by
      obtain ⟨small, inside, procsSuited, -⟩ := suited
      let items := g.declared consts vars
      let constDecl := itemNodes GenState.makeItem GenState.constNode g consts
      let varDecl := itemNodes GenState.makeVar GenState.varNode
        (afterItems GenState.makeItem g consts) vars
      have first : Declares g .none items ⟨constDecl, varDecl, .nil⟩ :=
        declares_declared small inside (.done _ _)
      have behind : Declares items ⟨constDecl, varDecl, .nil⟩ _ _ :=
        procs.build_declares procsSuited ⟨constDecl, varDecl, .nil⟩
      have declares : Declares g .none _ _ := declares_declared small inside behind
      let old := items.currentProcedure
      let declared := (procs.build old items).2.inProcedure old
      have count : (genBody statement declared).procedureCount = declared.procedureCount :=
        (genBody_emits statement declared).procedureCount
      have roomed : declared.procedureCount < maxCodeSets := by
        rw [← count]
        exact room
      have grows : items.procedureCount ≤ declared.procedureCount := behind.procedureCount_le
      have filled := first.filled fresh (Int.lt_of_le_of_lt grows roomed)
      have current : old = g.currentProcedure := filled.currentProcedure
      have prefixed := genBody_trace_grows statement declared
      have started : g.procedureCount ≤ items.procedureCount := filled.grows
      have agreed : ∀ j, items.procedureCount < j → j ≤ declared.procedureCount →
          final j = declared.code j := by
        intro j above below
        have other : j ≠ old := by omega
        exact (agree j (by omega) (Int.le_trans below (Int.le_of_eq count.symm))).trans
          (genBody_code_ne statement declared other)
      obtain ⟨each, described⟩ := procs.build_code resolved procsSuited describes.declared
        filled.fresh roomed (filled.registerPtr.trans unused) agreed (prefixed.trans whole)
      exact ⟨declared, _, declares, rfl, rfl,
        described.same (List.append_nil _).symm rfl rfl rfl rfl, each⟩

theorem ProcTrees.build_code (resolved : ∀ u ∈ uses events, u.Resolves) : ∀ (t : ProcTrees)
    {old : Int} {g : GenState} {rib : Rib} {outer : List Rib}, t.Suited old g →
      Describes g (rib :: outer) →
      Fresh g → (t.build old g).2.procedureCount < maxCodeSets → g.registerPtr = 0 →
      (∀ j, g.procedureCount < j → j ≤ (t.build old g).2.procedureCount →
        final j = (t.build old g).2.code j) →
      (t.build old g).2.trace <+: events →
      (t.build old g).1.EachBlock (CodeFor final) rib outer ∧
        Describes (t.build old g).2
          ({ rib with procs := rib.procs ++ (t.build old g).1.direct } :: outer)
  | .nil, old, g, rib, outer, _, describes, _, _, _, _, _ => by
      refine ⟨trivial, ?_⟩
      rw [ProcTrees.build, ProdefList.direct, List.append_nil]
      exact describes
  | .cons ident body next, old, g, rib, outer, suited, describes, fresh, room, unused, agree,
      whole => by
      let opened := (g.makeProc ident).openBlock
      let node := (body.build opened).1
      let inner := (body.build opened).2
      let closed := inner.closeProc (node.varDecl.length + 4)
      let p : Procedure :=
        ⟨ident, (g.makeProc ident).globalLevel + 1, (g.makeProc ident).procedureCount, old, node⟩
      have addr : p.addr = g.procedureCount + 1 := makeProc_procedureCount g ident
      have later : Declares (closed.inProcedure old) ⟨[], [], .nil⟩
          ((next.build old closed).2.inProcedure old) _ := next.build_declares suited.2 _
      have grows : inner.procedureCount ≤ (next.build old closed).2.procedureCount :=
        later.procedureCount_le
      have bodyRoom : inner.procedureCount < maxCodeSets := Int.lt_of_le_of_lt grows room
      have left := closed_kept fresh (body.build_runs suited.1) bodyRoom
      have behind := later.filled ⟨left.fresh.count, left.fresh.inUse, left.fresh.rows⟩ room
      have wholeClosed : closed.trace <+: events := later.trace_grows.trans whole
      -- the sets of the procedure and of those inside it are not touched behind it
      have kept : ∀ j, g.procedureCount < j → j ≤ inner.procedureCount →
          final j = closed.code j := by
        intro j above below
        exact (agree j above (Int.le_trans below grows)).trans (behind.kept j below)
      have inside : ∀ j, p.addr < j → j ≤ inner.procedureCount → final j = inner.code j := by
        intro j above below
        exact (kept j (by omega) below).trans (left.kept j (by omega))
      have openedRegister : opened.registerPtr = 0 :=
        (makeProc_registerPtr g ident).trans unused
      have started : g.procedureCount + 1 ≤ inner.procedureCount := left.grows
      have own : opened.currentProcedure = p.addr :=
        (makeProc_currentProcedure fresh (by omega) ident).trans addr.symm
      obtain ⟨declared, d, built⟩ := body.build_code resolved suited.1
        (describes.openProc p addr) (fresh.opened ident) (Int.le_of_eq own) bodyRoom
        openedRegister inside wholeClosed
      have prepared : Prepared final opened (rib.upTo rib.procs p :: outer) node inner declared d :=
        built
      have vars : node.varDecl = d.varDecl := prepared.varDecl
      have roomed : declared.procedureCount < maxCodeSets := by
        rw [← (genBody_emits node.statement declared).procedureCount, ← prepared.state]
        exact bodyRoom
      have current : declared.currentProcedure = p.addr :=
        (prepared.declares.filled (fresh.opened ident) roomed).currentProcedure.trans own
      have closedRow : closed.code p.addr = instr .inc 0 0 (node.varDecl.length + 4) ::
          (compileStatement declared.context node.statement 0 0 ++ []) := by
        have shut := (closed_proc prepared.declares fresh roomed node.statement).code
        rw [← vars, ← prepared.state, unused, ← addr] at shut
        rw [shut, Function.update_self, List.append_nil]
      have coded : CodeFor final (node.rib :: rib.upTo rib.procs p :: outer) p.addr node :=
        ⟨declared.context, [], current, prepared.finds wholeClosed resolved,
          (kept p.addr (by omega) (by omega)).trans closedRow⟩
      have described : Describes closed (rib.upTo rib.procs p :: outer) := by
        have body := prepared.describes.genBody node.statement
        rw [← prepared.state] at body
        exact body.leave rfl rfl rfl rfl
      obtain ⟨each, after⟩ := next.build_code resolved suited.2 described left.fresh room
        (left.registerPtr.trans unused) (fun j above below =>
          agree j (Int.lt_of_lt_of_le (by omega) (Int.le_trans started (Int.le_of_lt above))) below)
        whole
      refine ⟨⟨BlockNode.eachBlock_iff.mpr ⟨coded, prepared.procedures⟩, each⟩, ?_⟩
      rw [Rib.upTo] at after
      simp only [List.append_assoc, List.singleton_append] at after
      exact after
end

end Code

end Pl0
