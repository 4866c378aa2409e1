import Pl0.FrameLayout
import Pl0.GrammarSoundness
import Pl0.LexicalScope

set_option autoImplicit false

namespace Pl0

open StateExcept

/-- The procedures that a block declares itself. -/
def ProdefList.direct : ProdefList → List Procedure
  | .nil => []
  | .cons ident lexical addr paraProc body next =>
      ⟨ident, lexical, addr, paraProc, body⟩ :: next.direct

/-- A block of a program, with the number of its procedure and its nesting depth. -/
structure Place where
  number : Int
  depth : Int
  block : BlockNode

/- The blocks of a program, where the first one has this number and this depth. -/
mutual
def BlockNode.places : BlockNode → Int → Int → List Place
  | .mk constDecl varDecl procDef statement, number, depth =>
      ⟨number, depth, .mk constDecl varDecl procDef statement⟩ :: procDef.places depth

def ProdefList.places : ProdefList → Int → List Place
  | .nil, _ => []
  | .cons _ _ addr _ body next, depth => body.places addr (depth + 1) ++ next.places depth
end

/-- The declarations of a block bear its number and its depth, and the headings of its
procedures name it as the one around them. -/
structure Place.Numbered (place : Place) : Prop where
  consts : ∀ c ∈ place.block.constDecl, c.lexical = place.depth ∧ c.paraProc = place.number
  vars : ∀ v ∈ place.block.varDecl, v.lexical = place.depth ∧ v.paraProc = place.number
  depths : ∀ p ∈ place.block.procDef.direct, p.lexical = place.depth + 1
  enclosing : ∀ p ∈ place.block.procDef.direct, p.paraProc = place.number

/-- The name, the number and the level of every procedure symbol, in the order in which they
were made. -/
def procedureSymbols (events : List Event) : List (Name × Int × Int) :=
  (declarations events).filterMap fun d =>
    if d.2.kind = .procS then some (d.2.name, d.2.addr, d.2.level) else none

theorem procedureSymbols_append (events events' : List Event) :
    procedureSymbols (events ++ events') = procedureSymbols events ++ procedureSymbols events' := by
  unfold procedureSymbols
  rw [declarations_append, List.filterMap_append]

theorem ProdefList.direct_append (first last : ProdefList) :
    (first.append last).direct = first.direct ++ last.direct := by
  cases first with
  | nil => rfl
  | cons ident lexical addr paraProc body next =>
      rw [ProdefList.append, ProdefList.direct, ProdefList.direct, next.direct_append last,
        List.cons_append]

theorem ProdefList.places_append (first last : ProdefList) (depth : Int) :
    (first.append last).places depth = first.places depth ++ last.places depth := by
  cases first with
  | nil => rfl
  | cons ident lexical addr paraProc body next =>
      rw [ProdefList.append, ProdefList.places, ProdefList.places, next.places_append last depth,
        List.append_assoc]

section Numbers

/-- The procedures that declarations add, with their symbols. -/
structure Numbers (g : GenState) (d : Declarations) (g' : GenState) (d' : Declarations)
    (procedures : List Procedure) : Prop where
  level : g'.globalLevel = g.globalLevel
  count : g'.procedureCount = g.procedureCount + procedures.length
  added : d'.procDef.procedures = d.procDef.procedures ++ procedures
  numbers : procedures.map (·.addr) = addressesFrom (g.procedureCount + 1) procedures.length
  symbols : ∃ events, g'.trace = g.trace ++ events ∧
    procedureSymbols events = procedures.map fun p => (p.ident, p.addr, p.lexical - 1)

theorem Numbers.trans {g g' g'' : GenState} {d d' d'' : Declarations} {first last : List Procedure}
    (one : Numbers g d g' d' first) (two : Numbers g' d' g'' d'' last) :
    Numbers g d g'' d'' (first ++ last) where
  level := two.level.trans one.level
  count := by
    rw [two.count, one.count, List.length_append, Int.natCast_add, Int.add_assoc]
  added := by
    rw [two.added, one.added, List.append_assoc]
  numbers := by
    have next : g'.procedureCount + 1 = g.procedureCount + 1 + first.length := by
      have count := one.count
      omega
    rw [List.map_append, one.numbers, two.numbers, next, addressesFrom_append, List.length_append]
  symbols := by
    obtain ⟨early, grown, symbols⟩ := one.symbols
    obtain ⟨late, grown', symbols'⟩ := two.symbols
    refine ⟨early ++ late, ?_, ?_⟩
    · rw [grown', grown, List.append_assoc]
    · rw [procedureSymbols_append, symbols, symbols', List.map_append]

/-- A declaration that is no procedure. -/
theorem numbers_plain {g g' : GenState} {d d' : Declarations} {symbol : Symbol}
    (level : g'.globalLevel = g.globalLevel) (count : g'.procedureCount = g.procedureCount)
    (procDef : d'.procDef = d.procDef) (trace : g'.trace = g.trace ++ [.declare g.scope symbol])
    (kind : symbol.kind ≠ .procS) : Numbers g d g' d' [] where
  level := level
  count := by rw [count, List.length_nil, Int.natCast_zero, Int.add_zero]
  added := by rw [procDef, List.append_nil]
  numbers := rfl
  symbols := by
    refine ⟨[.declare g.scope symbol], trace, ?_⟩
    change (if symbol.kind = .procS then _ else none).toList = []
    rw [if_neg kind]
    rfl

/-- The statement part of a block makes no symbol. -/
theorem genBody_declarations (statement : StatementNode) (g : GenState) :
    ∃ events, (genBody statement g).trace = g.trace ++ events ∧ declarations events = [] := by
  obtain ⟨events, grown, logged⟩ := (genBody_emits statement g).trace
  refine ⟨events, grown, ?_⟩
  apply List.filterMap_eq_nil_iff.mpr
  intro event member
  cases logged event member with
  | use construct name => rfl
  | access index symbol => rfl
  | statement body node n start => rfl

theorem genBody_procedureSymbols (statement : StatementNode) (g : GenState) :
    ∃ events, (genBody statement g).trace = g.trace ++ events ∧ procedureSymbols events = [] := by
  obtain ⟨events, grown, none⟩ := genBody_declarations statement g
  refine ⟨events, grown, ?_⟩
  rw [procedureSymbols, none]
  rfl

theorem makeProc_symbol (g : GenState) (name : Name) : ∃ symbol, symbol.kind = .procS ∧
    symbol.name = name ∧ symbol.addr = g.procedureCount + 1 ∧ symbol.level = g.globalLevel ∧
      (g.makeProc name).trace = g.trace ++ [.declare g.scope symbol] := by
  unfold GenState.makeProc GenState.getFreeSet
  dsimp only
  cases (List.range maxCodeSets).find? fun i => !g.inUse i with
  | none => exact ⟨_, rfl, rfl, rfl, rfl, rfl⟩
  | some i => exact ⟨_, rfl, rfl, rfl, rfl, rfl⟩

/-- One procedure, with the procedures inside it behind it. -/
theorem numbers_proc {g gb : GenState} {d inner : Declarations} {name : Name}
    {statement : StatementNode} {set space : Int} {procedures : List Procedure}
    (nested : Numbers (g.makeProc name).openBlock .none gb inner procedures) :
    Numbers g d ((genBody statement gb).leaveProc set space)
      (d.addProc g name (inner.block statement))
      (⟨name, g.globalLevel + 1, g.procedureCount + 1, g.currentProcedure, inner.block statement⟩ ::
        procedures) := by
  have body := genBody_emits statement gb
  have openedLevel : (g.makeProc name).openBlock.globalLevel = g.globalLevel + 1 :=
    congrArg (· + 1) (makeProc_globalLevel g name)
  have openedCount : (g.makeProc name).openBlock.procedureCount = g.procedureCount + 1 :=
    makeProc_procedureCount g name
  have count := nested.count
  have numbers := nested.numbers
  rw [openedCount] at count numbers
  refine ⟨?_, ?_, ?_, ?_, ?_⟩
  · change (genBody statement gb).globalLevel - 1 = g.globalLevel
    rw [body.globalLevel, nested.level, openedLevel]
    omega
  · change (genBody statement gb).procedureCount = _
    rw [body.procedureCount, count, List.length_cons]
    omega
  · rw [d.addProc_procedures]
    have within : inner.procDef.procedures = procedures := nested.added
    rw [within]
  · rw [List.map_cons, numbers, List.length_cons, addressesFrom_cons]
  · obtain ⟨symbol, kind, named, addr, level, made⟩ := makeProc_symbol g name
    obtain ⟨events, grown, symbols⟩ := nested.symbols
    obtain ⟨late, grown', none⟩ := genBody_procedureSymbols statement gb
    refine ⟨[.declare g.scope symbol] ++ (events ++ late), ?_, ?_⟩
    · change (genBody statement gb).trace = _
      rw [grown', grown, ← List.append_assoc, ← List.append_assoc, ← made]
      rfl
    · have own : procedureSymbols [.declare g.scope symbol] =
          [(name, g.procedureCount + 1, g.globalLevel)] := by
        unfold procedureSymbols declarations
        simp [kind, named, addr, level]
      rw [procedureSymbols_append, procedureSymbols_append, own, symbols, none, List.append_nil,
        List.map_cons]
      simp

theorem Declares.numbers {g g' : GenState} {d d' : Declarations} (declares : Declares g d g' d') :
    ∃ procedures, Numbers g d g' d' procedures := by
  induction declares with
  | done g d =>
      exact ⟨[], rfl, (Int.add_zero _).symm, (List.append_nil _).symm, rfl, [],
        (List.append_nil _).symm, rfl⟩
  | @const g _ d _ name value small inside rest ih =>
      obtain ⟨procedures, numbers⟩ := ih
      have one : Numbers g d (g.makeConst name value) (d.addConst g name value) [] :=
        numbers_plain rfl rfl rfl rfl fun kind => nomatch kind
      exact ⟨_, one.trans numbers⟩
  | @var g _ d _ name inside rest ih =>
      obtain ⟨procedures, numbers⟩ := ih
      have one : Numbers g d (g.makeVar name) (d.addVar g name) [] :=
        numbers_plain rfl rfl rfl rfl fun kind => nomatch kind
      exact ⟨_, one.trans numbers⟩
  | proc name statement nested rest ihNested ih =>
      obtain ⟨within, inside⟩ := ihNested
      obtain ⟨procedures, numbers⟩ := ih
      exact ⟨_, (numbers_proc inside).trans numbers⟩

end Numbers

section Enclosing

/-- The headings of the procedures that declarations add name the code set of the procedure
around them. -/
structure Encloses (g : GenState) (d d' : Declarations) : Prop where
  direct : ∀ p ∈ d'.procDef.direct, p ∈ d.procDef.direct ∨ p.paraProc = g.currentProcedure
  within : ∀ depth, ∀ place ∈ d'.procDef.places depth, place ∈ d.procDef.places depth ∨
    ∀ p ∈ place.block.procDef.direct, p.paraProc = place.number

theorem Encloses.of_same {g : GenState} {d d' : Declarations} (procDef : d'.procDef = d.procDef) :
    Encloses g d d' :=
  ⟨fun _ member => .inl (procDef ▸ member), fun _ _ member => .inl (procDef ▸ member)⟩

theorem Encloses.trans {g g' : GenState} {d d' d'' : Declarations} (first : Encloses g d d')
    (current : g'.currentProcedure = g.currentProcedure) (second : Encloses g' d' d'') :
    Encloses g d d'' where
  direct := fun p member => (second.direct p member).elim (first.direct p) fun encloses =>
    .inr (encloses.trans current)
  within := fun depth place member => (second.within depth place member).elim
    (first.within depth place) .inr

theorem encloses_proc {g : GenState} {d inner : Declarations} {name : Name}
    {statement : StatementNode}
    (fresh : Fresh g) (room : g.procedureCount + 1 < maxCodeSets)
    (nested : Encloses (g.makeProc name).openBlock .none inner) :
    Encloses g d (d.addProc g name (inner.block statement)) := by
  have current : (g.makeProc name).openBlock.currentProcedure = g.procedureCount + 1 := by
    rw [makeProc_eq fresh room name]
    rfl
  constructor
  · intro p member
    unfold Declarations.addProc at member
    rw [ProdefList.direct_append] at member
    rcases List.mem_append.mp member with old | new
    · exact .inl old
    · exact .inr (congrArg Procedure.paraProc (List.mem_singleton.mp new))
  · intro depth place member
    unfold Declarations.addProc at member
    rw [ProdefList.places_append, ProdefList.places, ProdefList.places, List.append_nil] at member
    rcases List.mem_append.mp member with old | new
    · exact .inl old
    · refine .inr ?_
      rcases List.mem_cons.mp new with rfl | inside
      · intro p declared
        rcases nested.direct p declared with none | encloses
        · cases none
        · exact encloses.trans current
      · rcases nested.within (depth + 1) place inside with none | encloses
        · cases none
        · exact encloses

theorem Declares.encloses {g g' : GenState} {d d' : Declarations} (declares : Declares g d g' d')
    (fresh : Fresh g) (room : g'.procedureCount < maxCodeSets) : Encloses g d d' := by
  induction declares with
  | done => exact .of_same rfl
  | @const g _ d _ name value small inside rest ih =>
      have step : Filled g d (g.makeConst name value) (d.addConst g name value) :=
        .of_same fresh rfl rfl rfl rfl rfl rfl rfl
      have one : Encloses g d (d.addConst g name value) := .of_same rfl
      exact one.trans step.currentProcedure (ih step.fresh room)
  | @var g _ d _ name inside rest ih =>
      have step : Filled g d (g.makeVar name) (d.addVar g name) :=
        .of_same fresh rfl rfl rfl rfl rfl rfl rfl
      have one : Encloses g d (d.addVar g name) := .of_same rfl
      exact one.trans step.currentProcedure (ih step.fresh room)
  | @proc g gb g' d inner d' name statement nestedRun rest ihNested ih =>
      obtain ⟨within, behind⟩ := nestedRun.procedureCount_between rest
      have openedFresh : Fresh (g.makeProc name).openBlock := fresh.opened name
      have step : Filled g d _ (d.addProc g name (inner.block statement)) :=
        filled_proc fresh (by omega) (nestedRun.filled openedFresh (by omega))
      have one : Encloses g d (d.addProc g name (inner.block statement)) :=
        encloses_proc fresh (by omega) (ihNested openedFresh (by omega))
      exact one.trans step.currentProcedure (ih step.fresh room)

end Enclosing

section Build

theorem makeItem_globalLevel (g : GenState) (const : Name × Int) :
    (g.makeItem const).globalLevel = g.globalLevel := rfl

theorem makeVar_globalLevel (g : GenState) (name : Name) :
    (g.makeVar name).globalLevel = g.globalLevel := rfl

theorem makeItem_procedureCount (g : GenState) (const : Name × Int) :
    (g.makeItem const).procedureCount = g.procedureCount := rfl

theorem makeVar_procedureCount (g : GenState) (name : Name) :
    (g.makeVar name).procedureCount = g.procedureCount := rfl

theorem itemNodes_all {α β : Type} {make : GenState → β → GenState} {node : GenState → β → α}
    {lexical paraProc : α → Int} (level : ∀ g b, (make g b).globalLevel = g.globalLevel)
    (count : ∀ g b, (make g b).procedureCount = g.procedureCount)
    (lexicals : ∀ g b, lexical (node g b) = g.globalLevel)
    (paraProcs : ∀ g b, paraProc (node g b) = g.procedureCount) (g : GenState) (items : List β) :
    ∀ a ∈ itemNodes make node g items, lexical a = g.globalLevel ∧
      paraProc a = g.procedureCount := by
  induction items generalizing g with
  | nil => exact fun a none => absurd none List.not_mem_nil
  | cons b items ih =>
      intro a member
      rcases List.mem_cons.mp member with rfl | later
      · exact ⟨lexicals g b, paraProcs g b⟩
      · rw [← level g b, ← count g b]
        exact ih (make g b) a later

theorem constNodes_located (g : GenState) (consts : List (Name × Int)) :
    ∀ c ∈ itemNodes GenState.makeItem GenState.constNode g consts,
      c.lexical = g.globalLevel ∧ c.paraProc = g.procedureCount :=
  @itemNodes_all _ _ GenState.makeItem GenState.constNode (·.lexical)
    (·.paraProc) makeItem_globalLevel
    makeItem_procedureCount (fun _ _ => rfl) (fun _ _ => rfl) g consts

theorem varNodes_located (g : GenState) (vars : List Name) :
    ∀ v ∈ itemNodes GenState.makeVar GenState.varNode g vars,
      v.lexical = g.globalLevel ∧ v.paraProc = g.procedureCount :=
  @itemNodes_all _ _ GenState.makeVar GenState.varNode (·.lexical) (·.paraProc) makeVar_globalLevel
    makeVar_procedureCount (fun _ _ => rfl) (fun _ _ => rfl) g vars

theorem afterItems_count {β : Type} {make : GenState → β → GenState}
    (count : ∀ g b, (make g b).procedureCount = g.procedureCount) (g : GenState) (items : List β) :
    (afterItems make g items).procedureCount = g.procedureCount := by
  induction items generalizing g with
  | nil => rfl
  | cons b items ih => exact (ih (make g b)).trans (count g b)

theorem declared_globalLevel (g : GenState) (consts : List (Name × Int)) (vars : List Name) :
    (g.declared consts vars).globalLevel = g.globalLevel := by
  have first := afterItems_level makeItem_globalLevel g consts
  exact (afterItems_level makeVar_globalLevel _ vars).trans first

mutual
theorem BlockTree.build_globalLevel : ∀ (t : BlockTree) (g : GenState),
    (t.build g).2.globalLevel = g.globalLevel
  | .mk consts vars procs statement, g => by
      have behind := ProcTrees.build_globalLevel procs (g.declared consts vars).currentProcedure
        (g.declared consts vars)
      simp only [BlockTree.build]
      rw [(genBody_emits statement _).globalLevel]
      exact behind.trans (declared_globalLevel g consts vars)

theorem ProcTrees.build_globalLevel : ∀ (t : ProcTrees) (old : Int) (g : GenState),
    (t.build old g).2.globalLevel = g.globalLevel
  | .nil, _, _ => rfl
  | .cons ident body next, old, g => by
      have inner := BlockTree.build_globalLevel body (g.makeProc ident).openBlock
      have opened : (g.makeProc ident).openBlock.globalLevel = g.globalLevel + 1 :=
        congrArg (· + 1) (makeProc_globalLevel g ident)
      simp only [ProcTrees.build]
      rw [ProcTrees.build_globalLevel next]
      change (body.build (g.makeProc ident).openBlock).2.globalLevel - 1 = g.globalLevel
      rw [inner, opened]
      omega
end

/-- What a block is numbered with where it is read. -/
def Located (place : Place) : Prop :=
  (∀ c ∈ place.block.constDecl, c.lexical = place.depth ∧ c.paraProc = place.number) ∧
    (∀ v ∈ place.block.varDecl, v.lexical = place.depth ∧ v.paraProc = place.number) ∧
      ∀ p ∈ place.block.procDef.direct, p.lexical = place.depth + 1

theorem build_direct : ∀ (t : ProcTrees) (old : Int) (g : GenState),
    ∀ p ∈ (t.build old g).1.direct, p.lexical = g.globalLevel + 1
  | .nil, _, _, _, impossible => absurd impossible List.not_mem_nil
  | .cons ident body next, old, g, p, member => by
      have inner := BlockTree.build_globalLevel body (g.makeProc ident).openBlock
      have opened : (g.makeProc ident).openBlock.globalLevel = g.globalLevel + 1 :=
        congrArg (· + 1) (makeProc_globalLevel g ident)
      simp only [ProcTrees.build, ProdefList.direct] at member
      rcases List.mem_cons.mp member with rfl | later
      · exact congrArg (· + 1) (makeProc_globalLevel g ident)
      · have rest := build_direct next old _ p later
        change p.lexical = (body.build (g.makeProc ident).openBlock).2.globalLevel - 1 + 1 at rest
        rw [rest, inner, opened]
        omega

/- In a program that is read without a word the constants and the variables come before the
procedures, so that no other procedure has been counted since the block was opened. -/
mutual
theorem BlockTree.build_located : ∀ (t : BlockTree) (g : GenState),
    ∀ place ∈ (t.build g).1.places g.procedureCount g.globalLevel, Located place
  | .mk consts vars procs statement, g, place, member => by
      have level := declared_globalLevel g consts vars
      have levelConsts := afterItems_level makeItem_globalLevel g consts
      have countConsts := afterItems_count makeItem_procedureCount g consts
      simp only [BlockTree.build, BlockNode.places] at member
      rcases List.mem_cons.mp member with rfl | inside
      · refine ⟨?_, ?_, ?_⟩
        · exact constNodes_located g consts
        · have all := varNodes_located (afterItems GenState.makeItem g consts) vars
          rw [levelConsts, countConsts] at all
          exact all
        · have direct := build_direct procs (g.declared consts vars).currentProcedure
            (g.declared consts vars)
          rw [level] at direct
          exact direct
      · rw [← level] at inside
        exact ProcTrees.build_located procs _ _ place inside

theorem ProcTrees.build_located : ∀ (t : ProcTrees) (old : Int) (g : GenState),
    ∀ place ∈ (t.build old g).1.places g.globalLevel, Located place
  | .nil, _, _, _, impossible => absurd impossible List.not_mem_nil
  | .cons ident body next, old, g, place, member => by
      have inner := BlockTree.build_globalLevel body (g.makeProc ident).openBlock
      have opened : (g.makeProc ident).openBlock.globalLevel = g.globalLevel + 1 :=
        congrArg (· + 1) (makeProc_globalLevel g ident)
      have closed : ((body.build (g.makeProc ident).openBlock).2.closeProc
          ((body.build (g.makeProc ident).openBlock).1.varDecl.length + 4)).globalLevel =
            g.globalLevel := by
        change (body.build (g.makeProc ident).openBlock).2.globalLevel - 1 = g.globalLevel
        rw [inner, opened]
        omega
      simp only [ProcTrees.build, ProdefList.places] at member
      rcases List.mem_append.mp member with own | later
      · rw [← opened] at own
        exact BlockTree.build_located body _ place own
      · rw [← closed] at later
        exact ProcTrees.build_located next old _ place later
end

end Build

/-- How a program is numbered, in its tree, in the symbol table and in the code sets. -/
structure NumberedProgram (block : BlockNode) (g : GenState) : Prop where
  /-- The `k`-th procedure of the program bears `k`, and so does the `k`-th procedure symbol. -/
  numbers : ∀ (k : Nat) (p : Procedure), block.procedures[k]? = some p → p.addr = k + 1
  symbols : procedureSymbols g.trace = block.procedures.map fun p =>
    (p.ident, p.addr, p.lexical - 1)
  /-- The set of that number holds the INC and the statement of the procedure, and set 0 those of
  the main block; the other sets are empty. -/
  layout : Layout g.code block
  places : ∀ place ∈ block.places 0 0, place.Numbered

theorem getElem?_addressesFrom {first : Int} {count k : Nat} {addr : Int}
    (found : (addressesFrom first count)[k]? = some addr) : addr = first + k := by
  unfold addressesFrom at found
  rw [List.getElem?_map] at found
  obtain ⟨i, there, rfl⟩ := Option.map_eq_some_iff.mp found
  obtain ⟨inside, same⟩ := List.getElem?_eq_some_iff.mp there
  rw [List.getElem_range] at same
  rw [same]

theorem parse_numbers {fuel : Nat} {tokens : List CurrentToken} {block : BlockNode} {s : ParseState}
    (accepted : parse fuel tokens = .ok block s) (silent : s.reports = [])
    (few : block.procedures.length ≤ maxCodeSets - 1) : NumberedProgram block s.gen := by
  have room : block.procedures.length < maxCodeSets := by
    have sets : maxCodeSets = 100 := rfl
    omega
  obtain ⟨g, ⟨declared, d, declares, shape, rfl⟩, last⟩ := parse_runs accepted
  obtain ⟨t, more, -, built⟩ := parse_taken accepted silent
  obtain ⟨procedures, numbers⟩ := declares.numbers
  have whole : block.procedures = procedures := by
    rw [shape]
    exact numbers.added
  have count := numbers.count
  have initial : mainGen.procedureCount = 0 := rfl
  rw [initial, ← whole, Int.zero_add] at count
  refine ⟨?_, ?_, parse_layout accepted room, ?_⟩
  · intro k p there
    have address : (addressesFrom (0 + 1) procedures.length)[k]? = some p.addr := by
      rw [← initial, ← numbers.numbers, List.getElem?_map, ← whole, there]
      rfl
    rw [getElem?_addressesFrom address]
    omega
  · obtain ⟨events, grown, symbols⟩ := numbers.symbols
    obtain ⟨late, grown', none⟩ := genBody_procedureSymbols block.statement declared
    have trace : s.gen.trace = events ++ late := by
      rw [last]
      change (genBody block.statement declared).trace = _
      rw [grown', grown]
      rfl
    rw [trace, procedureSymbols_append, none, List.append_nil, symbols, whole]
  · have encloses := declares.encloses mainGen_fresh (by omega)
    intro place member
    have located : Located place := by
      have inside := member
      rw [built] at inside
      exact t.build_located mainGen place inside
    refine ⟨located.1, located.2.1, located.2.2, ?_⟩
    intro p direct
    rw [shape] at member
    rcases List.mem_cons.mp member with rfl | within
    · rcases encloses.direct p direct with impossible | own
      · cases impossible
      · exact own
    · rcases encloses.within 0 place within with impossible | own
      · cases impossible
      · exact own p direct

end Pl0
