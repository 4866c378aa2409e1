import Pl0.BlockRereading
import Pl0.DocumentedRecoveries

set_option autoImplicit false

namespace Pl0

open MarkedText StateExcept

/-- Two states of a parse that differ in their history only. -/
def Retraced (g g' : GenState) : Prop := ∃ trace, g' = { g with trace := trace }

namespace Retraced

theorem refl (g : GenState) : Retraced g g := ⟨g.trace, rfl⟩

theorem of_fields {g g' : GenState} (symbolTable : g'.symbolTable = g.symbolTable)
    (globalLevel : g'.globalLevel = g.globalLevel) (offsetArray : g'.offsetArray = g.offsetArray)
    (procedureCount : g'.procedureCount = g.procedureCount)
    (currentProcedure : g'.currentProcedure = g.currentProcedure)
    (registerPtr : g'.registerPtr = g.registerPtr) (inUse : g'.inUse = g.inUse)
    (code : g'.code = g.code) (allocated : g'.allocated = g.allocated)
    (scope : g'.scope = g.scope) : Retraced g g' := by
  cases g
  cases g'
  subst symbolTable globalLevel offsetArray procedureCount currentProcedure registerPtr inUse code
    allocated scope
  exact ⟨_, rfl⟩

theorem lookup {g g' : GenState} (same : Retraced g g') : g'.lookup = g.lookup := by
  obtain ⟨trace, rfl⟩ := same
  rfl

theorem levelInside {g g' : GenState} (same : Retraced g g') (inside : g.LevelInside) :
    g'.LevelInside := by
  obtain ⟨trace, rfl⟩ := same
  exact inside

theorem currentProcedure {g g' : GenState} (same : Retraced g g') :
    g'.currentProcedure = g.currentProcedure := by
  obtain ⟨trace, rfl⟩ := same
  rfl

theorem numbers {g g' : GenState} (same : Retraced g g') :
    g'.globalLevel = g.globalLevel ∧ g'.procedureCount = g.procedureCount := by
  obtain ⟨trace, rfl⟩ := same
  exact ⟨rfl, rfl⟩

theorem makeItem {g g' : GenState} (same : Retraced g g') (const : Name × Int) :
    Retraced (g.makeItem const) (g'.makeItem const) := by
  obtain ⟨trace, rfl⟩ := same
  exact ⟨_, rfl⟩

theorem makeVar {g g' : GenState} (same : Retraced g g') (name : Name) :
    Retraced (g.makeVar name) (g'.makeVar name) := by
  obtain ⟨trace, rfl⟩ := same
  exact ⟨_, rfl⟩

theorem makeProc {g g' : GenState} (same : Retraced g g') (name : Name) :
    Retraced (g.makeProc name) (g'.makeProc name) := by
  obtain ⟨trace, rfl⟩ := same
  unfold GenState.makeProc GenState.getFreeSet
  dsimp only
  split
  · exact ⟨_, rfl⟩
  · exact ⟨_, rfl⟩

theorem openBlock {g g' : GenState} (same : Retraced g g') :
    Retraced g.openBlock g'.openBlock := by
  obtain ⟨trace, rfl⟩ := same
  exact ⟨_, rfl⟩

theorem closeProc {g g' : GenState} (same : Retraced g g') (space : Int) :
    Retraced (g.closeProc space) (g'.closeProc space) := by
  obtain ⟨trace, rfl⟩ := same
  exact ⟨_, rfl⟩

theorem finishMain {g g' : GenState} (same : Retraced g g') (space : Int) :
    Retraced (g.finishMain space) (g'.finishMain space) := by
  obtain ⟨trace, rfl⟩ := same
  exact ⟨_, rfl⟩

theorem inProcedure {g g' : GenState} (same : Retraced g g') (procedure : Int) :
    Retraced (g.inProcedure procedure) (g'.inProcedure procedure) := by
  obtain ⟨trace, rfl⟩ := same
  exact ⟨_, rfl⟩

theorem afterItems {β : Type} {make : GenState → β → GenState}
    (keeps : ∀ {g g'}, Retraced g g' → ∀ b, Retraced (make g b) (make g' b)) :
    ∀ (items : List β) {g g' : GenState}, Retraced g g' →
      Retraced (afterItems make g items) (afterItems make g' items)
  | [], _, _, same => same
  | b :: items, _, _, same => afterItems keeps items (keeps same b)

theorem declared {g g' : GenState} (same : Retraced g g') (consts : List (Name × Int))
    (vars : List Name) : Retraced (g.declared consts vars) (g'.declared consts vars) :=
  afterItems (fun same b => same.makeVar b) vars
    (afterItems (fun same b => same.makeItem b) consts same)

theorem itemNodes {α β : Type} {make : GenState → β → GenState} {node : GenState → β → α}
    (keeps : ∀ {g g'}, Retraced g g' → ∀ b, Retraced (make g b) (make g' b))
    (made : ∀ {g g'}, Retraced g g' → ∀ b, node g' b = node g b) :
    ∀ (items : List β) {g g' : GenState}, Retraced g g' →
      itemNodes make node g' items = itemNodes make node g items
  | [], _, _, _ => rfl
  | b :: items, _, _, same => by
      rw [Pl0.itemNodes, Pl0.itemNodes, made same b, itemNodes keeps made items (keeps same b)]

/-- Empty statements have no code. -/
theorem genBody {g g' : GenState} (same : Retraced g g') (s : StatementNode) :
    Retraced (Pl0.genBody s g) (Pl0.genBody s.reread g') := by
  obtain ⟨trace, rfl⟩ := same
  have emitted := genStatement_emits s g _ rfl
  have emitted' := genStatement_emits s.reread { g with trace := trace } _ rfl
  rw [(reread_spec s).compiled] at emitted'
  exact of_fields (emitted'.symbolTable.trans emitted.symbolTable.symm)
    (emitted'.globalLevel.trans emitted.globalLevel.symm)
    (emitted'.offsetArray.trans emitted.offsetArray.symm)
    (emitted'.procedureCount.trans emitted.procedureCount.symm)
    (emitted'.currentProcedure.trans emitted.currentProcedure.symm)
    (emitted'.registerPtr.trans emitted.registerPtr.symm)
    (emitted'.inUse.trans emitted.inUse.symm) (emitted'.code.trans emitted.code.symm)
    (emitted'.allocated.trans emitted.allocated.symm) (emitted'.scope.trans emitted.scope.symm)

end Retraced

theorem dropEmpty_varDecl (block : BlockNode) : block.dropEmpty.varDecl = block.varDecl := by
  cases block
  rfl

theorem varDecl_of_dropEmpty {block block' : BlockNode}
    (same : block'.dropEmpty = block.dropEmpty) : block'.varDecl = block.varDecl := by
  rw [← dropEmpty_varDecl block', same, dropEmpty_varDecl]

theorem itemNodes_retraced {consts : List (Name × Int)} {g g' : GenState}
    (same : Retraced g g') : itemNodes GenState.makeItem GenState.constNode g' consts =
      itemNodes GenState.makeItem GenState.constNode g consts := by
  refine Retraced.itemNodes (fun same b => same.makeItem b) (fun same b => ?_) consts same
  obtain ⟨trace, rfl⟩ := same
  rfl

theorem varNodes_retraced {vars : List Name} {g g' : GenState} (same : Retraced g g') :
    itemNodes GenState.makeVar GenState.varNode g' vars =
      itemNodes GenState.makeVar GenState.varNode g vars := by
  refine Retraced.itemNodes (fun same b => same.makeVar b) (fun same b => ?_) vars same
  obtain ⟨trace, rfl⟩ := same
  rfl

/- The nodes of a reread block are those of the block, empty statements apart, and its code
is the same. -/
mutual
theorem BlockTree.reread_build : ∀ (t : BlockTree) {g g' : GenState}, Retraced g g' →
    (t.reread.build g').1.dropEmpty = (t.build g).1.dropEmpty ∧
      Retraced (t.build g).2 (t.reread.build g').2
  | .mk consts vars procs statement, g, g', same => by
      have declared := same.declared consts vars
      have current := declared.currentProcedure
      obtain ⟨sameProcs, behind⟩ := procs.reread_build (g.declared consts vars).currentProcedure
        declared
      have constNodes := @itemNodes_retraced consts g g' same
      have varNodes := @varNodes_retraced vars _ _
        (Retraced.afterItems (fun same b => same.makeItem b) consts same)
      constructor
      · simp only [BlockTree.reread, BlockTree.build, BlockNode.dropEmpty, current, constNodes,
          varNodes, sameProcs, (reread_spec statement).dropEmpty]
      · simp only [BlockTree.reread, BlockTree.build, current]
        exact (behind.inProcedure _).genBody statement

theorem ProcTrees.reread_build : ∀ (t : ProcTrees) (old : Int) {g g' : GenState}, Retraced g g' →
    (t.reread.build old g').1.dropEmpty = (t.build old g).1.dropEmpty ∧
      Retraced (t.build old g).2 (t.reread.build old g').2
  | .nil, _, _, _, same => ⟨rfl, same⟩
  | .cons ident body next, old, g, g', same => by
      have made := same.makeProc ident
      obtain ⟨sameBody, inner⟩ := body.reread_build made.openBlock
      have vars := varDecl_of_dropEmpty sameBody
      obtain ⟨sameNext, behind⟩ := next.reread_build old
        (inner.closeProc ((body.build (g.makeProc ident).openBlock).1.varDecl.length + 4))
      constructor
      · simp only [ProcTrees.reread, ProcTrees.build, ProdefList.dropEmpty, made.numbers, vars,
          sameBody, sameNext]
      · simp only [ProcTrees.reread, ProcTrees.build, vars]
        exact behind
end

mutual
theorem BlockTree.reread_suited : ∀ (t : BlockTree) {g g' : GenState}, Retraced g g' →
    t.Suited g → t.reread.Suited g'
  | .mk consts vars procs statement, g, g', same, suited => by
      obtain ⟨small, inside, procsSuited, statementSuited⟩ := suited
      have declared := same.declared consts vars
      have current := declared.currentProcedure
      have behind :=
        (procs.reread_build (g.declared consts vars).currentProcedure declared).2
      refine ⟨small, fun some => same.levelInside (inside some), ?_, ?_⟩
      · rw [current]
        exact procs.reread_suited _ declared procsSuited
      · rw [current, behind.lookup]
        exact (reread_spec statement).suited _ statementSuited

theorem ProcTrees.reread_suited : ∀ (t : ProcTrees) (old : Int) {g g' : GenState}, Retraced g g' →
    t.Suited old g → t.reread.Suited old g'
  | .nil, _, _, _, _, _ => trivial
  | .cons ident body next, old, _, _, same, suited => by
      have opened := (same.makeProc ident).openBlock
      obtain ⟨sameBody, inner⟩ := body.reread_build opened
      refine ⟨body.reread_suited opened suited.1, next.reread_suited old ?_ suited.2⟩
      rw [varDecl_of_dropEmpty sameBody]
      exact inner.closeProc _
end

/- Empty statements of a list are not printed. -/
mutual
theorem statementUnParse_dropEmpty : ∀ (s : StatementNode) (t : Nat),
    statementUnParse s.dropEmpty t = statementUnParse s t
  | .empty, _ => rfl
  | .assign _ _, _ => rfl
  | .read _, _ => rfl
  | .write _, _ => rfl
  | .call _, _ => rfl
  | .begin stsList, t => by
      simp only [StatementNode.dropEmpty, statementUnParse, statementsUnParse_dropEmpty stsList]
  | .ifS cond ifsts, t => by
      simp only [StatementNode.dropEmpty, statementUnParse, statementUnParse_dropEmpty ifsts]
  | .ifElse cond ifsts elsests, t => by
      simp only [StatementNode.dropEmpty, statementUnParse, statementUnParse_dropEmpty ifsts,
        statementUnParse_dropEmpty elsests]
  | .while cond sts, t => by
      simp only [StatementNode.dropEmpty, statementUnParse, statementUnParse_dropEmpty sts]

theorem statementsUnParse_dropEmpty : ∀ (list : StatementList) (t : Nat),
    statementsUnParse list.dropEmpty t = statementsUnParse list t
  | .nil, _ => rfl
  | .cons sts next, t => by
      rw [StatementList.dropEmpty]
      by_cases isEmpty : sts.isEmpty = true
      · rw [if_pos isEmpty, sts.eq_empty isEmpty]
        exact statementsUnParse_dropEmpty next t
      · rw [if_neg isEmpty, statementsUnParse, statementsUnParse, statementUnParse_dropEmpty sts,
          statementsUnParse_dropEmpty next]
end

mutual
theorem blockUnParse_dropEmpty : ∀ (block : BlockNode) (t : Nat),
    blockUnParse block.dropEmpty t = blockUnParse block t
  | .mk constDecl varDecl procDef statement, t => by
      simp only [BlockNode.dropEmpty, blockUnParse, proceduresUnParse_dropEmpty procDef,
        statementUnParse_dropEmpty]

theorem proceduresUnParse_dropEmpty : ∀ (procDef : ProdefList) (t : Nat),
    proceduresUnParse procDef.dropEmpty t = proceduresUnParse procDef t
  | .nil, _ => rfl
  | .cons ident lexical addr paraProc body next, t => by
      simp only [ProdefList.dropEmpty, proceduresUnParse, blockUnParse_dropEmpty body,
        proceduresUnParse_dropEmpty next]
end

theorem programUnParse_congr {block block' : BlockNode}
    (same : block'.dropEmpty = block.dropEmpty) :
    programUnParse block' = programUnParse block := by
  unfold programUnParse
  rw [← blockUnParse_dropEmpty block', same, blockUnParse_dropEmpty]

theorem printable_word {token : Token} (notIdent : token ≠ .identsym)
    (notNumber : token ≠ .numbersym) : (CurrentToken.word token).Printable :=
  ⟨fun ident => absurd ident notIdent, fun number => absurd number notNumber⟩

/-- What the scanner makes of a lexeme is printed as it was spelled, a number in its shortest
form. -/
theorem entry_printable : EachEntry fun entry => (tokenOf entry).Printable := by
  intro type word lexeme entry made
  unfold entryOf at made
  rcases lexeme with ⟨rfl, ident, short⟩ | ⟨rfl, number, short⟩ | ⟨⟨-, notIdent, notNumber⟩, -, -⟩
  · rw [if_pos rfl, identEntry] at made
    split at made
    · cases made
    · rename_i token notNull found
      cases made
      obtain ⟨notIdent, notNumber⟩ := resWord_reserved found
      rw [tokenOf, if_neg notIdent, if_neg notNumber]
      exact printable_word notIdent notNumber
    · rename_i free
      cases made
      exact ⟨fun _ => ⟨ident, short, free⟩, fun number => by cases number⟩
  · rw [if_neg (by decide)] at made
    cases made
    exact ⟨fun ident => (by cases ident), fun _ => ⟨_, rfl, decimalValue_lt number short⟩⟩
  · rw [if_neg notIdent] at made
    cases made
    rw [tokenOf, if_neg notIdent, if_neg notNumber]
    exact printable_word notIdent notNumber

theorem normal_printable {token : CurrentToken} (printable : token.Printable) :
    token.normal.Printable := by
  unfold CurrentToken.normal
  split
  · rename_i isName
    exact ⟨fun _ => printable.name isName, fun number => by cases number⟩
  · split
    · rename_i isNumber
      exact ⟨fun ident => (by cases ident), fun _ => printable.number isNumber⟩
    · rename_i notIdent notNumber
      exact printable_word notIdent notNumber

/-- The tokens of a tree that reads a scanned text. -/
theorem reading_printable {turns : Nat} {text : List UInt8} {tokenTable : List LexemeEntry}
    (scanned : scannerRun turns text = .ok (some tokenTable)) {t : BlockTree}
    (reading : Reading (seen (tokenTable.map tokenOf)) t) : AllPrintable t.frontier := by
  intro pair member
  have inside : pair.1 ∈ (seen (tokenTable.map tokenOf)).map CurrentToken.normal := by
    rw [show (seen (tokenTable.map tokenOf)).map CurrentToken.normal = t.program.map Prod.fst from
      reading.2]
    exact List.mem_map.mpr ⟨pair, List.mem_append_left _ member, rfl⟩
  obtain ⟨token, seenToken, same⟩ := List.mem_map.mp inside
  obtain ⟨entry, listed, rfl⟩ := List.mem_map.mp (List.mem_of_mem_filter seenToken)
  rw [← same]
  exact normal_printable (scannerRun_meets entry_printable scanned entry listed)

theorem semicolon_outside : inset .semicolonsym
    (uniteset (createset [.periodsym]) (uniteset declbegsys statbegsys)) = false := by
  decide

theorem main_guards : Guards (uniteset (createset [.semicolonsym, .endsym])
    (uniteset (createset [.periodsym]) (uniteset declbegsys statbegsys))) := by
  constructor <;> decide

/-- The parser begins in front of the first token. -/
theorem parse_stands {file tokens : List CurrentToken} {last : CurrentToken}
    (text : (seen file).map CurrentToken.normal = tokens ++ [last]) (fuel : Nat) :
    ∃ s, parse fuel file = mainParse fuel s ∧
      Stands (fun _ => True) (tokens ++ [last]) mainGen s := by
  have some : file ≠ [] := by
    rintro rfl
    have none := congrArg List.length text
    simp [seen] at none
  obtain ⟨s, start, entered, gen, -⟩ := parse_enters fuel file
  rw [coming_some some, text] at entered
  exact ⟨s, start, entered, gen, trivial⟩

/-- The parse of the printed tokens of a program. -/
theorem parse_rereads {t : BlockTree} (grammatical : t.Grammatical)
    (suited : t.reread.Suited mainGen) (readable : t.Bodies StatementNode.Readable)
    (reprintable : t.Reprintable false) {file : List CurrentToken}
    (tokens : (seen file).map CurrentToken.normal = t.printed ++ [.word .periodsym]) {fuel : Nat}
    (enough : 4 * file.length + 13 ≤ fuel) : ∃ s, parse fuel file = .ok
      (t.reread.build mainGen).1 s ∧
      s.gen = (t.reread.build mainGen).2.finishMain
        ((t.reread.build mainGen).1.varDecl.length + 4) := by
  have lenient : Lenient (fun _ : List Report => True) := fun _ _ _ => trivial
  have isPeriod : inset .periodsym
      (uniteset (createset [.periodsym]) (uniteset declbegsys statbegsys)) = true := by
    decide
  have follows : BlockFollows True
      (uniteset (createset [.periodsym]) (uniteset declbegsys statbegsys))
      [.word .periodsym] := ⟨.inr (.inl rfl), .inl isPeriod⟩
  have body : ReadsTo (fun _ => True) (mainParse fuel) (t.printed ++ [.word .periodsym]) mainGen
      (t.reread.build mainGen).1 [.word .periodsym]
      ((t.reread.build mainGen).2.finishMain
        ((t.reread.build mainGen).1.varDecl.length + 4)) := by
    have block := @blockParse_rereads _ lenient t false fuel _ mainGen [.word .periodsym]
      [.word .periodsym] grammatical suited readable reprintable main_guards
        semicolon_outside follows
      (fun fuel _ => readsTo_test_semicolon lenient
        (by rw [inset_uniteset, semicolon_outside]; decide)
        (by rw [inset_uniteset]; decide) semicolonIf_mem fuel 8)
    apply block.bind
    apply (@expectPeriod_reads True _ (fun _ => lenient) [.word .periodsym] _ (.inl rfl)).bind
    apply ReadsTo.generate
    apply ReadsTo.generate
    exact readsTo_pure
  obtain ⟨s1, start, stands⟩ := parse_stands tokens fuel
  have result := body s1 stands
  rw [← start] at result
  cases run : parse fuel file with
  | ok node s =>
      rw [run] at result
      obtain ⟨rfl, stands'⟩ := result
      exact ⟨s, rfl, stands'.gen⟩
  | error stop s =>
      rw [run] at result
      have outOfFuel : stop = .fuel := result
      subst outOfFuel
      exact absurd run (parse_fuel enough s)

/-- No token of a text that is cut is skipped or changed by the parser. -/
theorem Cut.plain_seen {text : List UInt8} {tokens : List CurrentToken} (cut : Cut text tokens) :
    (seen tokens).map CurrentToken.normal = tokens := by
  rw [seen, List.filter_eq_self.mpr fun token listed => by
    simpa using (cut.plain token listed).1]
  exact (List.map_congr_left fun token listed => (cut.plain token listed).2).trans (List.map_id _)

theorem program_ends (block : BlockNode) : (programUnParse block).getLast? = some 10 := by
  rw [programUnParse, show ascii ".\n" = [46] ++ [10] from rfl, ← List.append_assoc,
    List.getLast?_concat]

/-- An accepted program is read from its tree, and the scanner finds the printed tokens of the
tree in the printed text. -/
theorem accepted_printed {turns fuel : Nat} {text : List UInt8} {tokenTable : List LexemeEntry}
    {block : BlockNode} {s : ParseState}
    (scanned : scannerRun turns text = .ok (some tokenTable))
    (sentence : Sentence .program (seen (tokenTable.map tokenOf)))
    (accepted : parse fuel (tokenTable.map tokenOf) = .ok block s) (silent : s.reports = []) :
    block.tree.Grammatical ∧ block.tree.Suited mainGen ∧
      block.tree.Bodies StatementNode.Readable ∧ block = (block.tree.build mainGen).1 ∧
        s.gen = (block.tree.build mainGen).2.finishMain (block.varDecl.length + 4) ∧
          ∀ {more : Nat}, (programUnParse block).length + 2 ≤ more →
            ∃ again, scannerRun more (programUnParse block) = .ok (some again) ∧
              again.map tokenOf = block.tree.printed ++ [.word .periodsym] ∧
                (seen (again.map tokenOf)).map CurrentToken.normal =
                  block.tree.printed ++ [.word .periodsym] := by
  obtain ⟨t, reading, suited, readable, built, gen⟩ := sentence_read sentence accepted silent
  have tree : block.tree = t := by rw [built, BlockTree.build_tree]
  subst tree
  rw [← built] at gen
  have printable : AllPrintable block.tree.frontier := reading_printable scanned reading
  have cut := programUnParse_cut block reading.1 printable
  refine ⟨reading.1, suited, readable, built, gen, fun enough => ?_⟩
  obtain ⟨again, rescanned, tokens⟩ := cut.scanned (program_ends block) enough
  exact ⟨again, rescanned, tokens, by rw [tokens, cut.plain_seen]⟩

/-- The scanner finds the printed tokens in the printed text of an accepted program. -/
theorem unparse_scanned {turns fuel : Nat} {text : List UInt8} {tokenTable : List LexemeEntry}
    {block : BlockNode} {s : ParseState}
    (scanned : scannerRun turns text = .ok (some tokenTable))
    (sentence : Sentence .program (seen (tokenTable.map tokenOf)))
    (accepted : parse fuel (tokenTable.map tokenOf) = .ok block s) (silent : s.reports = [])
    {more : Nat} (enough : (programUnParse block).length + 2 ≤ more) :
    ∃ again, scannerRun more (programUnParse block) = .ok (some again) ∧
      again.map tokenOf = block.tree.printed ++ [.word .periodsym] := by
  obtain ⟨-, -, -, -, -, printed⟩ := accepted_printed scanned sentence accepted silent
  obtain ⟨again, rescanned, tokens, -⟩ := printed enough
  exact ⟨again, rescanned, tokens⟩

/-- The printed text of an accepted program is parsed to the same tree, empty statements of a
list apart, and to the same code, and is printed again as it is. -/
theorem unparse_parse {turns fuel : Nat} {text : List UInt8} {tokenTable : List LexemeEntry}
    {block : BlockNode} {s : ParseState}
    (scanned : scannerRun turns text = .ok (some tokenTable))
    (sentence : Sentence .program (seen (tokenTable.map tokenOf)))
    (accepted : parse fuel (tokenTable.map tokenOf) = .ok block s) (silent : s.reports = [])
    (reprintable : block.tree.Reprintable false)
    {more : Nat} (enough : (programUnParse block).length + 2 ≤ more) :
    ∃ again, scannerRun more (programUnParse block) = .ok (some again) ∧
      ∀ most, 4 * again.length + 13 ≤ most →
        ∃ block' s', parse most (again.map tokenOf) = .ok block' s' ∧
          block'.dropEmpty = block.dropEmpty ∧ s'.gen.code = s.gen.code ∧
            programUnParse block' = programUnParse block := by
  obtain ⟨grammatical, suited, readable, built, gen, printed⟩ :=
    accepted_printed scanned sentence accepted silent
  obtain ⟨again, rescanned, -, plainTokens⟩ := printed enough
  refine ⟨again, rescanned, fun most left => ?_⟩
  have same := Retraced.refl mainGen
  obtain ⟨sameBlock, behind⟩ := block.tree.reread_build same
  have fuelLeft : 4 * (again.map tokenOf).length + 13 ≤ most := by rwa [List.length_map]
  obtain ⟨s', parsed, gen'⟩ := parse_rereads grammatical (block.tree.reread_suited same suited)
    readable reprintable plainTokens fuelLeft
  rw [← built] at sameBlock
  refine ⟨_, s', parsed, sameBlock, ?_, programUnParse_congr sameBlock⟩
  obtain ⟨trace, finished⟩ := behind.finishMain (block.varDecl.length + 4)
  rw [gen, gen', varDecl_of_dropEmpty sameBlock, finished]

/-- `var x;begin;x:=1 end.` and a newline -/
def oneLine : List UInt8 :=
  [118, 97, 114, 32, 120, 59, 98, 101, 103, 105, 110, 59, 120, 58, 61, 49, 32, 101, 110, 100, 46,
    10]

def oneLineTree : BlockTree :=
  .mk [] [[120]] .nil (.begin (.cons .empty
    (.cons (.assign [120] (.cons .unset (.cons .nulsym (.digit 1) .nil) .nil)) .nil)))

theorem oneLine_scanned : ∃ tokenTable, scannerRun 40 oneLine = .ok (some tokenTable) ∧
    tokenTable.map tokenOf = oneLineTree.program.map Prod.fst := by
  refine ⟨[⟨.varsym, [118, 97, 114], false⟩, ⟨.identsym, [120], true⟩, ⟨.semicolonsym, [59], false⟩,
    ⟨.beginsym, [98, 101, 103, 105, 110], false⟩, ⟨.semicolonsym, [59], false⟩,
    ⟨.identsym, [120], true⟩, ⟨.becomessym, [58, 61], false⟩, ⟨.numbersym, [49], true⟩,
    ⟨.endsym, [101, 110, 100], false⟩, ⟨.periodsym, [46], false⟩], ?_, rfl⟩
  decide +kernel

theorem oneLine_accepted : ∃ tokenTable block s, scannerRun 40 oneLine = .ok (some tokenTable) ∧
    Sentence .program (seen (tokenTable.map tokenOf)) ∧
      parse 50 (tokenTable.map tokenOf) = .ok block s ∧ s.reports = [] ∧
        block.tree = oneLineTree := by
  obtain ⟨tokenTable, scanned, tokens⟩ := oneLine_scanned
  have looked : returned? (fun block s => (s.reports, block.tree))
      (parse 50 (oneLineTree.program.map Prod.fst)) = some ([], oneLineTree) := by
    rfl
  obtain ⟨block, s, accepted, found⟩ := returned?_eq_some.mp looked
  obtain ⟨silent, tree⟩ := Prod.mk.inj found
  refine ⟨tokenTable, block, s, scanned, ?_, by rw [tokens, accepted], silent, tree⟩
  rw [tokens]
  exact sentence_iff.mpr
    ⟨oneLineTree, ⟨trivial, trivial, ⟨.inl ⟨rfl, rfl⟩, ⟨rfl, trivial, rfl⟩, rfl⟩, rfl⟩, rfl⟩

theorem unparse_scanned_oneLine : ∃ (block : BlockNode) (again : List LexemeEntry),
    scannerRun ((programUnParse block).length + 2) (programUnParse block) = .ok (some again) ∧
      again.map tokenOf = oneLineTree.printed ++ [.word .periodsym] := by
  obtain ⟨tokenTable, block, s, scanned, sentence, accepted, silent, tree⟩ := oneLine_accepted
  obtain ⟨again, rescanned, tokens⟩ :=
    unparse_scanned scanned sentence accepted silent (Nat.le_refl _)
  exact ⟨block, again, rescanned, tree ▸ tokens⟩

theorem unparse_parse_oneLine : ∃ (block : BlockNode) (s : ParseState) (again : List LexemeEntry),
    scannerRun ((programUnParse block).length + 2) (programUnParse block) = .ok (some again) ∧
      ∃ block' s', parse (4 * again.length + 13) (again.map tokenOf) = .ok block' s' ∧
        block'.dropEmpty = block.dropEmpty ∧ s'.gen.code = s.gen.code := by
  obtain ⟨tokenTable, block, s, scanned, sentence, accepted, silent, tree⟩ := oneLine_accepted
  have reprintable : block.tree.Reprintable false := by
    rw [tree]
    exact ⟨trivial, nofun, trivial, nofun, trivial, trivial⟩
  obtain ⟨again, rescanned, parsed⟩ :=
    unparse_parse scanned sentence accepted silent reprintable (Nat.le_refl _)
  obtain ⟨block', s', reparsed, same, code, -⟩ := parsed _ (Nat.le_refl _)
  exact ⟨block, s, again, rescanned, block', s', reparsed, same, code⟩

end Pl0
