import Pl0.SyntaxTree
import Pl0.Unparse
import Pl0.WordSpacing

set_option autoImplicit false

namespace Pl0

/- The tokens of the text that `unParsePrint` writes. -/

/-- The keyword of an if or a while with its condition: `odd` is printed right behind it. -/
def guardPrinted (keyword : Token) : ConditionNode → List CurrentToken
  | .odd right =>
      .ident (opSymbol keyword ++ opSymbol .oddsym) :: (right.frontier true).map Prod.fst
  | .relOp op left right =>
      .word keyword :: ((left.frontier true).map Prod.fst ++
        .word op :: (right.frontier true).map Prod.fst)

/-- A simple statement ends with its semicolon. -/
def simplePrinted (s : StatementNode) : List CurrentToken :=
  s.frontier.map Prod.fst ++ [.word .semicolonsym]

mutual
def StatementNode.printed : StatementNode → List CurrentToken
  | .empty => []
  | .assign ident exp => simplePrinted (.assign ident exp)
  | .begin stsList => .word .beginsym :: (stsList.printed ++ [.word .endsym])
  | .ifS cond ifsts => guardPrinted .ifsym cond ++ .word .thensym :: ifsts.printed
  | .ifElse cond ifsts elsests =>
      guardPrinted .ifsym cond ++
        .word .thensym :: (ifsts.printed ++ .word .elsesym :: elsests.printed)
  | .while cond sts => guardPrinted .whilesym cond ++ .word .dosym :: sts.printed
  | .read ident => simplePrinted (.read ident)
  | .write ident => simplePrinted (.write ident)
  | .call ident => simplePrinted (.call ident)

def StatementList.printed : StatementList → List CurrentToken
  | .nil => []
  | .cons sts next => sts.printed ++ next.printed
end

mutual
def BlockTree.printed : BlockTree → List CurrentToken
  | .mk consts vars procs statement =>
      (sectionFrontier .constsym constFrontier consts).map Prod.fst ++
        ((sectionFrontier .varsym varFrontier vars).map Prod.fst ++
          (procs.printed ++ statement.printed))

def ProcTrees.printed : ProcTrees → List CurrentToken
  | .nil => []
  | .cons ident body next =>
      .word .procsym :: .ident ident :: .word .semicolonsym ::
        (body.printed ++ .word .semicolonsym :: next.printed)
end

/-- A token that is scanned again as it is printed. -/
structure CurrentToken.Printable (token : CurrentToken) : Prop where
  name : token.cToken = .identsym → Spellable token.string
  number : token.cToken = .numbersym →
    ∃ value : Nat, token.numeric = value ∧ value < 10 ^ maxNumberLength

/-- Every token of the text is printable. -/
abbrev AllPrintable (marked : List Marked) : Prop := ∀ pair ∈ marked, pair.1.Printable

theorem AllPrintable.append {first second : List Marked} :
    AllPrintable (first ++ second) ↔ AllPrintable first ∧ AllPrintable second :=
  List.forall_mem_append

theorem AllPrintable.cons {pair : Marked} {marked : List Marked} :
    AllPrintable (pair :: marked) ↔ pair.1.Printable ∧ AllPrintable marked :=
  List.forall_mem_cons

instance : DecidablePred Soft := fun c =>
  decidable_of_iff (isAlnum c = false ∧ c ≠ 42 ∧ c ≠ 61 ∧ c ≠ 62)
    ⟨fun parts => ⟨parts.1, parts.2.1, parts.2.2.1, parts.2.2.2⟩,
      fun soft => ⟨soft.alnum, soft.star, soft.equals, soft.greater⟩⟩

theorem cut_operator {word : List UInt8} {token : Token}
    (operator : operatorToken word = some token)
    (soft : word.head?.all (fun c => decide (Soft c)) = true) : Cut word [.word token] := by
  obtain ⟨piece, tokens⟩ := piece_operator operator
  rw [← tokens]
  refine cut_word piece fun c first => ?_
  rw [Option.mem_def.mp first] at soft
  exact of_decide_eq_true soft

theorem cut_spaced_operator {word : List UInt8} {token : Token}
    (operator : operatorToken word = some token) : Cut (32 :: word) [.word token] := by
  obtain ⟨piece, tokens⟩ := piece_operator operator
  rw [← tokens]
  exact cut_spaced piece

theorem cut_spaced_keyword {word : List UInt8} {token : Token}
    (found : resWord.lookup word = some token) (named : token ≠ .nulsym) :
    Cut (32 :: word) [.word token] := by
  obtain ⟨piece, tokens⟩ := piece_keyword found named
  rw [← tokens]
  exact cut_spaced piece

theorem Spellable.cut {name : Name} (spellable : Spellable name) :
    Cut (32 :: name) [.ident name] := by
  obtain ⟨piece, tokens⟩ := spellable.piece
  rw [← tokens]
  exact cut_spaced piece

theorem CurrentToken.Printable.printInt {value : Int}
    (printable : (CurrentToken.number value).Printable) :
    Piece (Pl0.printInt value) ∧ wordTokens (Pl0.printInt value) = [.number value] := by
  obtain ⟨digits, same, small⟩ := printable.number rfl
  replace same : value = digits := same
  subst same
  have printed : Pl0.printInt digits = printDecimal digits := by
    unfold Pl0.printInt
    rw [if_neg (by omega), Int.natAbs_natCast]
  rw [printed]
  exact printDecimal_piece small

theorem Cut.line {text : List UInt8} {tokens : List CurrentToken} (cut : Cut text tokens) :
    Cut (text ++ [10]) tokens := by
  have whole := cut.append cut_newline
  rw [List.append_nil] at whole
  exact whole

theorem Cut.spaced {text : List UInt8} {tokens : List CurrentToken} (cut : Cut text tokens) :
    Cut (32 :: text) tokens :=
  cut_space.append cut

theorem getSpace_succ (t : Nat) : getSpace (t + 1) = List.replicate (2 * t) 32 ++ [32] := by
  induction t with
  | zero => rfl
  | succ t ih =>
      have grown : getSpace (t + 2) = getSpace (t + 1) ++ [32] ++ [32] := rfl
      rw [grown, ih, show 2 * (t + 1) = 2 * t + 1 + 1 from rfl, List.replicate_succ',
        List.replicate_succ']

theorem cut_spaces (count : Nat) : Cut (List.replicate count 32) [] := by
  induction count with
  | zero => exact cut_nil
  | succ count ih => exact ih.spaced

/-- An indented text. -/
theorem cut_indent {text : List UInt8} {tokens : List CurrentToken} (t : Nat)
    (cut : Cut (32 :: text) tokens) : Cut (getSpace (t + 1) ++ text) tokens := by
  rw [getSpace_succ, List.append_assoc]
  exact (cut_spaces (2 * t)).append cut

mutual
theorem FactorNode.cut : ∀ f : FactorNode, f.Grammatical → AllPrintable f.frontier →
    Cut (32 :: factorUnParse f) (f.frontier.map Prod.fst)
  | .ident name, _, printable => ((AllPrintable.cons.mp printable).1.name rfl).cut
  | .digit value, _, printable => by
      obtain ⟨piece, tokens⟩ := (AllPrintable.cons.mp printable).1.printInt
      have cut := cut_spaced piece
      rw [tokens] at cut
      exact cut
  | .exp e, grammatical, printable => by
      have inside := TermExp.cut e true grammatical
        (AllPrintable.append.mp (AllPrintable.cons.mp printable).2).1
      have opens : Cut (ascii "(") [.word .lparentsym] := cut_operator rfl (by decide)
      have closes : Cut (ascii ")") [.word .rparentsym] := cut_operator rfl (by decide)
      have whole := (opens.append (inside.append closes)).spaced
      rw [FactorNode.frontier, List.map_cons, List.map_append]
      exact whole

theorem FactorExp.cut : ∀ (t : FactorExp) (first : Bool), t.Grammatical first →
    AllPrintable (t.frontier first) → Cut (termUnParse t) ((t.frontier first).map Prod.fst)
  | .nil, _, _, _ => cut_nil
  | .cons op factor next, first, grammatical, printable => by
      obtain ⟨here, properFactor, properNext⟩ := grammatical
      obtain ⟨-, others⟩ := AllPrintable.append.mp printable
      obtain ⟨printFactor, printNext⟩ := AllPrintable.append.mp others
      have factorCut := factor.cut properFactor printFactor
      have nextCut := next.cut false properNext printNext
      rw [FactorExp.frontier, List.map_append, List.map_append]
      cases first with
      | true =>
          replace here : op = .nulsym := here
          subst here
          exact factorCut.append nextCut
      | false =>
          replace here : op = .multsym ∨ op = .slashsym := here
          have sign : Cut (32 :: opSymbol op) [.word op] := by
            rcases here with rfl | rfl
            · exact cut_spaced_operator rfl
            · exact cut_spaced_operator rfl
          have whole := sign.append (factorCut.append nextCut)
          rw [termUnParse, if_pos here, List.append_assoc]
          exact whole

theorem TermExp.cut : ∀ (e : TermExp) (first : Bool), e.Grammatical first →
    AllPrintable (e.frontier first) → Cut (expressionUnParse e) ((e.frontier first).map Prod.fst)
  | .nil, _, _, _ => cut_nil
  | .cons op term next, first, grammatical, printable => by
      obtain ⟨here, properTerm, properNext⟩ := grammatical
      obtain ⟨-, others⟩ := AllPrintable.append.mp printable
      obtain ⟨printTerm, printNext⟩ := AllPrintable.append.mp others
      have rest := (term.cut true properTerm printTerm).append (next.cut false properNext printNext)
      rw [TermExp.frontier, List.map_append, List.map_append, expressionUnParse]
      rcases here with ⟨rfl, rfl⟩ | sign
      · exact rest
      · have signCut : Cut (opSymbol op) [.word op] := by
          rcases sign with rfl | rfl
          · exact cut_operator rfl (by decide)
          · exact cut_operator rfl (by decide)
        have notUnset : op ≠ .unset := by
          rcases sign with rfl | rfl
          · decide
          · decide
        have signTokens : (if first then (if op = .unset then [] else [plain op])
            else [(.word op, .binary)] : List Marked).map Prod.fst = [.word op] := by
          cases first
          · rfl
          · rw [if_pos rfl, if_neg notUnset]
            rfl
        rw [if_pos sign, signTokens]
        exact signCut.append rest
end

theorem guard_cut {keyword : Token} (found : resWord.lookup (opSymbol keyword) = some keyword)
    (named : keyword ≠ .nulsym) (glued : Spellable (opSymbol keyword ++ opSymbol .oddsym)) :
    ∀ cond : ConditionNode, cond.Grammatical → AllPrintable cond.frontier →
      Cut (32 :: (opSymbol keyword ++ conditionUnParse cond)) (guardPrinted keyword cond)
  | .odd right, grammatical, printable => by
      have whole := glued.cut.append
        (right.cut true grammatical (AllPrintable.cons.mp printable).2)
      rw [List.cons_append, List.append_assoc] at whole
      exact whole
  | .relOp op left right, grammatical, printable => by
      obtain ⟨relational, properLeft, properRight⟩ := grammatical
      obtain ⟨printLeft, others⟩ := AllPrintable.append.mp printable
      have opCut : Cut (32 :: opSymbol op) [.word op] := by
        rcases relational with rfl | rfl | rfl | rfl | rfl | rfl
        all_goals exact cut_spaced_operator rfl
      have rightCut := right.cut true properRight (AllPrintable.cons.mp others).2
      have whole := (cut_spaced_keyword found named).append
        ((left.cut true properLeft printLeft).append (opCut.append rightCut))
      have parts : conditionUnParse (.relOp op left right) =
          expressionUnParse left ++ (32 :: opSymbol op ++ expressionUnParse right) := rfl
      rw [parts]
      exact whole

theorem ifGuard_cut (cond : ConditionNode) (grammatical : cond.Grammatical)
    (printable : AllPrintable cond.frontier) :
    Cut (32 :: (ascii "if" ++ conditionUnParse cond)) (guardPrinted .ifsym cond) :=
  @guard_cut .ifsym rfl (by decide)
    ⟨⟨105, [102, 111, 100, 100], rfl, rfl, List.all_eq_true.mp rfl⟩, by
      decide, rfl⟩ cond grammatical printable

theorem whileGuard_cut (cond : ConditionNode) (grammatical : cond.Grammatical)
    (printable : AllPrintable cond.frontier) :
    Cut (32 :: (ascii "while" ++ conditionUnParse cond)) (guardPrinted .whilesym cond) :=
  @guard_cut .whilesym rfl (by decide)
    ⟨⟨119, [104, 105, 108, 101, 111, 100, 100], rfl, rfl, List.all_eq_true.mp rfl⟩, by
      decide, rfl⟩ cond
      grammatical printable

theorem cut_semicolon : Cut (ascii ";\n") [.word .semicolonsym] :=
  Cut.line (@cut_operator [59] .semicolonsym rfl (by decide))

theorem cut_then : Cut (ascii " then\n") [.word .thensym] :=
  (@cut_spaced_keyword (ascii "then") .thensym rfl (by decide)).line

theorem nameUnParse_cut {keyword ident : List UInt8} {token : Token}
    (found : resWord.lookup keyword = some token) (named : token ≠ .nulsym)
    (spellable : Spellable ident) (t : Nat) : Cut (nameUnParse keyword ident (t + 1))
      [.word token, .ident ident, .word .semicolonsym] := by
  have whole := (cut_spaced_keyword found named).append (spellable.cut.append cut_semicolon)
  exact cut_indent t whole

mutual
theorem StatementNode.cut : ∀ (s : StatementNode) (t : Nat), s.Grammatical →
    AllPrintable s.frontier → Cut (statementUnParse s (t + 1)) s.printed
  | .empty, _, _, _ => cut_nil
  | .assign ident exp, t, grammatical, printable => by
      obtain ⟨name, others⟩ := AllPrintable.cons.mp printable
      have becomes : Cut (ascii " :=") [.word .becomessym] := cut_spaced_operator rfl
      have value := exp.cut true grammatical (AllPrintable.cons.mp others).2
      have whole := (name.name rfl).cut.append (becomes.append (value.append cut_semicolon))
      exact cut_indent t whole
  | .begin stsList, t, grammatical, printable => by
      have opens : Cut (32 :: ascii "begin\n\n") [.word .beginsym] :=
        (@cut_spaced_keyword (ascii "begin") .beginsym rfl (by decide)).line.line
      have closes : Cut (32 :: ascii "end") [.word .endsym] := cut_spaced_keyword rfl (by decide)
      have body : Cut (statementsUnParse stsList (t + 2)) stsList.printed := by
        have inside := (AllPrintable.append.mp (AllPrintable.cons.mp printable).2).1
        cases stsList with
        | nil => exact cut_nil
        | cons sts next =>
            obtain ⟨first, others⟩ := AllPrintable.append.mp inside
            exact (sts.cut (t + 1) grammatical.1 first).append
              (next.cut _ (t + 1) grammatical.2 others)
      have whole := opens.append (body.append (cut_newline.append (cut_indent t closes)))
      exact cut_indent t whole
  | .ifS cond ifsts, t, grammatical, printable => by
      obtain ⟨printCond, others⟩ := AllPrintable.append.mp (AllPrintable.cons.mp printable).2
      have guard_ := ifGuard_cut cond grammatical.1 printCond
      have branch := ifsts.cut (t + 1) grammatical.2 (AllPrintable.cons.mp others).2
      have whole := guard_.append (cut_then.append branch)
      rw [List.cons_append, List.append_assoc] at whole
      exact cut_indent t whole
  | .ifElse cond ifsts elsests, t, grammatical, printable => by
      obtain ⟨printCond, branches⟩ := AllPrintable.append.mp (AllPrintable.cons.mp printable).2
      obtain ⟨printIf, printElse⟩ :=
        AllPrintable.append.mp (AllPrintable.cons.mp branches).2
      have guard_ := ifGuard_cut cond grammatical.1 printCond
      have branch := ifsts.cut (t + 1) grammatical.2.1 printIf
      have elseWord : Cut (32 :: ascii "else\n") [.word .elsesym] :=
        (@cut_spaced_keyword (ascii "else") .elsesym rfl (by decide)).line
      have other := elsests.cut (t + 1) grammatical.2.2 (AllPrintable.cons.mp printElse).2
      have otherwise := cut_indent t (elseWord.append other)
      have whole := guard_.append (cut_then.append (branch.append otherwise))
      rw [List.cons_append, List.append_assoc] at whole
      exact cut_indent t whole
  | .while cond sts, t, grammatical, printable => by
      obtain ⟨printCond, others⟩ := AllPrintable.append.mp (AllPrintable.cons.mp printable).2
      have guard_ := whileGuard_cut cond grammatical.1 printCond
      have doWord : Cut (ascii " do\n") [.word .dosym] :=
        (@cut_spaced_keyword (ascii "do") .dosym rfl (by decide)).line
      have body := (sts.cut (t + 1) grammatical.2 (AllPrintable.cons.mp others).2).line
      have whole := guard_.append (doWord.append body)
      rw [List.cons_append, List.append_assoc] at whole
      exact cut_indent t whole
  | .read ident, t, _, printable =>
      nameUnParse_cut rfl (by decide)
        ((AllPrintable.cons.mp (AllPrintable.cons.mp printable).2).1.name rfl) t
  | .write ident, t, _, printable =>
      nameUnParse_cut rfl (by decide)
        ((AllPrintable.cons.mp (AllPrintable.cons.mp printable).2).1.name rfl) t
  | .call ident, t, _, printable =>
      nameUnParse_cut rfl (by decide)
        ((AllPrintable.cons.mp (AllPrintable.cons.mp printable).2).1.name rfl) t

theorem StatementList.cut : ∀ (list : StatementList) (ends : Bool) (t : Nat),
    list.Grammatical false → AllPrintable (list.frontierAfter ends) →
      Cut (statementsUnParse list (t + 1)) list.printed
  | .nil, _, _, _, _ => cut_nil
  | .cons sts next, _, t, grammatical, printable => by
      obtain ⟨first, others⟩ := AllPrintable.append.mp (AllPrintable.cons.mp printable).2
      exact (sts.cut t grammatical.1 first).append (next.cut _ t grammatical.2 others)
end

section Declarations

variable {α β : Type} {unParse : α → List UInt8} {item : α → β} {frontier : β → List Marked}

/-- A node is printed as the tokens of its item, behind a blank or a comma. -/
def CutsItem (unParse : α → List UInt8) (item : α → β) (frontier : β → List Marked) : Prop :=
  ∀ (node : α) (c : UInt8), AllPrintable (frontier (item node)) → Divides [c] →
    Cut (c :: unParse node) (wordTokens [c] ++ (frontier (item node)).map Prod.fst)

theorem listUnParse_cut (cuts : CutsItem unParse item frontier) : ∀ (nodes : List α) (node : α)
    (c : UInt8), Divides [c] →
      AllPrintable (frontier (item node) ++ itemsFrontier frontier (nodes.map item)) →
        Cut (c :: (listUnParse unParse (node :: nodes) ++ ascii ";\n")) (wordTokens [c] ++
          (frontier (item node) ++ itemsFrontier frontier (nodes.map item)).map Prod.fst)
  | [], node, c, divides, printable => by
      have whole := (cuts node c (AllPrintable.append.mp printable).1 divides).append cut_semicolon
      rw [List.map_append, ← List.append_assoc]
      exact whole
  | next :: nodes, node, c, divides, printable => by
      obtain ⟨first, others⟩ := AllPrintable.append.mp printable
      have comma : Divides [44] := .comma rfl
      have later := listUnParse_cut cuts nodes next 44 comma (AllPrintable.cons.mp others).2
      have whole := (cuts node c first divides).append later
      have parts : c :: (listUnParse unParse (node :: next :: nodes) ++ ascii ";\n") =
          c :: unParse node ++ 44 :: (listUnParse unParse (next :: nodes) ++ ascii ";\n") := by
        rw [listUnParse, List.append_assoc, List.append_assoc]
        rfl
      rw [parts, List.map_append, ← List.append_assoc]
      exact whole

theorem sectionUnParse_cut (cuts : CutsItem unParse item frontier) {keyword : List UInt8}
    {token : Token} (found : resWord.lookup keyword = some token) (named : token ≠ .nulsym)
    (nodes : List α) (t : Nat)
    (printable : AllPrintable (sectionFrontier token frontier (nodes.map item))) :
    Cut (sectionUnParse keyword unParse nodes (t + 1))
      ((sectionFrontier token frontier (nodes.map item)).map Prod.fst) := by
  cases nodes with
  | nil => exact cut_nil
  | cons node nodes =>
      have items := listUnParse_cut cuts nodes node 32 (.blank isBlank_space)
        (AllPrintable.cons.mp printable).2
      exact cut_indent t ((cut_spaced_keyword found named).append items)

end Declarations

theorem constDecl_cuts :
    CutsItem constDeclUnParse (fun node => (node.ident, node.numer)) constFrontier := by
  intro node c printable divides
  obtain ⟨name, others⟩ := AllPrintable.cons.mp printable
  obtain ⟨ident, identTokens⟩ := (name.name rfl).piece
  obtain ⟨number, numberTokens⟩ :=
    (AllPrintable.cons.mp (AllPrintable.cons.mp others).2).1.printInt
  have nameCut := cut_behind divides ident
  have equals : Cut (ascii " =") [.word .eqlsym] := cut_spaced_operator rfl
  have numberCut := cut_spaced number
  rw [identTokens] at nameCut
  rw [numberTokens] at numberCut
  have whole := nameCut.append (equals.append numberCut)
  rw [List.append_assoc] at whole
  exact whole

theorem varDecl_cuts : CutsItem varDeclUnParse VarDeclNode.ident varFrontier := by
  intro node c printable divides
  obtain ⟨ident, tokens⟩ := ((AllPrintable.cons.mp printable).1.name rfl).piece
  have whole := cut_behind divides ident
  rw [tokens] at whole
  exact whole

mutual
theorem BlockNode.cut : ∀ (block : BlockNode) (t : Nat), block.tree.Grammatical →
    AllPrintable block.tree.frontier → Cut (blockUnParse block (t + 1)) block.tree.printed
  | .mk constDecl varDecl procDef statement, t, grammatical, printable => by
      obtain ⟨consts, afterConsts⟩ := AllPrintable.append.mp printable
      obtain ⟨vars, afterVars⟩ := AllPrintable.append.mp afterConsts
      obtain ⟨procs, body⟩ := AllPrintable.append.mp afterVars
      have constCut :=
        sectionUnParse_cut constDecl_cuts (show resWord.lookup (ascii "const") = _ from rfl)
        (by decide) constDecl t consts
      have varCut :=
        sectionUnParse_cut varDecl_cuts (show resWord.lookup (ascii "var") = _ from rfl)
        (by decide) varDecl t vars
      exact constCut.append (varCut.append ((procDef.cut t grammatical.1 procs).append
        (statement.cut t grammatical.2 body)))

theorem ProdefList.cut : ∀ (procDef : ProdefList) (t : Nat), procDef.trees.Grammatical →
    AllPrintable procDef.trees.frontier →
      Cut (proceduresUnParse procDef (t + 1)) procDef.trees.printed
  | .nil, _, _, _ => cut_nil
  | .cons ident _ _ _ body next, t, grammatical, printable => by
      obtain ⟨name, opens⟩ := AllPrintable.cons.mp (AllPrintable.cons.mp printable).2
      obtain ⟨inside, closes⟩ := AllPrintable.append.mp (AllPrintable.cons.mp opens).2
      have procWord : Cut (32 :: ascii "procedure") [.word .procsym] :=
        cut_spaced_keyword rfl (by decide)
      have bodyCut := body.cut (t + 1) grammatical.1 inside
      have nextCut := next.cut t grammatical.2 (AllPrintable.cons.mp closes).2
      have whole := procWord.append ((name.name rfl).cut.append (cut_semicolon.append
        (bodyCut.append (cut_semicolon.append nextCut))))
      exact cut_indent t whole
end

/-- The text of a program is cut into the tokens that are printed. -/
theorem programUnParse_cut (block : BlockNode) (grammatical : block.tree.Grammatical)
    (printable : AllPrintable block.tree.frontier) :
    Cut (programUnParse block) (block.tree.printed ++ [.word .periodsym]) :=
  (block.cut 0 grammatical printable).append
    (Cut.line (@cut_operator [46] .periodsym rfl (by decide)))

theorem tokenOf_normal (entry : LexemeEntry) : (tokenOf entry).normal = tokenOf entry := by
  unfold tokenOf
  split
  · rfl
  · split
    · rfl
    · rename_i notIdent notNumber
      rw [CurrentToken.normal]
      exact (if_neg notIdent).trans (if_neg notNumber)

theorem identEntry_no_comment {word : Name} {entry : LexemeEntry}
    (made : identEntry word = some entry) : entry.type ≠ .commentsym := by
  have reserved : ∀ pair ∈ resWord, pair.2 ≠ .commentsym := by decide
  unfold identEntry at made
  split at made
  · cases made
  · rename_i token notNull found
    cases made
    obtain ⟨before, after, whole, -⟩ := List.lookup_eq_some_iff.mp found
    exact reserved (word, token) (by rw [whole]; simp)
  · cases made
    exact fun other => by cases other

/-- No word of a printed text is a comment. -/
theorem Piece.no_comment {word : List UInt8} (piece : Piece word) {entry : LexemeEntry}
    (made : lexemeOf word = some entry) : entry.type ≠ .commentsym := by
  cases piece with
  | blank is =>
      rw [lexemeOf_blank is] at made
      cases made
  | ident is short =>
      obtain ⟨first, more, rfl, alpha, -⟩ := is
      rw [lexemeOf, if_pos alpha] at made
      exact identEntry_no_comment made
  | number is short =>
      obtain ⟨first, more, rfl⟩ := List.exists_cons_of_ne_nil is.1
      have digit := is.2 first List.mem_cons_self
      have notAlpha : ¬ isAlpha first = true := fun alpha => by
        rw [isAlpha_not_digit alpha] at digit
        cases digit
      rw [lexemeOf, if_neg notAlpha, if_pos digit] at made
      cases made
      exact fun other => by cases other
  | operator token is =>
      have tokens := (piece_operator is).2
      rw [wordTokens, made] at tokens
      have same : entry.type = token := by
        have code := congrArg CurrentToken.cToken (List.cons.inj tokens).1
        rw [tokenOf_cToken] at code
        exact code
      rw [same]
      unfold operatorToken at is
      split at is
      all_goals first
        | (cases is
           decide)
        | cases is

theorem Cut.plain {text : List UInt8} {tokens : List CurrentToken} (cut : Cut text tokens) :
    ∀ token ∈ tokens, token.cToken ≠ .commentsym ∧ token.normal = token := by
  obtain ⟨words, -, chained, -, rfl⟩ := cut
  intro token member
  obtain ⟨word, listed, inside⟩ := List.mem_flatMap.mp member
  obtain ⟨entry, made, rfl⟩ := List.mem_map.mp inside
  refine ⟨?_, tokenOf_normal entry⟩
  rw [tokenOf_cToken]
  exact (chained.piece word listed).no_comment (Option.mem_toList.mp made)

end Pl0
