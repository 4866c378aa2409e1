import Pl0.Ebnf
import Pl0.SyntaxTree

set_option autoImplicit false

namespace Pl0

open Ebnf

inductive Nonterminal
  | program | block | statement | condition | relOp | expression | term | factor
  deriving DecidableEq, Repr

abbrev Production := Expr Token Nonterminal

/-- The `ident "=" number` of a constant, and the `ident` of a variable. -/
def constItemRule : List Production :=
  [.terminal .identsym, .terminal .eqlsym, .terminal .numbersym]

def varItemRule : List Production := [.terminal .identsym]

/-- `[ keyword item {"," item} ";"]` -/
def sectionRule (keyword : Token) (item : List Production) : Production :=
  .optional (.sequence (.terminal keyword :: item ++
    [.many (.sequence (.terminal .commasym :: item)), .terminal .semicolonsym]))

/-- `left {(op | op) left}` -/
def operandsRule (operand : Production) (one other : Token) : List Production :=
  [operand, .many (.sequence [.oneOf [.terminal one, .terminal other], operand])]

/-- The alternatives of `statement`. -/
def statementRules : List Production :=
  [.sequence [.terminal .identsym, .terminal .becomessym, .nonterminal .expression],
    .sequence [.terminal .callsym, .terminal .identsym],
    .sequence [.terminal .beginsym, .nonterminal .statement,
      .many (.sequence [.terminal .semicolonsym, .nonterminal .statement]), .terminal .endsym],
    .sequence [.terminal .ifsym, .nonterminal .condition, .terminal .thensym,
      .nonterminal .statement, .optional (.sequence [.terminal .elsesym, .nonterminal .statement])],
    .sequence [.terminal .whilesym, .nonterminal .condition, .terminal .dosym,
      .nonterminal .statement],
    .sequence [.terminal .readsym, .terminal .identsym],
    .sequence [.terminal .writesym, .terminal .identsym]]

/-- The grammar in the comments of `parse.c`, with the else of the comment in
`statementParse`. -/
def grammar : Nonterminal → Production
  | .program => .sequence [.nonterminal .block, .terminal .periodsym]
  | .block => .sequence
      [sectionRule .constsym constItemRule, sectionRule .varsym varItemRule,
        .many (.sequence [.terminal .procsym, .terminal .identsym, .terminal .semicolonsym,
          .nonterminal .block, .terminal .semicolonsym]),
        .nonterminal .statement]
  | .statement => .optional (.oneOf statementRules)
  | .condition => .oneOf
      [.sequence [.terminal .oddsym, .nonterminal .expression],
        .sequence [.nonterminal .expression, .nonterminal .relOp, .nonterminal .expression]]
  | .relOp => .oneOf
      [.terminal .eqlsym, .terminal .neqsym, .terminal .lessym, .terminal .leqsym,
        .terminal .gtrsym, .terminal .geqsym]
  | .expression => .sequence
      (.optional (.oneOf [.terminal .plussym, .terminal .minussym]) ::
        operandsRule (.nonterminal .term) .plussym .minussym)
  | .term => .sequence (operandsRule (.nonterminal .factor) .multsym .slashsym)
  | .factor => .oneOf
      [.terminal .identsym, .terminal .numbersym,
        .sequence [.terminal .lparentsym, .nonterminal .expression, .terminal .rparentsym]]

def Fits (terminal : Token) (token : CurrentToken) : Prop := token.cToken = terminal

/-- The tokens can be derived from the nonterminal. -/
def Sentence (n : Nonterminal) (tokens : List CurrentToken) : Prop :=
  Derives Fits grammar (.nonterminal n) tokens

/-- The tokens are those of a frontier. -/
def Spells (tokens : List CurrentToken) (frontier : List Marked) : Prop :=
  tokens.map CurrentToken.normal = frontier.map Prod.fst

theorem Spells.append {first second : List CurrentToken} {left right : List Marked}
    (one : Spells first left) (two : Spells second right) :
    Spells (first ++ second) (left ++ right) := by
  unfold Spells at one two ⊢
  rw [List.map_append, List.map_append, one, two]

theorem Spells.cons {first rest : List CurrentToken} {head : Marked} {tail : List Marked}
    (one : Spells first [head]) (two : Spells rest tail) : Spells (first ++ rest) (head :: tail) :=
  one.append two

theorem spells_nil : Spells [] [] := rfl

theorem spells_word {a : CurrentToken} {token : Token} {mark : Mark} (fit : Fits token a)
    (noName : token ≠ .identsym) (noNumber : token ≠ .numbersym) :
    Spells [a] [(.word token, mark)] := by
  unfold Fits at fit
  subst fit
  have same : a.normal = .word a.cToken := by
    rw [CurrentToken.normal, if_neg noName, if_neg noNumber]
  unfold Spells
  rw [List.map_singleton, same]
  rfl

theorem spells_ident {a : CurrentToken} (fit : Fits .identsym a) :
    Spells [a] [nameToken a.string] := by
  have same : a.normal = .ident a.string := if_pos fit
  unfold Spells
  rw [List.map_singleton, same]
  rfl

theorem spells_number {a : CurrentToken} {mark : Mark} (fit : Fits .numbersym a) :
    Spells [a] [(.number a.numeric, mark)] := by
  have noName : a.cToken ≠ .identsym := by
    rw [show a.cToken = .numbersym from fit]
    decide
  have same : a.normal = .number a.numeric := by
    rw [CurrentToken.normal, if_neg noName, if_pos (show a.cToken = .numbersym from fit)]
  unfold Spells
  rw [List.map_singleton, same]
  rfl

/-- The tokens are the frontier of a tree that the productions of the nonterminal build. -/
def Spelled : Nonterminal → List CurrentToken → Prop
  | .program, tokens => ∃ t : BlockTree, t.Grammatical ∧ Spells tokens t.program
  | .block, tokens => ∃ t : BlockTree, t.Grammatical ∧ Spells tokens t.frontier
  | .statement, tokens => ∃ t : StatementNode, t.Grammatical ∧ Spells tokens t.frontier
  | .condition, tokens => ∃ t : ConditionNode, t.Grammatical ∧ Spells tokens t.frontier
  | .relOp, tokens => ∃ op, IsRelOp op ∧ Spells tokens [plain op]
  | .expression, tokens => ∃ t : TermExp, t.Grammatical true ∧ Spells tokens (t.frontier true)
  | .term, tokens => ∃ t : FactorExp, t.Grammatical true ∧ Spells tokens (t.frontier true)
  | .factor, tokens => ∃ t : FactorNode, t.Grammatical ∧ Spells tokens t.frontier

section Closed

variable {tokens : List CurrentToken}

/-- A sequence is split into its parts, and each part into its tokens. -/
theorem holds_word {P : Nonterminal → List CurrentToken → Prop} {token : Token}
    {parts : List Production} (noName : token ≠ .identsym)
    (noNumber : token ≠ .numbersym)
    (holds : Ebnf.Holds Fits P (.sequence (.terminal token :: parts)) tokens) :
    ∃ first rest, tokens = first ++ rest ∧ (∀ mark, Spells first [(.word token, mark)]) ∧
      Ebnf.Holds Fits P (.sequence parts) rest := by
  obtain ⟨first, rest, rfl, head, tail⟩ := holds_sequence_cons.mp holds
  obtain ⟨a, rfl, fit⟩ := holds_terminal.mp head
  exact ⟨[a], rest, rfl, fun _ => spells_word fit noName noNumber, tail⟩

theorem holds_name {P : Nonterminal → List CurrentToken → Prop} {parts : List Production}
    (holds : Ebnf.Holds Fits P (.sequence (.terminal .identsym :: parts)) tokens) :
    ∃ name first rest, tokens = first ++ rest ∧ Spells first [nameToken name] ∧
      Ebnf.Holds Fits P (.sequence parts) rest := by
  obtain ⟨first, rest, rfl, head, tail⟩ := holds_sequence_cons.mp holds
  obtain ⟨a, rfl, fit⟩ := holds_terminal.mp head
  exact ⟨a.string, [a], rest, rfl, spells_ident fit, tail⟩

theorem holds_part {P : Nonterminal → List CurrentToken → Prop} {n : Nonterminal}
    {parts : List Production}
    (holds : Ebnf.Holds Fits P (.sequence (.nonterminal n :: parts)) tokens) :
    ∃ first rest, tokens = first ++ rest ∧ P n first ∧
      Ebnf.Holds Fits P (.sequence parts) rest := by
  obtain ⟨first, rest, rfl, head, tail⟩ := holds_sequence_cons.mp holds
  exact ⟨first, rest, rfl, holds_nonterminal.mp head, tail⟩

/-- One of two operators. -/
theorem holds_operator {P : Nonterminal → List CurrentToken → Prop} {one other : Token}
    {mark : Mark} (words : (one ≠ .identsym ∧ one ≠ .numbersym) ∧ other ≠ .identsym ∧
      other ≠ .numbersym)
    (holds : Ebnf.Holds Fits P (.oneOf [.terminal one, .terminal other]) tokens) :
    ∃ op, (op = one ∨ op = other) ∧ Spells tokens [(.word op, mark)] := by
  obtain ⟨choice, member, chosen⟩ := holds_oneOf.mp holds
  rcases List.mem_cons.mp member with rfl | member
  · obtain ⟨a, rfl, fit⟩ := holds_terminal.mp chosen
    exact ⟨one, .inl rfl, spells_word fit words.1.1 words.1.2⟩
  · obtain rfl := List.mem_singleton.mp member
    obtain ⟨a, rfl, fit⟩ := holds_terminal.mp chosen
    exact ⟨other, .inr rfl, spells_word fit words.2.1 words.2.2⟩

theorem closed_factor (holds : Ebnf.Holds Fits Spelled (grammar .factor) tokens) :
    Spelled .factor tokens := by
  obtain ⟨choice, member, chosen⟩ := holds_oneOf.mp holds
  simp only [List.mem_cons, List.not_mem_nil, or_false] at member
  rcases member with rfl | rfl | rfl
  · obtain ⟨a, rfl, fit⟩ := holds_terminal.mp chosen
    exact ⟨.ident a.string, trivial, spells_ident fit⟩
  · obtain ⟨a, rfl, fit⟩ := holds_terminal.mp chosen
    exact ⟨.digit a.numeric, trivial, spells_number fit⟩
  · obtain ⟨left, rest, rfl, opens, inside⟩ := holds_word (by decide) (by decide) chosen
    obtain ⟨inner, rest, rfl, ⟨e, grammatical, spelled⟩, behind⟩ := holds_part inside
    obtain ⟨right, rest, rfl, closes, last⟩ := holds_word (by decide) (by decide) behind
    have nothing := holds_sequence_nil.mp last
    subst nothing
    rw [List.append_nil]
    exact ⟨.exp e, grammatical, (opens _).cons (spelled.append (closes _))⟩

theorem factors_of_parts : ∀ {texts : List (List CurrentToken)},
    (∀ part ∈ texts, Ebnf.Holds Fits Spelled (.sequence
      [.oneOf [.terminal .multsym, .terminal .slashsym], .nonterminal .factor]) part) →
    ∃ e : FactorExp, e.Grammatical false ∧ Spells texts.flatten (e.frontier false)
  | [], _ => ⟨.nil, rfl, spells_nil⟩
  | part :: texts, parts => by
      obtain ⟨next, others⟩ := List.forall_mem_cons.mp parts
      obtain ⟨e, grammatical, spelled⟩ := factors_of_parts others
      obtain ⟨sign, rest, rfl, operator, operand⟩ := holds_sequence_cons.mp next
      obtain ⟨op, isOp, signed⟩ := @holds_operator _ _ _ _ .binary (by decide) operator
      obtain ⟨inner, rest, rfl, ⟨f, proper, named⟩, last⟩ := holds_part operand
      have nothing := holds_sequence_nil.mp last
      subst nothing
      refine ⟨.cons op f e, ⟨?_, proper, grammatical⟩, ?_⟩
      · exact isOp
      · rw [List.flatten_cons, List.append_nil, List.append_assoc]
        exact signed.append (named.append spelled)

theorem closed_term (holds : Ebnf.Holds Fits Spelled (grammar .term) tokens) :
    Spelled .term tokens := by
  obtain ⟨first, rest, rfl, ⟨f, proper, named⟩, later⟩ := holds_part holds
  obtain ⟨more, rest, rfl, others, last⟩ := holds_sequence_cons.mp later
  obtain ⟨texts, rfl, parts⟩ := holds_many.mp others
  obtain ⟨e, grammatical, spelled⟩ := factors_of_parts parts
  have nothing := holds_sequence_nil.mp last
  subst nothing
  rw [List.append_nil]
  exact ⟨.cons .nulsym f e, ⟨rfl, proper, grammatical⟩, named.append spelled⟩

theorem terms_of_parts : ∀ {texts : List (List CurrentToken)},
    (∀ part ∈ texts, Ebnf.Holds Fits Spelled (.sequence
      [.oneOf [.terminal .plussym, .terminal .minussym], .nonterminal .term]) part) →
    ∃ e : TermExp, e.Grammatical false ∧ Spells texts.flatten (e.frontier false)
  | [], _ => ⟨.nil, rfl, spells_nil⟩
  | part :: texts, parts => by
      obtain ⟨next, others⟩ := List.forall_mem_cons.mp parts
      obtain ⟨e, grammatical, spelled⟩ := terms_of_parts others
      obtain ⟨sign, rest, rfl, operator, operand⟩ := holds_sequence_cons.mp next
      obtain ⟨op, isOp, signed⟩ := @holds_operator _ _ _ _ .binary (by decide) operator
      obtain ⟨inner, rest, rfl, ⟨t, proper, named⟩, last⟩ := holds_part operand
      have nothing := holds_sequence_nil.mp last
      subst nothing
      refine ⟨.cons op t e, ⟨.inr isOp, proper, grammatical⟩, ?_⟩
      rw [List.flatten_cons, List.append_nil, List.append_assoc]
      exact signed.append (named.append spelled)

theorem closed_expression (holds : Ebnf.Holds Fits Spelled (grammar .expression) tokens) :
    Spelled .expression tokens := by
  obtain ⟨sign, rest, rfl, signs, signed⟩ := holds_sequence_cons.mp holds
  obtain ⟨first, rest, rfl, ⟨t, proper, named⟩, later⟩ := holds_part signed
  obtain ⟨more, rest, rfl, others, last⟩ := holds_sequence_cons.mp later
  obtain ⟨texts, rfl, parts⟩ := holds_many.mp others
  obtain ⟨e, grammatical, spelled⟩ := terms_of_parts parts
  have nothing := holds_sequence_nil.mp last
  subst nothing
  rw [List.append_nil]
  rcases holds_optional.mp signs with rfl | present
  · exact ⟨.cons .unset t e, ⟨.inl ⟨rfl, rfl⟩, proper, grammatical⟩, named.append spelled⟩
  · obtain ⟨op, isOp, signed⟩ := @holds_operator _ _ _ _ .plain (by decide) present
    refine ⟨.cons op t e, ⟨.inr isOp, proper, grammatical⟩, ?_⟩
    have signIsOp : op ≠ .unset := by
      rcases isOp with rfl | rfl <;> decide
    rw [TermExp.frontier, if_pos rfl, if_neg signIsOp]
    exact signed.append (named.append spelled)

theorem closed_relOp (holds : Ebnf.Holds Fits Spelled (grammar .relOp) tokens) :
    Spelled .relOp tokens := by
  obtain ⟨choice, member, chosen⟩ := holds_oneOf.mp holds
  simp only [List.mem_cons, List.not_mem_nil, or_false] at member
  rcases member with rfl | rfl | rfl | rfl | rfl | rfl
  all_goals
    obtain ⟨a, rfl, fit⟩ := holds_terminal.mp chosen
    exact ⟨_, by simp [IsRelOp], spells_word fit (by decide) (by decide)⟩

theorem closed_condition (holds : Ebnf.Holds Fits Spelled (grammar .condition) tokens) :
    Spelled .condition tokens := by
  obtain ⟨choice, member, chosen⟩ := holds_oneOf.mp holds
  simp only [List.mem_cons, List.not_mem_nil, or_false] at member
  rcases member with rfl | rfl
  · obtain ⟨odd, rest, rfl, starts, behind⟩ := holds_word (by decide) (by decide) chosen
    obtain ⟨inner, rest, rfl, ⟨e, grammatical, spelled⟩, last⟩ := holds_part behind
    have nothing := holds_sequence_nil.mp last
    subst nothing
    rw [List.append_nil]
    exact ⟨.odd e, grammatical, (starts _).cons spelled⟩
  · obtain ⟨left, rest, rfl, ⟨a, grammaticalA, spelledA⟩, behind⟩ := holds_part chosen
    obtain ⟨sign, rest, rfl, ⟨op, isRel, signed⟩, operand⟩ := holds_part behind
    obtain ⟨right, rest, rfl, ⟨b, grammaticalB, spelledB⟩, last⟩ := holds_part operand
    have nothing := holds_sequence_nil.mp last
    subst nothing
    rw [List.append_nil]
    exact ⟨.relOp op a b, ⟨isRel, grammaticalA, grammaticalB⟩,
      spelledA.append (signed.cons spelledB)⟩

theorem statements_of_parts : ∀ {texts : List (List CurrentToken)},
    (∀ part ∈ texts, Ebnf.Holds Fits Spelled (.sequence
      [.terminal .semicolonsym, .nonterminal .statement]) part) →
    ∃ list : StatementList, list.Grammatical false ∧
      ∀ ends, Spells texts.flatten (list.frontierAfter ends)
  | [], _ => ⟨.nil, rfl, fun _ => spells_nil⟩
  | part :: texts, parts => by
      obtain ⟨next, others⟩ := List.forall_mem_cons.mp parts
      obtain ⟨list, grammatical, spelled⟩ := statements_of_parts others
      obtain ⟨semicolon, rest, rfl, separates, behind⟩ := holds_word (by decide) (by decide) next
      obtain ⟨inner, rest, rfl, ⟨sts, proper, named⟩, last⟩ := holds_part behind
      have nothing := holds_sequence_nil.mp last
      subst nothing
      refine ⟨.cons sts list, ⟨proper, grammatical⟩, fun ends => ?_⟩
      rw [List.flatten_cons, List.append_nil, List.append_assoc]
      exact (separates _).cons (named.append (spelled _))

/-- The statements that are a keyword and a name. -/
theorem closed_nameStatement {keyword : Token} (node : Name → StatementNode)
    (noName : keyword ≠ .identsym) (noNumber : keyword ≠ .numbersym)
    (grammatical : ∀ name, (node name).Grammatical)
    (shape : ∀ name, (node name).frontier = [plain keyword, nameToken name])
    (holds : Ebnf.Holds Fits Spelled (.sequence [.terminal keyword, .terminal .identsym]) tokens) :
    Spelled .statement tokens := by
  obtain ⟨word, rest, rfl, starts, behind⟩ := holds_word noName noNumber holds
  obtain ⟨name, second, rest, rfl, named, last⟩ := holds_name behind
  have nothing := holds_sequence_nil.mp last
  subst nothing
  rw [List.append_nil]
  refine ⟨node name, grammatical name, ?_⟩
  rw [shape]
  exact (starts _).cons named

theorem closed_statement (holds : Ebnf.Holds Fits Spelled (grammar .statement) tokens) :
    Spelled .statement tokens := by
  rcases holds_optional.mp holds with rfl | present
  · exact ⟨.empty, trivial, spells_nil⟩
  obtain ⟨choice, member, chosen⟩ := holds_oneOf.mp present
  simp only [statementRules, List.mem_cons, List.not_mem_nil, or_false] at member
  rcases member with rfl | rfl | rfl | rfl | rfl | rfl | rfl
  · obtain ⟨name, first, rest, rfl, named, behind⟩ := holds_name chosen
    obtain ⟨word, rest, rfl, becomes, value⟩ := holds_word (by decide) (by decide) behind
    obtain ⟨inner, rest, rfl, ⟨e, grammatical, spelled⟩, last⟩ := holds_part value
    have nothing := holds_sequence_nil.mp last
    subst nothing
    rw [List.append_nil]
    exact ⟨.assign name e, grammatical, named.cons ((becomes _).cons spelled)⟩
  · exact closed_nameStatement .call (by decide) (by decide) (fun _ => trivial)
      (fun _ => rfl) chosen
  · obtain ⟨word, rest, rfl, starts, behind⟩ := holds_word (by decide) (by decide) chosen
    obtain ⟨inner, rest, rfl, ⟨sts, proper, named⟩, more⟩ := holds_part behind
    obtain ⟨later, rest, rfl, others, closing⟩ := holds_sequence_cons.mp more
    obtain ⟨texts, rfl, parts⟩ := holds_many.mp others
    obtain ⟨list, grammatical, spelled⟩ := statements_of_parts parts
    obtain ⟨close, rest, rfl, ends, last⟩ := holds_word (by decide) (by decide) closing
    have nothing := holds_sequence_nil.mp last
    subst nothing
    rw [List.append_nil, ← List.append_assoc inner]
    exact ⟨.begin (.cons sts list), ⟨proper, grammatical⟩,
      (starts _).cons ((named.append (spelled _)).append (ends _))⟩
  · obtain ⟨word, rest, rfl, starts, behind⟩ := holds_word (by decide) (by decide) chosen
    obtain ⟨test, rest, rfl, ⟨cond, proper, tested⟩, taken⟩ := holds_part behind
    obtain ⟨keyword, rest, rfl, then_, body⟩ := holds_word (by decide) (by decide) taken
    obtain ⟨inner, rest, rfl, ⟨sts, grammatical, named⟩, more⟩ := holds_part body
    obtain ⟨branch, rest, rfl, others, last⟩ := holds_sequence_cons.mp more
    have nothing := holds_sequence_nil.mp last
    subst nothing
    rw [List.append_nil]
    rcases holds_optional.mp others with rfl | other
    · rw [List.append_nil]
      exact ⟨.ifS cond sts, ⟨proper, grammatical⟩,
        (starts _).cons (tested.append ((then_ _).cons named))⟩
    · obtain ⟨elseWord, rest, rfl, else_, otherwise⟩ := holds_word (by decide) (by decide) other
      obtain ⟨second, rest, rfl, ⟨elsests, grammatical', named'⟩, last'⟩ := holds_part otherwise
      have nothing := holds_sequence_nil.mp last'
      subst nothing
      rw [List.append_nil]
      exact ⟨.ifElse cond sts elsests, ⟨proper, grammatical, grammatical'⟩,
        (starts _).cons (tested.append ((then_ _).cons (named.append ((else_ _).cons named'))))⟩
  · obtain ⟨word, rest, rfl, starts, behind⟩ := holds_word (by decide) (by decide) chosen
    obtain ⟨test, rest, rfl, ⟨cond, proper, tested⟩, taken⟩ := holds_part behind
    obtain ⟨keyword, rest, rfl, do_, body⟩ := holds_word (by decide) (by decide) taken
    obtain ⟨inner, rest, rfl, ⟨sts, grammatical, named⟩, last⟩ := holds_part body
    have nothing := holds_sequence_nil.mp last
    subst nothing
    rw [List.append_nil]
    exact ⟨.while cond sts, ⟨proper, grammatical⟩,
      (starts _).cons (tested.append ((do_ _).cons named))⟩
  · exact closed_nameStatement .read (by decide) (by decide) (fun _ => trivial)
      (fun _ => rfl) chosen
  · exact closed_nameStatement .write (by decide) (by decide) (fun _ => trivial)
      (fun _ => rfl) chosen

/-- A rule for an item spells the items of this frontier. -/
def ItemRule {β : Type} (item : List Production) (frontier : β → List Marked) : Prop :=
  ∀ {parts : List Production} {tokens : List CurrentToken},
    Ebnf.Holds Fits Spelled (.sequence (item ++ parts)) tokens →
      ∃ b first rest, tokens = first ++ rest ∧ Spells first (frontier b) ∧
        Ebnf.Holds Fits Spelled (.sequence parts) rest

theorem constItem_rule : ItemRule constItemRule constFrontier := by
  intro parts tokens holds
  obtain ⟨name, first, rest, rfl, named, behind⟩ := holds_name holds
  obtain ⟨word, rest, rfl, equals, value⟩ := holds_word (by decide) (by decide) behind
  obtain ⟨last, rest, rfl, number, others⟩ := holds_sequence_cons.mp value
  obtain ⟨a, rfl, fit⟩ := holds_terminal.mp number
  refine ⟨(name, a.numeric), first ++ (word ++ [a]), rest, ?_, ?_, others⟩
  · simp only [List.append_assoc]
  · exact named.cons ((equals _).cons (spells_number fit))

theorem varItem_rule : ItemRule varItemRule varFrontier := by
  intro parts tokens holds
  obtain ⟨name, first, rest, rfl, named, behind⟩ := holds_name holds
  exact ⟨name, first, rest, rfl, named, behind⟩

theorem items_of_parts {β : Type} {item : List Production} {frontier : β → List Marked}
    (rule : ItemRule item frontier) {close : List CurrentToken}
    (closes : Spells close [plain .semicolonsym]) : ∀ {texts : List (List CurrentToken)},
    (∀ part ∈ texts, Ebnf.Holds Fits Spelled (.sequence (.terminal .commasym :: item)) part) →
    ∃ items, Spells (texts.flatten ++ close) (itemsFrontier frontier items)
  | [], _ => ⟨[], closes⟩
  | part :: texts, parts => by
      obtain ⟨next, others⟩ := List.forall_mem_cons.mp parts
      obtain ⟨items, spelled⟩ := items_of_parts rule closes others
      obtain ⟨comma, rest, rfl, separates, behind⟩ := holds_word (by decide) (by decide) next
      rw [← List.append_nil item] at behind
      obtain ⟨b, inner, rest, rfl, named, last⟩ := rule behind
      have nothing := holds_sequence_nil.mp last
      subst nothing
      refine ⟨b :: items, ?_⟩
      rw [List.flatten_cons, List.append_nil, List.append_assoc, List.append_assoc]
      exact (separates _).cons (named.append spelled)

theorem section_of_rule {β : Type} {keyword : Token} {item : List Production}
    {frontier : β → List Marked} (rule : ItemRule item frontier) (noName : keyword ≠ .identsym)
    (noNumber : keyword ≠ .numbersym)
    (holds : Ebnf.Holds Fits Spelled (sectionRule keyword item) tokens) :
    ∃ items, Spells tokens (sectionFrontier keyword frontier items) := by
  rcases holds_optional.mp holds with rfl | present
  · exact ⟨[], spells_nil⟩
  · obtain ⟨word, rest, rfl, starts, behind⟩ := holds_word noName noNumber present
    obtain ⟨b, first, rest, rfl, named, more⟩ := rule behind
    obtain ⟨later, rest, rfl, others, closing⟩ := holds_sequence_cons.mp more
    obtain ⟨texts, rfl, parts⟩ := holds_many.mp others
    obtain ⟨close, rest, rfl, closes, last⟩ := holds_word (by decide) (by decide) closing
    have nothing := holds_sequence_nil.mp last
    subst nothing
    obtain ⟨items, spelled⟩ := items_of_parts rule (closes .plain) parts
    rw [List.append_nil]
    exact ⟨b :: items, (starts _).cons (named.append spelled)⟩

theorem procs_of_parts : ∀ {texts : List (List CurrentToken)},
    (∀ part ∈ texts, Ebnf.Holds Fits Spelled (.sequence [.terminal .procsym, .terminal .identsym,
      .terminal .semicolonsym, .nonterminal .block, .terminal .semicolonsym]) part) →
    ∃ procs : ProcTrees, procs.Grammatical ∧ Spells texts.flatten procs.frontier
  | [], _ => ⟨.nil, trivial, spells_nil⟩
  | part :: texts, parts => by
      obtain ⟨next, others⟩ := List.forall_mem_cons.mp parts
      obtain ⟨procs, grammatical, spelled⟩ := procs_of_parts others
      obtain ⟨word, rest, rfl, starts, behind⟩ := holds_word (by decide) (by decide) next
      obtain ⟨name, first, rest, rfl, named, head⟩ := holds_name behind
      obtain ⟨semicolon, rest, rfl, opens, body⟩ := holds_word (by decide) (by decide) head
      obtain ⟨inner, rest, rfl, ⟨block, proper, blocked⟩, closing⟩ := holds_part body
      obtain ⟨close, rest, rfl, closes, last⟩ := holds_word (by decide) (by decide) closing
      have nothing := holds_sequence_nil.mp last
      subst nothing
      refine ⟨.cons name block procs, ⟨proper, grammatical⟩, ?_⟩
      simp only [List.flatten_cons, List.append_nil, List.append_assoc]
      exact (starts _).cons (named.cons ((opens _).cons (blocked.append ((closes _).cons spelled))))

theorem closed_block (holds : Ebnf.Holds Fits Spelled (grammar .block) tokens) :
    Spelled .block tokens := by
  obtain ⟨constPart, rest, rfl, constsHold, afterConsts⟩ := holds_sequence_cons.mp holds
  obtain ⟨varPart, rest, rfl, varsHold, afterVars⟩ := holds_sequence_cons.mp afterConsts
  obtain ⟨procPart, rest, rfl, procsHold, body⟩ := holds_sequence_cons.mp afterVars
  obtain ⟨inner, rest, rfl, ⟨statement, grammatical, spelled⟩, last⟩ := holds_part body
  have nothing := holds_sequence_nil.mp last
  subst nothing
  obtain ⟨consts, constsSpelled⟩ :=
    section_of_rule constItem_rule (by decide) (by decide) constsHold
  obtain ⟨vars, varsSpelled⟩ := section_of_rule varItem_rule (by decide) (by decide) varsHold
  obtain ⟨texts, rfl, parts⟩ := holds_many.mp procsHold
  obtain ⟨procs, proper, procsSpelled⟩ := procs_of_parts parts
  rw [List.append_nil]
  exact ⟨.mk consts vars procs statement, ⟨proper, grammatical⟩,
    constsSpelled.append (varsSpelled.append (procsSpelled.append spelled))⟩

theorem closed_program (holds : Ebnf.Holds Fits Spelled (grammar .program) tokens) :
    Spelled .program tokens := by
  obtain ⟨inner, rest, rfl, ⟨block, grammatical, spelled⟩, closing⟩ := holds_part holds
  obtain ⟨period, rest, rfl, ends, last⟩ := holds_word (by decide) (by decide) closing
  have nothing := holds_sequence_nil.mp last
  subst nothing
  rw [List.append_nil]
  exact ⟨block, grammatical, spelled.append (ends _)⟩

end Closed

/-- What can be derived from a nonterminal is the frontier of a tree. -/
theorem Sentence.spelled {n : Nonterminal} {tokens : List CurrentToken}
    (sentence : Sentence n tokens) : Spelled n tokens := by
  refine holds_nonterminal.mp (sentence.holds fun n text holds => ?_)
  cases n with
  | program => exact closed_program holds
  | block => exact closed_block holds
  | statement => exact closed_statement holds
  | condition => exact closed_condition holds
  | relOp => exact closed_relOp holds
  | expression => exact closed_expression holds
  | term => exact closed_term holds
  | factor => exact closed_factor holds

/-- The tokens of a frontier, as a derivation uses them. -/
def tokens (frontier : List Marked) : List CurrentToken := frontier.map Prod.fst

abbrev Derived (e : Production) (frontier : List Marked) : Prop :=
  Derives Fits grammar e (tokens frontier)

section Derived

variable {parts : List Production} {rest : List Marked}

theorem Derived.word {token : Token} (mark : Mark) (others : Derived (.sequence parts) rest) :
    Derived (.sequence (.terminal token :: parts)) ((.word token, mark) :: rest) :=
  .sequenceCons (.terminal (show Fits token (.word token) from rfl)) others

theorem Derived.after (keyword : Token) (others : Derived (.sequence parts) rest) :
    Derived (.sequence (.terminal keyword :: parts)) (plain keyword :: rest) :=
  .word .plain others

theorem Derived.name (name : Name) (others : Derived (.sequence parts) rest) :
    Derived (.sequence (.terminal .identsym :: parts)) (nameToken name :: rest) :=
  .sequenceCons (.terminal (show Fits .identsym (.ident name) from rfl)) others

theorem Derived.number (value : Int) (others : Derived (.sequence parts) rest) :
    Derived (.sequence (.terminal .numbersym :: parts)) ((.number value, .plain) :: rest) :=
  .sequenceCons (.terminal (show Fits .numbersym (.number value) from rfl)) others

theorem Derived.part {part : Production} {frontier : List Marked} (head : Derived part frontier)
    (others : Derived (.sequence parts) rest) :
    Derived (.sequence (part :: parts)) (frontier ++ rest) := by
  unfold Derived tokens
  rw [List.map_append]
  exact .sequenceCons head others

theorem Derived.last {part : Production} {frontier : List Marked} (head : Derived part frontier) :
    Derived (.sequence [part]) frontier := by
  rw [← List.append_nil frontier]
  exact head.part .sequenceNil

theorem Derived.done : Derived (.sequence []) [] := .sequenceNil

theorem Derived.more {body : Production} {frontier : List Marked} (head : Derived body frontier)
    (others : Derived (.many body) rest) : Derived (.many body) (frontier ++ rest) := by
  unfold Derived tokens
  rw [List.map_append]
  exact .manyCons head others

theorem Derived.rule {n : Nonterminal} (body : Derived (grammar n) rest) :
    Derived (.nonterminal n) rest := .nonterminal body

theorem Derived.choice {choices : List Production} (choice : Production)
    (chosen : Derived choice rest) (member : choice ∈ choices) : Derived (.oneOf choices) rest :=
  .oneOf member chosen

theorem Derived.operator {one other op : Token} (mark : Mark) (isOp : op = one ∨ op = other) :
    Derived (.oneOf [.terminal one, .terminal other]) [(.word op, mark)] := by
  refine .choice (.terminal op) (.terminal rfl) ?_
  rcases isOp with rfl | rfl <;> simp

mutual
theorem FactorNode.derived : ∀ (f : FactorNode), f.Grammatical →
    Derived (.nonterminal .factor) f.frontier
  | .ident name, _ => .rule (.choice (.terminal .identsym) (.terminal rfl) (by simp))
  | .digit value, _ => .rule (.choice (.terminal .numbersym) (.terminal rfl) (by simp))
  | .exp e, grammatical => .rule (.choice
      (.sequence [.terminal .lparentsym, .nonterminal .expression, .terminal .rparentsym])
      (.word .plain ((e.derived grammatical).part (.word .closeParen .done))) (by simp))

theorem FactorExp.derivedTerm : ∀ (e : FactorExp), e.Grammatical true →
    Derived (.nonterminal .term) (e.frontier true)
  | .nil, grammatical => by cases grammatical
  | .cons op f next, ⟨_, proper, others⟩ =>
      .rule ((f.derived proper).part (Derived.last (next.derivedMore others)))

theorem FactorExp.derivedMore : ∀ (e : FactorExp), e.Grammatical false →
    Derived (.many (.sequence [.oneOf [.terminal .multsym, .terminal .slashsym],
      .nonterminal .factor])) (e.frontier false)
  | .nil, _ => .manyNil
  | .cons op f next, ⟨isOp, proper, others⟩ => by
      have item : Derived _ ((CurrentToken.word op, .binary) :: f.frontier) :=
        (Derived.operator .binary isOp).part (Derived.last (f.derived proper))
      exact item.more (next.derivedMore others)

theorem TermExp.derived : ∀ (e : TermExp), e.Grammatical true →
    Derived (.nonterminal .expression) (e.frontier true)
  | .nil, grammatical => by cases grammatical
  | .cons op t next, ⟨isOp, proper, others⟩ => by
      refine .rule ?_
      have operands : Derived _ (t.frontier true ++ next.frontier false) :=
        (t.derivedTerm proper).part (Derived.last (next.derivedMore others))
      rw [TermExp.frontier, if_pos rfl]
      rcases isOp with ⟨-, rfl⟩ | sign
      · exact Derived.part (show Derived _ [] from .optionalNone) operands
      · have signIsOp : op ≠ .unset := by
          rcases sign with rfl | rfl <;> decide
        rw [if_neg signIsOp]
        exact Derived.part (show Derived _ [plain op] from
          .optionalSome (Derived.operator .plain sign)) operands

theorem TermExp.derivedMore : ∀ (e : TermExp), e.Grammatical false →
    Derived (.many (.sequence [.oneOf [.terminal .plussym, .terminal .minussym],
      .nonterminal .term])) (e.frontier false)
  | .nil, _ => .manyNil
  | .cons op t next, ⟨isOp, proper, others⟩ => by
      have sign : op = .plussym ∨ op = .minussym := by
        rcases isOp with ⟨never, -⟩ | sign
        · cases never
        · exact sign
      have item : Derived _ ((CurrentToken.word op, .binary) :: t.frontier true) :=
        (Derived.operator .binary sign).part (Derived.last (t.derivedTerm proper))
      exact item.more (next.derivedMore others)
end

theorem ConditionNode.derived : ∀ (c : ConditionNode), c.Grammatical →
    Derived (.nonterminal .condition) c.frontier
  | .odd e, grammatical => .rule (.choice (.sequence [.terminal .oddsym, .nonterminal .expression])
      (.word .plain (Derived.last (e.derived grammatical))) (by simp))
  | .relOp op left right, ⟨isRel, grammaticalL, grammaticalR⟩ => by
      have relation : Derived (.nonterminal .relOp) [plain op] := by
        refine .rule (.choice (.terminal op) (.terminal rfl) ?_)
        rcases isRel with rfl | rfl | rfl | rfl | rfl | rfl <;> simp
      refine .rule (.choice
        (.sequence [.nonterminal .expression, .nonterminal .relOp, .nonterminal .expression])
        ?_ (by simp))
      exact (left.derived grammaticalL).part
        (relation.part (Derived.last (right.derived grammaticalR)))

theorem Derived.statement {choice : Production} {frontier : List Marked}
    (chosen : Derived choice frontier) (member : choice ∈ statementRules) :
    Derived (.nonterminal .statement) frontier :=
  .rule (.optionalSome (Derived.choice choice chosen member))

mutual
theorem StatementNode.derived : ∀ (s : StatementNode), s.Grammatical →
    Derived (.nonterminal .statement) s.frontier
  | .empty, _ => .rule .optionalNone
  | .assign name e, grammatical => by
      have value : Derived (.sequence [.nonterminal .expression]) (e.frontier true) :=
        Derived.last (e.derived grammatical)
      exact .statement (.name name (.word .becomes value)) (by simp [statementRules])
  | .begin list, grammatical => by
      have body := list.derivedBody grammatical
      exact .statement (.word .plain body) (by simp [statementRules])
  | .ifS cond ifsts, ⟨proper, grammatical⟩ => by
      have otherwise : Derived
        (.optional (.sequence [.terminal .elsesym, .nonterminal .statement])) [] :=
        .optionalNone
      have branch := (ifsts.derived grammatical).part (Derived.last otherwise)
      rw [List.append_nil] at branch
      have taken := Derived.after .thensym branch
      exact .statement (.word .plain ((cond.derived proper).part taken)) (by simp [statementRules])
  | .ifElse cond ifsts elsests, ⟨proper, grammatical, grammatical'⟩ => by
      have otherwise : Derived (.optional (.sequence [.terminal .elsesym, .nonterminal .statement]))
          (plain .elsesym :: elsests.frontier) :=
        .optionalSome (Derived.after .elsesym (Derived.last (elsests.derived grammatical')))
      have branch := (ifsts.derived grammatical).part (Derived.last otherwise)
      have taken := Derived.after .thensym branch
      exact .statement (.word .plain ((cond.derived proper).part taken)) (by simp [statementRules])
  | .while cond sts, ⟨proper, grammatical⟩ => by
      have body := Derived.after .dosym (Derived.last (sts.derived grammatical))
      exact .statement (.word .plain ((cond.derived proper).part body)) (by simp [statementRules])
  | .read name, _ => .statement (.word .plain (.name name .done)) (by simp [statementRules])
  | .write name, _ => .statement (.word .plain (.name name .done)) (by simp [statementRules])
  | .call name, _ => .statement (.word .plain (.name name .done)) (by simp [statementRules])

/-- The statements of a begin...end list, with the `end`. -/
theorem StatementList.derivedBody : ∀ (list : StatementList), list.Grammatical true →
    Derived (.sequence [.nonterminal .statement,
      .many (.sequence [.terminal .semicolonsym, .nonterminal .statement]), .terminal .endsym])
      (list.frontier ++ [plain .endsym])
  | .nil, grammatical => by cases grammatical
  | .cons sts next, grammatical => by
      rw [StatementList.frontier, List.append_assoc]
      exact (sts.derived grammatical.1).part
        ((next.derivedMore grammatical.2 sts.endsEmpty).part (.word .plain .done))

theorem StatementList.derivedMore : ∀ (list : StatementList), list.Grammatical false → ∀ ends,
    Derived (.many (.sequence [.terminal .semicolonsym, .nonterminal .statement]))
      (list.frontierAfter ends)
  | .nil, _, _ => .manyNil
  | .cons sts next, grammatical, ends => by
      have item : Derived _ ((CurrentToken.word .semicolonsym,
          Mark.separator (!ends && !sts.isEmpty)) :: sts.frontier) :=
        .word _ (Derived.last (sts.derived grammatical.1))
      exact item.more (next.derivedMore grammatical.2 _)
end

/-- A rule derives the items of this frontier. -/
def ItemDerived {β : Type} (item : List Production) (frontier : β → List Marked) : Prop :=
  ∀ (b : β) {parts : List Production} {rest : List Marked}, Derived (.sequence parts) rest →
    Derived (.sequence (item ++ parts)) (frontier b ++ rest)

theorem constItem_derived : ItemDerived constItemRule constFrontier :=
  fun const _ _ others => .name const.1 (.word .plain (.number const.2 others))

theorem varItem_derived : ItemDerived varItemRule varFrontier :=
  fun name _ _ others => .name name others

theorem items_derived {β : Type} {item : List Production} {frontier : β → List Marked}
    (derived : ItemDerived item frontier) : ∀ items : List β, Derived
      (.sequence [.many (.sequence (.terminal .commasym :: item)), .terminal .semicolonsym])
      (itemsFrontier frontier items)
  | [] => Derived.part (show Derived _ [] from .manyNil) (.after .semicolonsym .done)
  | b :: items => by
      have first : Derived (.sequence (.terminal .commasym :: item))
        (plain .commasym :: frontier b) := by
        have body := derived b Derived.done
        rw [List.append_nil, List.append_nil] at body
        exact .after .commasym body
      have others := items_derived derived items
      unfold Derived tokens at first others ⊢
      rw [itemsFrontier, ← List.cons_append, List.map_append]
      generalize (itemsFrontier frontier items).map Prod.fst = text at others ⊢
      cases others with
      | sequenceCons more last =>
          rw [← List.append_assoc]
          exact .sequenceCons (.manyCons first more) last

theorem section_derived {β : Type} {item : List Production} {frontier : β → List Marked}
    (derived : ItemDerived item frontier) (keyword : Token) : ∀ items : List β,
    Derived (sectionRule keyword item) (sectionFrontier keyword frontier items)
  | [] => .optionalNone
  | b :: items => .optionalSome (Derived.after keyword (derived b (items_derived derived items)))

mutual
theorem BlockTree.derived : ∀ (t : BlockTree), t.Grammatical →
    Derived (.nonterminal .block) t.frontier
  | .mk consts vars procs statement, ⟨proper, grammatical⟩ =>
      .rule ((section_derived constItem_derived .constsym consts).part
        ((section_derived varItem_derived .varsym vars).part
          ((procs.derived proper).part (Derived.last (statement.derived grammatical)))))

theorem ProcTrees.derived : ∀ (t : ProcTrees), t.Grammatical →
    Derived (.many (.sequence [.terminal .procsym, .terminal .identsym, .terminal .semicolonsym,
      .nonterminal .block, .terminal .semicolonsym])) t.frontier
  | .nil, _ => .manyNil
  | .cons ident body next, ⟨proper, grammatical⟩ => by
      have item := Derived.after .procsym (.name ident (.after .semicolonsym
        ((body.derived proper).part (.after .semicolonsym .done))))
      have whole := item.more (next.derived grammatical)
      simp only [List.cons_append, List.append_assoc, List.nil_append] at whole
      exact whole
end

theorem BlockTree.derivedProgram (t : BlockTree) (grammatical : t.Grammatical) :
    Derived (.nonterminal .program) t.program :=
  .rule ((t.derived grammatical).part (.word .period .done))

end Derived

/-- The sentences of the grammar are the texts of its trees. -/
theorem sentence_iff {text : List CurrentToken} : Sentence .program text ↔
    ∃ t : BlockTree, t.Grammatical ∧ Spells text t.program := by
  constructor
  · exact Sentence.spelled
  · rintro ⟨t, grammatical, spelled⟩
    have derived := t.derivedProgram grammatical
    unfold Derived tokens at derived
    rw [← spelled] at derived
    refine derived.of_map fun terminal token fit => ?_
    exact (token.normal_cToken).symm.trans fit

end Pl0
