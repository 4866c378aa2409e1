import Pl0.AstNode
import Pl0.MachineCodeFile

set_option autoImplicit false

namespace Pl0

/- `unParsePrint`: the text of a program, printed from its tree. -/

/-- The characters of a format string. -/
def ascii (format : String) : List UInt8 := format.toUTF8.data.toList

/-- `repeatString` puts a blank between two copies. For no copies it returns NULL, which no
caller asks for. -/
def repeatString (str : List UInt8) : Nat → List UInt8
  | 0 => []
  | 1 => str
  | count + 2 => repeatString str (count + 1) ++ [32] ++ str

def getSpace (count : Nat) : List UInt8 := repeatString [32] count

def opSymbol : Token → List UInt8
  | .unset => ascii " " | .nulsym => ascii "null" | .identsym => ascii "ident"
  | .numbersym => ascii "number" | .plussym => ascii "+" | .minussym => ascii "-"
  | .multsym => ascii "*" | .slashsym => ascii "/" | .oddsym => ascii "odd" | .eqlsym => ascii "="
  | .neqsym => ascii "<>" | .lessym => ascii "<" | .leqsym => ascii "<=" | .gtrsym => ascii ">"
  | .geqsym => ascii ">=" | .lparentsym => ascii "(" | .rparentsym => ascii ")"
  | .commasym => ascii "," | .semicolonsym => ascii ";" | .periodsym => ascii "."
  | .becomessym => ascii ":=" | .beginsym => ascii "begin" | .endsym => ascii "end"
  | .ifsym => ascii "if" | .thensym => ascii "then" | .whilesym => ascii "while"
  | .dosym => ascii "do" | .callsym => ascii "call" | .constsym => ascii "const"
  | .varsym => ascii "var" | .procsym => ascii "procedure" | .writesym => ascii "write"
  | .readsym => ascii "read" | .elsesym => ascii "else" | .commentsym => ascii "commends"

/- `termUnParse` and `expressionUnParse` with the loop bodies `factorExpUnParse` and
`termExpUnParse`. -/
mutual
def factorUnParse : FactorNode → List UInt8
  | .ident string => string
  | .digit value => printInt value
  | .exp exp => ascii "(" ++ (expressionUnParse exp ++ ascii ")")

def termUnParse : FactorExp → List UInt8
  | .nil => []
  | .cons op factor next =>
      getSpace 1 ++ ((if op = .multsym ∨ op = .slashsym then opSymbol op ++ ascii " " else []) ++
        (factorUnParse factor ++ termUnParse next))

def expressionUnParse : TermExp → List UInt8
  | .nil => []
  | .cons op term next =>
      (if op = .plussym ∨ op = .minussym then opSymbol op else []) ++
        (termUnParse term ++ expressionUnParse next)
end

def conditionUnParse : ConditionNode → List UInt8
  | .odd right => ascii "odd" ++ expressionUnParse right
  | .relOp op left right =>
      expressionUnParse left ++ (ascii " " ++ opSymbol op ++ expressionUnParse right)

/-- The statements that are a keyword and a name. -/
def nameUnParse (keyword ident : List UInt8) (t : Nat) : List UInt8 :=
  getSpace t ++ (keyword ++ (ascii " " ++ (ident ++ ascii ";\n")))

mutual
def statementUnParse : StatementNode → Nat → List UInt8
  | .empty, _ => []
  | .assign ident exp, t =>
      getSpace t ++ (ident ++ (ascii " :=" ++ (expressionUnParse exp ++ ascii ";\n")))
  | .begin stsList, t =>
      getSpace t ++ (ascii "begin\n\n" ++ (statementsUnParse stsList (t + 1) ++
        (ascii "\n" ++ (getSpace t ++ ascii "end"))))
  | .ifS cond ifsts, t =>
      getSpace t ++ (ascii "if" ++ (conditionUnParse cond ++ (ascii " then\n" ++
        statementUnParse ifsts (t + 1))))
  | .ifElse cond ifsts elsests, t =>
      getSpace t ++ (ascii "if" ++ (conditionUnParse cond ++ (ascii " then\n" ++
        (statementUnParse ifsts (t + 1) ++ (getSpace t ++ (ascii "else\n" ++
          statementUnParse elsests (t + 1)))))))
  | .while cond sts, t =>
      getSpace t ++ (ascii "while" ++ (conditionUnParse cond ++ (ascii " do\n" ++
        (statementUnParse sts (t + 1) ++ ascii "\n"))))
  | .read ident, t => nameUnParse (ascii "read") ident t
  | .write ident, t => nameUnParse (ascii "write") ident t
  | .call ident, t => nameUnParse (ascii "call") ident t

def statementsUnParse : StatementList → Nat → List UInt8
  | .nil, _ => []
  | .cons sts next, t => statementUnParse sts t ++ statementsUnParse next t
end

def constDeclUnParse (del : ConstDeclNode) : List UInt8 :=
  del.ident ++ (ascii " = " ++ printInt del.numer)

def varDeclUnParse (var : VarDeclNode) : List UInt8 := var.ident

/-- The nodes of a declaration, with a comma in front of each but the first. -/
def listUnParse {α : Type} (unParse : α → List UInt8) : List α → List UInt8
  | [] => []
  | [node] => unParse node
  | node :: next :: nodes => unParse node ++ (ascii "," ++ listUnParse unParse (next :: nodes))

/-- A declaration, if it has a node. -/
def sectionUnParse {α : Type} (keyword : List UInt8) (unParse : α → List UInt8) (nodes : List α)
    (t : Nat) : List UInt8 :=
  if nodes.isEmpty then []
  else getSpace t ++ (keyword ++ (ascii " " ++ (listUnParse unParse nodes ++ ascii ";\n")))

mutual
def blockUnParse : BlockNode → Nat → List UInt8
  | .mk constDecl varDecl procDef statement, t =>
      sectionUnParse (ascii "const") constDeclUnParse constDecl t ++
        (sectionUnParse (ascii "var") varDeclUnParse varDecl t ++
          (proceduresUnParse procDef t ++ statementUnParse statement t))

def proceduresUnParse : ProdefList → Nat → List UInt8
  | .nil, _ => []
  | .cons ident _ _ _ body next, t =>
      getSpace t ++ (ascii "procedure " ++ (ident ++ (ascii ";\n" ++ (blockUnParse body (t + 1) ++
        (ascii ";\n" ++ proceduresUnParse next t)))))
end

/-- What `unParsePrint` writes for the tree of an accepted program, which has one block. -/
def programUnParse (block : BlockNode) : List UInt8 :=
  blockUnParse block 1 ++ ascii ".\n"

end Pl0
