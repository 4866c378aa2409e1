import Pl0.Common

set_option autoImplicit false

namespace Pl0

/- The `termEList` of an expression and the `factorEList` of a term are linked
lists: the first `op` of an expression is its sign, `unset` when it has none, and
the first `op` of a term is `nulsym`. -/
mutual
inductive FactorNode
  | ident (string : Name)
  | digit (value : Int)
  | exp (termEList : TermExp)

inductive FactorExp
  | nil
  | cons (op : Token) (factor : FactorNode) (next : FactorExp)

inductive TermExp
  | nil
  | cons (op : Token) (factorEList : FactorExp) (next : TermExp)
end

deriving instance DecidableEq for FactorNode, FactorExp, TermExp

inductive ConditionNode
  | odd (right : TermExp)
  | relOp (op : Token) (left right : TermExp)
  deriving DecidableEq

/- `empty` is the node that `calloc` leaves and no statement fills in. -/
mutual
inductive StatementNode
  | empty
  | assign (ident : Name) (exp : TermExp)
  | begin (stsList : StatementList)
  | ifS (cond : ConditionNode) (ifsts : StatementNode)
  | ifElse (cond : ConditionNode) (ifsts elsests : StatementNode)
  | while (cond : ConditionNode) (sts : StatementNode)
  | read (ident : Name)
  | write (ident : Name)
  | call (ident : Name)

inductive StatementList
  | nil
  | cons (sts : StatementNode) (next : StatementList)
end

deriving instance DecidableEq for StatementNode, StatementList

structure ConstDeclNode where
  ident : Name
  numer : Int
  lexical : Int
  paraProc : Int
  addr : Int
  deriving DecidableEq, Repr

structure VarDeclNode where
  ident : Name
  lexical : Int
  paraProc : Int
  addr : Int
  deriving DecidableEq, Repr

mutual
inductive BlockNode
  | mk (constDecl : List ConstDeclNode) (varDecl : List VarDeclNode) (procDef : ProdefList)
      (statement : StatementNode)

inductive ProdefList
  | nil
  | cons (ident : Name) (lexical addr paraProc : Int) (body : BlockNode) (next : ProdefList)
end

deriving instance DecidableEq for BlockNode, ProdefList

namespace BlockNode

def constDecl : BlockNode → List ConstDeclNode
  | .mk constDecl _ _ _ => constDecl

def varDecl : BlockNode → List VarDeclNode
  | .mk _ varDecl _ _ => varDecl

def procDef : BlockNode → ProdefList
  | .mk _ _ procDef _ => procDef

def statement : BlockNode → StatementNode
  | .mk _ _ _ statement => statement

end BlockNode

def ProdefList.append : ProdefList → ProdefList → ProdefList
  | .nil, last => last
  | .cons ident lexical addr paraProc body next, last =>
      .cons ident lexical addr paraProc body (next.append last)

/-- A procedure definition of a program. -/
structure Procedure where
  ident : Name
  lexical : Int
  addr : Int
  paraProc : Int
  body : BlockNode

/- The procedures of a block at every depth, in the order in which they are declared. -/
mutual
def BlockNode.procedures : BlockNode → List Procedure
  | .mk _ _ procDef _ => procDef.procedures

def ProdefList.procedures : ProdefList → List Procedure
  | .nil => []
  | .cons ident lexical addr paraProc body next =>
      ⟨ident, lexical, addr, paraProc, body⟩ :: (body.procedures ++ next.procedures)
end

/- The blocks of a program, each as the chain of the numbers of the blocks around it,
itself first. -/
mutual
def BlockNode.chains : BlockNode → List Int → List (List Int)
  | .mk _ _ procDef _, chain => chain :: procDef.chains chain

def ProdefList.chains : ProdefList → List Int → List (List Int)
  | .nil, _ => []
  | .cons _ _ addr _ body next, outer => body.chains (addr :: outer) ++ next.chains outer
end

theorem ProdefList.procedures_append (first last : ProdefList) :
    (first.append last).procedures = first.procedures ++ last.procedures := by
  match first with
  | .nil => rfl
  | .cons ident lexical addr paraProc body next =>
      simp only [ProdefList.append, ProdefList.procedures,
        ProdefList.procedures_append next last, List.cons_append, List.append_assoc]

theorem ProdefList.chains_append (first last : ProdefList) (outer : List Int) :
    (first.append last).chains outer = first.chains outer ++ last.chains outer := by
  match first with
  | .nil => rfl
  | .cons ident lexical addr paraProc body next =>
      simp only [ProdefList.append, ProdefList.chains, ProdefList.chains_append next last outer,
        List.append_assoc]

/- The first number of a chain is that of the block's procedure. -/
mutual
theorem BlockNode.chains_head (block : BlockNode) (chain : List Int) :
    (block.chains chain).map List.head? =
      chain.head? :: block.procedures.map fun p => some p.addr := by
  match block with
  | .mk constDecl varDecl procDef statement =>
      rw [BlockNode.chains, BlockNode.procedures, List.map_cons,
        ProdefList.chains_head procDef chain]

theorem ProdefList.chains_head (procDef : ProdefList) (outer : List Int) :
    (procDef.chains outer).map List.head? = procDef.procedures.map fun p => some p.addr := by
  match procDef with
  | .nil => rfl
  | .cons ident lexical addr paraProc body next =>
      rw [ProdefList.chains, ProdefList.procedures, List.map_append,
        BlockNode.chains_head body (addr :: outer), ProdefList.chains_head next outer,
        List.map_cons, List.map_append]
      rfl
end

/- The blocks around a block have chains of their own. -/
mutual
theorem BlockNode.chains_tail (block : BlockNode) {start chain : List Int}
    (member : chain ∈ block.chains start) :
    chain = start ∨ ∃ k outer, chain = k :: outer ∧ outer ∈ block.chains start := by
  match block with
  | .mk constDecl varDecl procDef statement =>
      rw [BlockNode.chains] at member ⊢
      rcases List.mem_cons.mp member with rfl | within
      · exact .inl rfl
      · obtain ⟨k, outer, rfl, around⟩ := ProdefList.chains_tail procDef within
        exact .inr ⟨k, outer, rfl, List.mem_cons.mpr around⟩

theorem ProdefList.chains_tail (procDef : ProdefList) {outer chain : List Int}
    (member : chain ∈ procDef.chains outer) :
    ∃ k rest, chain = k :: rest ∧ (rest = outer ∨ rest ∈ procDef.chains outer) := by
  match procDef with
  | .nil => cases member
  | .cons ident lexical addr paraProc body next =>
      rw [ProdefList.chains] at member ⊢
      rcases List.mem_append.mp member with own | later
      · rcases BlockNode.chains_tail body own with rfl | ⟨k, rest, rfl, within⟩
        · exact ⟨addr, outer, rfl, .inl rfl⟩
        · exact ⟨k, rest, rfl, .inr (List.mem_append_left _ within)⟩
      · obtain ⟨k, rest, rfl, around⟩ := ProdefList.chains_tail next later
        exact ⟨k, rest, rfl, around.imp id (List.mem_append_right _)⟩
end

end Pl0
