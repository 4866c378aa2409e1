import Pl0.LinkedCells
import Pl0.SymbolTable
import Mathlib.Logic.Function.Basic

set_option autoImplicit false

namespace Pl0

open LinkedCells

/-- A `SymTableNode_T` in memory; its pointers are addresses of other nodes. -/
structure TableNode where
  key : Name
  symNodeList : Option Nat
  tail : Option Nat
  hashValue : Nat
  numsNode : Nat
  nextNode : Nat
  preNode : Nat
  deriving DecidableEq, Repr

/-- The symbol table with its nodes apart from the buckets that point at them, and the
symbols in nodes of their own. -/
structure SymTableMemory where
  numsTable : Nat
  totalNodes : Nat
  numsBucket : Nat
  head : Option Nat
  tail : Option Nat
  buckets : Nat → Option Nat
  tableNodes : List TableNode
  symbolNodes : List (Cell Symbol)

namespace SymTableMemory

def init (bucketCount : Nat) : SymTableMemory :=
  { numsTable := 0, totalNodes := 0, numsBucket := bucketCount, head := none, tail := none,
    buckets := fun _ => none, tableNodes := [], symbolNodes := [] }

def getHashValue (this : SymTableMemory) (key : Name) : Nat :=
  hashcode (symTableInit this.numsBucket) key

def getSymbolTable (this : SymTableMemory) (key : Name) : Option Nat :=
  this.buckets (this.getHashValue key)

/-- The loop of `_contain`. -/
def containFrom (value : Symbol) : Nat → List (Cell Symbol) → Option Nat → Option Bool
  | _, _, none => some false
  | fuel, nodes, some ptr =>
      match nodes[ptr]? with
      | none => none
      | some node =>
          if compareDataType node.value value then some true
          else
            match fuel with
            | 0 => none
            | fuel + 1 => containFrom value fuel nodes node.next

def contain (fuel : Nat) (this : SymTableMemory) (key : Name) (value : Symbol) : Option Bool :=
  match this.getSymbolTable key with
  | none => some false
  | some address =>
      match this.tableNodes[address]? with
      | none => none
      | some node => containFrom value fuel this.symbolNodes node.symNodeList

def modifyNode (this : SymTableMemory) (address : Nat) (change : TableNode → TableNode) :
    SymTableMemory :=
  { this with tableNodes := this.tableNodes.modify address change }

def setNextNode (this : SymTableMemory) (address next : Nat) : SymTableMemory :=
  this.modifyNode address fun node => { node with nextNode := next }

def setPreNode (this : SymTableMemory) (address pre : Nat) : SymTableMemory :=
  this.modifyNode address fun node => { node with preNode := pre }

/-- The branch of `_putSymbol` for a key whose bucket is empty. -/
def newTableNode (this : SymTableMemory) (key : Name) : Option (Nat × SymTableMemory) :=
  let symbolTable := this.tableNodes.length
  let hashValue := this.getHashValue key
  let node : TableNode :=
    { key := key, symNodeList := none, tail := none, hashValue := hashValue, numsNode := 0,
      nextNode := symbolTable, preNode := symbolTable }
  let placed : SymTableMemory :=
    { this with
      tableNodes := this.tableNodes ++ [node]
      buckets := Function.update this.buckets hashValue (some symbolTable)
      numsTable := this.numsTable + 1 }
  if this.numsTable = 0 then
    some (symbolTable, { placed with head := some symbolTable, tail := some symbolTable })
  else
    match this.head, this.tail with
    | some head, some tail =>
        let linked := placed.setNextNode tail symbolTable
        let linked := linked.setNextNode symbolTable head
        let linked := linked.setPreNode head symbolTable
        let linked := linked.setPreNode symbolTable tail
        some (symbolTable, { linked with tail := some symbolTable })
    | _, _ => none

/-- The rest of `_putSymbol`, which links a new node behind the last one of the list. -/
def appendSymbolNode (this : SymTableMemory) (symbolTable : Nat) (value : Symbol) :
    Option SymTableMemory :=
  let newNode := this.symbolNodes.length
  let symbolNodes := this.symbolNodes ++ [⟨value, none⟩]
  match this.tableNodes[symbolTable]? with
  | none => none
  | some node =>
      let counted : SymTableMemory :=
        { this with totalNodes := this.totalNodes + (node.numsNode + 1) }
      match node.symNodeList, node.tail with
      | none, _ =>
          some { counted.modifyNode symbolTable fun n =>
              { n with symNodeList := some newNode, tail := some newNode,
                       numsNode := n.numsNode + 1 } with
            symbolNodes := symbolNodes }
      | some _, some tail =>
          some { counted.modifyNode symbolTable fun n =>
              { n with tail := some newNode, numsNode := n.numsNode + 1 } with
            symbolNodes := setNext symbolNodes tail (some newNode) }
      | some _, none => none

def putSymbol (fuel : Nat) (this : SymTableMemory) (key : Name) (value : Symbol) :
    Option (Bool × SymTableMemory) :=
  if this.numsTable ≥ this.numsBucket then some (false, this)
  else
    match this.contain fuel key value with
    | none => none
    | some true => some (false, this)
    | some false =>
        let found := match this.getSymbolTable key with
          | none => this.newTableNode key
          | some symbolTable => some (symbolTable, this)
        match found with
        | none => none
        | some (symbolTable, this) =>
            (this.appendSymbolNode symbolTable value).map fun this => (true, this)

/-- The calls of a run, with what each of them returned. -/
def putCalls (fuel : Nat) (this : SymTableMemory) :
    List (Name × Symbol) → Option (List Bool × SymTableMemory)
  | [] => some ([], this)
  | (key, value) :: calls =>
      match this.putSymbol fuel key value with
      | none => none
      | some (returned, this) =>
          (this.putCalls fuel calls).map fun (results, this) => (returned :: results, this)

/-- The loop of `SymTable_print` over the ring: the nodes in the order they are printed. -/
def printRing (head : Option Nat) : Nat → SymTableMemory → Option Nat → Option (List Nat)
  | 0, _, _ => none
  | fuel + 1, this, cur =>
      match cur with
      | none => if head = none then some [] else printRing head fuel this none
      | some address =>
          match this.tableNodes[address]? with
          | none => none
          | some node =>
              if some node.nextNode = head then some [address]
              else (printRing head fuel this (some node.nextNode)).map (address :: ·)

end SymTableMemory

end Pl0
