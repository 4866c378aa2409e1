import Pl0.Common

set_option autoImplicit false

namespace Pl0

/-- A node of the table. There is at most one node per bucket, so the address of
a node is the number of its bucket; `tail` points into `symNodeList` by position. -/
structure SymTableNode where
  key : Name
  symNodeList : List Symbol
  tail : Option Nat
  hashValue : Nat
  numsNode : Nat
  nextNode : Nat
  preNode : Nat
  deriving DecidableEq, Repr

structure SymTable where
  numsTable : Nat
  totalNodes : Nat
  numsBucket : Nat
  head : Option Nat
  tail : Option Nat
  buckets : Nat → Option SymTableNode

/-- A `char` of the source is signed, and is widened before it is added. -/
def signedChar (c : UInt8) : UInt64 :=
  if c < 128 then c.toUInt64 else c.toUInt64 - 256

def hashcode (this : SymTable) (key : Name) : Nat :=
  (key.foldl (fun (hash : UInt64) c => ((hash <<< 5) + hash) + signedChar c) 5381).toNat %
    this.numsBucket

def compareDataType (left right : Symbol) : Bool :=
  left.name = right.name && left.kind = right.kind && left.level = right.level &&
    left.addr = right.addr

def getSymbolTable (this : SymTable) (key : Name) : Option SymTableNode :=
  this.buckets (hashcode this key)

def contain (this : SymTable) (key : Name) (value : Symbol) : Bool :=
  match getSymbolTable this key with
  | none => false
  | some node => node.symNodeList.any fun stored => compareDataType stored value

/-- Assign to fields of the node at an address. -/
def SymTable.modifyNode (this : SymTable) (address : Nat) (change : SymTableNode → SymTableNode) :
    SymTable :=
  { this with
    buckets := fun i => if i = address then (this.buckets i).map change else this.buckets i }

/-- The branch of `_putSymbol` for a key whose bucket is empty. -/
def newTableNode (this : SymTable) (key : Name) : SymTable :=
  let hashValue := hashcode this key
  let node : SymTableNode :=
    { key := key, symNodeList := [], tail := none, hashValue := hashValue, numsNode := 0,
      nextNode := hashValue, preNode := hashValue }
  let placed : SymTable :=
    { this with
      buckets := fun i => if i = hashValue then some node else this.buckets i
      numsTable := this.numsTable + 1 }
  match this.numsTable, this.head, this.tail with
  | _ + 1, some head, some tail =>
      let linked := placed.modifyNode tail fun n => { n with nextNode := hashValue }
      let linked := linked.modifyNode hashValue fun n => { n with nextNode := head }
      let linked := linked.modifyNode head fun n => { n with preNode := hashValue }
      let linked := linked.modifyNode hashValue fun n => { n with preNode := tail }
      { linked with tail := some hashValue }
  | _, _, _ => { placed with head := some hashValue, tail := some hashValue }

/-- The rest of `_putSymbol`: link a new node behind the one `tail` points at. -/
def appendSymbolNode (node : SymTableNode) (value : Symbol) : SymTableNode :=
  let symNodeList := match node.symNodeList, node.tail with
    | _ :: _, some tail => node.symNodeList.take (tail + 1) ++ [value]
    | _, _ => [value]
  { node with
    symNodeList := symNodeList
    tail := some (symNodeList.length - 1)
    numsNode := node.numsNode + 1 }

def putSymbol (this : SymTable) (key : Name) (value : Symbol) : Bool × SymTable :=
  if this.numsTable ≥ this.numsBucket then (false, this)
  else if contain this key value then (false, this)
  else
    let table := match getSymbolTable this key with
      | none => newTableNode this key
      | some _ => this
    let numsNode := ((getSymbolTable table key).map (·.numsNode)).getD 0
    let table := table.modifyNode (hashcode table key) (appendSymbolNode · value)
    (true, { table with totalNodes := table.totalNodes + (numsNode + 1) })

/-- One iteration of the loop of `_getSymbol`. -/
def getSymbolStep (currentLevel : Int) (tmp : Option Symbol) (value : Symbol) : Option Symbol :=
  match tmp with
  | none => some value
  | some found =>
      if value.level ≤ currentLevel ∧ value.level - currentLevel > found.level - currentLevel then
        some value
      else tmp

def getSymbol (this : SymTable) (key : Name) (currentLevel : Int) : Option Symbol :=
  match getSymbolTable this key with
  | none => none
  | some node => node.symNodeList.foldl (getSymbolStep currentLevel) none

def symTableInit (bucketCount : Nat) : SymTable :=
  { numsTable := 0, totalNodes := 0, numsBucket := bucketCount, head := none, tail := none,
    buckets := fun _ => none }

/-- The table after a sequence of calls of `putSymbol`, under any keys. -/
def putCalls (this : SymTable) (calls : List (Name × Symbol)) : SymTable :=
  calls.foldl (fun table call => (putSymbol table call.1 call.2).2) this

/-- The table after a sequence of insertions under the symbols' own names, which
is how `makeSymbol` calls `putSymbol`. -/
def putSymbols (this : SymTable) (history : List Symbol) : SymTable :=
  history.foldl (fun table symbol => (putSymbol table symbol.name symbol).2) this

end Pl0
