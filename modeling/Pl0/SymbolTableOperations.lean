import Pl0.SymbolTableSimulation

set_option autoImplicit false

namespace Pl0

open LinkedCells

/-- A call through one of the function pointers of a `SymTable`. -/
inductive SymTableCall
  | putSymbol (key : Name) (value : Symbol)
  | contain (key : Name) (value : Symbol)
  | getSymbol (key : Name) (currentLevel : Int)
  | getNumsOfsymbolWithSameKey (key : Name)
  | getNumsOfsymbolTable
  | getNumsOfsymbol
  | getNumsOfBuckets
  deriving DecidableEq, Repr

inductive Answer
  | boolean (value : Bool)
  | symbol (value : Option Symbol)
  | count (value : Nat)
  deriving DecidableEq, Repr

def getNumsOfsymbolWithSameKey (this : SymTable) (key : Name) : Nat :=
  match getSymbolTable this key with
  | none => 0
  | some symbolTable => symbolTable.numsNode

namespace SymTable

def call (this : SymTable) : SymTableCall → Answer × SymTable
  | .putSymbol key value =>
      let (stored, later) := putSymbol this key value
      (.boolean stored, later)
  | .contain key value => (.boolean (contain this key value), this)
  | .getSymbol key currentLevel => (.symbol (getSymbol this key currentLevel), this)
  | .getNumsOfsymbolWithSameKey key => (.count (getNumsOfsymbolWithSameKey this key), this)
  | .getNumsOfsymbolTable => (.count this.numsTable, this)
  | .getNumsOfsymbol => (.count this.totalNodes, this)
  | .getNumsOfBuckets => (.count this.numsBucket, this)

/-- The answers to a sequence of calls, and the table behind them. -/
def run (this : SymTable) : List SymTableCall → List Answer × SymTable
  | [] => ([], this)
  | c :: rest =>
      let (answer, this) := this.call c
      let (answers, this) := this.run rest
      (answer :: answers, this)

end SymTable

namespace SymTableMemory

/-- The loop of `_getSymbol`. -/
def getSymbolFrom (currentLevel : Int) :
    Nat → List (Cell Symbol) → Option Symbol → Option Nat → Option (Option Symbol)
  | _, _, tmp, none => some tmp
  | 0, _, _, some _ => none
  | fuel + 1, nodes, tmp, some ptr =>
      match nodes[ptr]? with
      | none => none
      | some node => getSymbolFrom currentLevel fuel nodes
          (getSymbolStep currentLevel tmp node.value) node.next

def getSymbol (fuel : Nat) (this : SymTableMemory) (key : Name) (currentLevel : Int) :
    Option (Option Symbol) :=
  match this.getSymbolTable key with
  | none => some none
  | some symbolTable =>
      match this.tableNodes[symbolTable]? with
      | none => none
      | some node => getSymbolFrom currentLevel fuel this.symbolNodes none node.symNodeList

def getNumsOfsymbolWithSameKey (this : SymTableMemory) (key : Name) : Option Nat :=
  match this.getSymbolTable key with
  | none => some 0
  | some symbolTable => this.tableNodes[symbolTable]?.map (·.numsNode)

def call (fuel : Nat) (this : SymTableMemory) : SymTableCall → Option (Answer × SymTableMemory)
  | .putSymbol key value =>
      (this.putSymbol fuel key value).map fun (stored, later) => (.boolean stored, later)
  | .contain key value => (this.contain fuel key value).map fun held => (.boolean held, this)
  | .getSymbol key currentLevel =>
      (this.getSymbol fuel key currentLevel).map fun found => (.symbol found, this)
  | .getNumsOfsymbolWithSameKey key =>
      (this.getNumsOfsymbolWithSameKey key).map fun count => (.count count, this)
  | .getNumsOfsymbolTable => some (.count this.numsTable, this)
  | .getNumsOfsymbol => some (.count this.totalNodes, this)
  | .getNumsOfBuckets => some (.count this.numsBucket, this)

def run (fuel : Nat) (this : SymTableMemory) :
    List SymTableCall → Option (List Answer × SymTableMemory)
  | [] => some ([], this)
  | c :: rest =>
      match this.call fuel c with
      | none => none
      | some (answer, this) =>
          (this.run fuel rest).map fun (answers, this) => (answer :: answers, this)

section

variable {this : SymTableMemory} {items : Nat → List (Nat × Symbol)} {table : SymTable}

theorem getSymbolFrom_returns (currentLevel : Int) {nodes : List (Cell Symbol)}
    {start : Option Nat} {list : List (Nat × Symbol)} (chain : Chain nodes start list)
    (tmp : Option Symbol) :
    Returns (fun fuel => getSymbolFrom currentLevel fuel nodes tmp start)
      ((list.map Prod.snd).foldl (getSymbolStep currentLevel) tmp) := by
  induction list generalizing start tmp with
  | nil =>
      cases chain
      exact .of_forall fun fuel => by rw [getSymbolFrom.eq_def]; rfl
  | cons item list ih =>
      cases chain with
      | @cons address stored next _ _ cell rest =>
          refine (ih rest (getSymbolStep currentLevel tmp stored)).succ fun fuel => ?_
          rw [getSymbolFrom, cell]

/-- What the two levels find in the bucket of a key. -/
inductive Looked (this : SymTableMemory) (items : Nat → List (Nat × Symbol)) (table : SymTable)
    (key : Name) : Prop
  | nothing (memory : this.getSymbolTable key = none)
      (level : Pl0.getSymbolTable table key = none)
  | node {address : Nat} {node : TableNode} (memory : this.getSymbolTable key = some address)
      (stands : this.tableNodes[address]? = some node)
      (chain : Chain this.symbolNodes node.symNodeList (items address))
      (level : Pl0.getSymbolTable table key = some (this.image node (items address)))

theorem Represents.looked (represents : Represents this items table) (linked : Linked this items)
    (key : Name) : Looked this items table key := by
  have level : Pl0.getSymbolTable table key = table.buckets (this.getHashValue key) := by
    rw [Pl0.getSymbolTable, represents.hashcode_eq]
  cases stored : this.getSymbolTable key with
  | none => exact .nothing stored (level.trans (represents.free _ stored))
  | some address =>
      obtain ⟨node, stands, -⟩ := linked.ringed.found _ address stored
      exact .node stored stands (linked.listed.list address node stands).1
        (level.trans (represents.node _ address node stored stands))

theorem Represents.contain (represents : Represents this items table)
    (linked : Linked this items) (key : Name) (value : Symbol) :
    Returns (fun fuel => this.contain fuel key value) (Pl0.contain table key value) := by
  have returned := contain_returns linked key value
  have same : this.holds items key value = Pl0.contain table key value := by
    unfold holds Pl0.contain
    cases represents.looked linked key with
    | nothing memory level => rw [memory, level]
    | node memory stands chain level =>
        rw [memory, level]
        rfl
  rwa [same] at returned

theorem Represents.getSymbol (represents : Represents this items table)
    (linked : Linked this items) (key : Name) (currentLevel : Int) :
    Returns (fun fuel => this.getSymbol fuel key currentLevel)
      (Pl0.getSymbol table key currentLevel) := by
  unfold SymTableMemory.getSymbol Pl0.getSymbol
  cases represents.looked linked key with
  | nothing memory level =>
      rw [memory, level]
      exact .of_forall fun _ => rfl
  | node memory stands chain level =>
      simp only [memory, stands, level]
      exact getSymbolFrom_returns currentLevel chain none

theorem Represents.getNumsOfsymbolWithSameKey (represents : Represents this items table)
    (linked : Linked this items) (key : Name) : this.getNumsOfsymbolWithSameKey key =
      some (Pl0.getNumsOfsymbolWithSameKey table key) := by
  unfold SymTableMemory.getNumsOfsymbolWithSameKey Pl0.getNumsOfsymbolWithSameKey
  cases represents.looked linked key with
  | nothing memory level => rw [memory, level]
  | node memory stands chain level =>
      simp only [memory, stands, level]
      rfl

/-- A call that changes nothing gets the same answer from both levels. -/
theorem answered {β : Type} {ask : Nat → Option β} {value : β} (answer : β → Answer)
    (returned : Returns ask value) :
    Returns (fun fuel => (ask fuel).map fun found => (answer found, this)) (answer value, this) :=
  returned.of_both returned fun fuel asked _ => by rw [asked]; rfl

/-- One call, on both levels. -/
theorem Represents.call (represents : Represents this items table) (linked : Linked this items)
    (c : SymTableCall) :
    ∃ later items', Returns (fun fuel => this.call fuel c) ((table.call c).1, later) ∧
      Linked later items' ∧ Represents later items' (table.call c).2 := by
  cases c with
  | putSymbol key value =>
      obtain ⟨later, items', returned, linked', represents'⟩ :=
        represents.putSymbol linked key value
      exact ⟨later, items',
        returned.of_both returned fun fuel put _ => by rw [SymTableMemory.call, put]; rfl,
        linked', represents'⟩
  | contain key value =>
      exact ⟨this, items, answered .boolean (represents.contain linked key value), linked,
        represents⟩
  | getSymbol key currentLevel =>
      exact ⟨this, items, answered .symbol (represents.getSymbol linked key currentLevel), linked,
        represents⟩
  | getNumsOfsymbolWithSameKey key =>
      have counted := represents.getNumsOfsymbolWithSameKey linked key
      exact ⟨this, items, answered .count (.of_forall fun _ => counted), linked, represents⟩
  | getNumsOfsymbolTable =>
      refine ⟨this, items, .of_forall fun _ => ?_, linked, represents⟩
      rw [SymTableMemory.call, SymTable.call, represents.numsTable]
  | getNumsOfsymbol =>
      refine ⟨this, items, .of_forall fun _ => ?_, linked, represents⟩
      rw [SymTableMemory.call, SymTable.call, represents.totalNodes]
  | getNumsOfBuckets =>
      refine ⟨this, items, .of_forall fun _ => ?_, linked, represents⟩
      rw [SymTableMemory.call, SymTable.call, represents.numsBucket]

/-- Any calls, on both levels. -/
theorem Represents.run (represents : Represents this items table) (linked : Linked this items)
    (calls : List SymTableCall) :
    ∃ later items', Returns (fun fuel => this.run fuel calls) ((table.run calls).1, later) ∧
      Linked later items' ∧ Represents later items' (table.run calls).2 := by
  induction calls generalizing this items table with
  | nil => exact ⟨this, items, .of_forall fun _ => rfl, linked, represents⟩
  | cons c calls ih =>
      obtain ⟨middle, items', answered, linked', represents'⟩ := represents.call linked c
      obtain ⟨later, items'', returned, linked'', represents''⟩ := ih represents' linked'
      refine ⟨later, items'', answered.of_both returned fun fuel first rest => ?_, linked'',
        represents''⟩
      rw [SymTableMemory.run, first]
      simp only [rest]
      rfl

end

/-- The table in memory, with buckets 0 to `last`, answers every sequence of calls as the
table without addresses does. -/
theorem symTable_refines (last : Nat) (calls : List SymTableCall) :
    ∃ later items,
      Returns (fun fuel => (init (last + 1)).run fuel calls)
        (((symTableInit (last + 1)).run calls).1, later) ∧
      Linked later items ∧ Represents later items ((symTableInit (last + 1)).run calls).2 :=
  (init_represents (last + 1)).run (init_linked (last + 1)) calls

end SymTableMemory

end Pl0
