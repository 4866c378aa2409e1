import Pl0.SymbolTable
import Mathlib.Data.List.Induction

set_option autoImplicit false

namespace Pl0

/-- The symbols stored in one bucket, oldest first. -/
def SymTable.chain (table : SymTable) (bucket : Nat) : List Symbol :=
  ((table.buckets bucket).map (·.symNodeList)).getD []

/-- Every bucket holds a nonempty list whose `tail` points at its last node. -/
def TailsLinked (table : SymTable) : Prop :=
  ∀ bucket node, table.buckets bucket = some node →
    node.symNodeList ≠ [] ∧ node.tail = some (node.symNodeList.length - 1)

/-- `putSymbol` refuses a symbol when the buckets run out or an equal one is stored. -/
def Refused (table : SymTable) (symbol : Symbol) : Prop :=
  table.numsBucket ≤ table.numsTable ∨
    ∃ stored ∈ table.chain (hashcode table symbol.name), compareDataType stored symbol = true

/-- The same for a symbol that is put under any key. -/
def RefusedUnder (table : SymTable) (key : Name) (symbol : Symbol) : Prop :=
  table.numsBucket ≤ table.numsTable ∨
    ∃ stored ∈ table.chain (hashcode table key), compareDataType stored symbol = true

theorem hashcode_congr {first second : SymTable} (key : Name)
    (same : first.numsBucket = second.numsBucket) : hashcode first key = hashcode second key := by
  simp only [hashcode, same]

theorem hashcode_lt (table : SymTable) (key : Name) (positive : 0 < table.numsBucket) :
    hashcode table key < table.numsBucket :=
  Nat.mod_lt _ positive

theorem compareDataType_iff (left right : Symbol) :
    compareDataType left right = true ↔
      left.name = right.name ∧ left.kind = right.kind ∧ left.level = right.level ∧
        left.addr = right.addr := by
  simp [compareDataType, and_assoc]

@[simp] theorem modifyNode_numsBucket (table : SymTable) (address : Nat)
    (change : SymTableNode → SymTableNode) :
    (table.modifyNode address change).numsBucket = table.numsBucket := rfl

@[simp] theorem modifyNode_numsTable (table : SymTable) (address : Nat)
    (change : SymTableNode → SymTableNode) :
    (table.modifyNode address change).numsTable = table.numsTable := rfl

theorem modifyNode_buckets (table : SymTable) (address bucket : Nat)
    (change : SymTableNode → SymTableNode) :
    (table.modifyNode address change).buckets bucket =
      if bucket = address then (table.buckets bucket).map change else table.buckets bucket := rfl

/-- The part of a node that the ring of buckets does not touch. -/
def SymTable.stored (table : SymTable) (bucket : Nat) : Option (List Symbol × Option Nat) :=
  (table.buckets bucket).map fun node => (node.symNodeList, node.tail)

theorem chain_eq_stored (table : SymTable) (bucket : Nat) :
    table.chain bucket = ((table.stored bucket).map Prod.fst).getD [] := by
  simp [SymTable.chain, SymTable.stored, Function.comp_def]

theorem tailsLinked_iff_stored (table : SymTable) :
    TailsLinked table ↔ ∀ bucket list tail, table.stored bucket = some (list, tail) →
      list ≠ [] ∧ tail = some (list.length - 1) := by
  constructor
  · intro linked bucket list tail present
    obtain ⟨node, found, same⟩ := Option.map_eq_some_iff.mp present
    cases same
    exact linked bucket node found
  · intro linked bucket node found
    exact linked bucket _ _ (by simp [SymTable.stored, found])

/-- Relinking the ring changes nothing of a node but its place in the ring. -/
theorem view_modifyNode {β : Type} (view : SymTableNode → β) (table : SymTable)
    (address bucket : Nat) (change : SymTableNode → SymTableNode)
    (keeps : ∀ node, view (change node) = view node) :
    ((table.modifyNode address change).buckets bucket).map view =
      (table.buckets bucket).map view := by
  rw [modifyNode_buckets]
  split
  · cases table.buckets bucket with
    | none => rfl
    | some node => simp [keeps node]
  · rfl

theorem numsBucket_newTableNode (table : SymTable) (key : Name) :
    (newTableNode table key).numsBucket = table.numsBucket := by
  unfold newTableNode
  split <;> rfl

theorem numsTable_newTableNode (table : SymTable) (key : Name) :
    (newTableNode table key).numsTable = table.numsTable + 1 := by
  unfold newTableNode
  split <;> rfl

/-- The node that `newTableNode` makes, before it is linked. -/
def freshNode (table : SymTable) (key : Name) : SymTableNode :=
  { key := key, symNodeList := [], tail := none, hashValue := hashcode table key, numsNode := 0,
    nextNode := hashcode table key, preNode := hashcode table key }

theorem view_newTableNode {β : Type} (view : SymTableNode → β)
    (keepsNext : ∀ node next, view { node with nextNode := next } = view node)
    (keepsPre : ∀ node pre, view { node with preNode := pre } = view node)
    (table : SymTable) (key : Name) (bucket : Nat) :
    ((newTableNode table key).buckets bucket).map view =
      if bucket = hashcode table key then some (view (freshNode table key))
      else (table.buckets bucket).map view := by
  unfold newTableNode
  split
  · change Option.map view ((SymTable.modifyNode _ _ _).buckets bucket) = _
    rw [view_modifyNode view _ _ _ _ (fun node => keepsPre node _),
      view_modifyNode view _ _ _ _ (fun node => keepsPre node _),
      view_modifyNode view _ _ _ _ (fun node => keepsNext node _),
      view_modifyNode view _ _ _ _ (fun node => keepsNext node _)]
    dsimp only
    split <;> rfl
  · dsimp only
    split <;> rfl

theorem appendSymbolNode_list (node : SymTableNode) (value : Symbol)
    (linked : node.symNodeList = [] ∨ node.tail = some (node.symNodeList.length - 1)) :
    (appendSymbolNode node value).symNodeList = node.symNodeList ++ [value] := by
  unfold appendSymbolNode
  split
  · rename_i first rest tail listEq tailEq
    have atEnd : tail = node.symNodeList.length - 1 := by
      rcases linked with empty | atEnd
      · rw [empty] at listEq
        cases listEq
      · rw [tailEq] at atEnd
        exact Option.some.inj atEnd
    have whole : node.symNodeList.length ≤ tail + 1 := by omega
    simp only [List.take_of_length_le whole]
  · rename_i notBoth
    have empty : node.symNodeList = [] := by
      rcases linked with empty | atEnd
      · exact empty
      · cases same : node.symNodeList with
        | nil => rfl
        | cons first rest => exact absurd atEnd (notBoth first rest _ same)
    simp [empty]

theorem contain_iff (table : SymTable) (key : Name) (symbol : Symbol) :
    contain table key symbol = true ↔
      ∃ stored ∈ table.chain (hashcode table key), compareDataType stored symbol = true := by
  unfold contain getSymbolTable SymTable.chain
  cases table.buckets (hashcode table key) <;> simp

theorem putSymbol_refused {table : SymTable} {key : Name} {symbol : Symbol}
    (refused : RefusedUnder table key symbol) : putSymbol table key symbol = (false, table) := by
  unfold putSymbol
  rcases refused with full | present
  · rw [if_pos full]
  · rw [if_pos ((contain_iff table key symbol).mpr present), ite_self]

theorem putSymbol_accepted {table : SymTable} {key : Name} {symbol : Symbol}
    (accepted : ¬ RefusedUnder table key symbol) : (putSymbol table key symbol).1 = true := by
  unfold putSymbol
  rw [if_neg (fun full => accepted (Or.inl full)),
    if_neg (fun present => accepted (Or.inr ((contain_iff table key symbol).mp present)))]

theorem putSymbol_numsBucket (table : SymTable) (key : Name) (symbol : Symbol) :
    (putSymbol table key symbol).2.numsBucket = table.numsBucket := by
  unfold putSymbol
  split
  · rfl
  · split
    · rfl
    · cases getSymbolTable table key <;> simp [numsBucket_newTableNode]

theorem putCalls_concat (table : SymTable) (calls : List (Name × Symbol)) (call : Name × Symbol) :
    putCalls table (calls ++ [call]) = (putSymbol (putCalls table calls) call.1 call.2).2 := by
  unfold putCalls
  rw [List.foldl_append]
  rfl

theorem putSymbols_eq_putCalls (table : SymTable) (history : List Symbol) :
    putSymbols table history = putCalls table
      (history.map fun symbol => (symbol.name, symbol)) := by
  unfold putSymbols putCalls
  rw [List.foldl_map]

theorem putCalls_numsBucket (table : SymTable) (calls : List (Name × Symbol)) :
    (putCalls table calls).numsBucket = table.numsBucket := by
  induction calls using List.reverseRecOn with
  | nil => rfl
  | append_singleton calls call ih => rw [putCalls_concat, putSymbol_numsBucket, ih]

theorem putSymbols_numsBucket (table : SymTable) (history : List Symbol) :
    (putSymbols table history).numsBucket = table.numsBucket := by
  rw [putSymbols_eq_putCalls, putCalls_numsBucket]

/-- The node that an accepted symbol is linked into. -/
def SymTable.nodeFor (table : SymTable) (key : Name) : SymTableNode :=
  (table.buckets (hashcode table key)).getD (freshNode table key)

theorem nodeFor_list (table : SymTable) (key : Name) :
    (table.nodeFor key).symNodeList = table.chain (hashcode table key) := by
  unfold SymTable.nodeFor SymTable.chain
  cases table.buckets (hashcode table key) <;> rfl

theorem nodeFor_linked {table : SymTable} (linked : TailsLinked table) (key : Name) :
    (table.nodeFor key).symNodeList = [] ∨
      (table.nodeFor key).tail = some ((table.nodeFor key).symNodeList.length - 1) := by
  unfold SymTable.nodeFor
  cases found : table.buckets (hashcode table key) with
  | none => exact Or.inl rfl
  | some node => exact Or.inr (linked _ node found).2

/-- An accepted symbol goes into the node of its own bucket, and the other nodes change
in the ring only. -/
theorem view_putSymbol {β : Type} (view : SymTableNode → β)
    (keepsNext : ∀ node next, view { node with nextNode := next } = view node)
    (keepsPre : ∀ node pre, view { node with preNode := pre } = view node)
    {table : SymTable} {key : Name} {symbol : Symbol}
    (accepted : ¬ RefusedUnder table key symbol) (bucket : Nat) :
    ((putSymbol table key symbol).2.buckets bucket).map view =
      if bucket = hashcode table key then
        some (view (appendSymbolNode (table.nodeFor key) symbol))
      else (table.buckets bucket).map view := by
  unfold putSymbol SymTable.nodeFor
  rw [if_neg (fun full => accepted (Or.inl full)),
    if_neg (fun present => accepted (Or.inr ((contain_iff table key symbol).mp present)))]
  cases found : getSymbolTable table key with
  | none =>
      unfold getSymbolTable at found
      have sameHash : hashcode (newTableNode table key) key = hashcode table key :=
        hashcode_congr _ (numsBucket_newTableNode table key)
      change Option.map view (((newTableNode table key).modifyNode
        (hashcode (newTableNode table key) key) (appendSymbolNode · symbol)).buckets bucket) = _
      rw [sameHash, modifyNode_buckets]
      by_cases own : bucket = hashcode table key
      · have appended := view_newTableNode (fun node => view (appendSymbolNode node symbol))
          (fun node next => keepsNext (appendSymbolNode node symbol) next)
          (fun node pre => keepsPre (appendSymbolNode node symbol) pre) table key bucket
        rw [if_pos own] at appended
        rw [if_pos own, if_pos own, Option.map_map, found]
        exact appended
      · rw [if_neg own, if_neg own, view_newTableNode view keepsNext keepsPre, if_neg own]
  | some entry =>
      unfold getSymbolTable at found
      change Option.map view ((table.modifyNode (hashcode table key)
        (appendSymbolNode · symbol)).buckets bucket) = _
      rw [modifyNode_buckets]
      by_cases own : bucket = hashcode table key
      · rw [if_pos own, if_pos own, own, found]
        rfl
      · rw [if_neg own, if_neg own]

/-- An accepted symbol goes to the end of its own bucket, and nowhere else. -/
theorem putSymbol_stored {table : SymTable} {key : Name} {symbol : Symbol}
    (linked : TailsLinked table) (accepted : ¬ RefusedUnder table key symbol) (bucket : Nat) :
    (putSymbol table key symbol).2.stored bucket =
      if bucket = hashcode table key then
        some (table.chain bucket ++ [symbol], some (table.chain bucket).length)
      else table.stored bucket := by
  have list := appendSymbolNode_list (table.nodeFor key) symbol (nodeFor_linked linked key)
  rw [nodeFor_list] at list
  have tail : (appendSymbolNode (table.nodeFor key) symbol).tail =
      some ((appendSymbolNode (table.nodeFor key) symbol).symNodeList.length - 1) := rfl
  unfold SymTable.stored
  rw [view_putSymbol (fun node => (node.symNodeList, node.tail)) (fun _ _ => rfl) (fun _ _ => rfl)
    accepted]
  split
  · rename_i own
    rw [tail, list, own]
    simp
  · rfl

/-- An accepted symbol takes a bucket of its own only when its bucket is empty. -/
theorem putSymbol_numsTable {table : SymTable} {key : Name} {symbol : Symbol}
    (accepted : ¬ RefusedUnder table key symbol) :
    (putSymbol table key symbol).2.numsTable =
      table.numsTable + if (table.buckets (hashcode table key)).isSome then 0 else 1 := by
  unfold putSymbol
  rw [if_neg (fun full => accepted (Or.inl full)),
    if_neg (fun present => accepted (Or.inr ((contain_iff table key symbol).mp present)))]
  cases found : getSymbolTable table key with
  | none =>
      unfold getSymbolTable at found
      rw [found]
      exact numsTable_newTableNode table key
  | some entry =>
      unfold getSymbolTable at found
      rw [found]
      rfl

theorem putSymbol_tailsLinked {table : SymTable} (linked : TailsLinked table) (key : Name)
    (symbol : Symbol) :
    TailsLinked (putSymbol table key symbol).2 := by
  by_cases refused : RefusedUnder table key symbol
  · rw [putSymbol_refused refused]
    exact linked
  · rw [tailsLinked_iff_stored] at linked ⊢
    intro bucket list tail present
    rw [putSymbol_stored ((tailsLinked_iff_stored table).mpr linked) refused] at present
    by_cases own : bucket = hashcode table key
    · rw [if_pos own] at present
      cases present
      simp
    · rw [if_neg own] at present
      exact linked bucket list tail present

theorem putSymbol_chain_accepted {table : SymTable} {key : Name} {symbol : Symbol}
    (linked : TailsLinked table)
    (accepted : ¬ RefusedUnder table key symbol) :
    (putSymbol table key symbol).2.chain (hashcode table key) =
      table.chain (hashcode table key) ++ [symbol] := by
  rw [chain_eq_stored, putSymbol_stored linked accepted, if_pos rfl]
  rfl

theorem putSymbol_chain {table : SymTable} {key : Name} (linked : TailsLinked table)
    (symbol : Symbol)
    (bucket : Nat) :
    (putSymbol table key symbol).2.chain bucket = table.chain bucket ∨
      bucket = hashcode table key ∧
        (putSymbol table key symbol).2.chain bucket = table.chain bucket ++ [symbol] := by
  by_cases refused : RefusedUnder table key symbol
  · exact Or.inl (by rw [putSymbol_refused refused])
  · by_cases own : bucket = hashcode table key
    · subst own
      exact Or.inr ⟨rfl, putSymbol_chain_accepted linked refused⟩
    · apply Or.inl
      rw [chain_eq_stored, chain_eq_stored, putSymbol_stored linked refused, if_neg own]

/-- Inserting under one hashcode leaves the other buckets alone. -/
theorem putSymbol_chain_elsewhere {table : SymTable} {key : Name} (linked : TailsLinked table)
    (symbol : Symbol)
    (bucket : Nat) (elsewhere : bucket ≠ hashcode table key) :
    (putSymbol table key symbol).2.chain bucket = table.chain bucket := by
  rcases putSymbol_chain linked symbol bucket with same | ⟨own, _⟩
  · exact same
  · exact absurd own elsewhere

theorem symTableInit_tailsLinked (bucketCount : Nat) : TailsLinked (symTableInit bucketCount) := by
  intro bucket node stored
  cases stored

theorem putCalls_tailsLinked {table : SymTable} (linked : TailsLinked table)
    (calls : List (Name × Symbol)) : TailsLinked (putCalls table calls) := by
  induction calls using List.reverseRecOn with
  | nil => exact linked
  | append_singleton calls call ih =>
      rw [putCalls_concat]
      exact putSymbol_tailsLinked ih call.1 call.2

/-- What a bucket holds was put under a key with that hashcode. -/
theorem mem_chain_putCalls {bucketCount : Nat} (calls : List (Name × Symbol)) {bucket : Nat}
    {stored : Symbol} (member : stored ∈ (putCalls (symTableInit bucketCount) calls).chain bucket) :
    ∃ call ∈ calls, call.2 = stored ∧ hashcode (symTableInit bucketCount) call.1 = bucket := by
  induction calls using List.reverseRecOn with
  | nil => simp [putCalls, symTableInit, SymTable.chain] at member
  | append_singleton calls call ih =>
      have earlier : stored ∈ (putCalls (symTableInit bucketCount) calls).chain bucket →
          ∃ before ∈ calls ++ [call], before.2 = stored ∧
            hashcode (symTableInit bucketCount) before.1 = bucket := by
        intro old
        obtain ⟨before, inside, same⟩ := ih old
        exact ⟨before, List.mem_append_left _ inside, same⟩
      have linked := putCalls_tailsLinked (symTableInit_tailsLinked bucketCount) calls
      rw [putCalls_concat] at member
      rcases putSymbol_chain linked call.2 bucket with same | ⟨own, appended⟩
      · exact earlier (same ▸ member)
      · rw [appended, List.mem_append, List.mem_singleton] at member
        rcases member with old | new
        · exact earlier old
        · refine ⟨call, by simp, new.symm, ?_⟩
          rw [own]
          exact hashcode_congr call.1 (putCalls_numsBucket _ calls).symm

theorem getSymbol_eq_foldl (table : SymTable) (key : Name) (currentLevel : Int) :
    getSymbol table key currentLevel =
      (table.chain (hashcode table key)).foldl (getSymbolStep currentLevel) none := by
  unfold getSymbol getSymbolTable SymTable.chain
  cases table.buckets (hashcode table key) <;> rfl

end Pl0
