import Pl0.SymbolCounters
import Pl0.SymbolTableRing

set_option autoImplicit false

namespace Pl0

open LinkedCells

namespace SymTableMemory

/-- The bucket that points at a node. -/
def bucketAt (this : SymTableMemory) (address : Nat) : Nat :=
  (this.tableNodes[address]?.map (·.hashValue)).getD 0

/-- A node without addresses: its list by the symbols in it, its neighbours by their buckets. -/
def image (this : SymTableMemory) (node : TableNode) (list : List (Nat × Symbol)) :
    SymTableNode :=
  { key := node.key
    symNodeList := list.map Prod.snd
    tail := if list = [] then none else some (list.length - 1)
    hashValue := node.hashValue
    numsNode := node.numsNode
    nextNode := this.bucketAt node.nextNode
    preNode := this.bucketAt node.preNode }

/-- A table in memory stands for the table whose nodes are known by their buckets. -/
structure Represents (this : SymTableMemory) (items : Nat → List (Nat × Symbol))
    (table : SymTable) : Prop where
  numsTable : table.numsTable = this.numsTable
  totalNodes : table.totalNodes = this.totalNodes
  numsBucket : table.numsBucket = this.numsBucket
  head : table.head = this.head.map this.bucketAt
  tail : table.tail = this.tail.map this.bucketAt
  node : ∀ bucket address node, this.buckets bucket = some address →
    this.tableNodes[address]? = some node →
      table.buckets bucket = some (this.image node (items address))
  free : ∀ bucket, this.buckets bucket = none → table.buckets bucket = none

theorem init_represents (bucketCount : Nat) :
    Represents (init bucketCount) (fun _ => []) (symTableInit bucketCount) :=
  ⟨rfl, rfl, rfl, rfl, rfl, fun _ _ _ stored => (by cases stored), fun _ _ => rfl⟩

theorem Represents.hashcode_eq {this : SymTableMemory} {items : Nat → List (Nat × Symbol)}
    {table : SymTable} (represents : Represents this items table) (key : Name) :
    hashcode table key = this.getHashValue key :=
  hashcode_congr key represents.numsBucket

theorem bucketAt_of_some {this : SymTableMemory} {address : Nat} {node : TableNode}
    (stands : this.tableNodes[address]? = some node) : this.bucketAt address = node.hashValue := by
  rw [bucketAt, stands]
  rfl

theorem Ringed.bucketAt_eq {this : SymTableMemory} (ringed : Ringed this) {bucket address : Nat}
    (stored : this.buckets bucket = some address) : this.bucketAt address = bucket := by
  obtain ⟨node, stands, same⟩ := ringed.found bucket address stored
  rw [bucketAt_of_some stands, same]

/-- Another node has another bucket. -/
theorem Ringed.bucketAt_eq_iff {this : SymTableMemory} (ringed : Ringed this)
    {bucket address other : Nat} (stored : this.buckets bucket = some address)
    (low : other < this.tableNodes.length) : bucket = this.bucketAt other ↔ address = other := by
  constructor
  · intro same
    have placed := (ringed.placed other _ (List.getElem?_eq_getElem low)).2
    rw [← bucketAt_of_some (List.getElem?_eq_getElem low), ← same, stored] at placed
    exact Option.some.inj placed
  · rintro rfl
    exact (ringed.bucketAt_eq stored).symm

section

variable {this : SymTableMemory} {items : Nat → List (Nat × Symbol)} {table : SymTable}
  {key : Name} {nodes : List TableNode}

/-- `newTableNode` on a table that has nodes, bucket by bucket. -/
theorem newTableNode_linked {head tail : Nat} (some_ : table.numsTable ≠ 0)
    (first : table.head = some head) (last : table.tail = some tail)
    (apartHead : hashcode table key ≠ head) (apartTail : hashcode table key ≠ tail) :
    (Pl0.newTableNode table key).head = some head ∧
      (Pl0.newTableNode table key).tail = some (hashcode table key) ∧
      (Pl0.newTableNode table key).totalNodes = table.totalNodes ∧ ∀ bucket,
        (Pl0.newTableNode table key).buckets bucket =
          if bucket = hashcode table key then
            some { Pl0.freshNode table key with nextNode := head, preNode := tail }
          else (table.buckets bucket).map fun node =>
            { node with
              nextNode := if bucket = tail then hashcode table key else node.nextNode
              preNode := if bucket = head then hashcode table key else node.preNode } := by
  obtain ⟨more, many⟩ := Nat.exists_eq_succ_of_ne_zero some_
  simp only [Pl0.newTableNode, many, first, last]
  refine ⟨rfl, trivial, rfl, fun bucket => ?_⟩
  simp only [modifyNode_buckets]
  by_cases own : bucket = hashcode table key
  · rw [own]
    simp only [↓reduceIte, if_neg apartHead, if_neg apartTail]
    rfl
  · simp only [if_neg own]
    cases table.buckets bucket with
    | none => split <;> split <;> rfl
    | some node => split <;> split <;> rfl

/-- `newTableNode` on a table without nodes. -/
theorem newTableNode_first (key : Name) (zero : table.numsTable = 0) :
    (Pl0.newTableNode table key).head = some (hashcode table key) ∧
      (Pl0.newTableNode table key).tail = some (hashcode table key) ∧
      (Pl0.newTableNode table key).totalNodes = table.totalNodes ∧ ∀ bucket,
        (Pl0.newTableNode table key).buckets bucket =
          if bucket = hashcode table key then some (Pl0.freshNode table key)
          else table.buckets bucket := by
  unfold Pl0.newTableNode
  split
  · rename_i many _ _
    rw [zero] at many
    cases many
  · exact ⟨rfl, rfl, rfl, fun _ => rfl⟩

theorem Represents.newTableNode (ringed : Ringed this) (represents : Represents this items table)
    (free : this.getSymbolTable key = none)
    (linked : ∀ address, nodes[address]? = (this.tableNodes ++ [this.freshNode key])[address]?.map
      (relink this.tableNodes.length address)) :
    Represents (this.closed key nodes)
      (Function.update items this.tableNodes.length []) (Pl0.newTableNode table key) := by
  have hash := represents.hashcode_eq key
  let later := this.closed key nodes
  have kept : ∀ address < this.tableNodes.length,
      later.bucketAt address = this.bucketAt address := by
    intro address low
    show (nodes[address]?.map (·.hashValue)).getD 0 = _
    rw [linked, List.getElem?_append_left low, Option.map_map]
    rfl
  have new : later.bucketAt this.tableNodes.length = this.getHashValue key := by
    show (nodes[this.tableNodes.length]?.map (·.hashValue)).getD 0 = _
    rw [linked, List.getElem?_concat_length]
    rfl
  have stored : this.buckets (this.getHashValue key) = none := free
  by_cases empty : this.tableNodes.length = 0
  · have zero : table.numsTable = 0 := by rw [represents.numsTable, ringed.numsTable, empty]
    obtain ⟨head, tail, totals, buckets⟩ := newTableNode_first key zero
    have nothing : ∀ bucket, this.buckets bucket = none := by
      intro bucket
      cases used : this.buckets bucket with
      | none => rfl
      | some address =>
          obtain ⟨node, stands, -⟩ := ringed.found bucket address used
          have := (List.getElem?_eq_some_iff.mp stands).1
          omega
    have newFirst : later.bucketAt 0 = this.getHashValue key := empty ▸ new
    refine ⟨?_, totals.trans represents.totalNodes, ?_, ?_, ?_, ?_, ?_⟩
    · exact (numsTable_newTableNode table key).trans (congrArg (· + 1) represents.numsTable)
    · exact (numsBucket_newTableNode table key).trans represents.numsBucket
    · rw [head, hash]
      exact congrArg some newFirst.symm
    · rw [tail, hash]
      exact congrArg some new.symm
    · intro bucket address node here stands
      by_cases own : bucket = this.getHashValue key
      · rw [own] at here
        replace here : Function.update this.buckets (this.getHashValue key)
            (some this.tableNodes.length) (this.getHashValue key) = some address := here
        rw [Function.update_self, Option.some_inj] at here
        subst here
        rcases relinked_cases linked stands with ⟨_, _, within, _⟩ | ⟨-, rfl⟩
        · omega
        · rw [buckets, own, ← hash, if_pos rfl]
          have next : later.bucketAt 0 = hashcode table key := newFirst.trans hash.symm
          have image : later.image (relink this.tableNodes.length this.tableNodes.length
              (this.freshNode key)) [] = Pl0.freshNode table key := by
            simp [SymTableMemory.image, relink, SymTableMemory.freshNode, Pl0.freshNode, empty,
              next, hash]
          rw [Function.update_self]
          exact congrArg some image.symm
      · have old := (Function.update_of_ne own _ _).symm.trans here
        rw [nothing] at old
        cases old
    · intro bucket unused
      by_cases own : bucket = this.getHashValue key
      · rw [own] at unused
        replace unused : Function.update this.buckets (this.getHashValue key)
            (some this.tableNodes.length) (this.getHashValue key) = none := unused
        rw [Function.update_self] at unused
        cases unused
      · rw [buckets, hash, if_neg own]
        exact represents.free bucket (nothing bucket)
  · have low : 0 < this.tableNodes.length := Nat.pos_of_ne_zero empty
    have head := represents.head
    have tail := represents.tail
    rw [ringed.head, if_neg empty] at head
    rw [ringed.tail, if_neg empty] at tail
    have apart : ∀ address < this.tableNodes.length,
        hashcode table key ≠ this.bucketAt address := by
      intro address within same
      have placed := (ringed.placed address _ (List.getElem?_eq_getElem within)).2
      rw [← bucketAt_of_some (List.getElem?_eq_getElem within), ← same, hash, stored] at placed
      cases placed
    obtain ⟨head', tail', totals, buckets⟩ := newTableNode_linked
      (by rw [represents.numsTable, ringed.numsTable]; exact empty) head tail (apart 0 low)
      (apart (this.tableNodes.length - 1) (by omega))
    refine ⟨?_, totals.trans represents.totalNodes, ?_, ?_, ?_, ?_, ?_⟩
    · exact (numsTable_newTableNode table key).trans (congrArg (· + 1) represents.numsTable)
    · exact (numsBucket_newTableNode table key).trans represents.numsBucket
    · rw [head']
      exact congrArg some (kept 0 low).symm
    · rw [tail', hash]
      exact congrArg some new.symm
    · intro bucket address node here stands
      rw [buckets]
      by_cases own : bucket = hashcode table key
      · rw [if_pos own]
        replace here : Function.update this.buckets (this.getHashValue key)
            (some this.tableNodes.length) bucket = some address := here
        rw [own, hash, Function.update_self, Option.some_inj] at here
        subst here
        rcases relinked_cases linked stands with ⟨_, _, within, _⟩ | ⟨-, rfl⟩
        · omega
        · have image : later.image (relink this.tableNodes.length this.tableNodes.length
              (this.freshNode key)) [] = { Pl0.freshNode table key with
                nextNode := this.bucketAt 0
                preNode := this.bucketAt (this.tableNodes.length - 1) } := by
            simp [SymTableMemory.image, relink, SymTableMemory.freshNode, Pl0.freshNode, hash,
              kept 0 low, kept (this.tableNodes.length - 1) (by omega)]
          rw [Function.update_self]
          exact congrArg some image.symm
      · rw [if_neg own]
        replace here : this.buckets bucket = some address :=
          (Function.update_of_ne (fun same => own (same.trans hash.symm)) _ _).symm.trans here
        obtain ⟨old, present, -⟩ := ringed.found bucket address here
        have within : address < this.tableNodes.length :=
          (List.getElem?_eq_some_iff.mp present).1
        rcases relinked_cases linked stands with ⟨old', present', -, rfl⟩ | ⟨rfl, -⟩
        · rw [present] at present'
          cases present'
          rw [represents.node bucket address old here present,
            Function.update_of_ne (Nat.ne_of_lt within), Option.map_some]
          have lastIff := ringed.bucketAt_eq_iff here
            (show this.tableNodes.length - 1 < this.tableNodes.length by omega)
          have firstIff := ringed.bucketAt_eq_iff here low
          have next : later.bucketAt (relink this.tableNodes.length address old).nextNode =
              if bucket = this.bucketAt (this.tableNodes.length - 1) then hashcode table key
              else this.bucketAt old.nextNode := by
            simp only [relink, Nat.ne_of_lt within, ↓reduceIte, lastIff]
            by_cases before : address + 1 = this.tableNodes.length
            · rw [if_pos before, if_pos (by omega), new, hash]
            · rw [if_neg before, if_neg (by omega)]
              have step := ringed.nextNode address old present
              rw [if_neg before] at step
              exact kept _ (by omega)
          have pre : later.bucketAt (relink this.tableNodes.length address old).preNode =
              if bucket = this.bucketAt 0 then hashcode table key
              else this.bucketAt old.preNode := by
            simp only [relink, Nat.ne_of_lt within, ↓reduceIte, firstIff]
            by_cases first : address = 0
            · rw [if_pos first, if_pos first, new, hash]
            · rw [if_neg first, if_neg first]
              have step := ringed.preNode address old present
              rw [if_neg first] at step
              exact kept _ (by omega)
          show some _ = some (later.image _ _)
          unfold SymTableMemory.image
          rw [next, pre]
          rfl
        · omega
    · intro bucket unused
      rw [buckets]
      by_cases own : bucket = hashcode table key
      · replace unused : Function.update this.buckets (this.getHashValue key)
            (some this.tableNodes.length) bucket = none := unused
        rw [own, hash, Function.update_self] at unused
        cases unused
      · have old := (Function.update_of_ne (fun same => own (same.trans hash.symm)) _ _).symm.trans
          unused
        rw [if_neg own, represents.free bucket old]
        rfl

/-- A symbol behind a list in memory is a symbol behind its image. -/
theorem Represents.appendSymbolNode {address : Nat} {node : TableNode}
    {change : TableNode → TableNode} (ringed : Ringed this)
    (represents : Represents this items table) (value : Symbol)
    (stored : this.getSymbolTable key = some address)
    (stands : this.tableNodes[address]? = some node)
    (keeps : ∀ n, (change n).key = n.key ∧ (change n).hashValue = n.hashValue ∧
      (change n).nextNode = n.nextNode ∧ (change n).preNode = n.preNode ∧
      (change n).numsNode = n.numsNode + 1) (totalNodes : Nat) (cells : List (Cell Symbol)) :
    Represents (this.grown totalNodes address change cells)
      (Function.update items address (items address ++ [(this.symbolNodes.length, value)]))
      { table.modifyNode (hashcode table key) (Pl0.appendSymbolNode · value) with
        totalNodes := totalNodes } := by
  have hash := represents.hashcode_eq key
  have kept : ∀ other, (this.grown totalNodes address change cells).bucketAt other =
      this.bucketAt other := by
    intro other
    show ((this.tableNodes.modify address change)[other]?.map (·.hashValue)).getD 0 = _
    rw [getElem?_modify, Option.map_map, bucketAt]
    congr 2
    funext n
    rw [Function.comp_apply]
    split
    · exact (keeps n).2.1
    · rfl
  have maps : (this.grown totalNodes address change cells).bucketAt = this.bucketAt := funext kept
  refine ⟨represents.numsTable, rfl, represents.numsBucket, ?_, ?_, ?_, ?_⟩
  · rw [maps]
    exact represents.head
  · rw [maps]
    exact represents.tail
  · intro bucket other node' here stands'
    replace here : this.buckets bucket = some other := here
    replace stands' : (this.tableNodes.modify address change)[other]? = some node' := stands'
    rw [getElem?_modify, Option.map_eq_some_iff] at stands'
    obtain ⟨old, present, rfl⟩ := stands'
    have low : address < this.tableNodes.length := (List.getElem?_eq_some_iff.mp stands).1
    have ownIff := ringed.bucketAt_eq_iff here low
    rw [ringed.bucketAt_eq stored] at ownIff
    show (table.modifyNode _ _).buckets bucket = _
    rw [modifyNode_buckets, represents.node bucket other old here present, hash]
    by_cases own : bucket = this.getHashValue key
    · have same : other = address := ownIff.mp own
      subst same
      have linked : (this.image old (items other)).symNodeList = [] ∨
          (this.image old (items other)).tail =
            some ((this.image old (items other)).symNodeList.length - 1) := by
        unfold SymTableMemory.image
        by_cases empty : items other = []
        · exact Or.inl (by simp [empty])
        · exact Or.inr (by simp [empty])
      have list := appendSymbolNode_list _ value linked
      obtain ⟨sameKey, sameHash, next, pre, nums⟩ := keeps old
      have shape : Pl0.appendSymbolNode (this.image old (items other)) value =
          { this.image old (items other) with
            symNodeList :=
              (Pl0.appendSymbolNode (this.image old (items other)) value).symNodeList
            tail := some ((Pl0.appendSymbolNode (this.image old (items other))
              value).symNodeList.length - 1)
            numsNode := old.numsNode + 1 } := rfl
      rw [if_pos own, if_pos rfl, Function.update_self, Option.map_some, Option.some_inj, shape,
        list]
      simp [SymTableMemory.image, maps, sameKey, sameHash, next, pre, nums]
    · have different : ¬ address = other := fun same => own (ownIff.mpr same.symm)
      rw [if_neg own, if_neg different, Function.update_of_ne (Ne.symm different)]
      simp only [SymTableMemory.image, maps]
  · intro bucket unused
    show (table.modifyNode _ _).buckets bucket = none
    rw [modifyNode_buckets, represents.free bucket unused]
    split <;> rfl

end

theorem Represents.chain_eq {this : SymTableMemory} {items : Nat → List (Nat × Symbol)}
    {table : SymTable} (ringed : Ringed this) (represents : Represents this items table)
    {bucket address : Nat} (stored : this.buckets bucket = some address) :
    table.chain bucket = (items address).map Prod.snd := by
  obtain ⟨node, stands, -⟩ := ringed.found bucket address stored
  rw [SymTable.chain, represents.node bucket address node stored stands]
  rfl

/-- The two levels refuse the same symbols. -/
theorem Represents.refused_iff {this : SymTableMemory} {items : Nat → List (Nat × Symbol)}
    {table : SymTable} (ringed : Ringed this) (represents : Represents this items table)
    (key : Name) (value : Symbol) :
    RefusedUnder table key value ↔
      this.numsBucket ≤ this.numsTable ∨ this.holds items key value = true := by
  unfold RefusedUnder holds
  rw [represents.numsBucket, represents.numsTable, represents.hashcode_eq]
  apply or_congr_right
  cases stored : this.getSymbolTable key with
  | none =>
      rw [SymTable.chain, represents.free _ stored]
      simp
  | some address =>
      rw [represents.chain_eq ringed stored, List.any_eq_true]

/-- The table that `putSymbol` links an accepted symbol into. -/
def tableFor (table : SymTable) (key : Name) : SymTable :=
  match Pl0.getSymbolTable table key with
  | none => Pl0.newTableNode table key
  | some _ => table

/-- The node that is found in memory stands for the one that the table uses. -/
theorem Represents.found {this middle : SymTableMemory} {items items' : Nat → List (Nat × Symbol)}
    {table : SymTable} {key : Name} {address : Nat} (ringed : Ringed this)
    (represents : Represents this items table)
    (found : Found this items key address middle items') :
    Ringed middle ∧ middle.getSymbolTable key = some address ∧
      Represents middle items' (tableFor table key) := by
  have hash := represents.hashcode_eq key
  cases found with
  | old stored =>
      obtain ⟨node, stands, -⟩ := ringed.found _ address stored
      have present := represents.node _ address node stored stands
      refine ⟨ringed, stored, ?_⟩
      rw [tableFor, Pl0.getSymbolTable, hash, present]
      exact represents
  | new free made length linked =>
      refine ⟨ringed.newTableNode free length linked, Function.update_self _ _ _, ?_⟩
      rw [tableFor, Pl0.getSymbolTable, hash, represents.free _ free]
      exact represents.newTableNode ringed free linked

theorem putSymbol_accepted_eq {table : SymTable} {key : Name} {value : Symbol}
    (accepted : ¬ RefusedUnder table key value) :
    Pl0.putSymbol table key value = (true,
      { (tableFor table key).modifyNode (hashcode (tableFor table key) key)
          (Pl0.appendSymbolNode · value) with
        totalNodes := (tableFor table key).totalNodes +
          (((Pl0.getSymbolTable (tableFor table key) key).map (·.numsNode)).getD 0 + 1) }) := by
  unfold Pl0.putSymbol
  rw [if_neg (fun full => accepted (Or.inl full)),
    if_neg (fun present => accepted (Or.inr ((contain_iff table key value).mp present)))]
  rfl

/-- Every call in memory does to the nodes what it does to the table they stand for. -/
theorem Represents.putSymbol {this : SymTableMemory} {items : Nat → List (Nat × Symbol)}
    {table : SymTable} (linked : Linked this items) (represents : Represents this items table)
    (key : Name) (value : Symbol) :
    ∃ later items', Returns (fun fuel => this.putSymbol fuel key value)
        ((Pl0.putSymbol table key value).1, later) ∧
      Linked later items' ∧ Represents later items' (Pl0.putSymbol table key value).2 := by
  have refusedIff := represents.refused_iff linked.ringed key value
  rcases putSymbol_cases linked key value with
    ⟨refused, returned⟩ | ⟨accepted, address, middle, items', node, later, change, cells, found,
      stands, rfl, keeps, linked', -, -, returned⟩
  · rw [putSymbol_refused (refusedIff.mpr refused)]
    exact ⟨this, items, returned, linked, represents⟩
  · have accepted' : ¬ RefusedUnder table key value := fun refused =>
      accepted (refusedIff.mp refused)
    refine ⟨_, _, ?_, linked', ?_⟩
    · rw [putSymbol_accepted accepted']
      exact returned
    · obtain ⟨ringed, stored, represents'⟩ := represents.found linked.ringed found
      rw [putSymbol_accepted_eq accepted']
      have counted := represents'.node _ address node stored stands
      rw [← represents'.hashcode_eq] at counted
      have appended := represents'.appendSymbolNode ringed value stored stands keeps
        (middle.totalNodes + (node.numsNode + 1)) cells
      rw [Pl0.getSymbolTable, counted, represents'.totalNodes]
      exact appended

/-- After any calls, the memory stands for the table that the calls lead to. -/
theorem putCalls_represents {bucketCount : Nat} (calls : List (Name × Symbol)) :
    ∃ results later items,
      Returns (fun fuel => (init bucketCount).putCalls fuel calls) (results, later) ∧
      Linked later items ∧
      Represents later items (Pl0.putCalls (symTableInit bucketCount) calls) := by
  induction calls using List.reverseRecOn with
  | nil =>
      exact ⟨[], init bucketCount, fun _ => [], .of_forall fun _ => rfl, init_linked bucketCount,
        init_represents bucketCount⟩
  | append_singleton calls call ih =>
      obtain ⟨results, middle, items, ran, linked, represents⟩ := ih
      obtain ⟨later, items', returned, linked', represents'⟩ :=
        represents.putSymbol linked call.1 call.2
      rw [Pl0.putCalls_concat]
      exact ⟨_, later, items',
        ran.of_both returned fun fuel before put => putCalls_concat fuel _ calls call before put,
        linked', represents'⟩

end SymTableMemory

end Pl0
