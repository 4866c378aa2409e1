import Pl0.SymbolTableNodes
import Mathlib.Data.List.Infix

set_option autoImplicit false

namespace Pl0

open LinkedCells

namespace SymTableMemory

/-- The nodes are linked in the order in which they were allocated, and the last one to
the first; each is in the bucket of its key. -/
structure Ringed (this : SymTableMemory) : Prop where
  numsTable : this.numsTable = this.tableNodes.length
  head : this.head = if this.tableNodes.length = 0 then none else some 0
  tail : this.tail =
    if this.tableNodes.length = 0 then none else some (this.tableNodes.length - 1)
  nextNode : ∀ address node, this.tableNodes[address]? = some node →
    node.nextNode = if address + 1 = this.tableNodes.length then 0 else address + 1
  preNode : ∀ address node, this.tableNodes[address]? = some node →
    node.preNode = if address = 0 then this.tableNodes.length - 1 else address - 1
  placed : ∀ address node, this.tableNodes[address]? = some node →
    node.hashValue = this.getHashValue node.key ∧ this.buckets node.hashValue = some address
  found : ∀ bucket address, this.buckets bucket = some address →
    ∃ node, this.tableNodes[address]? = some node ∧ node.hashValue = bucket

/-- Each node's list has these items and ends at its `tail`; no two lists share a node. -/
structure Listed (this : SymTableMemory) (items : Nat → List (Nat × Symbol)) : Prop where
  list : ∀ address node, this.tableNodes[address]? = some node →
    Chain this.symbolNodes node.symNodeList (items address) ∧
      node.tail = (items address).getLast?.map Prod.fst
  apart : ∀ first second, first < this.tableNodes.length → second < this.tableNodes.length →
    ∀ symbolNode, symbolNode ∈ (items first).map Prod.fst →
      symbolNode ∈ (items second).map Prod.fst → first = second

/-- The node that `newTableNode` allocates, before it is linked. -/
def freshNode (this : SymTableMemory) (key : Name) : TableNode :=
  { key := key, symNodeList := none, tail := none, hashValue := this.getHashValue key,
    numsNode := 0, nextNode := this.tableNodes.length, preNode := this.tableNodes.length }

/-- How a node at `address` is linked once the one at `last` is the last of the ring. -/
def relink (last address : Nat) (node : TableNode) : TableNode :=
  { node with
    nextNode := if address = last then 0 else if address + 1 = last then last else node.nextNode
    preNode := if address = last then last - 1 else if address = 0 then last else node.preNode }

/-- The table with the nodes of a ring that `newTableNode` has closed around a new one. -/
def closed (this : SymTableMemory) (key : Name) (nodes : List TableNode) : SymTableMemory :=
  { this with
    numsTable := this.numsTable + 1
    head := some 0
    tail := some this.tableNodes.length
    buckets := Function.update this.buckets (this.getHashValue key) (some this.tableNodes.length)
    tableNodes := nodes }

/-- The table with one node changed, and other symbol nodes. -/
def grown (this : SymTableMemory) (totalNodes address : Nat) (change : TableNode → TableNode)
    (symbolNodes : List (Cell Symbol)) : SymTableMemory :=
  { this with
    totalNodes := totalNodes
    tableNodes := this.tableNodes.modify address change
    symbolNodes := symbolNodes }

theorem getElem?_modify (nodes : List TableNode) (address other : Nat)
    (change : TableNode → TableNode) :
    (nodes.modify address change)[other]? =
      nodes[other]?.map fun node => if address = other then change node else node :=
  List.getElem?_modify ..

theorem init_ringed (bucketCount : Nat) : Ringed (init bucketCount) := by
  refine ⟨rfl, rfl, rfl, ?_, ?_, ?_, ?_⟩
  all_goals
    intro a b holds
    simp [init] at holds

theorem init_listed (bucketCount : Nat) : Listed (init bucketCount) fun _ => [] := by
  refine ⟨fun address node holds => ?_, fun first _ low => ?_⟩
  · simp [init] at holds
  · simp [init] at low

/-- `newTableNode` closes the ring around the node it makes. -/
theorem Ringed.newTableNode_eq {this : SymTableMemory} (ringed : Ringed this) (key : Name) :
    ∃ nodes, this.newTableNode key = some (this.tableNodes.length, this.closed key nodes) ∧
      nodes.length = this.tableNodes.length + 1 ∧ ∀ address, nodes[address]? =
        (this.tableNodes ++ [this.freshNode key])[address]?.map
          (relink this.tableNodes.length address) := by
  unfold newTableNode closed
  rw [ringed.numsTable, ringed.head, ringed.tail]
  by_cases empty : this.tableNodes.length = 0
  · simp only [empty, ↓reduceIte]
    refine ⟨_, rfl, by simp [empty], fun address => ?_⟩
    have none : this.tableNodes = [] := List.length_eq_zero_iff.mp empty
    cases address with
    | zero => simp [none, relink, freshNode]
    | succ address => simp [none]
  · simp only [empty, ↓reduceIte]
    refine ⟨_, rfl, by simp [setPreNode, setNextNode, modifyNode], fun address => ?_⟩
    have present : 0 < this.tableNodes.length := Nat.pos_of_ne_zero empty
    simp only [setPreNode, setNextNode, modifyNode, getElem?_modify, Option.map_map]
    change Option.map _ (this.tableNodes ++ [this.freshNode key])[address]? = _
    congr 1
    funext node
    -- The four assignments meet in one node at most, by where it stands in the ring.
    by_cases last : address = this.tableNodes.length
    · have notBefore : ¬ this.tableNodes.length - 1 = address := by omega
      rw [relink, if_pos last, if_pos last]
      simp only [Function.comp_apply, if_pos last.symm, if_neg notBefore,
        if_neg (show ¬ 0 = address by omega)]
    · rw [relink, if_neg last, if_neg last]
      simp only [Function.comp_apply, if_neg (Ne.symm last)]
      by_cases before : address + 1 = this.tableNodes.length
      · rw [if_pos before, if_pos (show this.tableNodes.length - 1 = address by omega)]
        by_cases first : address = 0
        · rw [if_pos first, if_pos first.symm]
        · rw [if_neg first, if_neg (Ne.symm first)]
      · rw [if_neg before, if_neg (show ¬ this.tableNodes.length - 1 = address by omega)]
        by_cases first : address = 0
        · rw [if_pos first, if_pos first.symm]
        · rw [if_neg first, if_neg (Ne.symm first)]

/-- What stands at an address after `newTableNode`. -/
theorem relinked_cases {this : SymTableMemory} {key : Name} {nodes : List TableNode}
    (linked : ∀ address, nodes[address]? = (this.tableNodes ++ [this.freshNode key])[address]?.map
      (relink this.tableNodes.length address))
    {address : Nat} {node : TableNode} (stands : nodes[address]? = some node) :
    (∃ old, this.tableNodes[address]? = some old ∧ address < this.tableNodes.length ∧
      node = relink this.tableNodes.length address old) ∨
    (address = this.tableNodes.length ∧
      node = relink this.tableNodes.length address (this.freshNode key)) := by
  rw [linked, Option.map_eq_some_iff] at stands
  obtain ⟨old, present, same⟩ := stands
  by_cases low : address < this.tableNodes.length
  · rw [List.getElem?_append_left low] at present
    exact Or.inl ⟨old, present, low, same.symm⟩
  · have within := (List.getElem?_eq_some_iff.mp present).1
    have last : address = this.tableNodes.length := by
      rw [List.length_append, List.length_singleton] at within
      omega
    rw [last, List.getElem?_concat_length, Option.some_inj] at present
    exact Or.inr ⟨last, by rw [present, same]⟩

theorem Ringed.newTableNode {this : SymTableMemory} {key : Name} {nodes : List TableNode}
    (ringed : Ringed this) (free : this.getSymbolTable key = none)
    (length : nodes.length = this.tableNodes.length + 1)
    (linked : ∀ address, nodes[address]? = (this.tableNodes ++ [this.freshNode key])[address]?.map
      (relink this.tableNodes.length address)) :
    Ringed (this.closed key nodes) where
  numsTable := by
    show this.numsTable + 1 = nodes.length
    rw [ringed.numsTable, length]
  head := by
    show some 0 = if nodes.length = 0 then none else some 0
    rw [length, if_neg (Nat.succ_ne_zero _)]
  tail := by
    show some this.tableNodes.length = if nodes.length = 0 then none else some (nodes.length - 1)
    rw [length, if_neg (Nat.succ_ne_zero _), Nat.add_sub_cancel]
  nextNode := by
    intro address node stands
    show node.nextNode = if address + 1 = nodes.length then 0 else address + 1
    rw [length]
    rcases relinked_cases linked stands with ⟨old, present, low, rfl⟩ | ⟨rfl, rfl⟩
    · have next := ringed.nextNode address old present
      simp only [relink, Nat.ne_of_lt low, ↓reduceIte, Nat.add_right_cancel_iff]
      split
      · rename_i before
        exact before.symm
      · rename_i other
        rw [next, if_neg other]
    · simp [relink]
  preNode := by
    intro address node stands
    show node.preNode = if address = 0 then nodes.length - 1 else address - 1
    rw [length, Nat.add_sub_cancel]
    rcases relinked_cases linked stands with ⟨old, present, low, rfl⟩ | ⟨rfl, rfl⟩
    · have pre := ringed.preNode address old present
      simp only [relink, Nat.ne_of_lt low, ↓reduceIte]
      split
      · rfl
      · rename_i other
        rw [pre, if_neg other]
    · simp only [relink, ↓reduceIte]
      split <;> omega
  placed := by
    intro address node stands
    rcases relinked_cases linked stands with ⟨old, present, low, rfl⟩ | ⟨rfl, rfl⟩
    · obtain ⟨hash, bucket⟩ := ringed.placed address old present
      refine ⟨hash, ?_⟩
      have other : old.hashValue ≠ this.getHashValue key := by
        intro same
        rw [same] at bucket
        rw [getSymbolTable, bucket] at free
        cases free
      exact (Function.update_of_ne other _ _).trans bucket
    · exact ⟨rfl, Function.update_self _ _ _⟩
  found := by
    intro bucket address stored
    by_cases own : bucket = this.getHashValue key
    · rw [own] at stored ⊢
      have same := (Function.update_self _ _ _).symm.trans stored
      obtain rfl := Option.some.inj same
      refine ⟨relink this.tableNodes.length this.tableNodes.length (this.freshNode key), ?_, rfl⟩
      show nodes[this.tableNodes.length]? = _
      rw [linked, List.getElem?_concat_length]
      rfl
    · obtain ⟨old, present, hash⟩ :=
        ringed.found bucket address ((Function.update_of_ne own _ _).symm.trans stored)
      refine ⟨relink this.tableNodes.length address old, ?_, hash⟩
      show nodes[address]? = _
      rw [linked, List.getElem?_append_left (List.getElem?_eq_some_iff.mp present).1, present]
      rfl

theorem Listed.newTableNode {this later : SymTableMemory} {key : Name}
    {items : Nat → List (Nat × Symbol)} (listed : Listed this items)
    (symbolNodes : later.symbolNodes = this.symbolNodes)
    (length : later.tableNodes.length = this.tableNodes.length + 1)
    (linked : ∀ address, later.tableNodes[address]? =
      (this.tableNodes ++ [this.freshNode key])[address]?.map
        (relink this.tableNodes.length address)) :
    Listed later (Function.update items this.tableNodes.length []) where
  list := by
    intro address node stands
    rw [symbolNodes]
    rcases relinked_cases linked stands with ⟨old, present, low, rfl⟩ | ⟨rfl, rfl⟩
    · rw [Function.update_of_ne (Nat.ne_of_lt low)]
      exact listed.list address old present
    · rw [Function.update_self]
      exact ⟨.nil none, rfl⟩
  apart := by
    intro first second lowFirst lowSecond symbolNode inFirst inSecond
    rw [length] at lowFirst lowSecond
    by_cases newFirst : first = this.tableNodes.length
    · rw [newFirst, Function.update_self] at inFirst
      cases inFirst
    · by_cases newSecond : second = this.tableNodes.length
      · rw [newSecond, Function.update_self] at inSecond
        cases inSecond
      · rw [Function.update_of_ne newFirst] at inFirst
        rw [Function.update_of_ne newSecond] at inSecond
        exact listed.apart first second (by omega) (by omega) symbolNode inFirst inSecond

/-- A change of the lists leaves the ring alone. -/
theorem Ringed.keep {this : SymTableMemory} (ringed : Ringed this) (totalNodes address : Nat)
    (symbolNodes : List (Cell Symbol)) {change : TableNode → TableNode}
    (keeps : ∀ node, (change node).key = node.key ∧ (change node).hashValue = node.hashValue ∧
      (change node).nextNode = node.nextNode ∧ (change node).preNode = node.preNode) :
    Ringed (this.grown totalNodes address change symbolNodes) := by
  have back : ∀ (other : Nat) (node : TableNode),
      (this.tableNodes.modify address change)[other]? = some node →
        ∃ old, this.tableNodes[other]? = some old ∧ node.key = old.key ∧
          node.hashValue = old.hashValue ∧ node.nextNode = old.nextNode ∧
          node.preNode = old.preNode := by
    intro other node stands
    rw [getElem?_modify, Option.map_eq_some_iff] at stands
    obtain ⟨old, present, rfl⟩ := stands
    refine ⟨old, present, ?_⟩
    split
    · exact keeps old
    · exact ⟨rfl, rfl, rfl, rfl⟩
  have length : (this.tableNodes.modify address change).length = this.tableNodes.length :=
    List.length_modify ..
  refine ⟨?_, ?_, ?_, ?_, ?_, ?_, ?_⟩
  · exact ringed.numsTable.trans length.symm
  · exact length ▸ ringed.head
  · exact length ▸ ringed.tail
  · intro other node stands
    obtain ⟨old, present, -, -, next, -⟩ := back other node stands
    rw [next, ringed.nextNode other old present]
    exact length ▸ rfl
  · intro other node stands
    obtain ⟨old, present, -, -, -, pre⟩ := back other node stands
    rw [pre, ringed.preNode other old present]
    exact length ▸ rfl
  · intro other node stands
    obtain ⟨old, present, key, hash, -, -⟩ := back other node stands
    rw [hash, key]
    exact ringed.placed other old present
  · intro bucket other stored
    obtain ⟨old, present, hash⟩ := ringed.found bucket other stored
    refine ⟨if address = other then change old else old, ?_, ?_⟩
    · show (this.tableNodes.modify address change)[other]? = _
      rw [getElem?_modify, present]
      rfl
    · split
      · rw [(keeps old).2.1, hash]
      · exact hash

theorem Listed.fresh {this : SymTableMemory} {items : Nat → List (Nat × Symbol)}
    (listed : Listed this items) {address : Nat} (low : address < this.tableNodes.length) :
    this.symbolNodes.length ∉ (items address).map Prod.fst := by
  intro again
  obtain ⟨item, inside, same⟩ := List.mem_map.mp again
  obtain ⟨chain, -⟩ := listed.list address _ (List.getElem?_eq_getElem low)
  exact absurd same (Nat.ne_of_lt (chain.allocated item inside))

/-- One list grows by a fresh node and the others stay as they are. -/
theorem Listed.grow {this : SymTableMemory} {items : Nat → List (Nat × Symbol)}
    (listed : Listed this items) {address : Nat} {node : TableNode} {value : Symbol}
    {cells : List (Cell Symbol)} {change : TableNode → TableNode}
    (stands : this.tableNodes[address]? = some node)
    (own : Chain cells (change node).symNodeList
      (items address ++ [(this.symbolNodes.length, value)]))
    (tail : (change node).tail = some this.symbolNodes.length)
    (others : ∀ start list, Chain this.symbolNodes start list →
      (∀ p ∈ list.map Prod.fst, p ∉ (items address).map Prod.fst) → Chain cells start list)
    (totalNodes : Nat) :
    Listed (this.grown totalNodes address change cells)
      (Function.update items address
        (items address ++ [(this.symbolNodes.length, value)])) where
  list := by
    intro other node' stands'
    replace stands' : (this.tableNodes.modify address change)[other]? = some node' := stands'
    rw [getElem?_modify, Option.map_eq_some_iff] at stands'
    obtain ⟨old, present, rfl⟩ := stands'
    by_cases same : address = other
    · subst same
      rw [stands] at present
      cases present
      rw [if_pos rfl, Function.update_self]
      exact ⟨own, by rw [tail]; simp⟩
    · rw [if_neg same, Function.update_of_ne (Ne.symm same)]
      obtain ⟨chain, last⟩ := listed.list other old present
      refine ⟨others _ _ chain fun p inside again => same ?_, last⟩
      exact listed.apart address other (List.getElem?_eq_some_iff.mp stands).1
        (List.getElem?_eq_some_iff.mp present).1 p again inside
  apart := by
    have low : address < this.tableNodes.length := (List.getElem?_eq_some_iff.mp stands).1
    intro first second lowFirst lowSecond p inFirst inSecond
    replace lowFirst : first < (this.tableNodes.modify address change).length := lowFirst
    replace lowSecond : second < (this.tableNodes.modify address change).length := lowSecond
    rw [List.length_modify] at lowFirst lowSecond
    have cases_of : ∀ other, p ∈ (Function.update items address
        (items address ++ [(this.symbolNodes.length, value)]) other).map Prod.fst →
        p ∈ (items other).map Prod.fst ∨ other = address ∧ p = this.symbolNodes.length := by
      intro other inside
      by_cases same : other = address
      · rw [same, Function.update_self, List.map_append, List.mem_append] at inside
        rcases inside with old | new
        · exact Or.inl (same ▸ old)
        · exact Or.inr ⟨same, List.mem_singleton.mp new⟩
      · rw [Function.update_of_ne same] at inside
        exact Or.inl inside
    rcases cases_of first inFirst with oldFirst | ⟨newFirst, rfl⟩
    · rcases cases_of second inSecond with oldSecond | ⟨newSecond, rfl⟩
      · exact listed.apart first second lowFirst lowSecond p oldFirst oldSecond
      · exact absurd oldFirst (listed.fresh lowFirst)
    · rcases cases_of second inSecond with oldSecond | ⟨newSecond, -⟩
      · exact absurd oldSecond (listed.fresh lowSecond)
      · rw [newFirst, newSecond]

/-- `appendSymbolNode` puts a symbol behind the others of its node. -/
theorem Listed.appendSymbolNode {this : SymTableMemory} {items : Nat → List (Nat × Symbol)}
    (listed : Listed this items) {address : Nat} {node : TableNode}
    (stands : this.tableNodes[address]? = some node) (value : Symbol) :
    ∃ change cells, this.appendSymbolNode address value =
        some (this.grown (this.totalNodes + (node.numsNode + 1)) address change cells) ∧
      (∀ n, (change n).key = n.key ∧ (change n).hashValue = n.hashValue ∧
        (change n).nextNode = n.nextNode ∧ (change n).preNode = n.preNode ∧
        (change n).numsNode = n.numsNode + 1) ∧
      ∀ totalNodes, Listed (this.grown totalNodes address change cells)
        (Function.update items address
          (items address ++ [(this.symbolNodes.length, value)])) := by
  obtain ⟨chain, tail⟩ := listed.list address node stands
  have new : (this.symbolNodes ++ [⟨value, none⟩])[this.symbolNodes.length]? =
      some ⟨value, none⟩ := getElem?_malloc this.symbolNodes ⟨value, none⟩
  unfold SymTableMemory.appendSymbolNode
  simp only [stands]
  cases start : node.symNodeList with
  | none =>
      rw [start] at chain
      have empty : items address = [] := by
        cases chainItems : items address with
        | nil => rfl
        | cons item rest =>
            rw [chainItems] at chain
            cases chain
      refine ⟨_, _, rfl, fun n => ⟨rfl, rfl, rfl, rfl, rfl⟩,
        fun totalNodes => listed.grow stands ?_ rfl ?_ totalNodes⟩
      · rw [empty]
        exact .cons new (.nil none)
      · exact fun other list held _ => held.malloc _
  | some first =>
      rw [start] at chain
      have nonempty : items address ≠ [] := by
        intro empty
        rw [empty] at chain
        cases chain
      obtain ⟨front, ⟨last, lastValue⟩, split⟩ :=
        (List.eq_nil_or_concat' (items address)).resolve_left nonempty
      have tailEq : node.tail = some last := by
        rw [tail, split]
        simp
      rw [tailEq]
      refine ⟨_, _, rfl, fun n => ⟨rfl, rfl, rfl, rfl, rfl⟩,
        fun totalNodes => listed.grow stands ?_ rfl ?_ totalNodes⟩
      · show Chain _ node.symNodeList _
        have nodup := chain.nodup
        rw [split, List.map_append] at nodup
        have outside : last ∉ front.map Prod.fst := fun again =>
          (List.nodup_append.mp nodup).2.2 last again last (by simp) rfl
        rw [start, split]
        rw [split] at chain
        have low : last < this.symbolNodes.length := chain.allocated (last, lastValue) (by simp)
        refine ((chain.malloc _).setNext_last _ outside).append (.cons ?_ (.nil none))
        rw [getElem?_setNext_ne _ (Nat.ne_of_gt low), new]
      · intro other list held apart
        refine (held.malloc _).setNext_outside _ fun inside => apart last inside ?_
        simp [split]

theorem containFrom_returns (value : Symbol) {nodes : List (Cell Symbol)} {start : Option Nat}
    {list : List (Nat × Symbol)} (chain : Chain nodes start list) :
    Returns (fun fuel => containFrom value fuel nodes start)
      ((list.map Prod.snd).any fun stored => compareDataType stored value) := by
  induction list generalizing start with
  | nil =>
      cases chain
      exact .of_forall fun fuel => by rw [containFrom.eq_def]; rfl
  | cons item list ih =>
      cases chain with
      | @cons address stored next _ _ cell rest =>
          rw [List.map_cons, List.any_cons]
          cases equal : compareDataType stored value with
          | true => exact .of_forall fun fuel => by rw [containFrom.eq_def]; simp [cell, equal]
          | false =>
              rw [Bool.false_or]
              refine (ih rest).succ fun fuel => ?_
              rw [containFrom]
              simp [cell, equal]

/-- The table as it is between two calls. -/
structure Linked (this : SymTableMemory) (items : Nat → List (Nat × Symbol)) : Prop where
  ringed : Ringed this
  listed : Listed this items
  filled : ∀ address < this.tableNodes.length, items address ≠ []

theorem init_linked (bucketCount : Nat) : Linked (init bucketCount) fun _ => [] :=
  ⟨init_ringed bucketCount, init_listed bucketCount, fun _ low => by simp [init] at low⟩

/-- Whether a symbol is already in the bucket of its key. -/
def holds (this : SymTableMemory) (items : Nat → List (Nat × Symbol)) (key : Name)
    (value : Symbol) : Bool :=
  match this.getSymbolTable key with
  | none => false
  | some address =>
      ((items address).map Prod.snd).any fun stored => compareDataType stored value

theorem contain_returns {this : SymTableMemory} {items : Nat → List (Nat × Symbol)}
    (linked : Linked this items) (key : Name) (value : Symbol) :
    Returns (fun fuel => this.contain fuel key value) (this.holds items key value) := by
  unfold contain holds
  cases stored : this.getSymbolTable key with
  | none => exact .of_forall fun _ => rfl
  | some address =>
      obtain ⟨node, stands, -⟩ := linked.ringed.found _ address stored
      simp only [stands]
      exact containFrom_returns value (linked.listed.list address node stands).1

/-- The buckets that are in use, in the order in which their nodes were allocated. -/
def hashValues (this : SymTableMemory) : List Nat :=
  this.tableNodes.map (·.hashValue)

theorem hashValues_relinked {this : SymTableMemory} {key : Name} {nodes : List TableNode}
    (linked : ∀ address, nodes[address]? = (this.tableNodes ++ [this.freshNode key])[address]?.map
      (relink this.tableNodes.length address)) :
    nodes.map (·.hashValue) = this.hashValues ++ [this.getHashValue key] := by
  apply List.ext_getElem?
  intro address
  have whole : this.hashValues ++ [this.getHashValue key] =
      (this.tableNodes ++ [this.freshNode key]).map (·.hashValue) := by
    rw [List.map_append]
    rfl
  rw [whole, List.getElem?_map, List.getElem?_map, linked, Option.map_map]
  rfl

theorem hashValues_modify {nodes : List TableNode} {change : TableNode → TableNode}
    (keeps : ∀ node, (change node).hashValue = node.hashValue) (address : Nat) :
    (nodes.modify address change).map (·.hashValue) = nodes.map (·.hashValue) := by
  apply List.ext_getElem?
  intro other
  rw [List.getElem?_map, List.getElem?_map, getElem?_modify, Option.map_map]
  congr 1
  funext node
  rw [Function.comp_apply]
  split
  · exact keeps node
  · rfl

/-- The node that `_putSymbol` links a symbol into: the one in the bucket, or a new one. -/
inductive Found (this : SymTableMemory) (items : Nat → List (Nat × Symbol)) (key : Name) :
    Nat → SymTableMemory → (Nat → List (Nat × Symbol)) → Prop
  | old {address : Nat} (stored : this.getSymbolTable key = some address) :
      Found this items key address this items
  | new {nodes : List TableNode} (free : this.getSymbolTable key = none)
      (made : this.newTableNode key = some (this.tableNodes.length, this.closed key nodes))
      (length : nodes.length = this.tableNodes.length + 1)
      (linked : ∀ address, nodes[address]? =
        (this.tableNodes ++ [this.freshNode key])[address]?.map
          (relink this.tableNodes.length address)) :
      Found this items key this.tableNodes.length (this.closed key nodes)
        (Function.update items this.tableNodes.length [])

theorem Linked.found {this : SymTableMemory} {items : Nat → List (Nat × Symbol)}
    (linked : Linked this items) (key : Name) :
    ∃ address middle items', Found this items key address middle items' ∧ Ringed middle ∧
      Listed middle items' ∧ address < middle.tableNodes.length ∧
      (∀ other < middle.tableNodes.length, other ≠ address → items' other ≠ []) ∧
      middle.numsBucket = this.numsBucket ∧
      middle.hashValues = (if this.getSymbolTable key = none then
        this.hashValues ++ [this.getHashValue key] else this.hashValues) := by
  cases stored : this.getSymbolTable key with
  | some address =>
      obtain ⟨node, stands, -⟩ := linked.ringed.found _ address stored
      exact ⟨address, this, items, .old stored, linked.ringed, linked.listed,
        (List.getElem?_eq_some_iff.mp stands).1, fun other low _ => linked.filled other low,
        rfl, by simp⟩
  | none =>
      obtain ⟨nodes, made, length, relinked⟩ := linked.ringed.newTableNode_eq key
      refine ⟨_, _, _, .new stored made length relinked,
        linked.ringed.newTableNode stored length relinked,
        linked.listed.newTableNode rfl length relinked, ?_, ?_, rfl, ?_⟩
      · show this.tableNodes.length < nodes.length
        omega
      · intro other low different
        replace low : other < nodes.length := low
        rw [Function.update_of_ne different]
        exact linked.filled other (by omega)
      · rw [if_pos rfl]
        exact hashValues_relinked relinked

/-- What one call of `_putSymbol` does. -/
theorem putSymbol_cases {this : SymTableMemory} {items : Nat → List (Nat × Symbol)}
    (linked : Linked this items) (key : Name) (value : Symbol) :
    ((this.numsBucket ≤ this.numsTable ∨ this.holds items key value = true) ∧
      Returns (fun fuel => this.putSymbol fuel key value) (false, this)) ∨
    (¬ (this.numsBucket ≤ this.numsTable ∨ this.holds items key value = true) ∧
      ∃ address middle items' node later change cells,
        Found this items key address middle items' ∧ middle.tableNodes[address]? = some node ∧
        later = middle.grown (middle.totalNodes + (node.numsNode + 1)) address change cells ∧
        (∀ n, (change n).key = n.key ∧ (change n).hashValue = n.hashValue ∧
          (change n).nextNode = n.nextNode ∧ (change n).preNode = n.preNode ∧
          (change n).numsNode = n.numsNode + 1) ∧
        Linked later (Function.update items' address
          (items' address ++ [(middle.symbolNodes.length, value)])) ∧
        later.numsBucket = this.numsBucket ∧
        later.hashValues = (if this.getSymbolTable key = none then
          this.hashValues ++ [this.getHashValue key] else this.hashValues) ∧
        Returns (fun fuel => this.putSymbol fuel key value) (true, later)) := by
  have contains := contain_returns linked key value
  by_cases full : this.numsBucket ≤ this.numsTable
  · exact Or.inl ⟨Or.inl full, .of_forall fun fuel => by rw [putSymbol, if_pos full]⟩
  cases held : this.holds items key value with
  | true =>
      rw [held] at contains
      refine Or.inl ⟨Or.inr rfl, contains.of_both contains fun fuel found _ => ?_⟩
      rw [putSymbol, if_neg full, found]
  | false =>
      rw [held] at contains
      refine Or.inr ⟨by simp [full], ?_⟩
      obtain ⟨address, middle, items', found, ringed, listed, low, others, size, hashes⟩ :=
        linked.found key
      have stands := List.getElem?_eq_getElem low
      obtain ⟨change, cells, appended, keeps, grows⟩ := listed.appendSymbolNode stands value
      refine ⟨address, middle, items', _, _, change, cells, found, stands, rfl, keeps,
        ⟨ringed.keep _ address cells fun n => ?_, grows _, ?_⟩, size,
        (hashValues_modify (fun n => (keeps n).2.1) address).trans hashes,
        contains.of_both contains fun fuel missing _ => ?_⟩
      · obtain ⟨sameKey, hash, next, pre, -⟩ := keeps n
        exact ⟨sameKey, hash, next, pre⟩
      · intro other low'
        replace low' : other < (middle.tableNodes.modify address change).length := low'
        rw [List.length_modify] at low'
        by_cases same : other = address
        · rw [same, Function.update_self]
          simp
        · rw [Function.update_of_ne same]
          exact others other low' same
      · rw [putSymbol, if_neg full, missing]
        cases found with
        | old stored =>
            simp only [stored]
            rw [appended]
            rfl
        | new free made =>
            simp only [free, made]
            rw [appended]
            rfl

/-- The buckets that a sequence of calls needs, in the order in which they first come up. -/
def bucketsCreated (bucketCount : Nat) (calls : List (Name × Symbol)) : List Nat :=
  calls.foldl (fun created call =>
    let bucket := hashcode (symTableInit bucketCount) call.1
    if bucket ∈ created then created else created ++ [bucket]) []

theorem bucketsCreated_concat (bucketCount : Nat) (calls : List (Name × Symbol))
    (call : Name × Symbol) :
    bucketsCreated bucketCount (calls ++ [call]) =
      if hashcode (symTableInit bucketCount) call.1 ∈ bucketsCreated bucketCount calls then
        bucketsCreated bucketCount calls
      else bucketsCreated bucketCount calls ++ [hashcode (symTableInit bucketCount) call.1] := by
  unfold bucketsCreated
  rw [List.foldl_append]
  rfl

theorem Ringed.mem_hashValues {this : SymTableMemory} (ringed : Ringed this) (bucket : Nat) :
    bucket ∈ this.hashValues ↔ this.buckets bucket ≠ none := by
  unfold hashValues
  rw [List.mem_map]
  constructor
  · rintro ⟨node, inside, rfl⟩
    obtain ⟨address, stands⟩ := List.mem_iff_getElem?.mp inside
    rw [(ringed.placed address node stands).2]
    simp
  · intro used
    obtain ⟨address, stored⟩ := Option.ne_none_iff_exists'.mp used
    obtain ⟨node, stands, same⟩ := ringed.found bucket address stored
    exact ⟨node, List.mem_of_getElem? stands, same⟩

theorem Ringed.hashValues_nodup {this : SymTableMemory} (ringed : Ringed this) :
    this.hashValues.Nodup := by
  rw [List.nodup_iff_getElem?_ne_getElem?]
  intro first second less within same
  unfold hashValues at within same
  rw [List.length_map] at within
  rw [List.getElem?_map, List.getElem?_map, List.getElem?_eq_getElem (by omega),
    List.getElem?_eq_getElem within] at same
  have placed1 := (ringed.placed first _ (List.getElem?_eq_getElem (by omega))).2
  have placed2 := (ringed.placed second _ (List.getElem?_eq_getElem within)).2
  have hashes : this.tableNodes[first].hashValue = this.tableNodes[second].hashValue := by
    simpa using same
  rw [hashes, placed2] at placed1
  exact absurd (Option.some.inj placed1) (by omega)

/-- With as many nodes as buckets, no bucket is empty. -/
theorem Ringed.used_of_full {this : SymTableMemory} (ringed : Ringed this)
    (positive : 0 < this.numsBucket) (full : this.numsBucket ≤ this.numsTable) {bucket : Nat}
    (low : bucket < this.numsBucket) : bucket ∈ this.hashValues := by
  have within : this.hashValues ⊆ List.range this.numsBucket := by
    intro hash inside
    obtain ⟨node, member, rfl⟩ := List.mem_map.mp inside
    obtain ⟨address, stands⟩ := List.mem_iff_getElem?.mp member
    rw [(ringed.placed address node stands).1, List.mem_range]
    exact Nat.mod_lt _ positive
  have sub := List.subperm_of_subset ringed.hashValues_nodup within
  have perm := sub.perm_of_length_le (by
    rw [List.length_range, hashValues, List.length_map, ← ringed.numsTable]
    exact full)
  exact perm.mem_iff.mpr (List.mem_range.mpr low)

theorem putCalls_concat (fuel : Nat) (this : SymTableMemory) (calls : List (Name × Symbol))
    (call : Name × Symbol) {results : List Bool} {middle later : SymTableMemory} {last : Bool}
    (before : this.putCalls fuel calls = some (results, middle))
    (put : middle.putSymbol fuel call.1 call.2 = some (last, later)) :
    this.putCalls fuel (calls ++ [call]) = some (results ++ [last], later) := by
  induction calls generalizing this results with
  | nil =>
      cases before
      simp [putCalls, put]
  | cons first calls ih =>
      rw [List.cons_append, putCalls]
      rw [putCalls] at before
      cases ran : this.putSymbol fuel first.1 first.2 with
      | none => simp [ran] at before
      | some result =>
          obtain ⟨returned, next⟩ := result
          rw [ran] at before
          obtain ⟨⟨results', middle'⟩, rest, same⟩ := Option.map_eq_some_iff.mp before
          cases same
          simp [ih next rest]

/-- Every sequence of calls comes to its end, with the nodes linked. -/
theorem putCalls_linked {bucketCount : Nat} (positive : 0 < bucketCount)
    (calls : List (Name × Symbol)) :
    ∃ results later items,
      Returns (fun fuel => (init bucketCount).putCalls fuel calls) (results, later) ∧
      Linked later items ∧ later.numsBucket = bucketCount ∧
      later.hashValues = bucketsCreated bucketCount calls ∧
      (true ∈ results ↔ later.tableNodes ≠ []) := by
  induction calls using List.reverseRecOn with
  | nil =>
      exact ⟨[], init bucketCount, fun _ => [], .of_forall fun _ => rfl, init_linked bucketCount,
        rfl, rfl, by simp [init]⟩
  | append_singleton calls call ih =>
      obtain ⟨results, middle, items, ran, linked, size, hashes, some⟩ := ih
      rw [bucketsCreated_concat, ← hashes]
      have key : middle.getHashValue call.1 = hashcode (symTableInit bucketCount) call.1 := by
        rw [getHashValue, size]
      rcases putSymbol_cases linked call.1 call.2 with
        ⟨refused, returned⟩ | ⟨-, address, found, items1, node, later, change, cells, -, -, -, -,
          linked', size', created, returned⟩
      · have used : hashcode (symTableInit bucketCount) call.1 ∈ middle.hashValues := by
          rw [← key]
          rcases refused with full | held
          · exact linked.ringed.used_of_full (size ▸ positive) full
              (Nat.mod_lt _ (size ▸ positive))
          · rw [linked.ringed.mem_hashValues]
            intro free
            rw [holds, getSymbolTable, free] at held
            cases held
        refine ⟨results ++ [false], middle, items,
          ran.of_both returned fun fuel before put => putCalls_concat fuel _ calls call before put,
          linked, size, by rw [if_pos used], by simpa using some⟩
      · refine ⟨results ++ [true], later, _,
          ran.of_both returned fun fuel before put => putCalls_concat fuel _ calls call before put,
          linked', size'.trans size, ?_, ?_⟩
        · rw [created, ← key]
          by_cases free : middle.getSymbolTable call.1 = none
          · have unused : middle.getHashValue call.1 ∉ middle.hashValues := by
              rw [linked.ringed.mem_hashValues]
              exact not_not.mpr free
            rw [if_pos free, if_neg unused]
          · have used : middle.getHashValue call.1 ∈ middle.hashValues :=
              (linked.ringed.mem_hashValues _).mpr free
            rw [if_neg free, if_pos used]
        · refine iff_of_true (by simp) fun empty => ?_
          have stored : later.hashValues ≠ [] := by
            rw [created]
            split
            · simp
            · rename_i used
              exact List.ne_nil_of_mem ((linked.ringed.mem_hashValues _).mpr used)
          exact stored (by rw [hashValues, empty]; rfl)

/-- The ring of a table whose buckets were created in this order. -/
structure RingOfBuckets (this : SymTableMemory) (created order : List Nat) : Prop where
  /-- `SymTable_print` comes to the end of the ring, and prints these nodes. -/
  visited : Returns (fun fuel => printRing this.head fuel this this.head) order
  inOrder : order.map (fun address => (this.tableNodes[address]?).map (·.hashValue)) =
    created.map some
  once : order.Nodup
  every : ∀ address, address ∈ order ↔ ∃ bucket, this.buckets bucket = some address
  first : order.head? = this.head
  last : order.getLast? = this.tail
  closed : ∃ (tail : Nat) (node : TableNode), this.tail = some tail ∧
    this.tableNodes[tail]? = some node ∧ some node.nextNode = this.head
  inverse : ∀ (address : Nat) (node : TableNode), this.tableNodes[address]? = some node →
    (∃ next : TableNode, this.tableNodes[node.nextNode]? = some next ∧ next.preNode = address) ∧
      ∃ pre : TableNode, this.tableNodes[node.preNode]? = some pre ∧ pre.nextNode = address
  placed : ∀ (address : Nat) (node : TableNode), this.tableNodes[address]? = some node →
    node.hashValue = this.getHashValue node.key ∧ this.buckets node.hashValue = some address
  lists : ∀ (address : Nat) (node : TableNode), this.tableNodes[address]? = some node →
    ∃ list, list ≠ [] ∧ Chain this.symbolNodes node.symNodeList list ∧
      node.tail = list.getLast?.map Prod.fst

theorem Ringed.printRing {this : SymTableMemory} (ringed : Ringed this) (left : Nat)
    {address : Nat} (there : address + left + 1 = this.tableNodes.length) :
    Returns (fun fuel => printRing this.head fuel this (some address))
      (List.range' address (left + 1)) := by
  have head := ringed.head
  rw [if_neg (by omega)] at head
  induction left generalizing address with
  | zero =>
      have stands := List.getElem?_eq_getElem (show address < this.tableNodes.length by omega)
      have next := ringed.nextNode address _ stands
      rw [if_pos (by omega)] at next
      have ends : Returns (fun _ => some [address]) [address] := .of_forall fun _ => rfl
      refine ends.succ fun fuel => ?_
      rw [SymTableMemory.printRing]
      simp [stands, next, head]
  | succ left ih =>
      have stands := List.getElem?_eq_getElem (show address < this.tableNodes.length by omega)
      have next := ringed.nextNode address _ stands
      rw [if_neg (by omega)] at next
      have rest := ih (show address + 1 + left + 1 = this.tableNodes.length by omega)
      have whole : Returns (fun fuel =>
          (SymTableMemory.printRing this.head fuel this (some (address + 1))).map (address :: ·))
          (address :: List.range' (address + 1) (left + 1)) :=
        rest.of_both rest fun fuel printed _ => by rw [printed]; rfl
      rw [List.range'_succ]
      refine whole.succ fun fuel => ?_
      rw [SymTableMemory.printRing]
      simp [stands, next, head]

theorem Ringed.next_pre {this : SymTableMemory} (ringed : Ringed this) {address : Nat}
    {node : TableNode} (stands : this.tableNodes[address]? = some node) :
    (∃ next : TableNode, this.tableNodes[node.nextNode]? = some next ∧ next.preNode = address) ∧
      ∃ pre : TableNode, this.tableNodes[node.preNode]? = some pre ∧ pre.nextNode = address := by
  have low : address < this.tableNodes.length := (List.getElem?_eq_some_iff.mp stands).1
  have next := ringed.nextNode address node stands
  have pre := ringed.preNode address node stands
  have nextLow : node.nextNode < this.tableNodes.length := by
    rw [next]
    split <;> omega
  have preLow : node.preNode < this.tableNodes.length := by
    rw [pre]
    split <;> omega
  refine ⟨⟨_, List.getElem?_eq_getElem nextLow, ?_⟩, _, List.getElem?_eq_getElem preLow, ?_⟩
  · rw [ringed.preNode _ _ (List.getElem?_eq_getElem nextLow), next]
    split <;> split <;> omega
  · rw [ringed.nextNode _ _ (List.getElem?_eq_getElem preLow), pre]
    split <;> split <;> omega

theorem Linked.ringOfBuckets {this : SymTableMemory} {items : Nat → List (Nat × Symbol)}
    (linked : Linked this items) (nonempty : this.tableNodes ≠ []) :
    RingOfBuckets this this.hashValues (List.range this.tableNodes.length) := by
  have ringed := linked.ringed
  obtain ⟨left, length⟩ : ∃ left, this.tableNodes.length = left + 1 :=
    Nat.exists_eq_succ_of_ne_zero fun zero => nonempty (List.length_eq_zero_iff.mp zero)
  have head := ringed.head
  have tail := ringed.tail
  rw [if_neg (by omega)] at head tail
  refine ⟨?_, ?_, List.nodup_range, fun address => ?_, ?_, ?_, ?_,
    fun address node stands => ringed.next_pre stands, ringed.placed, fun address node stands => ?_⟩
  · rw [length, List.range_eq_range']
    have printed := ringed.printRing left (show 0 + left + 1 = this.tableNodes.length by omega)
    rw [head] at printed ⊢
    exact printed
  · apply List.ext_getElem?
    intro address
    by_cases low : address < this.tableNodes.length
    · simp [hashValues, low]
    · simp [hashValues, low]
  · rw [List.mem_range]
    constructor
    · intro low
      exact ⟨_, (ringed.placed address _ (List.getElem?_eq_getElem low)).2⟩
    · rintro ⟨bucket, stored⟩
      obtain ⟨node, stands, -⟩ := ringed.found bucket address stored
      exact (List.getElem?_eq_some_iff.mp stands).1
  · rw [head, length, List.range_succ_eq_map]
    rfl
  · rw [tail, length, List.range_succ]
    simp
  · have stands := List.getElem?_eq_getElem (show left < this.tableNodes.length by omega)
    refine ⟨left, _, by rw [tail, length]; rfl, stands, ?_⟩
    rw [ringed.nextNode left _ stands, if_pos length.symm, head]
  · obtain ⟨chain, last⟩ := linked.listed.list address node stands
    exact ⟨items address, linked.filled address (List.getElem?_eq_some_iff.mp stands).1, chain,
      last⟩

/-- Whatever was put, the buckets in use form one ring. -/
theorem ring_of_buckets {bucketCount : Nat} (positive : 0 < bucketCount)
    (calls : List (Name × Symbol)) :
    ∃ results later, Returns (fun fuel => (init bucketCount).putCalls fuel calls) (results, later) ∧
      (true ∈ results → ∃ order,
        RingOfBuckets later (bucketsCreated bucketCount calls) order) := by
  obtain ⟨results, later, items, ran, linked, -, created, nonempty⟩ :=
    putCalls_linked positive calls
  refine ⟨results, later, ran, fun success => ⟨List.range later.tableNodes.length, ?_⟩⟩
  rw [← created]
  exact linked.ringOfBuckets (nonempty.mp success)

/-- Two variables for the driver's table. -/
def twoVariables : List (Name × Symbol) :=
  [([120], { kind := .varS, name := [120], val := 0, level := 0, addr := 4, id := 0 }),
    ([121], { kind := .varS, name := [121], val := 0, level := 0, addr := 5, id := 1 })]

theorem ring_of_buckets_driver : 0 < 100 ∧
    ∃ results later,
      Returns (fun fuel => (init 100).putCalls fuel twoVariables) (results, later) ∧
      true ∈ results ∧ ∃ order, RingOfBuckets later (bucketsCreated 100 twoVariables) order := by
  have positive : 0 < 100 := by decide
  refine ⟨positive, ?_⟩
  obtain ⟨results, later, ran, ring⟩ := ring_of_buckets positive twoVariables
  obtain ⟨results', later', items, ran', -, -, created, success⟩ :=
    putCalls_linked positive twoVariables
  cases ran.unique ran'
  have stored : later.tableNodes ≠ [] := by
    intro empty
    rw [hashValues, empty] at created
    exact absurd created (by decide)
  exact ⟨results, later, ran, success.mpr stored, ring (success.mpr stored)⟩

end SymTableMemory

end Pl0
