import Pl0.SymbolTableExit
import Mathlib.Data.List.Forall2
import Mathlib.Data.List.Perm.Basic
import Mathlib.Data.List.Rotate

set_option autoImplicit false

namespace Pl0

open LinkedCells StateExcept

/-- What `SymTable_print` prints for a node with option 1, field by field, and the symbols
of its list. -/
structure PrintedNode where
  key : Name
  hashValue : Nat
  numsOfSymbol : Nat
  previous : Name
  next : Name
  symbols : List Symbol
  deriving DecidableEq, Repr

/-- The listing of the table; the keys of `head` and `tail` are printed when there are nodes. -/
structure Listing where
  numOfSymbol : Nat
  numsOfSymbolTable : Nat
  numOfBucket : Nat
  ends : Option (Name × Name)
  nodes : List PrintedNode
  deriving DecidableEq, Repr

namespace SymTableMemory

/-- The `Key` behind a pointer. -/
def keyAt (this : SymTableMemory) (pointer : Option Nat) : Option Name :=
  pointer.bind fun address => this.tableNodes[address]?.map (·.key)

def printSymbols : Nat → List (Cell Symbol) → Option Nat → Option (List Symbol)
  | _, _, none => some []
  | 0, _, some _ => none
  | fuel + 1, nodes, some ptr => do
      let node ← nodes[ptr]?
      let symbols ← printSymbols fuel nodes node.next
      return node.value :: symbols

def printNode (fuel : Nat) (this : SymTableMemory) (cur : Nat) : Option PrintedNode := do
  let node ← this.tableNodes[cur]?
  let previous ← this.keyAt (some node.preNode)
  let next ← this.keyAt (some node.nextNode)
  let symbols ← printSymbols fuel this.symbolNodes node.symNodeList
  return ⟨node.key, node.hashValue, node.numsNode, previous, next, symbols⟩

/-- The loop of option 1 over the buckets. -/
def printBuckets (fuel : Nat) (this : SymTableMemory) : List Nat → Option (List PrintedNode)
  | [] => some []
  | i :: rest =>
      match this.buckets i with
      | none => this.printBuckets fuel rest
      | some cur => do
          let node ← this.printNode fuel cur
          let nodes ← this.printBuckets fuel rest
          return node :: nodes

def printEnds (this : SymTableMemory) : Option (Option (Name × Name)) :=
  if this.numsTable ≠ 0 then do
    let head ← this.keyAt this.head
    let tail ← this.keyAt this.tail
    return some (head, tail)
  else some none

/-- `SymTable_print` with option 1. -/
def print (fuel : Nat) (this : SymTableMemory) : Option Listing := do
  let ends ← this.printEnds
  let nodes ← this.printBuckets fuel (List.range this.numsBucket)
  return ⟨this.totalNodes, this.numsTable, this.numsBucket, ends, nodes⟩

/-- What is printed for the node at an address. -/
structure Shows (this : SymTableMemory) (items : Nat → List (Nat × Symbol)) (address : Nat)
    (printed : PrintedNode) : Prop where
  node : ∃ node, this.tableNodes[address]? = some node ∧ printed.key = node.key ∧
    printed.hashValue = node.hashValue ∧ printed.numsOfSymbol = node.numsNode ∧
    this.keyAt (some node.preNode) = some printed.previous ∧
    this.keyAt (some node.nextNode) = some printed.next
  symbols : printed.symbols = (items address).map Prod.snd

section

variable {this : SymTableMemory} {items : Nat → List (Nat × Symbol)} {ring : List PrintedNode}

theorem keyAt_of_some {address : Nat} {node : TableNode}
    (stands : this.tableNodes[address]? = some node) : this.keyAt (some address) =
      some node.key := by
  rw [keyAt, Option.bind_some, stands]
  rfl

theorem printSymbols_returns {nodes : List (Cell Symbol)} {start : Option Nat}
    {list : List (Nat × Symbol)} (chain : Chain nodes start list) {fuel : Nat}
    (enough : list.length ≤ fuel) : printSymbols fuel nodes start = some (list.map Prod.snd) := by
  induction list generalizing start fuel with
  | nil =>
      cases chain
      rw [printSymbols.eq_def]
      rfl
  | cons item list ih =>
      obtain ⟨fuel, rfl⟩ : ∃ more, fuel = more + 1 :=
        Nat.exists_eq_succ_of_ne_zero (by simp at enough; omega)
      cases chain with
      | cons cell rest =>
          have returned := ih rest (Nat.le_of_succ_le_succ enough)
          rw [printSymbols, cell]
          simp [returned]

theorem Linked.printNode (linked : Linked this items) {address : Nat}
    (low : address < this.tableNodes.length) : ∃ printed, Shows this items address printed ∧
      ∀ fuel, this.symbolNodes.length ≤ fuel → this.printNode fuel address = some printed := by
  have stands := List.getElem?_eq_getElem low
  obtain ⟨⟨next, nextStands, -⟩, pre, preStands, -⟩ := linked.ringed.next_pre stands
  obtain ⟨chain, -⟩ := linked.listed.list address _ stands
  refine ⟨⟨_, _, _, pre.key, next.key, (items address).map Prod.snd⟩,
    ⟨⟨_, stands, rfl, rfl, rfl, keyAt_of_some preStands, keyAt_of_some nextStands⟩, rfl⟩,
    fun fuel enough => ?_⟩
  have symbols := printSymbols_returns chain (chain.length_le.trans enough)
  rw [SymTableMemory.printNode, stands]
  simp [keyAt_of_some preStands, keyAt_of_some nextStands, symbols]

theorem Linked.printBuckets (linked : Linked this items) (buckets : List Nat) :
    ∃ nodes, List.Forall₂ (Shows this items) (buckets.filterMap this.buckets) nodes ∧
      ∀ fuel, this.symbolNodes.length ≤ fuel → this.printBuckets fuel buckets = some nodes := by
  induction buckets with
  | nil => exact ⟨[], .nil, fun _ _ => rfl⟩
  | cons i buckets ih =>
      obtain ⟨nodes, shows_, returned⟩ := ih
      cases stored : this.buckets i with
      | none =>
          rw [List.filterMap_cons_none stored]
          refine ⟨nodes, shows_, fun fuel enough => ?_⟩
          rw [SymTableMemory.printBuckets, stored]
          exact returned fuel enough
      | some address =>
          obtain ⟨node, stands, -⟩ := linked.ringed.found i address stored
          obtain ⟨printed, shown, first⟩ :=
            linked.printNode (List.getElem?_eq_some_iff.mp stands).1
          rw [List.filterMap_cons_some stored]
          refine ⟨printed :: nodes, .cons shown shows_, fun fuel enough => ?_⟩
          rw [SymTableMemory.printBuckets, stored]
          simp [first fuel enough, returned fuel enough]

theorem exists_related {α β : Type} {R : α → β → Prop} {first : List α} {second : List β}
    (related : List.Forall₂ R first second) {x : α} (member : x ∈ first) :
    ∃ y ∈ second, R x y := by
  induction related with
  | nil => cases member
  | cons head _ ih =>
      rcases List.mem_cons.mp member with rfl | later
      · exact ⟨_, List.mem_cons_self, head⟩
      · obtain ⟨y, inside, holds⟩ := ih later
        exact ⟨y, List.mem_cons_of_mem _ inside, holds⟩

theorem address_of_shown {addresses : List Nat} {nodes : List PrintedNode}
    (shown : List.Forall₂ (Shows this items) addresses nodes) {n : PrintedNode}
    (member : n ∈ nodes) : ∃ address ∈ addresses, Shows this items address n :=
  exists_related (List.Forall₂.flip (R := flip (Shows this items)) shown) member

/-- The printed nodes are those of one ring, which stands in the order in which the buckets
were created: each names the one behind it as its next and is named by it as its previous,
behind the last one comes the first, and these two are the printed ends. -/
def ListsRing (ends : Option (Name × Name)) (nodes : List PrintedNode) (created : List Nat) :
    Prop :=
  ∃ ring : List PrintedNode, ring.Perm nodes ∧ ring.map (·.hashValue) = created ∧
    ring.map (·.next) = (ring.map (·.key)).rotate 1 ∧
    (ring.map (·.previous)).rotate 1 = ring.map (·.key) ∧
    ends = ring.head?.bind fun first => ring.getLast?.map fun last => (first.key, last.key)

/-- What is printed for the nodes, put in the order of their addresses. -/
structure ShowsAll (this : SymTableMemory) (items : Nat → List (Nat × Symbol))
    (ring : List PrintedNode) : Prop where
  length : ring.length = this.tableNodes.length
  shows_ : ∀ i (low : i < ring.length), Shows this items i ring[i]

theorem Ringed.shown_in_order (ringed : Ringed this) (positive : 0 < this.numsBucket)
    {nodes : List PrintedNode} (shown : List.Forall₂ (Shows this items)
      ((List.range this.numsBucket).filterMap this.buckets) nodes) :
    ∃ ring, ring.Perm nodes ∧ ShowsAll this items ring := by
  obtain ⟨ring, related, perm⟩ := List.perm_comp_forall₂ (ringed.addresses positive).symm shown
  obtain ⟨length, each⟩ := List.forall₂_iff_get.mp related
  rw [List.length_range] at length
  refine ⟨ring, perm, length.symm, fun i low => ?_⟩
  have own := each i (by rw [List.length_range, length]; exact low) low
  rwa [List.get_eq_getElem, List.getElem_range, List.get_eq_getElem] at own

theorem ShowsAll.keyAt (all : ShowsAll this items ring) {i : Nat} (low : i < ring.length) :
    this.keyAt (some i) = some ring[i].key := by
  obtain ⟨⟨node, stands, key, -⟩, -⟩ := all.shows_ i low
  rw [keyAt_of_some stands, key]

theorem ShowsAll.hashValues (all : ShowsAll this items ring) :
    ring.map (·.hashValue) = this.hashValues := by
  apply List.ext_getElem
  · simp [all.length, SymTableMemory.hashValues]
  · intro i low _
    rw [List.length_map] at low
    obtain ⟨⟨node, stands, -, hash, -⟩, -⟩ := all.shows_ i low
    have same := (List.getElem?_eq_some_iff.mp stands).2
    simp [SymTableMemory.hashValues, hash, same]

theorem ShowsAll.next (all : ShowsAll this items ring) (ringed : Ringed this) :
    ring.map (·.next) = (ring.map (·.key)).rotate 1 := by
  apply List.ext_getElem
  · simp
  · intro i low _
    rw [List.length_map] at low
    obtain ⟨⟨node, stands, -, -, -, -, next⟩, -⟩ := all.shows_ i low
    have follower : node.nextNode = (i + 1) % ring.length := by
      rw [ringed.nextNode i node stands, ← all.length]
      split
      · rename_i last
        rw [last, Nat.mod_self]
      · rw [Nat.mod_eq_of_lt (by omega)]
    rw [follower, all.keyAt (Nat.mod_lt _ (by omega)), Option.some_inj] at next
    simp [List.getElem_rotate, next]

theorem ShowsAll.previous (all : ShowsAll this items ring) (ringed : Ringed this) :
    (ring.map (·.previous)).rotate 1 = ring.map (·.key) := by
  apply List.ext_getElem
  · simp
  · intro i _ low
    rw [List.length_map] at low
    have inside : (i + 1) % ring.length < ring.length := Nat.mod_lt _ (by omega)
    obtain ⟨⟨node, stands, -, -, -, previous, -⟩, -⟩ := all.shows_ _ inside
    have leader : node.preNode = i := by
      rw [ringed.preNode _ node stands, ← all.length]
      rcases Nat.lt_or_ge (i + 1) ring.length with more | last
      · rw [Nat.mod_eq_of_lt more, if_neg (Nat.succ_ne_zero i), Nat.add_sub_cancel]
      · have whole : i + 1 = ring.length := by omega
        rw [whole, Nat.mod_self, if_pos rfl]
        omega
    rw [leader, all.keyAt low, Option.some_inj] at previous
    simp [List.getElem_rotate, previous]

theorem ShowsAll.printEnds (all : ShowsAll this items ring) (ringed : Ringed this) :
    this.printEnds = some (ring.head?.bind fun first =>
      ring.getLast?.map fun last => (first.key, last.key)) := by
  unfold SymTableMemory.printEnds
  rw [ringed.numsTable, ringed.head, ringed.tail, ← all.length]
  by_cases empty : ring = []
  · rw [empty]
    rfl
  · have low : 0 < ring.length := List.length_pos_iff.mpr empty
    have nonempty : ring.length ≠ 0 := by omega
    rw [if_pos nonempty, if_neg nonempty, if_neg nonempty, all.keyAt low,
      all.keyAt (i := ring.length - 1) (by omega), List.head?_eq_getElem?,
      List.getLast?_eq_getElem?, List.getElem?_eq_getElem low,
      List.getElem?_eq_getElem (show ring.length - 1 < ring.length by omega)]
    rfl

theorem Linked.print (linked : Linked this items) (positive : 0 < this.numsBucket) :
    ∃ listing, Returns (fun rounds => this.print rounds) listing ∧
      List.Forall₂ (Shows this items) ((List.range this.numsBucket).filterMap this.buckets)
        listing.nodes ∧
      ListsRing listing.ends listing.nodes this.hashValues := by
  obtain ⟨nodes, shown, second⟩ := linked.printBuckets (List.range this.numsBucket)
  obtain ⟨ring, perm, all⟩ := linked.ringed.shown_in_order positive shown
  have first := all.printEnds linked.ringed
  refine ⟨⟨this.totalNodes, this.numsTable, this.numsBucket, _, nodes⟩,
    ⟨this.symbolNodes.length, fun fuel enough => ?_⟩, shown,
    ring, perm, all.hashValues, all.next linked.ringed, all.previous linked.ringed, rfl⟩
  simp only [SymTableMemory.print, first, second fuel enough]
  rfl

theorem map_shown {addresses : List Nat} {nodes : List PrintedNode}
    (shown : List.Forall₂ (Shows this items) addresses nodes) :
    nodes.map (fun n => (n.hashValue, n.symbols)) =
      addresses.map fun address => (this.bucketAt address, (items address).map Prod.snd) := by
  induction shown with
  | nil => rfl
  | cons first rest ih =>
      obtain ⟨⟨node, stands, -, hash, -⟩, symbols⟩ := first
      rw [List.map_cons, List.map_cons, ih, hash, symbols, bucketAt_of_some stands]

end

/-- The symbols that the table kept under a hashcode, in the order of their declarations. -/
def keptUnder (events : List Event) (bucket : Nat) : List Symbol :=
  ((kept (symTableInit 100) (declarations events)).filter
    fun d => hashcode (symTableInit 100) d.2.name = bucket).map Prod.snd

theorem chain_tableOf (events : List Event) (bucket : Nat) :
    (tableOf events).chain bucket = keptUnder events bucket := by
  rw [tableOf, chain_putSymbols (symTableInit_tailsLinked 100)]
  rfl

/-- The buckets of the driver's table that are in use, with what is kept there. -/
def keptBuckets (events : List Event) : List (Nat × List Symbol) :=
  (List.range 100).filterMap fun bucket =>
    if keptUnder events bucket = [] then none else some (bucket, keptUnder events bucket)

/-- However a parse ends, `SymTable_print` comes to the end of the listing. It prints each
bucket in use with its symbols in the order of their declarations, and counts them. -/
theorem listing_complete (fuel : Nat) (tokens : List CurrentToken) :
    ∃ results later listing,
      Returns (fun rounds => (init 100).putCalls rounds
        (madeCalls (stateOf (parse fuel tokens)).gen.trace)) (results, later) ∧
      (∀ block s, parse fuel tokens = .ok block s →
        ∃ items, Represents later items s.gen.symbolTable) ∧
      Returns (fun rounds => later.print rounds) listing ∧
      listing.nodes.map (fun n => (n.hashValue, n.symbols)) =
        keptBuckets (stateOf (parse fuel tokens)).gen.trace ∧
      (∀ n ∈ listing.nodes, n.numsOfSymbol = n.symbols.length) ∧
      ListsRing listing.ends listing.nodes
        (bucketsCreated 100 (madeCalls (stateOf (parse fuel tokens)).gen.trace)) := by
  obtain ⟨results, later, items, ran, linked, represents⟩ :=
    putCalls_represents (madeCalls (stateOf (parse fuel tokens)).gen.trace)
  have tallied := putCalls_tallied (show 0 < 100 by decide)
    (madeCalls (stateOf (parse fuel tokens)).gen.trace)
  rw [← tableOf_eq_putCalls] at represents tallied
  have size : later.numsBucket = 100 :=
    represents.numsBucket.symm.trans (putSymbols_numsBucket _ _)
  obtain ⟨listing, returned, shown, lists⟩ := linked.print (size ▸ (by decide : 0 < 100))
  have created : later.hashValues =
      bucketsCreated 100 (madeCalls (stateOf (parse fuel tokens)).gen.trace) := by
    obtain ⟨_, _, _, ran', -, -, created, -⟩ := putCalls_linked (show 0 < 100 by decide)
      (madeCalls (stateOf (parse fuel tokens)).gen.trace)
    cases ran.unique ran'
    exact created
  refine ⟨results, later, listing, ran, fun block s accepted => ?_, returned, ?_,
    fun n member => ?_, created ▸ lists⟩
  · rw [table_of_accepted accepted]
    exact ⟨items, represents⟩
  · rw [map_shown shown, List.map_filterMap, size, keptBuckets]
    refine List.filterMap_congr fun bucket _ => ?_
    cases stored : later.buckets bucket with
    | none =>
        have empty : keptUnder (stateOf (parse fuel tokens)).gen.trace bucket = [] := by
          rw [← chain_tableOf, SymTable.chain, represents.free bucket stored]
          rfl
        rw [if_pos empty]
        rfl
    | some address =>
        obtain ⟨node, stands, -⟩ := linked.ringed.found bucket address stored
        have symbols := represents.chain_eq linked.ringed stored
        rw [chain_tableOf] at symbols
        have some_ : keptUnder (stateOf (parse fuel tokens)).gen.trace bucket ≠ [] := by
          rw [symbols]
          intro empty
          exact linked.filled address (List.getElem?_eq_some_iff.mp stands).1
            (List.map_eq_nil_iff.mp empty)
        rw [if_neg some_, Option.map_some, linked.ringed.bucketAt_eq stored, symbols]
  · obtain ⟨address, inside, ⟨node, stands, -, -, count, -⟩, symbols⟩ :=
      address_of_shown shown member
    obtain ⟨bucket, -, stored⟩ := List.mem_filterMap.mp inside
    have image := represents.node bucket address node stored stands
    rw [count, symbols]
    exact tallied.numsNode bucket _ image

end SymTableMemory

end Pl0
