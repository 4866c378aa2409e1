import Pl0.LexicalScoping
import Pl0.SymbolTableSimulation

set_option autoImplicit false

namespace Pl0

open LinkedCells StateExcept

/-- What `SymTable_exit` hands to `free`. A symbol is known by its number. -/
inductive HeapBlock
  | buckets
  | tableNode (address : Nat)
  | symbolNode (address : Nat)
  | value (id : Nat)
  deriving DecidableEq, Repr

namespace SymTableMemory

/-- The loop of `SymTable_exit` over the list of one node. -/
def exitList (this : SymTableMemory) : Nat → List HeapBlock → Option Nat → Option (List HeapBlock)
  | _, freed, none => some freed
  | 0, _, some _ => none
  | fuel + 1, freed, some del => do
      readBlock (.symbolNode del) freed
      let node ← this.symbolNodes[del]?
      let freed ← freeBlock (.value node.value.id) freed
      let freed ← freeBlock (.symbolNode del) freed
      this.exitList fuel freed node.next

/-- The body of the loop of `SymTable_exit` over the buckets. -/
def exitBucket (fuel : Nat) (this : SymTableMemory) (freed : List HeapBlock) (i : Nat) :
    Option (List HeapBlock) :=
  match this.buckets i with
  | none => some freed
  | some curTable => do
      readBlock (.tableNode curTable) freed
      let node ← this.tableNodes[curTable]?
      let freed ← this.exitList fuel freed node.symNodeList
      freeBlock (.tableNode curTable) freed

/-- `SymTable_exit`: the blocks it frees, in their order. -/
def exit (fuel : Nat) (this : SymTableMemory) : Option (List HeapBlock) := do
  let freed ← (List.range this.numsBucket).foldlM (this.exitBucket fuel) []
  freeBlock .buckets freed

/-- The blocks of the symbols in a list. -/
def listBlocks (list : List (Nat × Symbol)) : List HeapBlock :=
  list.flatMap fun item => [.value item.2.id, .symbolNode item.1]

/-- The blocks that are reached from one node of the table. -/
def nodeBlocks (items : Nat → List (Nat × Symbol)) (address : Nat) : List HeapBlock :=
  listBlocks (items address) ++ [.tableNode address]

theorem exitList_returns {this : SymTableMemory} {start : Option Nat}
    {list : List (Nat × Symbol)} (chain : Chain this.symbolNodes start list) {fuel : Nat}
    (enough : list.length ≤ fuel) {freed : List HeapBlock}
    (nodup : (freed ++ listBlocks list).Nodup) :
    this.exitList fuel freed start = some (freed ++ listBlocks list) := by
  induction list generalizing start fuel freed with
  | nil =>
      cases chain
      rw [exitList.eq_def]
      simp [listBlocks]
  | cons item list ih =>
      obtain ⟨fuel, rfl⟩ : ∃ more, fuel = more + 1 :=
        Nat.exists_eq_succ_of_ne_zero (by simp at enough; omega)
      cases chain with
      | @cons del value next _ _ cell rest =>
          have blocks : listBlocks ((del, value) :: list) =
              .value value.id :: .symbolNode del :: listBlocks list := rfl
          rw [blocks] at nodup ⊢
          have later : (freed ++ [HeapBlock.value value.id] ++
              .symbolNode del :: listBlocks list).Nodup := by
            simpa using nodup
          have behind : (freed ++ [HeapBlock.value value.id] ++ [HeapBlock.symbolNode del] ++
              listBlocks list).Nodup := by
            simpa using nodup
          have shorter : list.length ≤ fuel := Nat.le_of_succ_le_succ enough
          have returned := ih rest shorter behind
          rw [exitList, readBlock_of_nodup nodup (by simp), cell]
          simp only [Option.bind_eq_bind, Option.bind_some, freeBlock_of_nodup nodup,
            freeBlock_of_nodup later, returned]
          simp

theorem exitBucket_returns {this : SymTableMemory} {items : Nat → List (Nat × Symbol)}
    (linked : Linked this items) {fuel : Nat} (enough : this.symbolNodes.length ≤ fuel)
    {freed : List HeapBlock} {i address : Nat} (stored : this.buckets i = some address)
    (nodup : (freed ++ nodeBlocks items address).Nodup) :
    this.exitBucket fuel freed i = some (freed ++ nodeBlocks items address) := by
  obtain ⟨node, stands, -⟩ := linked.ringed.found i address stored
  obtain ⟨chain, -⟩ := linked.listed.list address node stands
  have whole : (freed ++ listBlocks (items address) ++ [HeapBlock.tableNode address]).Nodup := by
    simpa [nodeBlocks] using nodup
  have returned := exitList_returns chain (chain.length_le.trans enough)
    (List.Nodup.of_append_left whole)
  rw [exitBucket, stored]
  simp only [readBlock_of_nodup nodup (show .tableNode address ∈ _ by simp [nodeBlocks]), stands,
    returned, Option.bind_eq_bind, Option.bind_some, freeBlock_of_nodup whole]
  simp [nodeBlocks]

theorem exitBuckets_returns {this : SymTableMemory} {items : Nat → List (Nat × Symbol)}
    (linked : Linked this items) {fuel : Nat} (enough : this.symbolNodes.length ≤ fuel)
    {freed : List HeapBlock} {buckets : List Nat}
    (nodup : (freed ++ (buckets.filterMap this.buckets).flatMap (nodeBlocks items)).Nodup) :
    buckets.foldlM (this.exitBucket fuel) freed =
      some (freed ++ (buckets.filterMap this.buckets).flatMap (nodeBlocks items)) := by
  induction buckets generalizing freed with
  | nil => simp
  | cons i buckets ih =>
      rw [List.foldlM_cons]
      cases stored : this.buckets i with
      | none =>
          rw [List.filterMap_cons_none stored] at nodup ⊢
          rw [exitBucket, stored]
          exact ih nodup
      | some address =>
          rw [List.filterMap_cons_some stored, List.flatMap_cons, ← List.append_assoc] at nodup ⊢
          rw [exitBucket_returns linked enough stored (List.Nodup.of_append_left nodup)]
          exact ih nodup

/-- The addresses that the buckets hold are those of all nodes. -/
theorem Ringed.addresses {this : SymTableMemory} (ringed : Ringed this)
    (positive : 0 < this.numsBucket) :
    ((List.range this.numsBucket).filterMap this.buckets).Perm
      (List.range this.tableNodes.length) := by
  refine (List.perm_ext_iff_of_nodup ?_ List.nodup_range).mpr fun address => ?_
  · refine List.Nodup.filterMap (fun i j address first second => ?_) List.nodup_range
    rw [← ringed.bucketAt_eq (Option.mem_def.mp first),
      ← ringed.bucketAt_eq (Option.mem_def.mp second)]
  · rw [List.mem_filterMap, List.mem_range]
    constructor
    · rintro ⟨i, -, stored⟩
      obtain ⟨node, stands, -⟩ := ringed.found i address stored
      exact (List.getElem?_eq_some_iff.mp stands).1
    · intro low
      obtain ⟨hash, stored⟩ := ringed.placed address _ (List.getElem?_eq_getElem low)
      refine ⟨_, List.mem_range.mpr ?_, stored⟩
      rw [hash]
      exact Nat.mod_lt _ positive

/-- The symbols of the calls that were not refused. -/
def keptSymbols (calls : List (Name × Symbol)) (results : List Bool) : List Symbol :=
  (calls.zip results).filterMap fun call => if call.2 then some call.1.2 else none

theorem keptSymbols_concat {calls : List (Name × Symbol)} {results : List Bool}
    (length : calls.length = results.length) (call : Name × Symbol) (last : Bool) :
    keptSymbols (calls ++ [call]) (results ++ [last]) =
      keptSymbols calls results ++ if last then [call.2] else [] := by
  rw [keptSymbols, List.zip_append length, List.filterMap_append]
  cases last <;> rfl

theorem keptSymbols_sublist (calls : List (Name × Symbol)) (results : List Bool) :
    (keptSymbols calls results).Sublist (calls.map Prod.snd) := by
  induction calls generalizing results with
  | nil => exact .slnil
  | cons call calls ih =>
      cases results with
      | nil => exact List.nil_sublist _
      | cons result results =>
          cases result with
          | false => exact (ih results).cons _
          | true => exact (ih results).cons_cons _

/-- The symbols that were kept are in one node each, and the nodes were handed out in
their order. -/
structure Kept (this : SymTableMemory) (items : Nat → List (Nat × Symbol))
    (kept : List Symbol) : Prop where
  length : this.symbolNodes.length = kept.length
  every : ((List.range this.tableNodes.length).flatMap items).Perm
    ((List.range kept.length).zip kept)

/-- One list of a family grows at its end. -/
theorem flatMap_update {α : Type} (lists : Nat → List α) {address : Nat} (x : α) {count : Nat}
    (low : address < count) :
    ((List.range count).flatMap (Function.update lists address (lists address ++ [x]))).Perm
      ((List.range count).flatMap lists ++ [x]) := by
  induction count with
  | zero => omega
  | succ count ih =>
      simp only [List.range_succ, List.flatMap_append, List.flatMap_cons, List.flatMap_nil,
        List.append_nil]
      by_cases last : address = count
      · have others : (List.range count).flatMap
            (Function.update lists address (lists address ++ [x])) =
              (List.range count).flatMap lists := by
          refine List.flatMap_congr fun other inside => ?_
          exact Function.update_of_ne (by have := List.mem_range.mp inside; omega) _ _
        rw [others, ← last, Function.update_self, List.append_assoc]
      · rw [Function.update_of_ne (Ne.symm last), List.append_assoc]
        have front := (ih (by omega)).append_right (lists count)
        rw [List.append_assoc] at front
        exact front.trans (List.perm_append_comm.append_left _)

theorem newTableNode_symbolNodes {this middle : SymTableMemory} {key : Name} {address : Nat}
    (made : this.newTableNode key = some (address, middle)) :
    middle.symbolNodes = this.symbolNodes := by
  unfold newTableNode at made
  split at made
  · cases made
    rfl
  · split at made
    · cases made
      rfl
    · cases made

theorem appendSymbolNode_symbolNodes {this later : SymTableMemory} {address : Nat}
    {value : Symbol} (appended : this.appendSymbolNode address value = some later) :
    later.symbolNodes.length = this.symbolNodes.length + 1 := by
  unfold appendSymbolNode at appended
  split at appended
  · cases appended
  · split at appended
    · cases appended
      simp
    · cases appended
      simp [setNext]
    · cases appended

theorem putSymbol_symbolNodes {fuel : Nat} {this later : SymTableMemory} {key : Name}
    {value : Symbol} (put : this.putSymbol fuel key value = some (true, later)) :
    later.symbolNodes.length = this.symbolNodes.length + 1 := by
  unfold putSymbol at put
  split at put
  · cases put
  split at put
  · cases put
  · cases put
  · cases stored : this.getSymbolTable key with
    | some address =>
        rw [stored] at put
        obtain ⟨later', appended, same⟩ := Option.map_eq_some_iff.mp put
        cases same
        exact appendSymbolNode_symbolNodes appended
    | none =>
        rw [stored] at put
        cases made : this.newTableNode key with
        | none => simp [made] at put
        | some found =>
            rw [made] at put
            obtain ⟨later', appended, same⟩ := Option.map_eq_some_iff.mp put
            cases same
            rw [appendSymbolNode_symbolNodes appended, newTableNode_symbolNodes made]

theorem Kept.found {this middle : SymTableMemory} {items items' : Nat → List (Nat × Symbol)}
    {key : Name} {address : Nat} {kept : List Symbol} (holds : Kept this items kept)
    (found : Found this items key address middle items') : Kept middle items' kept := by
  cases found with
  | old _ => exact holds
  | new free made length linked =>
      refine ⟨holds.length, ?_⟩
      rw [show (this.closed key _).tableNodes.length = this.tableNodes.length + 1 from length,
        List.range_succ, List.flatMap_append, List.flatMap_singleton, Function.update_self,
          List.append_nil]
      have others : (List.range this.tableNodes.length).flatMap
          (Function.update items this.tableNodes.length []) =
            (List.range this.tableNodes.length).flatMap items := by
        refine List.flatMap_congr fun other inside => ?_
        exact Function.update_of_ne (Nat.ne_of_lt (List.mem_range.mp inside)) _ _
      rw [others]
      exact holds.every

/-- A new symbol node is linked into one list. -/
theorem Kept.push {middle later : SymTableMemory} {items : Nat → List (Nat × Symbol)}
    {address : Nat} {value : Symbol} {kept : List Symbol} (holds : Kept middle items kept)
    (low : address < middle.tableNodes.length)
    (tables : later.tableNodes.length = middle.tableNodes.length)
    (symbols : later.symbolNodes.length = middle.symbolNodes.length + 1) :
    Kept later (Function.update items address
      (items address ++ [(middle.symbolNodes.length, value)])) (kept ++ [value]) := by
  refine ⟨by rw [symbols, holds.length, List.length_append, List.length_singleton], ?_⟩
  rw [tables, List.length_append, List.length_singleton, List.range_succ,
    List.zip_append (by simp), holds.length]
  exact (flatMap_update items _ low).trans (holds.every.append_right _)

/-- After any calls, the symbols of those that were not refused are in the lists. -/
theorem putCalls_kept {bucketCount : Nat} (calls : List (Name × Symbol)) :
    ∃ results later items,
      Returns (fun fuel => (init bucketCount).putCalls fuel calls) (results, later) ∧
      calls.length = results.length ∧ Linked later items ∧ later.numsBucket = bucketCount ∧
      Kept later items (keptSymbols calls results) := by
  induction calls using List.reverseRecOn with
  | nil =>
      exact ⟨[], init bucketCount, fun _ => [], .of_forall fun _ => rfl, rfl,
        init_linked bucketCount, rfl, rfl, .nil⟩
  | append_singleton calls call ih =>
      obtain ⟨results, middle, items, ran, length, linked, size, kept⟩ := ih
      rcases putSymbol_cases linked call.1 call.2 with
        ⟨-, returned⟩ | ⟨-, address, found, items', node, later, change, cells, holds, stands,
          rfl, -, linked', size', -, returned⟩
      · refine ⟨results ++ [false], middle, items,
          ran.of_both returned fun fuel before put => putCalls_concat fuel _ calls call before put,
          by simp [length], linked, size, ?_⟩
        rw [keptSymbols_concat length]
        simpa using kept
      · have grows : cells.length = middle.symbolNodes.length + 1 := by
          obtain ⟨rounds, put⟩ := returned
          exact putSymbol_symbolNodes (put rounds (Nat.le_refl rounds))
        refine ⟨results ++ [true], _, _,
          ran.of_both returned fun fuel before put => putCalls_concat fuel _ calls call before put,
          by simp [length], linked', size'.trans size, ?_⟩
        have before := kept.found holds
        have same : found.symbolNodes.length = middle.symbolNodes.length :=
          before.length.trans kept.length.symm
        rw [keptSymbols_concat length]
        exact before.push (List.getElem?_eq_some_iff.mp stands).1 (List.length_modify ..)
          (grows.trans (congrArg (· + 1) same.symm))

/-- What the table holds in memory: the array of its buckets, its nodes, and the symbols
that it kept with their nodes. -/
def ownBlocks (this : SymTableMemory) (kept : List Symbol) : List HeapBlock :=
  (List.range this.tableNodes.length).map .tableNode ++
    (List.range this.symbolNodes.length).map .symbolNode ++
      kept.map (fun symbol => .value symbol.id) ++ [.buckets]

theorem listBlocks_zip (addresses : List Nat) (kept : List Symbol)
    (length : addresses.length = kept.length) : (listBlocks (addresses.zip kept)).Perm
      (addresses.map .symbolNode ++ kept.map (fun symbol => .value symbol.id)) := by
  induction addresses generalizing kept with
  | nil =>
      cases kept with
      | nil => exact .nil
      | cons => cases length
  | cons address addresses ih =>
      cases kept with
      | nil => cases length
      | cons symbol kept =>
          have rest := ih kept (Nat.succ.inj length)
          have blocks : listBlocks ((address :: addresses).zip (symbol :: kept)) =
              .value symbol.id :: .symbolNode address :: listBlocks (addresses.zip kept) := rfl
          rw [blocks, List.map_cons, List.map_cons, List.cons_append]
          refine (List.Perm.swap _ _ _).trans (.cons _ ?_)
          exact (rest.cons _).trans List.perm_middle.symm

/-- The blocks that are reached from the buckets are those of the table. -/
theorem Kept.reached {this : SymTableMemory} {items : Nat → List (Nat × Symbol)}
    {kept : List Symbol} (holds : Kept this items kept) (ringed : Ringed this)
    (positive : 0 < this.numsBucket) :
    (((List.range this.numsBucket).filterMap this.buckets).flatMap (nodeBlocks items) ++
      [HeapBlock.buckets]).Perm (this.ownBlocks kept) := by
  refine List.Perm.append_right _ ?_
  have lists : (List.range this.tableNodes.length).flatMap (fun a => listBlocks (items a)) =
      listBlocks ((List.range this.tableNodes.length).flatMap items) :=
    List.flatMap_assoc.symm
  have symbols : (listBlocks ((List.range this.tableNodes.length).flatMap items)).Perm
      ((List.range this.symbolNodes.length).map .symbolNode ++
        kept.map (fun symbol => .value symbol.id)) := by
    rw [holds.length]
    exact (holds.every.flatMap_right _).trans (listBlocks_zip _ kept (by simp))
  refine ((ringed.addresses positive).flatMap_right _).trans ?_
  refine (List.flatMap_append_perm _ _ _).symm.trans ?_
  rw [lists, ← List.map_eq_flatMap, List.append_assoc]
  exact (symbols.append_right _).trans List.perm_append_comm

theorem ownBlocks_nodup (this : SymTableMemory) {kept : List Symbol}
    (distinct : (kept.map (·.id)).Nodup) : (this.ownBlocks kept).Nodup := by
  have tables : ((List.range this.tableNodes.length).map HeapBlock.tableNode).Nodup :=
    List.nodup_range.map fun _ _ => HeapBlock.tableNode.inj
  have symbols : ((List.range this.symbolNodes.length).map HeapBlock.symbolNode).Nodup :=
    List.nodup_range.map fun _ _ => HeapBlock.symbolNode.inj
  have values : (kept.map fun symbol => HeapBlock.value symbol.id).Nodup := by
    have mapped := distinct.map fun _ _ => HeapBlock.value.inj
    rwa [List.map_map] at mapped
  simp only [ownBlocks, List.append_assoc, List.nodup_append, tables, symbols, values,
    List.nodup_singleton, true_and, List.mem_append, List.mem_map, List.mem_singleton]
  refine ⟨⟨?_, ?_⟩, ?_⟩
  · rintro _ ⟨symbol, -, rfl⟩ _ rfl same
    cases same
  · rintro _ ⟨address, -, rfl⟩ _ (⟨symbol, -, rfl⟩ | rfl) same
    · cases same
    · cases same
  · rintro _ ⟨address, -, rfl⟩ _ (⟨other, -, rfl⟩ | ⟨symbol, -, rfl⟩ | rfl) same
    · cases same
    · cases same
    · cases same

/-- After any calls with symbols of their own, `SymTable_exit` comes to its end. -/
theorem putCalls_exit {bucketCount : Nat} (positive : 0 < bucketCount)
    {calls : List (Name × Symbol)} (distinct : (calls.map fun call => call.2.id).Nodup) :
    ∃ results later freed,
      Returns (fun fuel => (init bucketCount).putCalls fuel calls) (results, later) ∧
      Returns (fun fuel => later.exit fuel) freed ∧ freed.Nodup ∧
      freed.Perm (later.ownBlocks (keptSymbols calls results)) := by
  obtain ⟨results, later, items, ran, -, linked, size, kept⟩ := putCalls_kept calls
  have own : ((keptSymbols calls results).map (·.id)).Nodup := by
    refine List.Nodup.sublist ((keptSymbols_sublist calls results).map _) ?_
    rwa [List.map_map]
  have reached := kept.reached linked.ringed (size.symm ▸ positive)
  have nodup := reached.nodup_iff.mpr (later.ownBlocks_nodup own)
  refine ⟨results, later, _, ran, ⟨later.symbolNodes.length, fun fuel enough => ?_⟩, nodup, reached⟩
  have walked : (List.range later.numsBucket).foldlM (later.exitBucket fuel) [] = some _ :=
    exitBuckets_returns linked enough (List.Nodup.of_append_left nodup)
  change later.exit fuel = _
  rw [exit, walked]
  exact freeBlock_of_nodup nodup

/-- The calls of `putSymbol` that a parse made. -/
def madeCalls (events : List Event) : List (Name × Symbol) :=
  (declarations events).map fun d => (d.2.name, d.2)

theorem tableOf_eq_putCalls (events : List Event) :
    tableOf events = Pl0.putCalls (symTableInit 100) (madeCalls events) := by
  rw [tableOf, putSymbols, Pl0.putCalls, madeCalls, List.foldl_map, List.foldl_map]

/-- The parser's table is the one that its calls lead to. -/
theorem table_of_accepted {fuel : Nat} {tokens : List CurrentToken} {block : BlockNode}
    {s : ParseState} (accepted : parse fuel tokens = .ok block s) :
    s.gen.symbolTable = tableOf (stateOf (parse fuel tokens)).gen.trace := by
  have inside := (Triple.ok (keeps_programParse fuel [0]) (initParse_inside tokens) accepted).1
  rw [accepted]
  exact inside.table

/-- However a parse ends, `SymTable_exit` frees the array of buckets, every node and every
symbol that the table kept, and each of them once; it reads nothing that it has freed. -/
theorem symTableExit_frees_once (fuel : Nat) (tokens : List CurrentToken) :
    let calls := madeCalls (stateOf (parse fuel tokens)).gen.trace
    ∃ results later freed,
      Returns (fun rounds => (init 100).putCalls rounds calls) (results, later) ∧
      (∀ block s, parse fuel tokens = .ok block s →
        ∃ items, Represents later items s.gen.symbolTable) ∧
      Returns (fun rounds => later.exit rounds) freed ∧ freed.Nodup ∧
      freed.Perm (later.ownBlocks (keptSymbols calls results)) := by
  intro calls
  have valid := (parse_triple fuel tokens).1
  have distinct : (calls.map fun call => call.2.id).Nodup := by
    change (((declarations _).map _).map _).Nodup
    rw [List.map_map]
    exact valid.ids.symm ▸ List.nodup_range
  obtain ⟨results, later, freed, ran, exits, once, all⟩ :=
    putCalls_exit (show 0 < 100 by decide) distinct
  refine ⟨results, later, freed, ran, fun block s accepted => ?_, exits, once, all⟩
  obtain ⟨results', later', items, ran', -, represents⟩ := putCalls_represents calls
  cases ran.unique ran'
  rw [table_of_accepted accepted, tableOf_eq_putCalls]
  exact ⟨items, represents⟩

end SymTableMemory

end Pl0
