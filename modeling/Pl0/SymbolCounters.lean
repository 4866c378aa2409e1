import Pl0.SymbolTableIsolation
import Mathlib.Algebra.BigOperators.Group.Finset.Piecewise
import Mathlib.Algebra.Order.BigOperators.Group.Finset

set_option autoImplicit false

namespace Pl0

/-- The buckets that are not `NULL`. -/
def occupied (table : SymTable) : Finset Nat :=
  (Finset.range table.numsBucket).filter fun bucket => (table.buckets bucket).isSome = true

/-- What the three counters are for. -/
structure CountersAgree (table : SymTable) : Prop where
  numsNode : ∀ bucket node, table.buckets bucket = some node →
    node.numsNode = node.symNodeList.length
  numsTable : table.numsTable = (occupied table).card
  totalNodes : table.totalNodes =
    ∑ bucket ∈ Finset.range table.numsBucket, (table.chain bucket).length

/-- 1 + 2 + ... + n, which `_putSymbol` adds up for a bucket of `n` symbols: it adds the
new length of the list, not one. -/
def triangle : Nat → Nat
  | 0 => 0
  | n + 1 => triangle n + (n + 1)

theorem le_triangle (n : Nat) : n ≤ triangle n := by
  cases n with
  | zero => exact Nat.le_refl 0
  | succ n =>
      rw [triangle]
      omega

theorem triangle_eq_iff (n : Nat) : n = triangle n ↔ n ≤ 1 := by
  cases n with
  | zero => simp [triangle]
  | succ n =>
      cases n with
      | zero => simp [triangle]
      | succ n =>
          have := le_triangle n
          simp only [triangle]
          omega

/-- The counters as they are kept, whatever was put. -/
structure Tallied (table : SymTable) : Prop where
  linked : TailsLinked table
  inRange : ∀ bucket node, table.buckets bucket = some node → bucket < table.numsBucket
  numsNode : ∀ bucket node, table.buckets bucket = some node →
    node.numsNode = node.symNodeList.length
  numsTable : table.numsTable = (occupied table).card
  totalNodes : table.totalNodes =
    ∑ bucket ∈ Finset.range table.numsBucket, triangle (table.chain bucket).length

section

variable {table : SymTable} {key : Name} {symbol : Symbol}

theorem buckets_isSome_iff (linked : TailsLinked table) (bucket : Nat) :
    (table.buckets bucket).isSome = true ↔ table.chain bucket ≠ [] := by
  unfold SymTable.chain
  cases found : table.buckets bucket with
  | none => simp
  | some node => simpa using (linked bucket node found).1

theorem mem_occupied (tallied : Tallied table) (bucket : Nat) :
    bucket ∈ occupied table ↔ table.chain bucket ≠ [] := by
  rw [← buckets_isSome_iff tallied.linked, occupied, Finset.mem_filter, Finset.mem_range,
    and_iff_right_iff_imp]
  intro used
  obtain ⟨node, found⟩ := Option.isSome_iff_exists.mp used
  exact tallied.inRange bucket node found

theorem chain_put (linked : TailsLinked table) (accepted : ¬ RefusedUnder table key symbol)
    (bucket : Nat) :
    (putSymbol table key symbol).2.chain bucket =
      table.chain bucket ++ if bucket = hashcode table key then [symbol] else [] := by
  rw [chain_eq_stored, putSymbol_stored linked accepted]
  split
  · rfl
  · rw [chain_eq_stored, List.append_nil]

theorem modifyNode_totalNodes (table : SymTable) (address : Nat)
    (change : SymTableNode → SymTableNode) :
    (table.modifyNode address change).totalNodes = table.totalNodes := rfl

theorem totalNodes_put (accepted : ¬ RefusedUnder table key symbol) :
    (putSymbol table key symbol).2.totalNodes =
      table.totalNodes + ((table.nodeFor key).numsNode + 1) := by
  unfold putSymbol SymTable.nodeFor
  rw [if_neg (fun full => accepted (Or.inl full)),
    if_neg (fun present => accepted (Or.inr ((contain_iff table key symbol).mp present)))]
  cases found : getSymbolTable table key with
  | none =>
      have created := view_newTableNode (·.numsNode) (fun _ _ => rfl) (fun _ _ => rfl) table key
        (hashcode table key)
      rw [if_pos rfl] at created
      have same : (newTableNode table key).totalNodes = table.totalNodes := by
        unfold newTableNode
        split <;> rfl
      unfold getSymbolTable at found ⊢
      rw [found]
      simp only [hashcode_congr key (numsBucket_newTableNode table key), created]
      rw [modifyNode_totalNodes, same]
      rfl
  | some entry =>
      unfold getSymbolTable at found
      rw [found]
      simp [getSymbolTable, found, modifyNode_totalNodes]

theorem Tallied.nodeFor_numsNode (tallied : Tallied table) (key : Name) :
    (table.nodeFor key).numsNode = (table.chain (hashcode table key)).length := by
  rw [← nodeFor_list]
  unfold SymTable.nodeFor
  cases found : table.buckets (hashcode table key) with
  | none => rfl
  | some node => exact tallied.numsNode _ node found

theorem occupied_put (positive : 0 < table.numsBucket)
    (accepted : ¬ RefusedUnder table key symbol) :
    occupied (putSymbol table key symbol).2 = insert (hashcode table key) (occupied table) := by
  have used : ∀ bucket, ((putSymbol table key symbol).2.buckets bucket).isSome =
      (decide (bucket = hashcode table key) || (table.buckets bucket).isSome) := by
    intro bucket
    have seen := view_putSymbol (fun _ => ()) (fun _ _ => rfl) (fun _ _ => rfl) accepted bucket
    rw [← Option.isSome_map (f := fun _ => ()), seen]
    split
    · rename_i own
      simp [own]
    · rename_i other
      simp [other]
  ext bucket
  simp only [occupied, putSymbol_numsBucket, Finset.mem_filter, Finset.mem_range, used,
    Finset.mem_insert, Bool.or_eq_true, decide_eq_true_eq]
  have inside := hashcode_lt table key positive
  constructor
  · rintro ⟨low, own | old⟩
    · exact Or.inl own
    · exact Or.inr ⟨low, old⟩
  · rintro (rfl | ⟨low, old⟩)
    · exact ⟨inside, Or.inl rfl⟩
    · exact ⟨low, Or.inr old⟩

theorem Tallied.put (tallied : Tallied table) (positive : 0 < table.numsBucket) :
    Tallied (putSymbol table key symbol).2 := by
  by_cases refused : RefusedUnder table key symbol
  · rw [putSymbol_refused refused]
    exact tallied
  have inside := hashcode_lt table key positive
  have view := view_putSymbol (fun node => (node.numsNode, node.symNodeList)) (fun _ _ => rfl)
    (fun _ _ => rfl) refused
  have list := appendSymbolNode_list (table.nodeFor key) symbol
    (nodeFor_linked tallied.linked key)
  have counted : (appendSymbolNode (table.nodeFor key) symbol).numsNode =
      (table.nodeFor key).numsNode + 1 := rfl
  refine ⟨putSymbol_tailsLinked tallied.linked key symbol, fun bucket node found => ?_,
    fun bucket node found => ?_, ?_, ?_⟩
  · have seen := view bucket
    rw [found, putSymbol_numsBucket] at *
    split at seen
    · rename_i own
      exact own ▸ inside
    · obtain ⟨old, found', -⟩ := Option.map_eq_some_iff.mp seen.symm
      exact tallied.inRange bucket old found'
  · have seen := view bucket
    rw [found] at seen
    split at seen
    · obtain ⟨nums, stored⟩ := Prod.mk.inj (Option.some.inj seen)
      rw [nums, stored, list, counted, tallied.nodeFor_numsNode, nodeFor_list, List.length_append]
      rfl
    · obtain ⟨old, found', same⟩ := Option.map_eq_some_iff.mp seen.symm
      obtain ⟨nums, stored⟩ := Prod.mk.inj same
      rw [← nums, ← stored]
      exact tallied.numsNode bucket old found'
  · rw [occupied_put positive refused, putSymbol_numsTable refused, tallied.numsTable]
    split
    · rename_i used
      have member : hashcode table key ∈ occupied table :=
        Finset.mem_filter.mpr ⟨Finset.mem_range.mpr inside, used⟩
      rw [Finset.insert_eq_of_mem member]
      rfl
    · rename_i unused
      have new : hashcode table key ∉ occupied table :=
        fun member => unused (Finset.mem_filter.mp member).2
      rw [Finset.card_insert_of_notMem new]
  · have added : ∀ bucket, triangle ((putSymbol table key symbol).2.chain bucket).length =
        triangle (table.chain bucket).length +
          if bucket = hashcode table key then (table.chain (hashcode table key)).length + 1
          else 0 := by
      intro bucket
      rw [chain_put tallied.linked refused]
      split
      · rename_i own
        rw [List.length_append, own]
        rfl
      · rw [List.append_nil]
        rfl
    rw [totalNodes_put refused, tallied.totalNodes, tallied.nodeFor_numsNode,
      putSymbol_numsBucket, Finset.sum_congr rfl (fun bucket _ => added bucket),
      Finset.sum_add_distrib, Finset.sum_ite_eq' (Finset.range table.numsBucket),
      if_pos (Finset.mem_range.mpr inside)]

end

theorem symTableInit_tallied (bucketCount : Nat) : Tallied (symTableInit bucketCount) := by
  refine ⟨symTableInit_tailsLinked bucketCount, (fun _ _ found => by cases found),
    (fun _ _ found => by cases found), ?_, ?_⟩
  · simp [occupied, symTableInit]
  · simp [SymTable.chain, symTableInit, triangle]

theorem putCalls_tallied {bucketCount : Nat} (positive : 0 < bucketCount)
    (calls : List (Name × Symbol)) : Tallied (putCalls (symTableInit bucketCount) calls) := by
  induction calls using List.reverseRecOn with
  | nil => exact symTableInit_tallied bucketCount
  | append_singleton calls call ih =>
      rw [putCalls_concat]
      apply ih.put
      rw [putCalls_numsBucket]
      exact positive

/-- The number of symbols is right just when no bucket has two of them. -/
theorem Tallied.agree_iff {table : SymTable} (tallied : Tallied table) :
    CountersAgree table ↔ ∀ bucket, (table.chain bucket).length ≤ 1 := by
  have totals : table.totalNodes =
      ∑ bucket ∈ Finset.range table.numsBucket, (table.chain bucket).length ↔
      ∀ bucket ∈ Finset.range table.numsBucket, (table.chain bucket).length ≤ 1 := by
    rw [tallied.totalNodes, eq_comm,
      Finset.sum_eq_sum_iff_of_le fun bucket _ => le_triangle (table.chain bucket).length]
    simp only [triangle_eq_iff]
  constructor
  · intro agree bucket
    by_cases inside : bucket ∈ Finset.range table.numsBucket
    · exact totals.mp agree.totalNodes bucket inside
    · have unused : ¬ bucket ∈ occupied table := fun used => inside (Finset.mem_filter.mp used).1
      rw [mem_occupied tallied, not_not] at unused
      simp [unused]
  · intro single
    exact ⟨tallied.numsNode, tallied.numsTable, totals.mpr fun bucket _ => single bucket⟩

/-- The bucket of a call in a table of this many buckets. -/
abbrev bucketOf (bucketCount : Nat) (call : Name × Symbol) : Nat :=
  hashcode (symTableInit bucketCount) call.1

/-- The bucket that a call goes to holds another symbol, and a bucket is still free. -/
def SecondInBucket (bucketCount : Nat) (before : List (Name × Symbol)) (call : Name × Symbol) :
    Prop :=
  (∃ bucket < bucketCount, ∀ earlier ∈ before, bucketOf bucketCount earlier ≠ bucket) ∧
    ∃ earlier ∈ before, bucketOf bucketCount earlier = bucketOf bucketCount call ∧
      compareDataType earlier.2 call.2 = false

def SharesBucket (bucketCount : Nat) (calls : List (Name × Symbol)) : Prop :=
  ∃ before call after, calls = before ++ call :: after ∧ SecondInBucket bucketCount before call

theorem sharesBucket_concat (bucketCount : Nat) (calls : List (Name × Symbol))
    (call : Name × Symbol) :
    SharesBucket bucketCount (calls ++ [call]) ↔
      SharesBucket bucketCount calls ∨ SecondInBucket bucketCount calls call := by
  constructor
  · rintro ⟨before, shared, after, split, second⟩
    cases after using List.reverseRecOn with
    | nil =>
        obtain ⟨rfl, same⟩ := List.append_inj' split rfl
        cases same
        exact Or.inr second
    | append_singleton after last =>
        rw [← List.cons_append, ← List.append_assoc] at split
        obtain ⟨rfl, -⟩ := List.append_inj' split rfl
        exact Or.inl ⟨before, shared, after, rfl, second⟩
  · rintro (⟨before, shared, after, rfl, second⟩ | second)
    · exact ⟨before, shared, after ++ [call], by simp, second⟩
    · exact ⟨calls, call, [], rfl, second⟩

section

variable {bucketCount : Nat}

theorem hashcode_putCalls (calls : List (Name × Symbol)) (call : Name × Symbol) :
    hashcode (putCalls (symTableInit bucketCount) calls) call.1 = bucketOf bucketCount call :=
  hashcode_congr call.1 (putCalls_numsBucket (symTableInit bucketCount) calls)

theorem bucketOf_lt (positive : 0 < bucketCount) (call : Name × Symbol) :
    bucketOf bucketCount call < bucketCount :=
  hashcode_lt (symTableInit bucketCount) call.1 positive

theorem occupied_subset (table : SymTable) : occupied table ⊆ Finset.range table.numsBucket :=
  Finset.filter_subset _ _

/-- A table without a free bucket has them all in use. -/
theorem occupied_full {table : SymTable} (tallied : Tallied table)
    (full : table.numsBucket ≤ table.numsTable) :
    occupied table = Finset.range table.numsBucket := by
  apply Finset.eq_of_subset_of_card_le (occupied_subset table)
  rw [Finset.card_range, ← tallied.numsTable]
  exact full

/-- A bucket is in use when a key with its hashcode has come up. -/
theorem mem_occupied_putCalls (positive : 0 < bucketCount) (calls : List (Name × Symbol))
    (bucket : Nat) :
    bucket ∈ occupied (putCalls (symTableInit bucketCount) calls) ↔
      ∃ call ∈ calls, bucketOf bucketCount call = bucket := by
  induction calls using List.reverseRecOn with
  | nil => simp [occupied, putCalls, symTableInit]
  | append_singleton calls call ih =>
      have tallied := putCalls_tallied positive calls
      have size := putCalls_numsBucket (symTableInit bucketCount) calls
      have hash : hashcode (putCalls (symTableInit bucketCount) calls) call.1 =
          bucketOf bucketCount call := hashcode_putCalls calls call
      have used : (∃ c ∈ calls ++ [call], bucketOf bucketCount c = bucket) ↔
          bucket = bucketOf bucketCount call ∨
            bucket ∈ occupied (putCalls (symTableInit bucketCount) calls) := by
        rw [ih]
        simp only [List.mem_append, List.mem_singleton]
        constructor
        · rintro ⟨c, old | rfl, same⟩
          · exact Or.inr ⟨c, old, same⟩
          · exact Or.inl same.symm
        · rintro (rfl | ⟨c, old, same⟩)
          · exact ⟨call, Or.inr rfl, rfl⟩
          · exact ⟨c, Or.inl old, same⟩
      rw [used, putCalls_concat]
      by_cases refused : RefusedUnder (putCalls (symTableInit bucketCount) calls) call.1 call.2
      · have inUse : bucketOf bucketCount call ∈
            occupied (putCalls (symTableInit bucketCount) calls) := by
          rcases refused with full | ⟨stored, member, -⟩
          · rw [occupied_full tallied full, size]
            exact Finset.mem_range.mpr (bucketOf_lt positive call)
          · rw [hash] at member
            exact (mem_occupied tallied _).mpr (List.ne_nil_of_mem member)
        rw [putSymbol_refused refused]
        constructor
        · exact Or.inr
        · rintro (rfl | old)
          · exact inUse
          · exact old
      · rw [occupied_put (by rw [size]; exact positive) refused, hash, Finset.mem_insert]

/-- There is room as long as no key has come up for one of the buckets. -/
theorem room_iff (positive : 0 < bucketCount) (calls : List (Name × Symbol)) :
    (putCalls (symTableInit bucketCount) calls).numsTable < bucketCount ↔
      ∃ bucket < bucketCount, ∀ call ∈ calls, bucketOf bucketCount call ≠ bucket := by
  have tallied := putCalls_tallied positive calls
  have size := putCalls_numsBucket (symTableInit bucketCount) calls
  have subset := occupied_subset (putCalls (symTableInit bucketCount) calls)
  rw [size] at subset
  rw [tallied.numsTable]
  constructor
  · intro few
    have fewer : (occupied (putCalls (symTableInit bucketCount) calls)).card <
        (Finset.range bucketCount).card := by
      rw [Finset.card_range]
      exact few
    obtain ⟨bucket, low, free⟩ := Finset.exists_mem_notMem_of_card_lt_card fewer
    refine ⟨bucket, Finset.mem_range.mp low, fun call member same => free ?_⟩
    exact (mem_occupied_putCalls positive calls bucket).mpr ⟨call, member, same⟩
  · rintro ⟨bucket, low, free⟩
    have proper : occupied (putCalls (symTableInit bucketCount) calls) ⊂
        Finset.range bucketCount := by
      refine Finset.ssubset_iff_subset_ne.mpr ⟨subset, fun same => ?_⟩
      have used : bucket ∈ occupied (putCalls (symTableInit bucketCount) calls) := by
        rw [same]
        exact Finset.mem_range.mpr low
      obtain ⟨call, member, own⟩ := (mem_occupied_putCalls positive calls bucket).mp used
      exact free call member own
    have fewer := Finset.card_lt_card proper
    rwa [Finset.card_range] at fewer

theorem chain_putCalls_concat (calls : List (Name × Symbol)) (call : Name × Symbol)
    (linked : TailsLinked (putCalls (symTableInit bucketCount) calls))
    (accepted : ¬ RefusedUnder (putCalls (symTableInit bucketCount) calls) call.1 call.2)
    (bucket : Nat) :
    (putCalls (symTableInit bucketCount) (calls ++ [call])).chain bucket =
      (putCalls (symTableInit bucketCount) calls).chain bucket ++
        if bucket = bucketOf bucketCount call then [call.2] else [] := by
  rw [putCalls_concat, chain_put linked accepted, hashcode_putCalls]

theorem compareDataType_refl (symbol : Symbol) : compareDataType symbol symbol = true :=
  (compareDataType_iff symbol symbol).mpr ⟨rfl, rfl, rfl, rfl⟩

theorem compareDataType_of_both {stored left right : Symbol}
    (first : compareDataType stored left = true) (second : compareDataType stored right = true) :
    compareDataType left right = true := by
  obtain ⟨name, kind, level, addr⟩ := (compareDataType_iff stored left).mp first
  obtain ⟨name', kind', level', addr'⟩ := (compareDataType_iff stored right).mp second
  exact (compareDataType_iff left right).mpr
    ⟨name.symm.trans name', kind.symm.trans kind', level.symm.trans level', addr.symm.trans addr'⟩

/-- The buckets hold at most one symbol each. -/
def Single (table : SymTable) : Prop :=
  ∀ bucket, (table.chain bucket).length ≤ 1

theorem Single.eq {table : SymTable} (single : Single table) {bucket : Nat}
    {first second : Symbol} (left : first ∈ table.chain bucket)
    (right : second ∈ table.chain bucket) : first = second := by
  have one := single bucket
  match listed : table.chain bucket with
  | [] => simp [listed] at left
  | [only] =>
      rw [listed, List.mem_singleton] at left right
      rw [left, right]
  | _ :: _ :: _ => simp [listed] at one

theorem single_of_concat {calls : List (Name × Symbol)} {call : Name × Symbol}
    (linked : TailsLinked (putCalls (symTableInit bucketCount) calls))
    (single : Single (putCalls (symTableInit bucketCount) (calls ++ [call]))) :
    Single (putCalls (symTableInit bucketCount) calls) := by
  by_cases refused : RefusedUnder (putCalls (symTableInit bucketCount) calls) call.1 call.2
  · rwa [putCalls_concat, putSymbol_refused refused] at single
  · intro bucket
    have grown := single bucket
    rw [chain_putCalls_concat calls call linked refused, List.length_append] at grown
    omega

theorem numsTable_le_concat (calls : List (Name × Symbol)) (call : Name × Symbol) :
    (putCalls (symTableInit bucketCount) calls).numsTable ≤
      (putCalls (symTableInit bucketCount) (calls ++ [call])).numsTable := by
  rw [putCalls_concat]
  by_cases refused : RefusedUnder (putCalls (symTableInit bucketCount) calls) call.1 call.2
  · rw [putSymbol_refused refused]
  · rw [putSymbol_numsTable refused]
    exact Nat.le_add_right _ _

/-- While there is room and no bucket is shared, what came up for a bucket equals the
symbol in it. -/
theorem alike_of_single (positive : 0 < bucketCount) (calls : List (Name × Symbol))
    (room : (putCalls (symTableInit bucketCount) calls).numsTable < bucketCount)
    (single : Single (putCalls (symTableInit bucketCount) calls)) :
    ∀ call ∈ calls, ∀ stored ∈
      (putCalls (symTableInit bucketCount) calls).chain (bucketOf bucketCount call),
      compareDataType stored call.2 = true := by
  induction calls using List.reverseRecOn with
  | nil => simp
  | append_singleton calls call ih =>
      have tallied := putCalls_tallied positive calls
      have before := ih (Nat.lt_of_le_of_lt (numsTable_le_concat calls call) room)
        (single_of_concat tallied.linked single)
      intro other member stored inside
      by_cases refused : RefusedUnder (putCalls (symTableInit bucketCount) calls) call.1 call.2
      · rw [putCalls_concat, putSymbol_refused refused] at inside room single
        rcases List.mem_append.mp member with old | new
        · exact before other old stored inside
        · rw [List.mem_singleton.mp new] at inside ⊢
          rcases refused with full | ⟨equal, present, same⟩
          · rw [putCalls_numsBucket] at full
            exact absurd room (Nat.not_lt.mpr full)
          · rw [hashcode_putCalls] at present
            rwa [single.eq inside present]
      · rw [chain_putCalls_concat calls call tallied.linked refused] at inside
        have one := single (bucketOf bucketCount other)
        rw [chain_putCalls_concat calls call tallied.linked refused] at one
        by_cases own : bucketOf bucketCount other = bucketOf bucketCount call
        · rw [if_pos own, List.length_append, List.length_singleton] at one
          have empty : (putCalls (symTableInit bucketCount) calls).chain
              (bucketOf bucketCount other) = [] := List.length_eq_zero_iff.mp (by omega)
          rw [if_pos own, empty, List.nil_append, List.mem_singleton] at inside
          rcases List.mem_append.mp member with old | new
          · have used := (mem_occupied_putCalls positive calls _).mpr ⟨other, old, rfl⟩
            exact absurd empty ((mem_occupied tallied _).mp used)
          · rw [inside, List.mem_singleton.mp new]
            exact compareDataType_refl call.2
        · rw [if_neg own, List.append_nil] at inside
          rcases List.mem_append.mp member with old | new
          · exact before other old stored inside
          · exact absurd (congrArg (bucketOf bucketCount) (List.mem_singleton.mp new)) own

theorem single_iff (positive : 0 < bucketCount) (calls : List (Name × Symbol)) :
    Single (putCalls (symTableInit bucketCount) calls) ↔ ¬ SharesBucket bucketCount calls := by
  induction calls using List.reverseRecOn with
  | nil =>
      refine iff_of_true (fun bucket => ?_) ?_
      · simp [putCalls, symTableInit, SymTable.chain]
      · rintro ⟨before, call, after, split, -⟩
        simp at split
  | append_singleton calls call ih =>
      have tallied := putCalls_tallied positive calls
      have size := putCalls_numsBucket (symTableInit bucketCount) calls
      rw [sharesBucket_concat, not_or, ← ih]
      constructor
      · intro single
        have before := single_of_concat tallied.linked single
        refine ⟨before, ?_⟩
        rintro ⟨free, earlier, member, same, differs⟩
        have room := (room_iff positive calls).mpr free
        have used := (mem_occupied_putCalls positive calls _).mpr ⟨earlier, member, same⟩
        obtain ⟨stored, inside⟩ :=
          List.exists_mem_of_ne_nil _ ((mem_occupied tallied _).mp used)
        have equal := alike_of_single positive calls room before earlier member stored
          (same.symm ▸ inside)
        by_cases refused : RefusedUnder (putCalls (symTableInit bucketCount) calls) call.1 call.2
        · rcases refused with full | ⟨other, present, same'⟩
          · rw [size] at full
            exact absurd room (Nat.not_lt.mpr full)
          · rw [hashcode_putCalls] at present
            rw [before.eq present inside] at same'
            rw [compareDataType_of_both equal same'] at differs
            cases differs
        · have one := single (bucketOf bucketCount call)
          rw [chain_putCalls_concat calls call tallied.linked refused, if_pos rfl,
            List.length_append, List.length_singleton] at one
          have some := List.length_pos_of_mem inside
          omega
      · rintro ⟨before, alone⟩
        by_cases refused : RefusedUnder (putCalls (symTableInit bucketCount) calls) call.1 call.2
        · rwa [putCalls_concat, putSymbol_refused refused]
        · intro bucket
          rw [chain_putCalls_concat calls call tallied.linked refused]
          have old := before bucket
          split
          · rename_i own
            rw [List.length_append, List.length_singleton]
            cases empty : (putCalls (symTableInit bucketCount) calls).chain bucket with
            | nil => simp
            | cons stored rest =>
                exfalso
                have present : stored ∈ (putCalls (symTableInit bucketCount) calls).chain bucket :=
                  by simp [empty]
                obtain ⟨earlier, member, value, same⟩ := mem_chain_putCalls calls present
                refine alone ⟨(room_iff positive calls).mp ?_, earlier, member, same.trans own, ?_⟩
                · exact Nat.not_le.mp fun full => refused (Or.inl (size.trans_le full))
                · rw [value, ← Bool.not_eq_true]
                  intro equal
                  refine refused (Or.inr ⟨stored, ?_, equal⟩)
                  rwa [hashcode_putCalls, ← own]
          · rwa [List.append_nil]

/-- The counters are right exactly as long as no second symbol goes into a bucket. -/
theorem countersAgree_iff (positive : 0 < bucketCount) (calls : List (Name × Symbol)) :
    CountersAgree (putCalls (symTableInit bucketCount) calls) ↔
      ¬ SharesBucket bucketCount calls :=
  (putCalls_tallied positive calls).agree_iff.trans (single_iff positive calls)

end

/-- A variable named `i`. -/
def iSymbol : Symbol :=
  { kind := .varS, name := [105], val := 0, level := 0, addr := 4, id := 0 }

/-- `count` goes into the bucket of `i`. -/
theorem countersAgree_iff_driver :
    0 < 100 ∧ (CountersAgree (putCalls (symTableInit 100)
        [(iSymbol.name, iSymbol), (countSymbol.name, { countSymbol with addr := 5 })]) ↔
      ¬ SharesBucket 100
        [(iSymbol.name, iSymbol), (countSymbol.name, { countSymbol with addr := 5 })]) :=
  ⟨by decide, countersAgree_iff (by decide) _⟩

/-- After `var i, count;` the driver's table counts three symbols, and holds two. -/
theorem driver_table_miscounts :
    ¬ ∀ bucketCount, 0 < bucketCount → ∀ calls,
      CountersAgree (putCalls (symTableInit bucketCount) calls) := by
  intro claim
  have total := (claim 100 (by decide)
    [(iSymbol.name, iSymbol), (countSymbol.name, { countSymbol with addr := 5 })]).totalNodes
  exact absurd total (by decide)

end Pl0
