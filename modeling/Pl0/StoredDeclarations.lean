import Pl0.LexicalScoping
import Pl0.StoredAttributes
import Mathlib.Data.Finset.Card

set_option autoImplicit false

namespace Pl0

/-- How many buckets of the driver's table these symbols need. -/
def bucketsUsed (symbols : List Symbol) : Nat :=
  (symbols.map fun s => hashcode (symTableInit 100) s.name).toFinset.card

theorem bucketsUsed_append_singleton (symbols : List Symbol) (s : Symbol) :
    bucketsUsed (symbols ++ [s]) = bucketsUsed symbols +
      if hashcode (symTableInit 100) s.name ∈
        symbols.map (fun t => hashcode (symTableInit 100) t.name) then 0 else 1 := by
  unfold bucketsUsed
  rw [List.map_append, List.map_singleton, List.toFinset_append, Finset.union_comm,
    List.toFinset_cons, List.toFinset_nil, Finset.insert_union, Finset.empty_union]
  by_cases old : hashcode (symTableInit 100) s.name ∈
      symbols.map fun t => hashcode (symTableInit 100) t.name
  · rw [if_pos old, Finset.insert_eq_of_mem (List.mem_toFinset.mpr old), Nat.add_zero]
  · rw [if_neg old, Finset.card_insert_of_notMem (fun member => old (List.mem_toFinset.mp member))]

theorem bucketsUsed_le_append (symbols : List Symbol) (s : Symbol) :
    bucketsUsed symbols ≤ bucketsUsed (symbols ++ [s]) := by
  rw [bucketsUsed_append_singleton]
  omega

/-- The table holds just these symbols, each in the bucket of its name. -/
structure HoldsSymbols (table : SymTable) (symbols : List Symbol) : Prop where
  linked : TailsLinked table
  size : table.numsBucket = 100
  count : table.numsTable = bucketsUsed symbols
  chains : ∀ bucket, table.chain bucket =
    symbols.filter fun s => hashcode (symTableInit 100) s.name = bucket

theorem symTableInit_holds : HoldsSymbols (symTableInit 100) [] :=
  ⟨symTableInit_tailsLinked 100, rfl, rfl, fun _ => rfl⟩

namespace HoldsSymbols

variable {table : SymTable} {symbols : List Symbol} {s : Symbol}

theorem hashcode_eq (holds : HoldsSymbols table symbols) (key : Name) :
    hashcode table key = hashcode (symTableInit 100) key :=
  hashcode_congr key holds.size

theorem refused_iff (holds : HoldsSymbols table symbols) (s : Symbol) :
    Refused table s ↔ 100 ≤ bucketsUsed symbols ∨ ∃ t ∈ symbols, compareDataType t s = true := by
  unfold Refused
  rw [holds.size, holds.count, holds.chains, holds.hashcode_eq]
  apply or_congr_right
  constructor
  · rintro ⟨t, stored, equal⟩
    exact ⟨t, List.mem_of_mem_filter stored, equal⟩
  · rintro ⟨t, member, equal⟩
    obtain ⟨named, -⟩ := (compareDataType_iff t s).mp equal
    refine ⟨t, List.mem_filter.mpr ⟨member, ?_⟩, equal⟩
    rw [named, decide_eq_true_eq]

/-- A bucket is in use when a name with its hashcode was stored. -/
theorem bucket_isSome (holds : HoldsSymbols table symbols) (bucket : Nat) :
    (table.buckets bucket).isSome = true ↔
      bucket ∈ symbols.map fun t => hashcode (symTableInit 100) t.name := by
  have chain := holds.chains bucket
  cases found : table.buckets bucket with
  | none =>
      have empty : table.chain bucket = [] := by
        unfold SymTable.chain
        rw [found]
        rfl
      rw [empty, eq_comm, List.filter_eq_nil_iff] at chain
      rw [List.mem_map]
      simpa using chain
  | some node =>
      obtain ⟨nonempty, -⟩ := holds.linked bucket node found
      have inside : table.chain bucket = node.symNodeList := by
        unfold SymTable.chain
        rw [found]
        rfl
      rw [inside] at chain
      obtain ⟨t, member⟩ := List.exists_mem_of_ne_nil _ nonempty
      rw [chain, List.mem_filter, decide_eq_true_eq] at member
      simp only [Option.isSome_some, true_iff]
      exact List.mem_map.mpr ⟨t, member⟩

theorem put (holds : HoldsSymbols table symbols) (accepted : ¬ Refused table s) :
    HoldsSymbols (putSymbol table s.name s).2 (symbols ++ [s]) where
  linked := putSymbol_tailsLinked holds.linked s.name s
  size := (putSymbol_numsBucket table s.name s).trans holds.size
  count := by
    rw [putSymbol_numsTable accepted, holds.count, bucketsUsed_append_singleton, holds.hashcode_eq]
    simp only [holds.bucket_isSome]
  chains := by
    intro bucket
    rw [List.filter_append, ← holds.chains]
    by_cases own : hashcode (symTableInit 100) s.name = bucket
    · rw [List.filter_cons_of_pos (by simpa using own), List.filter_nil, ← own, ← holds.hashcode_eq,
        putSymbol_chain_accepted holds.linked accepted]
    · rw [List.filter_cons_of_neg (by simpa using own), List.filter_nil, List.append_nil]
      apply putSymbol_chain_elsewhere holds.linked
      rw [holds.hashcode_eq]
      exact Ne.symm own

end HoldsSymbols

/-- Each symbol of the history is stored when it is put. -/
def EachStored (history : List Symbol) : Prop :=
  ∀ before s after, history = before ++ s :: after →
    ¬ Refused (putSymbols (symTableInit 100) before) s

theorem putSymbols_append_singleton (table : SymTable) (history : List Symbol) (s : Symbol) :
    putSymbols table (history ++ [s]) = (putSymbol (putSymbols table history) s.name s).2 := by
  unfold putSymbols
  rw [List.foldl_append]
  rfl

theorem eachStored_append_singleton (history : List Symbol) (s : Symbol) :
    EachStored (history ++ [s]) ↔
      EachStored history ∧ ¬ Refused (putSymbols (symTableInit 100) history) s := by
  constructor
  · intro stored
    refine ⟨fun before t after split => stored before t (after ++ [s]) (by rw [split]; simp), ?_⟩
    exact stored history s [] rfl
  · rintro ⟨early, last⟩ before t after split
    rcases List.append_eq_append_iff.mp split with ⟨middle, rfl, rest⟩ | ⟨middle, rfl, rest⟩
    · cases middle with
      | nil =>
          rw [List.nil_append, List.cons.injEq] at rest
          rw [List.append_nil, ← rest.1]
          exact last
      | cons head tail => simp at rest
    · cases middle with
      | nil =>
          rw [List.nil_append, List.cons.injEq] at rest
          rw [List.append_nil] at last
          rw [rest.1]
          exact last
      | cons head tail =>
          rw [List.cons_append, List.cons.injEq] at rest
          rw [rest.1]
          exact early before head tail rfl

theorem holds_of_eachStored {history : List Symbol} (stored : EachStored history) :
    HoldsSymbols (putSymbols (symTableInit 100) history) history := by
  induction history using List.reverseRecOn with
  | nil => exact symTableInit_holds
  | append_singleton history s ih =>
      obtain ⟨early, last⟩ := (eachStored_append_singleton history s).mp stored
      rw [putSymbols_append_singleton]
      exact (ih early).put last

/-- Every symbol of a history finds its place exactly when no two of them are equal for the
table and all but the last leave a bucket unused. -/
theorem eachStored_iff (history : List Symbol) : EachStored history ↔
    (history.Pairwise fun earlier later => compareDataType earlier later = false) ∧
      bucketsUsed history.dropLast < 100 := by
  induction history using List.reverseRecOn with
  | nil =>
      refine iff_of_true (fun before s after split => ?_) ⟨.nil, by decide⟩
      simp at split
  | append_singleton history s ih =>
      rw [eachStored_append_singleton, List.pairwise_append, List.dropLast_concat]
      constructor
      · rintro ⟨early, last⟩
        rw [(holds_of_eachStored early).refused_iff, not_or, not_exists] at last
        refine ⟨⟨(ih.mp early).1, List.pairwise_singleton _ _, ?_⟩, Nat.not_le.mp last.1⟩
        intro t member other only
        rw [List.mem_singleton.mp only]
        exact Bool.not_eq_true _ ▸ fun equal => last.2 t ⟨member, equal⟩
      · rintro ⟨⟨different, -, apart⟩, room⟩
        have early : EachStored history := by
          refine ih.mpr ⟨different, ?_⟩
          cases history using List.reverseRecOn with
          | nil => exact Nat.lt_of_le_of_lt (Nat.zero_le _) room
          | append_singleton init last =>
              rw [List.dropLast_concat]
              exact Nat.lt_of_le_of_lt (bucketsUsed_le_append init last) room
        refine ⟨early, ?_⟩
        rw [(holds_of_eachStored early).refused_iff]
        rintro (full | ⟨t, member, equal⟩)
        · omega
        · rw [apart t member s List.mem_cons_self] at equal
          cases equal

/-- The symbols of a history with their blocks are all different. -/
theorem ValidHistory.nodup {events : List Event} (valid : ValidHistory events) :
    (declarations events).Nodup := by
  have ids : ((declarations events).map (·.2.id)).Nodup := by
    rw [valid.ids]
    exact List.nodup_range
  exact ids.of_map

end Pl0
