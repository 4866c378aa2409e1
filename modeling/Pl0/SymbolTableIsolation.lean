import Pl0.SymbolTableChains
import Mathlib.Data.Set.Insert

set_option autoImplicit false

namespace Pl0

/-- The scan of a bucket only ever picks one of its symbols. -/
theorem foldl_getSymbolStep_mem (currentLevel : Int) (chain : List Symbol) (tmp : Option Symbol)
    (found : Symbol) (picked : chain.foldl (getSymbolStep currentLevel) tmp = some found) :
    found ∈ chain ∨ tmp = some found := by
  induction chain generalizing tmp with
  | nil => exact Or.inr picked
  | cons first rest ih =>
      rcases ih (getSymbolStep currentLevel tmp first) picked with later | now
      · exact Or.inl (List.mem_cons_of_mem _ later)
      · unfold getSymbolStep at now
        split at now
        · cases now
          exact Or.inl List.mem_cons_self
        · split at now
          · cases now
            exact Or.inl List.mem_cons_self
          · exact Or.inr now

theorem getSymbol_mem_chain {table : SymTable} {key : Name} {currentLevel : Int} {found : Symbol}
    (picked : getSymbol table key currentLevel = some found) :
    found ∈ table.chain (hashcode table key) := by
  rw [getSymbol_eq_foldl] at picked
  rcases foldl_getSymbolStep_mem currentLevel _ none found picked with stored | initial
  · exact stored
  · cases initial

/-- An insertion under another hashcode is invisible to a lookup. -/
theorem getSymbol_putSymbol_of_hashcode_ne {table : SymTable} (linked : TailsLinked table)
    (other : Name) (symbol : Symbol) (key : Name)
    (apart : hashcode table key ≠ hashcode table other) (currentLevel : Int) :
    getSymbol (putSymbol table other symbol).2 key currentLevel =
      getSymbol table key currentLevel := by
  rw [getSymbol_eq_foldl, getSymbol_eq_foldl,
    hashcode_congr key (putSymbol_numsBucket table other symbol),
    putSymbol_chain_elsewhere linked symbol _ apart]

/-- What a lookup returns was put under a key that shares the bucket of the one asked for. -/
theorem getSymbol_putCalls {bucketCount : Nat} {calls : List (Name × Symbol)} {key : Name}
    {currentLevel : Int} {found : Symbol}
    (picked : getSymbol (putCalls (symTableInit bucketCount) calls) key currentLevel =
      some found) :
    ∃ call ∈ calls, call.2 = found ∧
      hashcode (symTableInit bucketCount) call.1 = hashcode (symTableInit bucketCount) key := by
  obtain ⟨call, member, own, bucket⟩ := mem_chain_putCalls calls (getSymbol_mem_chain picked)
  exact ⟨call, member, own, bucket.trans (hashcode_congr key (putCalls_numsBucket _ calls))⟩

/-- Key isolation of a table for one name at one level: no symbol of another name changes
the lookup, and the lookup finds nothing or a symbol of the name. -/
structure KeyIsolated (table : SymTable) (puts : Set (Name × Symbol)) (key : Name)
    (level : Int) : Prop where
  unchanged : ∀ symbol : Symbol, (symbol.name, symbol) ∈ puts → symbol.name ≠ key →
    getSymbol (putSymbol table symbol.name symbol).2 key level = getSymbol table key level
  own : ∀ found, getSymbol table key level = some found → found.name = key

/-- Key isolation, for the names that are looked up, of every table that a sequence of
calls among `puts` reaches. -/
def IsolatesKeys (bucketCount : Nat) (puts : Set (Name × Symbol)) (names : Set Name) : Prop :=
  ∀ calls : List (Name × Symbol), (∀ call ∈ calls, call ∈ puts) → ∀ key ∈ names, ∀ level,
    KeyIsolated (putCalls (symTableInit bucketCount) calls) puts key level

/-- The buckets are not chained by key: a name is isolated exactly when no call puts a
symbol of another name under a key with the hashcode of the name. -/
theorem isolatesKeys_iff (bucketCount : Nat) (positive : 0 < bucketCount)
    (puts : Set (Name × Symbol)) (names : Set Name) :
    IsolatesKeys bucketCount puts names ↔
      ∀ key ∈ names, ∀ call ∈ puts,
        hashcode (symTableInit bucketCount) call.1 = hashcode (symTableInit bucketCount) key →
          call.2.name = key := by
  constructor
  · intro isolated key looked call put collide
    -- The call alone already answers the lookup of `key`.
    have own := (isolated [call] (by simpa using put) key looked 0).own call.2
    have accepted : ¬ RefusedUnder (symTableInit bucketCount) call.1 call.2 := by
      rintro (full | ⟨stored, present, _⟩)
      · exact absurd full (by simp only [symTableInit]; omega)
      · simp [SymTable.chain, symTableInit] at present
    have chain := putSymbol_chain_accepted (symTableInit_tailsLinked bucketCount) accepted
    apply own
    change getSymbol (putSymbol (symTableInit bucketCount) call.1 call.2).2 key 0 = some call.2
    rw [getSymbol_eq_foldl, hashcode_congr key (putSymbol_numsBucket _ call.1 call.2),
      ← collide, chain]
    simp [SymTable.chain, symTableInit, getSymbolStep]
  · intro distinct calls among key looked level
    refine ⟨?_, ?_⟩
    · intro symbol put foreign
      apply getSymbol_putSymbol_of_hashcode_ne
        (putCalls_tailsLinked (symTableInit_tailsLinked bucketCount) calls)
      rw [hashcode_congr key (putCalls_numsBucket _ calls),
        hashcode_congr symbol.name (putCalls_numsBucket _ calls)]
      intro collide
      exact foreign (distinct key looked (symbol.name, symbol) put collide.symm)
    · intro found picked
      obtain ⟨call, member, rfl, collide⟩ := getSymbol_putCalls picked
      exact distinct key looked call (among call member) collide

/-- Symbols named `x` and `y`, each put under its own name in the driver's table. -/
theorem isolatesKeys_iff_driver :
    0 < 100 ∧ (IsolatesKeys 100 {call | call.1 = call.2.name ∧ call.1 ∈ [[120], [121]]}
        {[120], [121]} ↔
      ∀ key ∈ ({[120], [121]} : Set Name),
        ∀ call ∈ ({call | call.1 = call.2.name ∧ call.1 ∈ [[120], [121]]} : Set (Name × Symbol)),
          hashcode (symTableInit 100) call.1 = hashcode (symTableInit 100) key →
            call.2.name = key) :=
  ⟨by decide, isolatesKeys_iff 100 (by decide) _ _⟩

/-- A variable named `count`. -/
def countSymbol : Symbol :=
  { kind := .varS, name := [99, 111, 117, 110, 116], val := 0, level := 0, addr := 4, id := 0 }

/-- `i` and `count` share a bucket of the driver's table: declaring `count` makes
the undeclared `i` resolve to it. -/
theorem driver_table_confuses_i_and_count :
    ¬ ∀ bucketCount, 0 < bucketCount → ∀ calls : List (Name × Symbol), ∀ key : Name, ∀ level,
      KeyIsolated (putCalls (symTableInit bucketCount) calls) Set.univ key level := by
  intro claim
  have unchanged := (claim 100 (by decide) [] [105] 0).unchanged countSymbol (Set.mem_univ _)
    (by decide)
  exact absurd unchanged (by decide)

end Pl0
