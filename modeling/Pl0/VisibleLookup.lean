import Pl0.LexicalScope

set_option autoImplicit false

namespace Pl0

/-- The table holds the symbol in one of its lists. -/
def SymTable.Stores (table : SymTable) (symbol : Symbol) : Prop :=
  ∃ bucket, symbol ∈ table.chain bucket

/-- The answer for a name at a level: nothing where every stored symbol of the name is
deeper, and otherwise a stored symbol of the name from the deepest level that is seen. -/
structure FindsVisible (table : SymTable) (key : Name) (level : Int) : Prop where
  absent : (∀ symbol, table.Stores symbol → symbol.name = key → level < symbol.level) →
    getSymbol table key level = none
  deepest : ∀ seen, table.Stores seen → seen.name = key → seen.level ≤ level →
    ∃ found, getSymbol table key level = some found ∧ table.Stores found ∧ found.name = key ∧
      found.level ≤ level ∧ ∀ symbol, table.Stores symbol → symbol.name = key →
        symbol.level ≤ level → symbol.level ≤ found.level

/-- The list of a name's bucket holds, as far as the level sees, the deepest symbol of the
name that is stored anywhere: a symbol may have been put under any key. -/
def HoldsDeepest (table : SymTable) (key : Name) (level : Int) : Prop :=
  ∀ symbol, table.Stores symbol → symbol.name = key → symbol.level ≤ level →
    ∃ own ∈ table.chain (hashcode table key), symbol.level ≤ own.level ∧ own.level ≤ level

/-- Every table that calls of `putSymbol` reach, where no other name shares the bucket: a
lookup answers as it should exactly when the symbol that came first into the bucket, if there
is one, is no deeper than the use, and the bucket holds the deepest one that is seen. -/
theorem findsVisible_iff {bucketCount : Nat} (calls : List (Name × Symbol)) (key : Name)
    (level : Int)
    (alone : ∀ symbol ∈ (putCalls (symTableInit bucketCount) calls).chain
      (hashcode (putCalls (symTableInit bucketCount) calls) key), symbol.name = key) :
    FindsVisible (putCalls (symTableInit bucketCount) calls) key level ↔
      (∀ first ∈ ((putCalls (symTableInit bucketCount) calls).chain
        (hashcode (putCalls (symTableInit bucketCount) calls) key)).head?,
          first.level ≤ level) ∧
      HoldsDeepest (putCalls (symTableInit bucketCount) calls) key level := by
  generalize putCalls (symTableInit bucketCount) calls = table at alone ⊢
  have looked := getSymbol_eq_foldl table key level
  have inside : ∀ symbol ∈ table.chain (hashcode table key), table.Stores symbol :=
    fun symbol member => ⟨_, member⟩
  have holds : FindsVisible table key level → HoldsDeepest table key level := by
    intro finds symbol stored named seen
    obtain ⟨found, picked, -, -, shallow, deepest⟩ := finds.deepest symbol stored named seen
    exact ⟨found, getSymbol_mem_chain picked, deepest symbol stored named seen, shallow⟩
  unfold HoldsDeepest at holds ⊢
  generalize table.chain (hashcode table key) = chain at alone looked inside holds ⊢
  cases chain with
  | nil =>
      constructor
      · intro finds
        exact ⟨fun first none => absurd none (by simp), holds finds⟩
      · rintro ⟨-, deepest⟩
        refine ⟨fun _ => looked, ?_⟩
        intro seen stored named shallow
        obtain ⟨own, member, -⟩ := deepest seen stored named shallow
        cases member
  | cons first rest =>
      rw [List.foldl_cons] at looked
      change _ = rest.foldl (getSymbolStep level) (some first) at looked
      constructor
      · intro finds
        refine ⟨?_, holds finds⟩
        intro head isFirst
        cases isFirst
        by_contra deep
        -- The scan starts with the first symbol, whatever its level, and then keeps it.
        have answer := looked.trans (foldl_getSymbolStep_deep (Int.not_le.mp deep) rest)
        by_cases seen : ∃ symbol, table.Stores symbol ∧ symbol.name = key ∧ symbol.level ≤ level
        · obtain ⟨symbol, stored, same, visible⟩ := seen
          obtain ⟨found, picked, -, -, shallow, -⟩ := finds.deepest symbol stored same visible
          rw [answer, Option.some.injEq] at picked
          rw [← picked] at shallow
          exact deep shallow
        · have none := finds.absent fun symbol stored same =>
            Int.not_le.mp fun visible => seen ⟨symbol, stored, same, visible⟩
          rw [answer] at none
          cases none
      · rintro ⟨shallow, deepest⟩
        have visible := shallow first rfl
        obtain ⟨found, folded, seen, greatest, earliest⟩ := foldl_getSymbolStep_visible visible rest
        have answer := looked.trans folded
        have member := List.mem_of_find?_eq_some earliest
        refine ⟨?_, ?_⟩
        · intro none
          have impossible := none first (inside first List.mem_cons_self)
            (alone first List.mem_cons_self)
          omega
        · intro _ _ _ _
          refine ⟨found, answer, inside found member, alone found member, seen, ?_⟩
          intro symbol stored named shallower
          obtain ⟨own, listed, above, below⟩ := deepest symbol stored named shallower
          exact above.trans (greatest own listed below)

/-- A variable `x` of a level. -/
def levelled (level : Int) (id : Nat) : Symbol :=
  { kind := .varS, name := [120], val := 0, level := level, addr := 4, id := id }

/-- Two levels of `x`, the outer one declared first, and an `x` put under the key `y`. -/
theorem findsVisible_iff_outerFirst :
    (∀ symbol ∈ (putCalls (symTableInit 100)
        [([120], levelled 0 0), ([120], levelled 1 1), ([121], levelled 1 2)]).chain
      (hashcode (putCalls (symTableInit 100)
        [([120], levelled 0 0), ([120], levelled 1 1), ([121], levelled 1 2)]) [120]),
        symbol.name = [120]) ∧
    (FindsVisible (putCalls (symTableInit 100)
        [([120], levelled 0 0), ([120], levelled 1 1), ([121], levelled 1 2)]) [120] 1 ↔
      (∀ first ∈ ((putCalls (symTableInit 100)
        [([120], levelled 0 0), ([120], levelled 1 1), ([121], levelled 1 2)]).chain
        (hashcode (putCalls (symTableInit 100)
          [([120], levelled 0 0), ([120], levelled 1 1), ([121], levelled 1 2)]) [120])).head?,
          first.level ≤ 1) ∧
      HoldsDeepest (putCalls (symTableInit 100)
        [([120], levelled 0 0), ([120], levelled 1 1), ([121], levelled 1 2)]) [120] 1) := by
  have alone : ∀ symbol ∈ (putCalls (symTableInit 100)
        [([120], levelled 0 0), ([120], levelled 1 1), ([121], levelled 1 2)]).chain
      (hashcode (putCalls (symTableInit 100)
        [([120], levelled 0 0), ([120], levelled 1 1), ([121], levelled 1 2)]) [120]),
        symbol.name = [120] := by
    decide
  exact ⟨alone, findsVisible_iff _ [120] 1 alone⟩

/-- The `x` of a procedure, which was left, answers in the main block. -/
theorem deeper_symbol_found :
    ¬ ∀ (bucketCount : Nat) (calls : List (Name × Symbol)) (key : Name) (level : Int),
    (∀ symbol ∈ (putCalls (symTableInit bucketCount) calls).chain
      (hashcode (putCalls (symTableInit bucketCount) calls) key), symbol.name = key) →
    FindsVisible (putCalls (symTableInit bucketCount) calls) key level := by
  intro claim
  have finds := claim 100 [([120], levelled 1 0)] [120] 0 (by decide)
  have picked : getSymbol (putCalls (symTableInit 100) [([120], levelled 1 0)]) [120] 0 =
      some (levelled 1 0) := by
    decide
  have none := finds.absent ?_
  · rw [picked] at none
    cases none
  · rintro symbol ⟨bucket, stored⟩ -
    obtain ⟨call, member, rfl, -⟩ := mem_chain_putCalls [([120], levelled 1 0)] stored
    rw [List.mem_singleton.mp member]
    decide

end Pl0
