import Pl0.SymbolTableChains

set_option autoImplicit false

namespace Pl0

/-- The list that `getSymbolTable` leads to. -/
def SymTable.listOf (table : SymTable) (key : Name) : List Symbol :=
  ((getSymbolTable table key).map (·.symNodeList)).getD []

theorem listOf_eq_chain (table : SymTable) (key : Name) :
    table.listOf key = table.chain (hashcode table key) := rfl

/-- A symbol with the attributes of another. -/
def SameAttributes (first second : Symbol) : Prop :=
  first.name = second.name ∧ first.kind = second.kind ∧ first.level = second.level ∧
    first.addr = second.addr ∧ first.val = second.val

instance (first second : Symbol) : Decidable (SameAttributes first second) :=
  inferInstanceAs (Decidable (_ ∧ _ ∧ _ ∧ _ ∧ _))

/-- What a put should do to the list of its key. -/
structure PutStores (table : SymTable) (s : Symbol) : Prop where
  stored : ∃ own ∈ (putSymbol table s.name s).2.listOf s.name, SameAttributes own s
  kept : table.listOf s.name <+: (putSymbol table s.name s).2.listOf s.name

theorem putSymbol_listOf_prefix {table : SymTable} (linked : TailsLinked table) (s : Symbol) :
    table.listOf s.name <+: (putSymbol table s.name s).2.listOf s.name := by
  rw [listOf_eq_chain, listOf_eq_chain, hashcode_congr s.name (putSymbol_numsBucket table s.name s)]
  rcases putSymbol_chain linked s (hashcode table s.name) with same | ⟨-, appended⟩
  · exact same.symm ▸ List.prefix_rfl
  · exact appended.symm ▸ List.prefix_append _ _

/-- In every table that calls of `putSymbol` reach: a symbol is stored with its attributes
exactly when one like it is there already, or a bucket has never been used and nothing in the
list of its name has its name, kind, level and address. -/
theorem putStores_iff {bucketCount : Nat} (_positive : 0 < bucketCount)
    (calls : List (Name × Symbol)) (s : Symbol) :
    PutStores (putCalls (symTableInit bucketCount) calls) s ↔
      (∃ own ∈ (putCalls (symTableInit bucketCount) calls).listOf s.name,
        SameAttributes own s) ∨
      ((putCalls (symTableInit bucketCount) calls).numsTable <
          (putCalls (symTableInit bucketCount) calls).numsBucket ∧
        ∀ own ∈ (putCalls (symTableInit bucketCount) calls).listOf s.name,
          compareDataType own s = false) := by
  have linked := putCalls_tailsLinked (symTableInit_tailsLinked bucketCount) calls
  generalize putCalls (symTableInit bucketCount) calls = table at linked
  have kept := putSymbol_listOf_prefix linked s
  constructor
  · rintro ⟨⟨own, stored, same⟩, -⟩
    by_cases refused : Refused table s
    · rw [putSymbol_refused refused] at stored
      exact .inl ⟨own, stored, same⟩
    · unfold Refused at refused
      rw [not_or, not_exists] at refused
      refine .inr ⟨Nat.not_le.mp refused.1, ?_⟩
      intro other inside
      rw [listOf_eq_chain] at inside
      exact Bool.not_eq_true _ ▸ fun equal => refused.2 other ⟨inside, equal⟩
  · rintro (⟨own, stored, same⟩ | ⟨room, different⟩)
    · exact ⟨⟨own, kept.subset stored, same⟩, kept⟩
    · have accepted : ¬ Refused table s := by
        rintro (full | ⟨own, stored, equal⟩)
        · omega
        · rw [different own stored] at equal
          cases equal
      refine ⟨⟨s, ?_, rfl, rfl, rfl, rfl, rfl⟩, kept⟩
      rw [listOf_eq_chain, hashcode_congr s.name (putSymbol_numsBucket table s.name s),
        putSymbol_chain_accepted linked accepted]
      exact List.mem_append_right _ List.mem_cons_self

/-- A constant `c` of a procedure of the main block. -/
def siblingConstant (val : Int) (id : Nat) : Symbol :=
  { kind := .constS, name := [99], val := val, level := 1, addr := 0, id := id }

theorem putStores_iff_siblings : 0 < 100 ∧
    (PutStores (putCalls (symTableInit 100) [([99], siblingConstant 1 0)])
        (siblingConstant 2 1) ↔
      (∃ own ∈ (putCalls (symTableInit 100) [([99], siblingConstant 1 0)]).listOf [99],
        SameAttributes own (siblingConstant 2 1)) ∨
      ((putCalls (symTableInit 100) [([99], siblingConstant 1 0)]).numsTable <
          (putCalls (symTableInit 100) [([99], siblingConstant 1 0)]).numsBucket ∧
        ∀ own ∈ (putCalls (symTableInit 100) [([99], siblingConstant 1 0)]).listOf [99],
          compareDataType own (siblingConstant 2 1) = false)) :=
  ⟨by decide, putStores_iff (by decide) [([99], siblingConstant 1 0)] (siblingConstant 2 1)⟩

/-- The second of two sibling procedures gets the constant of the first. -/
theorem sibling_constant_refused : ¬ ∀ bucketCount : Nat, 0 < bucketCount →
    ∀ (calls : List (Name × Symbol)) (s : Symbol),
      PutStores (putCalls (symTableInit bucketCount) calls) s := by
  intro claim
  obtain ⟨⟨own, stored, same⟩, -⟩ :=
    claim 100 (by decide) [([99], siblingConstant 1 0)] (siblingConstant 2 1)
  have list : (putSymbol (putCalls (symTableInit 100) [([99], siblingConstant 1 0)])
      (siblingConstant 2 1).name (siblingConstant 2 1)).2.listOf (siblingConstant 2 1).name =
      [siblingConstant 1 0] := by
    decide
  rw [list, List.mem_singleton] at stored
  rw [stored] at same
  exact absurd same (by decide)

end Pl0
