import Pl0.Common
import Mathlib.Data.List.Sort

set_option autoImplicit false

namespace Pl0

/-- A token set: a list sorted by the values of its elements, as `setinsert` and
`uniteset` keep it. Elements may occur more than once. -/
structure Symset where
  elems : List Token
  sorted : elems.Pairwise fun a b => a.toNat ≤ b.toNat

def setinsertList (elem : Token) : List Token → List Token
  | [] => [elem]
  | head :: rest =>
      if head.toNat < elem.toNat then head :: setinsertList elem rest else elem :: head :: rest

theorem mem_setinsertList {elem token : Token} {s : List Token} :
    token ∈ setinsertList elem s ↔ token = elem ∨ token ∈ s := by
  induction s with
  | nil => simp [setinsertList]
  | cons head rest ih =>
      rw [setinsertList]
      split
      · rw [List.mem_cons, ih, List.mem_cons]
        exact or_left_comm
      · rw [List.mem_cons]

theorem setinsertList_sorted {elem : Token} {s : List Token}
    (sorted : s.Pairwise fun a b => a.toNat ≤ b.toNat) :
    (setinsertList elem s).Pairwise fun a b => a.toNat ≤ b.toNat := by
  induction s with
  | nil => exact List.pairwise_singleton _ _
  | cons head rest ih =>
      obtain ⟨below, restSorted⟩ := List.pairwise_cons.mp sorted
      rw [setinsertList]
      split
      · rename_i less
        refine .cons (fun token member => ?_) (ih restSorted)
        rcases mem_setinsertList.mp member with rfl | inside
        · exact Nat.le_of_lt less
        · exact below token inside
      · rename_i notLess
        refine .cons (fun token member => ?_) sorted
        rcases List.mem_cons.mp member with rfl | inside
        · exact Nat.le_of_not_lt notLess
        · exact Nat.le_trans (Nat.le_of_not_lt notLess) (below token inside)

def setinsert (s : Symset) (elem : Token) : Symset :=
  ⟨setinsertList elem s.elems, setinsertList_sorted s.sorted⟩

/-- `createset(e1, ..., en, nulsym)` -/
def createset (tokens : List Token) : Symset :=
  tokens.foldl setinsert ⟨[], .nil⟩

/-- The walk of `uniteset` over the second set while the first one is at `a`;
`rest` goes on when `a` is taken. -/
def uniteFrom (a : Token) (s1 : List Token) (rest : List Token → List Token) :
    List Token → List Token
  | [] => a :: s1
  | b :: s2 => if a.toNat < b.toNat then a :: rest (b :: s2) else b :: uniteFrom a s1 rest s2

def unitesetList : List Token → List Token → List Token
  | [], s2 => s2
  | a :: s1, s2 => uniteFrom a s1 (unitesetList s1) s2

theorem unitesetList_cons_cons (a b : Token) (s1 s2 : List Token) :
    unitesetList (a :: s1) (b :: s2) =
      if a.toNat < b.toNat then a :: unitesetList s1 (b :: s2)
      else b :: unitesetList (a :: s1) s2 :=
  rfl

theorem mem_unitesetList {token : Token} {s1 s2 : List Token} :
    token ∈ unitesetList s1 s2 ↔ token ∈ s1 ∨ token ∈ s2 := by
  induction s1 generalizing s2 with
  | nil => simp [unitesetList]
  | cons a s1 ih =>
      induction s2 with
      | nil => simp [unitesetList, uniteFrom]
      | cons b s2 ih2 =>
          rw [unitesetList_cons_cons]
          split
          · rw [List.mem_cons, ih, List.mem_cons (a := token) (b := a), or_assoc]
          · rw [List.mem_cons, ih2, List.mem_cons (a := token) (b := b)]
            exact or_left_comm

theorem unitesetList_sorted {s1 s2 : List Token}
    (sorted1 : s1.Pairwise fun a b => a.toNat ≤ b.toNat)
    (sorted2 : s2.Pairwise fun a b => a.toNat ≤ b.toNat) :
    (unitesetList s1 s2).Pairwise fun a b => a.toNat ≤ b.toNat := by
  induction s1 generalizing s2 with
  | nil => exact sorted2
  | cons a s1 ih =>
      obtain ⟨belowA, rest1⟩ := List.pairwise_cons.mp sorted1
      induction s2 with
      | nil => exact sorted1
      | cons b s2 ih2 =>
          obtain ⟨belowB, rest2⟩ := List.pairwise_cons.mp sorted2
          rw [unitesetList_cons_cons]
          split
          · rename_i less
            refine .cons (fun token member => ?_) (ih rest1 sorted2)
            rcases mem_unitesetList.mp member with left | right
            · exact belowA token left
            · rcases List.mem_cons.mp right with rfl | later
              · exact Nat.le_of_lt less
              · exact Nat.le_trans (Nat.le_of_lt less) (belowB token later)
          · rename_i notLess
            refine .cons (fun token member => ?_) (ih2 rest2)
            rcases mem_unitesetList.mp member with left | right
            · rcases List.mem_cons.mp left with rfl | later
              · exact Nat.le_of_not_lt notLess
              · exact Nat.le_trans (Nat.le_of_not_lt notLess) (belowA token later)
            · exact belowB token right

def uniteset (s1 s2 : Symset) : Symset :=
  ⟨unitesetList s1.elems s2.elems, unitesetList_sorted s1.sorted s2.sorted⟩

def insetList (elem : Token) : List Token → Bool
  | [] => false
  | head :: rest => if head.toNat < elem.toNat then insetList elem rest else head = elem

/-- The walk of `inset` stops at the first element that is not smaller. -/
def inset (elem : Token) (s : Symset) : Bool :=
  insetList elem s.elems

theorem insetList_iff {elem : Token} {s : List Token}
    (sorted : s.Pairwise fun a b => a.toNat ≤ b.toNat) : insetList elem s = true ↔ elem ∈ s := by
  induction s with
  | nil => simp [insetList]
  | cons head rest ih =>
      obtain ⟨below, restSorted⟩ := List.pairwise_cons.mp sorted
      rw [insetList]
      split
      · rename_i less
        have different : elem ≠ head := by
          rintro rfl
          exact Nat.lt_irrefl _ less
        rw [ih restSorted, List.mem_cons, or_iff_right different]
      · rename_i notLess
        rw [decide_eq_true_eq, List.mem_cons]
        constructor
        · intro same
          exact Or.inl same.symm
        · rintro (same | later)
          · exact same.symm
          · have bound := below elem later
            exact Token.toNat_injective (Nat.le_antisymm bound (Nat.le_of_not_lt notLess))

theorem inset_iff {elem : Token} {s : Symset} : inset elem s = true ↔ elem ∈ s.elems :=
  insetList_iff s.sorted

@[simp] theorem inset_uniteset (elem : Token) (s1 s2 : Symset) :
    inset elem (uniteset s1 s2) = (inset elem s1 || inset elem s2) := by
  rw [Bool.eq_iff_iff, Bool.or_eq_true, inset_iff, inset_iff, inset_iff]
  exact mem_unitesetList

theorem mem_foldl_setinsert {elem : Token} {tokens : List Token} {s : Symset} :
    elem ∈ (tokens.foldl setinsert s).elems ↔ elem ∈ tokens ∨ elem ∈ s.elems := by
  induction tokens generalizing s with
  | nil => simp
  | cons token tokens ih =>
      rw [List.foldl_cons, ih, List.mem_cons, or_comm (a := elem = token), or_assoc]
      exact or_congr_right mem_setinsertList

@[simp] theorem inset_createset (elem : Token) (tokens : List Token) :
    inset elem (createset tokens) = decide (elem ∈ tokens) := by
  rw [Bool.eq_iff_iff, inset_iff, decide_eq_true_eq]
  have spread : elem ∈ (createset tokens).elems ↔ elem ∈ tokens ∨ elem ∈ ([] : List Token) :=
    mem_foldl_setinsert
  simpa using spread

def phi : Symset := createset []
def relset : Symset := createset [.eqlsym, .neqsym, .lessym, .leqsym, .gtrsym, .geqsym]
def declbegsys : Symset := createset [.constsym, .varsym, .procsym]
def statbegsys : Symset :=
  createset [.identsym, .callsym, .beginsym, .ifsym, .whilesym, .readsym, .writesym]
def facbegsys : Symset := createset [.identsym, .numbersym, .lparentsym]

end Pl0
