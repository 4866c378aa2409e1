import Pl0.LinkedCells
import Pl0.TokenSet

set_option autoImplicit false

namespace Pl0

open LinkedCells

/-- The memory that `snode`s are taken from. -/
abbrev Snodes := List (Cell Token)

namespace Snodes

/-- The `while` loop of `setinsert`: the node to link behind. -/
def insertionPoint (elem : Token) : Nat → Snodes → Nat → Option Nat
  | fuel, snodes, p =>
      match snodes[p]? with
      | none => none
      | some node =>
          match node.next with
          | none => some p
          | some next =>
              match snodes[next]? with
              | none => none
              | some after =>
                  if after.value.toNat < elem.toNat then
                    match fuel with
                    | 0 => none
                    | fuel + 1 => insertionPoint elem fuel snodes next
                  else some p

/-- `inset`: the walk stops at the first element that is not smaller. -/
def insetFrom (elem : Token) : Nat → Snodes → Option Nat → Option Bool
  | _, _, none => some false
  | fuel, snodes, some s =>
      match snodes[s]? with
      | none => none
      | some node =>
          if node.value.toNat < elem.toNat then
            match fuel with
            | 0 => none
            | fuel + 1 => insetFrom elem fuel snodes node.next
          else some (node.value = elem)

def inset (fuel : Nat) (snodes : Snodes) (elem : Token) (s : Nat) : Option Bool :=
  match snodes[s]? with
  | none => none
  | some header => insetFrom elem fuel snodes header.next

section

-- What `malloc` finds in the memory it hands out.
variable (junk : Nat → Cell Token)

def malloc (snodes : Snodes) : Nat × Snodes :=
  (snodes.length, snodes ++ [junk snodes.length])

def setinsert (fuel : Nat) (snodes : Snodes) (s : Nat) (elem : Token) : Option Snodes :=
  match insertionPoint elem fuel snodes s with
  | none => none
  | some p =>
      let (q, snodes) := malloc junk snodes
      let snodes := setValue snodes q elem
      match snodes[p]? with
      | none => none
      | some node => some (setNext (setNext snodes q node.next) p (some q))

/-- The loop of `createset` over its arguments. A call whose list has no `nulsym`
reads on behind its arguments. -/
def insertAll (fuel : Nat) : Snodes → Nat → List Token → Option Snodes
  | _, _, [] => none
  | snodes, s, elem :: arguments =>
      if elem = .nulsym then some snodes
      else match setinsert junk fuel snodes s elem with
        | none => none
        | some snodes => insertAll fuel snodes s arguments

def createset (fuel : Nat) (snodes : Snodes) (arguments : List Token) : Option (Nat × Snodes) :=
  let (s, snodes) := malloc junk snodes
  (insertAll junk fuel (setNext snodes s none) s arguments).map fun snodes => (s, snodes)

/-- The first loop of `uniteset`, while both lists have elements. -/
def uniteBoth : Nat → Snodes → Nat → Option Nat → Option Nat →
    Option (Snodes × Nat × Option Nat × Option Nat)
  | fuel, snodes, p, some s1, some s2 =>
      let (q, snodes) := malloc junk snodes
      let snodes := setNext snodes p (some q)
      match fuel, snodes[s1]?, snodes[s2]? with
      | fuel + 1, some first, some second =>
          if first.value.toNat < second.value.toNat then
            uniteBoth fuel (setValue snodes q first.value) q first.next (some s2)
          else
            uniteBoth fuel (setValue snodes q second.value) q (some s1) second.next
      | _, _, _ => none
  | _, snodes, p, s1, s2 => some (snodes, p, s1, s2)

/-- Its second loop, which copies what is left. -/
def uniteRest : Nat → Snodes → Nat → Option Nat → Option (Snodes × Nat)
  | fuel, snodes, p, some s1 =>
      let (q, snodes) := malloc junk snodes
      let snodes := setNext snodes p (some q)
      match fuel, snodes[s1]? with
      | fuel + 1, some node => uniteRest fuel (setValue snodes q node.value) q node.next
      | _, _ => none
  | _, snodes, p, none => some (snodes, p)

def uniteset (fuel : Nat) (snodes : Snodes) (s1 s2 : Nat) : Option (Nat × Snodes) :=
  let (s, snodes) := malloc junk snodes
  match snodes[s1]?, snodes[s2]? with
  | some header1, some header2 =>
      match uniteBoth junk fuel snodes s header1.next header2.next with
      | none => none
      | some (snodes, p, s1, s2) =>
          match uniteRest junk fuel snodes p (if s2.isSome then s2 else s1) with
          | none => none
          | some (snodes, p) => some (s, setNext snodes p none)
  | _, _ => none

end

/-- The set at `s` has these elements, in this order; its header holds none. -/
def IsSet (snodes : Snodes) (s : Nat) (elems : List Token) : Prop :=
  ∃ header items, Chain snodes (some s) ((s, header) :: items) ∧ items.map Prod.snd = elems

/-- A set made of nodes that `before` did not have, and nothing of `before` is
changed. -/
def SetSince (before snodes : Snodes) (s : Nat) (elems : List Token) : Prop :=
  (∃ header items, Chain snodes (some s) ((s, header) :: items) ∧ items.map Prod.snd = elems ∧
    ∀ item ∈ (s, header) :: items, before.length ≤ item.1) ∧
    ∀ address < before.length, snodes[address]? = before[address]?

theorem SetSince.isSet {before snodes : Snodes} {s : Nat} {elems : List Token}
    (made : SetSince before snodes s elems) : IsSet snodes s elems := by
  obtain ⟨⟨header, items, chain, values, _⟩, _⟩ := made
  exact ⟨header, items, chain, values⟩

theorem IsSet.keep {snodes later : Snodes} {s : Nat} {elems : List Token}
    (set : IsSet snodes s elems)
    (kept : ∀ address < snodes.length, later[address]? = snodes[address]?) :
    IsSet later s elems := by
  obtain ⟨header, items, chain, values⟩ := set
  exact ⟨header, items, chain.congr fun item inside => kept _ (chain.allocated item inside), values⟩

theorem insetFrom_returns {snodes : Snodes} {start : Option Nat} {items : List (Nat × Token)}
    (elem : Token) (chain : Chain snodes start items) :
    Returns (fun fuel => insetFrom elem fuel snodes start)
      (insetList elem (items.map Prod.snd)) := by
  induction items generalizing start with
  | nil =>
      cases chain
      exact .of_forall fun fuel => by rw [insetFrom.eq_def]; rfl
  | cons item items ih =>
      cases chain with
      | @cons address value next _ _ cell rest =>
          rw [List.map_cons, insetList]
          by_cases less : value.toNat < elem.toNat
          · rw [if_pos less]
            exact (ih rest).succ fun fuel => by simp [insetFrom, cell, less]
          · rw [if_neg less]
            exact .of_forall fun fuel => by rw [insetFrom.eq_def]; simp [cell, less]

theorem inset_returns {snodes : Snodes} {s : Nat} {elems : List Token} (elem : Token)
    (set : IsSet snodes s elems) :
    Returns (fun fuel => inset fuel snodes elem s) (insetList elem elems) := by
  obtain ⟨header, items, chain, rfl⟩ := set
  cases chain with
  | cons cell rest =>
      unfold inset
      simp only [cell]
      exact insetFrom_returns elem rest

/-- `setinsert` links behind the node where `setinsertList` splits the list. -/
theorem insertionPoint_returns {snodes : Snodes} (elem : Token) {p : Nat} {value : Token}
    {items : List (Nat × Token)} (chain : Chain snodes (some p) ((p, value) :: items)) :
    ∃ front last back, (p, value) :: items = front ++ last :: back ∧
      Returns (fun fuel => insertionPoint elem fuel snodes p) last.1 ∧
      value :: setinsertList elem (items.map Prod.snd) =
        (front ++ [last]).map Prod.snd ++ elem :: back.map Prod.snd := by
  induction items generalizing p value with
  | nil =>
      cases chain with
      | cons cell rest =>
          cases rest
          refine ⟨[], (p, value), [], rfl, .of_forall fun fuel => ?_, rfl⟩
          rw [insertionPoint.eq_def]
          simp [cell]
  | cons item items ih =>
      cases chain with
      | cons cell rest =>
          cases rest with
          | @cons address after next _ _ cell' rest' =>
              by_cases less : after.toNat < elem.toNat
              · obtain ⟨front, last, back, same, found, values⟩ := ih (.cons cell' rest')
                refine ⟨(p, value) :: front, last, back, by rw [same, List.cons_append],
                  found.succ fun fuel => ?_, ?_⟩
                · rw [insertionPoint]
                  simp [cell, cell', less]
                · rw [List.map_cons, setinsertList, if_pos less, values]
                  rfl
              · refine ⟨[], (p, value), (address, after) :: items, rfl,
                  .of_forall fun fuel => ?_, ?_⟩
                · rw [insertionPoint.eq_def]
                  simp [cell, cell', less]
                · rw [List.map_cons, setinsertList, if_neg less]
                  rfl

section

variable (junk : Nat → Cell Token)

theorem setinsert_returns {before snodes : Snodes} {s : Nat} {elems : List Token} (elem : Token)
    (made : SetSince before snodes s elems) :
    ∃ later, Returns (fun fuel => setinsert junk fuel snodes s elem) later ∧
      SetSince before later s (setinsertList elem elems) := by
  obtain ⟨⟨header, items, chain, rfl, fresh⟩, kept⟩ := made
  obtain ⟨front, ⟨p, elemP⟩, back, same, found, values⟩ := insertionPoint_returns elem chain
  have pFresh : before.length ≤ p := fresh (p, elemP) (by simp [same])
  rw [same] at chain
  obtain ⟨next, cell, linked⟩ := chain.insert
  have pOld : p < snodes.length := (List.getElem?_eq_some_iff.mp cell).1
  refine ⟨setNext (setNext (setValue (snodes ++ [junk snodes.length]) snodes.length elem)
    snodes.length next) p (some snodes.length), ?_, ?_, ?_⟩
  · have cell' : (setValue (snodes ++ [junk snodes.length]) snodes.length elem)[p]? =
        some ⟨elemP, next⟩ := by
      rw [getElem?_setValue_ne _ (Nat.ne_of_lt pOld), getElem?_malloc_old _ pOld, cell]
    refine found.bind (.of_forall fun _ => rfl) fun fuel walked => ?_
    simp only [setinsert, walked, malloc, cell']
  · obtain ⟨inserted, headed⟩ : ∃ inserted, front ++ (p, elemP) :: (snodes.length, elem) :: back =
        (s, header) :: inserted := by
      cases front with
      | nil =>
          cases same
          exact ⟨_, rfl⟩
      | cons first front =>
          cases same
          exact ⟨_, rfl⟩
    have now := linked (junk snodes.length) elem
    refine ⟨header, inserted, headed ▸ now, ?_, fun item inside => ?_⟩
    · have shown := congrArg (List.map Prod.snd) headed
      simp only [List.map_append, List.map_cons] at shown
      simp only [List.map_append, List.map_cons, List.map_nil, List.append_assoc,
        List.cons_append, List.nil_append] at values
      rw [← values] at shown
      exact (List.cons.inj shown).2.symm
    · rw [← headed] at inside
      have split : item ∈ front ++ (p, elemP) :: back ∨ item = (snodes.length, elem) := by
        simp only [List.mem_append, List.mem_cons] at inside ⊢
        tauto
      rcases split with old | rfl
      · exact fresh item (same ▸ old)
      · exact Nat.le_trans pFresh (Nat.le_of_lt pOld)
  · intro address allocated
    have old : address < snodes.length := by omega
    rw [getElem?_setNext_ne _ (by omega), getElem?_setNext_ne _ (Nat.ne_of_lt old),
      getElem?_setValue_ne _ (Nat.ne_of_lt old), getElem?_malloc_old _ old]
    exact kept address allocated

theorem insertAll_returns {before : Snodes} {s : Nat} (arguments : List Token) {set : Symset}
    {snodes : Snodes} (terminated : .nulsym ∈ arguments)
    (made : SetSince before snodes s set.elems) :
    ∃ later, Returns (fun fuel => insertAll junk fuel snodes s arguments) later ∧
      SetSince before later s
        ((arguments.takeWhile (· ≠ .nulsym)).foldl Pl0.setinsert set).elems := by
  induction arguments generalizing set snodes with
  | nil => cases terminated
  | cons elem arguments ih =>
      by_cases stops : elem = .nulsym
      · exact ⟨snodes, .of_forall fun fuel => by rw [insertAll, if_pos stops],
          by simpa [stops] using made⟩
      · obtain ⟨next, inserted, made'⟩ := setinsert_returns junk elem made
        have made' : SetSince before next s (Pl0.setinsert set elem).elems := made'
        obtain ⟨later, returned, made''⟩ :=
          ih ((List.mem_cons.mp terminated).resolve_left (Ne.symm stops)) made'
        refine ⟨later, inserted.bind returned fun fuel done => ?_, by simpa [stops] using made''⟩
        rw [insertAll, if_neg stops, done]

theorem takeWhile_terminated (arguments : List Token) :
    (arguments ++ [Token.nulsym]).takeWhile (· ≠ .nulsym) = arguments.takeWhile (· ≠ .nulsym) := by
  induction arguments with
  | nil => rfl
  | cons elem arguments ih =>
      by_cases stops : elem = .nulsym
      · simp [stops]
      · simpa [stops] using ih

theorem createset_returns (snodes : Snodes) (arguments : List Token)
    (terminated : .nulsym ∈ arguments) :
    ∃ s later, Returns (fun fuel => createset junk fuel snodes arguments) (s, later) ∧
      SetSince snodes later s (Pl0.createset (arguments.takeWhile (· ≠ .nulsym))).elems := by
  have header : (snodes ++ [junk snodes.length])[snodes.length]? = some (junk snodes.length) :=
    getElem?_malloc snodes _
  have empty : SetSince snodes (setNext (snodes ++ [junk snodes.length]) snodes.length none)
      snodes.length (⟨[], .nil⟩ : Symset).elems := by
    refine ⟨⟨_, [], .cons (getElem?_setNext_self none header) (.nil none), rfl, by simp⟩, ?_⟩
    intro address allocated
    rw [getElem?_setNext_ne _ (Nat.ne_of_lt allocated), getElem?_malloc_old _ allocated]
  obtain ⟨later, returned, made⟩ := insertAll_returns junk arguments terminated empty
  refine ⟨snodes.length, later, ?_, made⟩
  exact returned.bind (.of_forall fun _ => rfl) fun fuel done => by simp [createset, malloc, done]

/-- The copy that `uniteset` builds at `s`: it has these elements so far, `p` is its
last node, and nothing of `before` is changed. -/
structure Copying (before snodes : Snodes) (s : Nat) (elems : List Token) (p : Nat) : Prop where
  trail : ∃ header, Trail snodes s (header :: elems) p
  fresh : before.length ≤ p
  kept : ∀ address < before.length, snodes[address]? = before[address]?

theorem Copying.allocated {before snodes : Snodes} {s p : Nat} {elems : List Token}
    (copying : Copying before snodes s elems p) : p < snodes.length := by
  obtain ⟨_, _, _, _, found, _⟩ := copying.trail
  exact (List.getElem?_eq_some_iff.mp found).1

/-- The node that was just linked in is none of those being copied. -/
theorem Copying.read {before snodes : Snodes} {s p address : Nat} {elems : List Token}
    {cell : Cell Token} (copying : Copying before snodes s elems p)
    (found : before[address]? = some cell) :
    (setNext (snodes ++ [junk snodes.length]) p (some snodes.length))[address]? = some cell := by
  have allocated : address < before.length := (List.getElem?_eq_some_iff.mp found).1
  have p_lt := copying.allocated
  have p_fresh := copying.fresh
  rw [getElem?_setNext_ne _ (by omega), getElem?_malloc_old _ (by omega),
    copying.kept address allocated, found]

/-- One round of either loop. -/
theorem Copying.push {before snodes : Snodes} {s p : Nat} {elems : List Token}
    (copying : Copying before snodes s elems p) (elem : Token) :
    Copying before
      (setValue (setNext (snodes ++ [junk snodes.length]) p (some snodes.length)) snodes.length
        elem) s (elems ++ [elem]) snodes.length := by
  have p_lt := copying.allocated
  obtain ⟨header, trail⟩ := copying.trail
  have fresh := copying.fresh
  refine ⟨⟨header, trail.push (junk snodes.length) elem⟩, by omega, fun address allocated => ?_⟩
  rw [getElem?_setValue_ne _ (by omega), getElem?_setNext_ne _ (by omega),
    getElem?_malloc_old _ (by omega)]
  exact copying.kept address allocated

theorem uniteBoth_done (snodes : Snodes) (p : Nat) {start1 start2 : Option Nat}
    (ended : start1 = none ∨ start2 = none) :
    Returns (fun fuel => uniteBoth junk fuel snodes p start1 start2)
      (snodes, p, start1, start2) := by
  refine .of_forall fun fuel => ?_
  rcases ended with rfl | rfl
  · rw [uniteBoth.eq_def]
  · cases start1 <;> rw [uniteBoth.eq_def]

theorem uniteBoth_returns {before snodes : Snodes} {s p : Nat} {elems : List Token}
    {start1 start2 : Option Nat} {items1 items2 : List (Nat × Token)}
    (copying : Copying before snodes s elems p) (chain1 : Chain before start1 items1)
    (chain2 : Chain before start2 items2) :
    ∃ later q rest1 rest2 left1 left2 taken,
      Returns (fun fuel => uniteBoth junk fuel snodes p start1 start2) (later, q, rest1, rest2) ∧
      Chain before rest1 left1 ∧ Chain before rest2 left2 ∧ (left1 = [] ∨ left2 = []) ∧
      Copying before later s (elems ++ taken) q ∧
      unitesetList (items1.map Prod.snd) (items2.map Prod.snd) =
        taken ++ unitesetList (left1.map Prod.snd) (left2.map Prod.snd) := by
  induction items1 generalizing snodes p elems start1 start2 items2 with
  | nil =>
      exact ⟨snodes, p, start1, start2, [], items2, [],
        uniteBoth_done junk snodes p (Or.inl chain1.start_none), chain1, chain2, Or.inl rfl,
        by simpa using copying, rfl⟩
  | cons item1 items1 ih =>
      induction items2 generalizing snodes p elems start2 with
      | nil =>
          exact ⟨snodes, p, start1, start2, item1 :: items1, [], [],
            uniteBoth_done junk snodes p (Or.inr chain2.start_none), chain1, chain2, Or.inr rfl,
            by simpa using copying, rfl⟩
      | cons item2 items2 ih2 =>
          cases whole1 : chain1 with
          | @cons s1 first next1 _ _ cell1 tail1 =>
              cases whole2 : chain2 with
              | @cons s2 second next2 _ _ cell2 tail2 =>
                  have read1 := copying.read junk cell1
                  have read2 := copying.read junk cell2
                  rw [List.map_cons, List.map_cons, unitesetList_cons_cons]
                  by_cases less : first.toNat < second.toNat
                  · rw [if_pos less]
                    obtain ⟨later, q, rest1, rest2, left1, left2, taken, returned, chains1,
                      chains2, one, copied, united⟩ := ih (copying.push junk first) tail1 chain2
                    refine ⟨later, q, rest1, rest2, left1, left2, first :: taken,
                      returned.succ fun fuel => ?_, chains1, chains2, one, by
                        simpa using copied, ?_⟩
                    · simp [uniteBoth, malloc, read1, read2, less]
                    · rw [← List.map_cons (f := Prod.snd) (a := (s2, second)), united,
                        List.cons_append]
                  · rw [if_neg less]
                    obtain ⟨later, q, rest1, rest2, left1, left2, taken, returned, chains1,
                      chains2, one, copied, united⟩ := ih2 (copying.push junk second) tail2
                    refine ⟨later, q, rest1, rest2, left1, left2, second :: taken,
                      returned.succ fun fuel => ?_, chains1, chains2, one, by
                        simpa using copied, ?_⟩
                    · simp [uniteBoth, malloc, read1, read2, less]
                    · rw [← List.map_cons (f := Prod.snd) (a := (s1, first)), united,
                        List.cons_append]

theorem uniteRest_returns {before snodes : Snodes} {s p : Nat} {elems : List Token}
    {start : Option Nat} {items : List (Nat × Token)} (copying : Copying before snodes s elems p)
    (chain : Chain before start items) :
    ∃ later q, Returns (fun fuel => uniteRest junk fuel snodes p start) (later, q) ∧
      Copying before later s (elems ++ items.map Prod.snd) q := by
  induction items generalizing snodes p elems start with
  | nil =>
      cases chain
      exact ⟨snodes, p, .of_forall fun fuel => by rw [uniteRest.eq_def], by simpa using copying⟩
  | cons item items ih =>
      cases chain with
      | @cons address value next _ _ cell rest =>
          have read := copying.read junk cell
          obtain ⟨later, q, returned, copied⟩ := ih (copying.push junk value) rest
          refine ⟨later, q, returned.succ fun fuel => ?_, by simpa using copied⟩
          simp [uniteRest, malloc, read]

theorem uniteset_returns {snodes : Snodes} {s1 s2 : Nat} {elems1 elems2 : List Token}
    (set1 : IsSet snodes s1 elems1) (set2 : IsSet snodes s2 elems2) :
    ∃ s later, Returns (fun fuel => uniteset junk fuel snodes s1 s2) (s, later) ∧
      IsSet later s (unitesetList elems1 elems2) ∧
      ∀ address < snodes.length, later[address]? = snodes[address]? := by
  obtain ⟨header1, items1, chain1, rfl⟩ := set1
  obtain ⟨header2, items2, chain2, rfl⟩ := set2
  cases chain1 with
  | cons cell1 rest1 =>
      cases chain2 with
      | cons cell2 rest2 =>
          have read1 := (getElem?_malloc_old (junk snodes.length)
            (List.getElem?_eq_some_iff.mp cell1).1).trans cell1
          have read2 := (getElem?_malloc_old (junk snodes.length)
            (List.getElem?_eq_some_iff.mp cell2).1).trans cell2
          have copying : Copying snodes (snodes ++ [junk snodes.length]) snodes.length []
              snodes.length :=
            ⟨⟨_, .single (getElem?_malloc snodes _)⟩, Nat.le_refl _,
              fun address allocated => getElem?_malloc_old _ allocated⟩
          obtain ⟨memory, q, start1, start2, left1, left2, taken, walked, leftChain1, leftChain2,
            one, copied, united⟩ := uniteBoth_returns junk copying rest1 rest2
          obtain ⟨left, leftChain, values⟩ : ∃ left,
              Chain snodes (if start2.isSome then start2 else start1) left ∧
              unitesetList (left1.map Prod.snd) (left2.map Prod.snd) = left.map Prod.snd := by
            rcases one with rfl | rfl
            · refine ⟨left2, ?_, rfl⟩
              cases leftChain1.start_none
              cases start2 with
              | none => exact leftChain2
              | some s2 => exact leftChain2
            · refine ⟨left1, ?_, ?_⟩
              · cases leftChain2.start_none
                exact leftChain1
              · cases left1 <;> rfl
          obtain ⟨whole, last, finished, copied⟩ := uniteRest_returns junk copied leftChain
          obtain ⟨header, trail⟩ := copied.trail
          obtain ⟨items, chain, elems⟩ := trail.close
          refine ⟨snodes.length, setNext whole last none, ?_, ?_, fun address allocated => ?_⟩
          · refine walked.of_both finished fun fuel united finished => ?_
            simp only [uniteset, malloc, read1, read2, united, finished]
          · cases chain with
            | @cons _ _ next _ items cell rest =>
                obtain ⟨rfl, shown⟩ := List.cons.inj elems
                exact ⟨_, items, .cons cell rest, by rw [united, values, shown, List.nil_append]⟩
          · have fresh := copied.fresh
            rw [getElem?_setNext_ne _ (by omega)]
            exact copied.kept address allocated

/-- Any composition of `createset` and `uniteset`: the sets in `pool` were made in
a memory that held other things before. -/
inductive Built : Snodes → List Nat → Prop
  | start (snodes : Snodes) : Built snodes []
  | createset {snodes later : Snodes} {pool : List Nat} {s : Nat} (built : Built snodes pool)
      (arguments : List Token)
      (returned : Returns (fun fuel => createset junk fuel snodes (arguments ++ [.nulsym]))
        (s, later)) : Built later (s :: pool)
  | uniteset {snodes later : Snodes} {pool : List Nat} {s s1 s2 : Nat} (built : Built snodes pool)
      (left : s1 ∈ pool) (right : s2 ∈ pool)
      (returned : Returns (fun fuel => uniteset junk fuel snodes s1 s2) (s, later)) :
      Built later (s :: pool)

variable {junk} in
/-- Every set of the pool is sorted, however the calls were composed. -/
theorem Built.isSet {snodes : Snodes} {pool : List Nat} (built : Built junk snodes pool) :
    ∀ s ∈ pool, ∃ set : Symset, IsSet snodes s set.elems := by
  induction built with
  | start snodes => simp
  | @createset snodes later pool s _ arguments returned ih =>
      obtain ⟨s', later', returned', made⟩ :=
        createset_returns junk snodes (arguments ++ [.nulsym]) (by simp)
      cases returned.unique returned'
      intro set inside
      rcases List.mem_cons.mp inside with rfl | inside
      · exact ⟨_, made.isSet⟩
      · obtain ⟨old, holds⟩ := ih set inside
        exact ⟨old, holds.keep made.2⟩
  | @uniteset snodes later pool s s1 s2 _ left right returned ih =>
      obtain ⟨set1, holds1⟩ := ih s1 left
      obtain ⟨set2, holds2⟩ := ih s2 right
      obtain ⟨s', later', returned', made, kept⟩ := uniteset_returns junk holds1 holds2
      cases returned.unique returned'
      intro set inside
      rcases List.mem_cons.mp inside with rfl | inside
      · exact ⟨Pl0.uniteset set1 set2, made⟩
      · obtain ⟨old, holds⟩ := ih set inside
        exact ⟨old, holds.keep kept⟩

variable {junk} in
/-- The algebra of the token sets, over whatever `createset` and `uniteset` built. -/
theorem tokenSets_algebra {snodes : Snodes} {pool : List Nat} (built : Built junk snodes pool) :
    (∀ s ∈ pool, ∃ elems, IsSet snodes s elems ∧
      elems.Pairwise fun a b => a.toNat ≤ b.toNat) ∧
    (∀ arguments, ∃ s later,
      Returns (fun fuel => createset junk fuel snodes (arguments ++ [.nulsym])) (s, later) ∧
      ∀ elem, Returns (fun fuel => inset fuel later elem s)
        (decide (elem ∈ arguments.takeWhile (· ≠ .nulsym)))) ∧
    ∀ s1 ∈ pool, ∀ s2 ∈ pool, ∃ s later,
      Returns (fun fuel => uniteset junk fuel snodes s1 s2) (s, later) ∧
      (∀ elem, ∃ in1 in2, Returns (fun fuel => inset fuel snodes elem s1) in1 ∧
        Returns (fun fuel => inset fuel snodes elem s2) in2 ∧
        Returns (fun fuel => inset fuel later elem s) (in1 || in2)) ∧
      ∀ address < snodes.length, later[address]? = snodes[address]? := by
  refine ⟨fun s inside => ?_, fun arguments => ?_, fun s1 left s2 right => ?_⟩
  · obtain ⟨set, holds⟩ := built.isSet s inside
    exact ⟨set.elems, holds, set.sorted⟩
  · obtain ⟨s, later, returned, made⟩ :=
      createset_returns junk snodes (arguments ++ [.nulsym]) (by simp)
    refine ⟨s, later, returned, fun elem => ?_⟩
    have same : insetList elem
        (Pl0.createset ((arguments ++ [Token.nulsym]).takeWhile (· ≠ .nulsym))).elems =
          decide (elem ∈ arguments.takeWhile (· ≠ .nulsym)) := by
      rw [takeWhile_terminated]
      exact inset_createset elem _
    rw [← same]
    exact inset_returns elem made.isSet
  · obtain ⟨set1, holds1⟩ := built.isSet s1 left
    obtain ⟨set2, holds2⟩ := built.isSet s2 right
    obtain ⟨s, later, returned, made, kept⟩ := uniteset_returns junk holds1 holds2
    refine ⟨s, later, returned, fun elem => ⟨_, _, inset_returns elem holds1,
      inset_returns elem holds2, ?_⟩, kept⟩
    have same := inset_uniteset elem set1 set2
    exact same ▸ inset_returns elem made

end

/-- The memory after `createset(plussym, multsym, plussym, nulsym)`. -/
def additiveSnodes : Snodes :=
  [⟨.unset, some 3⟩, ⟨.plussym, some 2⟩, ⟨.multsym, none⟩, ⟨.plussym, some 1⟩]

theorem additiveSnodes_built : Built (fun _ => ⟨.unset, none⟩) additiveSnodes [0] := by
  refine .createset (.start []) [.plussym, .multsym, .plussym] ⟨2, fun fuel enough => ?_⟩
  obtain ⟨more, rfl⟩ := Nat.exists_eq_add_of_le' enough
  rfl

/-- The set of `plussym`, `multsym` and `plussym` again, united with itself. -/
theorem tokenSets_algebra_additive :
    Built (fun _ => ⟨.unset, none⟩) additiveSnodes [0] ∧
    (∃ elems, IsSet additiveSnodes 0 elems ∧ elems.Pairwise fun a b => a.toNat ≤ b.toNat) ∧
    ∃ s later,
      Returns (fun fuel => uniteset (fun _ => ⟨.unset, none⟩) fuel additiveSnodes 0 0) (s, later) ∧
      ∀ address < 4, later[address]? = additiveSnodes[address]? := by
  obtain ⟨sorted, -, united⟩ := tokenSets_algebra additiveSnodes_built
  obtain ⟨s, later, returned, -, kept⟩ := united 0 (by simp) 0 (by simp)
  exact ⟨additiveSnodes_built, sorted 0 (by simp), s, later, returned, kept⟩

end Snodes

end Pl0
