import Mathlib.Data.List.Perm.Subperm
import Mathlib.Data.List.Nodup
import Mathlib.Data.List.Range

set_option autoImplicit false

/- Singly linked lists in a memory of cells. The address of a cell is its place
in the memory, a null pointer is `none`, and `malloc` hands out the next address.
Nothing here depends on what the cells hold. -/

namespace LinkedCells

/-- A loop is bounded by a number of rounds: with enough of them, the call comes
to this result. -/
def Returns {β : Type} (call : Nat → Option β) (result : β) : Prop :=
  ∃ rounds, ∀ fuel, rounds ≤ fuel → call fuel = some result

namespace Returns

variable {β γ : Type} {call next : Nat → Option β} {result : β}

theorem unique {other : β} (left : Returns call result) (right : Returns call other) :
    result = other := by
  obtain ⟨rounds, returned⟩ := left
  obtain ⟨rounds', returned'⟩ := right
  have same := (returned (max rounds rounds') (Nat.le_max_left _ _)).symm.trans
    (returned' (max rounds rounds') (Nat.le_max_right _ _))
  exact Option.some.inj same

theorem of_forall (always : ∀ fuel, call fuel = some result) : Returns call result :=
  ⟨0, fun fuel _ => always fuel⟩

/-- One round, and then the rest of the loop. -/
theorem succ (rest : Returns next result) (round : ∀ fuel, call (fuel + 1) = next fuel) :
    Returns call result := by
  obtain ⟨rounds, returned⟩ := rest
  refine ⟨rounds + 1, fun fuel enough => ?_⟩
  obtain ⟨fuel, rfl⟩ : ∃ more, fuel = more + 1 := ⟨fuel - 1, by omega⟩
  rw [round, returned fuel (by omega)]

/-- One call after another. -/
theorem bind {first : Nat → Option γ} {value : γ} (before : Returns first value)
    (after : Returns next result)
    (sequence : ∀ fuel, first fuel = some value → call fuel = next fuel) :
    Returns call result := by
  obtain ⟨rounds, returned⟩ := before
  obtain ⟨rounds', returned'⟩ := after
  refine ⟨max rounds rounds', fun fuel enough => ?_⟩
  rw [sequence fuel (returned fuel (by omega)), returned' fuel (by omega)]

/-- The result of two calls that have both returned. -/
theorem of_both {δ : Type} {first : Nat → Option γ} {second : Nat → Option δ} {value : γ}
    {value' : δ} (left : Returns first value) (right : Returns second value')
    (sequence : ∀ fuel, first fuel = some value → second fuel = some value' →
      call fuel = some result) : Returns call result := by
  obtain ⟨rounds, returned⟩ := left
  obtain ⟨rounds', returned'⟩ := right
  exact ⟨max rounds rounds', fun fuel enough =>
    sequence fuel (returned fuel (by omega)) (returned' fuel (by omega))⟩

end Returns

structure Cell (α : Type) where
  value : α
  next : Option Nat
  deriving DecidableEq, Repr

variable {α : Type}

def setNext (cells : List (Cell α)) (address : Nat) (next : Option Nat) : List (Cell α) :=
  cells.modify address fun cell => { cell with next := next }

def setValue (cells : List (Cell α)) (address : Nat) (value : α) : List (Cell α) :=
  cells.modify address fun cell => { cell with value := value }

/-- Following `next` from `start` passes these addresses with these values and
comes to `stop`. -/
inductive Segment (cells : List (Cell α)) :
    Option Nat → List (Nat × α) → Option Nat → Prop
  | nil (stop : Option Nat) : Segment cells stop [] stop
  | cons {address : Nat} {value : α} {next stop : Option Nat} {items : List (Nat × α)}
      (cell : cells[address]? = some ⟨value, next⟩) (rest : Segment cells next items stop) :
      Segment cells (some address) ((address, value) :: items) stop

/-- A list that ends in a null pointer. -/
abbrev Chain (cells : List (Cell α)) (start : Option Nat) (items : List (Nat × α)) : Prop :=
  Segment cells start items none

@[simp] theorem length_setNext (cells : List (Cell α)) (address : Nat) (next : Option Nat) :
    (setNext cells address next).length = cells.length := by
  simp [setNext]

@[simp] theorem length_setValue (cells : List (Cell α)) (address : Nat) (value : α) :
    (setValue cells address value).length = cells.length := by
  simp [setValue]

theorem getElem?_setNext_ne {cells : List (Cell α)} {address other : Nat} (next : Option Nat)
    (different : other ≠ address) : (setNext cells address next)[other]? = cells[other]? := by
  simp [setNext, Ne.symm different]

theorem getElem?_setNext_self {cells : List (Cell α)} {address : Nat} {cell : Cell α}
    (next : Option Nat) (found : cells[address]? = some cell) :
    (setNext cells address next)[address]? = some ⟨cell.value, next⟩ := by
  simp [setNext, found]

theorem getElem?_setValue_ne {cells : List (Cell α)} {address other : Nat} (value : α)
    (different : other ≠ address) : (setValue cells address value)[other]? = cells[other]? := by
  simp [setValue, Ne.symm different]

theorem getElem?_setValue_self {cells : List (Cell α)} {address : Nat} {cell : Cell α}
    (value : α) (found : cells[address]? = some cell) :
    (setValue cells address value)[address]? = some ⟨value, cell.next⟩ := by
  simp [setValue, found]

/-- What `malloc` returned is the last cell. -/
theorem getElem?_malloc (cells : List (Cell α)) (cell : Cell α) :
    (cells ++ [cell])[cells.length]? = some cell := by
  simp

theorem getElem?_malloc_old {cells : List (Cell α)} {address : Nat} (cell : Cell α)
    (allocated : address < cells.length) : (cells ++ [cell])[address]? = cells[address]? :=
  List.getElem?_append_left allocated

namespace Segment

variable {cells : List (Cell α)} {start middle stop : Option Nat} {items : List (Nat × α)}

theorem start_none (chain : Chain cells start []) : start = none := by
  cases chain
  rfl

theorem append {first second : List (Nat × α)} (left : Segment cells start first middle)
    (right : Segment cells middle second stop) : Segment cells start (first ++ second) stop := by
  induction left with
  | nil _ => exact right
  | cons cell _ ih => exact .cons cell (ih right)

theorem split {first second : List (Nat × α)}
    (whole : Segment cells start (first ++ second) stop) :
    ∃ middle, Segment cells start first middle ∧ Segment cells middle second stop := by
  induction first generalizing start with
  | nil => exact ⟨start, .nil start, whole⟩
  | cons item first ih =>
      cases whole with
      | cons cell rest =>
          obtain ⟨middle, left, right⟩ := ih rest
          exact ⟨middle, .cons cell left, right⟩

/-- A segment reads its own cells only. -/
theorem congr {other : List (Cell α)} (segment : Segment cells start items stop)
    (same : ∀ item ∈ items, other[item.1]? = cells[item.1]?) :
    Segment other start items stop := by
  induction segment with
  | nil stop => exact .nil stop
  | @cons address value _ _ items cell _ ih =>
      refine .cons ((same (address, value) List.mem_cons_self).trans cell) (ih ?_)
      exact fun item inside => same item (List.mem_cons_of_mem _ inside)

theorem found (segment : Segment cells start items stop) :
    ∀ item ∈ items, ∃ next, cells[item.1]? = some ⟨item.2, next⟩ := by
  induction segment with
  | nil _ => simp
  | cons cell _ ih =>
      intro item inside
      rcases List.mem_cons.mp inside with rfl | later
      · exact ⟨_, cell⟩
      · exact ih item later

theorem allocated (segment : Segment cells start items stop) :
    ∀ item ∈ items, item.1 < cells.length := by
  intro item inside
  obtain ⟨next, cell⟩ := segment.found item inside
  exact (List.getElem?_eq_some_iff.mp cell).1

theorem malloc (segment : Segment cells start items stop) (cell : Cell α) :
    Segment (cells ++ [cell]) start items stop :=
  segment.congr fun item inside => getElem?_malloc_old cell (segment.allocated item inside)

theorem setNext_outside {address : Nat} (segment : Segment cells start items stop)
    (next : Option Nat) (outside : address ∉ items.map Prod.fst) :
    Segment (setNext cells address next) start items stop := by
  refine segment.congr fun item inside => getElem?_setNext_ne next ?_
  rintro rfl
  exact outside (List.mem_map_of_mem inside)

/-- Assigning to the last `next` of a segment moves its end. -/
theorem setNext_last {address : Nat} {value : α}
    (segment : Segment cells start (items ++ [(address, value)]) stop) (next : Option Nat)
    (outside : address ∉ items.map Prod.fst) :
    Segment (setNext cells address next) start (items ++ [(address, value)]) next := by
  obtain ⟨middle, front, back⟩ := segment.split
  cases back with
  | cons cell _ =>
      exact (front.setNext_outside next outside).append
        (.cons (getElem?_setNext_self next cell) (.nil next))

/-- A pointer heads one list only. -/
theorem unique {first second : List (Nat × α)} (left : Chain cells start first)
    (right : Chain cells start second) : first = second := by
  induction first generalizing start second with
  | nil =>
      cases left
      cases right
      rfl
  | cons item first ih =>
      cases left with
      | cons cell rest =>
          cases right with
          | cons cell' rest' =>
              rw [cell] at cell'
              cases cell'
              rw [ih rest rest']

/-- A list that comes to its end passes no cell twice. -/
theorem nodup (chain : Chain cells start items) : (items.map Prod.fst).Nodup := by
  induction items generalizing start with
  | nil => exact .nil
  | cons item items ih =>
      cases chain with
      | @cons address value next _ _ cell rest =>
          refine List.nodup_cons.mpr ⟨fun again => ?_, ih rest⟩
          obtain ⟨⟨_, value'⟩, inside, rfl⟩ := List.mem_map.mp again
          obtain ⟨front, back, rfl⟩ := List.append_of_mem inside
          obtain ⟨middle, _, back'⟩ := rest.split
          cases back' with
          | cons cell' rest' =>
              have same := unique (.cons cell rest) (.cons cell' rest')
              have lengths := congrArg List.length same
              simp at lengths
              omega

/-- A list has at most as many nodes as there are cells. -/
theorem length_le (chain : Chain cells start items) : items.length ≤ cells.length := by
  have within : items.map Prod.fst ⊆ List.range cells.length := by
    intro address inside
    obtain ⟨item, member, rfl⟩ := List.mem_map.mp inside
    exact List.mem_range.mpr (chain.allocated item member)
  simpa using (List.subperm_of_subset chain.nodup within).length_le

/-- A fresh cell is linked behind the one at `address`: `next` is what that cell
pointed to before. -/
theorem insert {address : Nat} {value : α} {front back : List (Nat × α)}
    (chain : Chain cells start (front ++ (address, value) :: back)) :
    ∃ next, cells[address]? = some ⟨value, next⟩ ∧ ∀ (junk : Cell α) (new : α),
      Chain (setNext (setNext (setValue (cells ++ [junk]) cells.length new) cells.length next)
          address (some cells.length)) start
        (front ++ (address, value) :: (cells.length, new) :: back) := by
  have apart := chain.nodup
  rw [List.map_append, List.map_cons, List.nodup_middle, List.nodup_cons, List.mem_append,
    not_or] at apart
  obtain ⟨⟨outsideFront, outsideBack⟩, -⟩ := apart
  obtain ⟨_, left, right⟩ := chain.split
  cases right with
  | @cons _ _ next _ _ cell rest =>
      refine ⟨next, cell, fun junk new => ?_⟩
      have old : address < cells.length := (List.getElem?_eq_some_iff.mp cell).1
      have kept : ∀ other < cells.length,
          (setNext (setValue (cells ++ [junk]) cells.length new) cells.length next)[other]? =
            cells[other]? := by
        intro other allocated
        rw [getElem?_setNext_ne _ (Nat.ne_of_lt allocated),
          getElem?_setValue_ne _ (Nat.ne_of_lt allocated), getElem?_malloc_old _ allocated]
      have made : (setNext (setValue (cells ++ [junk]) cells.length new) cells.length
          next)[cells.length]? = some ⟨new, next⟩ :=
        getElem?_setNext_self _ (getElem?_setValue_self new (getElem?_malloc cells junk))
      have made' : (setNext (setNext (setValue (cells ++ [junk]) cells.length new) cells.length
          next) address (some cells.length))[cells.length]? = some ⟨new, next⟩ := by
        rw [getElem?_setNext_ne _ (Nat.ne_of_gt old), made]
      have front' :=
        (left.congr fun item inside => kept _ (left.allocated item inside)).setNext_outside
        (some cells.length) outsideFront
      have back' :=
        (rest.congr fun item inside => kept _ (rest.allocated item inside)).setNext_outside
        (some cells.length) outsideBack
      exact front'.append
        (.cons (getElem?_setNext_self _ ((kept _ old).trans cell)) (.cons made' back'))

end Segment

/-- A list under construction: from `start` on, `next` passes these values, and the
last of them is in the cell at `last`, whose own `next` is still to be set. -/
def Trail (cells : List (Cell α)) (start : Nat) (values : List α) (last : Nat) : Prop :=
  ∃ front cell, Segment cells (some start) front (some last) ∧ cells[last]? = some cell ∧
    last ∉ front.map Prod.fst ∧ front.map Prod.snd ++ [cell.value] = values

namespace Trail

variable {cells : List (Cell α)} {start last : Nat} {values : List α}

theorem single {cell : Cell α} (found : cells[start]? = some cell) :
    Trail cells start [cell.value] start :=
  ⟨[], cell, .nil _, found, by simp, rfl⟩

/-- A fresh cell with a value of its own is linked behind the last one. -/
theorem push (trail : Trail cells start values last) (junk : Cell α) (value : α) :
    Trail (setValue (setNext (cells ++ [junk]) last (some cells.length)) cells.length value)
      start (values ++ [value]) cells.length := by
  obtain ⟨front, cell, segment, found, outside, rfl⟩ := trail
  have lastOld : last < cells.length := (List.getElem?_eq_some_iff.mp found).1
  have found' : (cells ++ [junk])[last]? = some cell := by
    rw [getElem?_malloc_old junk lastOld, found]
  have whole : Segment (setNext (cells ++ [junk]) last (some cells.length)) (some start)
      (front ++ [(last, cell.value)]) (some cells.length) :=
    ((segment.malloc junk).append (.cons found' (.nil cell.next))).setNext_last _ outside
  have fresh : ∀ item ∈ front ++ [(last, cell.value)], item.1 ≠ cells.length := by
    intro item inside
    rcases List.mem_append.mp inside with inside | inside
    · exact Nat.ne_of_lt (segment.allocated item inside)
    · rw [List.mem_singleton.mp inside]
      exact Nat.ne_of_lt lastOld
  have new : (setNext (cells ++ [junk]) last (some cells.length))[cells.length]? = some junk := by
    rw [getElem?_setNext_ne _ (Nat.ne_of_gt lastOld), getElem?_malloc]
  refine ⟨front ++ [(last, cell.value)], ⟨value, junk.next⟩, ?_, ?_, ?_, by simp⟩
  · exact whole.congr fun item inside => getElem?_setValue_ne value (fresh item inside)
  · exact getElem?_setValue_self value new
  · intro again
    obtain ⟨item, inside, same⟩ := List.mem_map.mp again
    exact fresh item inside same

/-- A null pointer behind the last cell ends the list. -/
theorem close (trail : Trail cells start values last) :
    ∃ items, Chain (setNext cells last none) (some start) items ∧
      items.map Prod.snd = values := by
  obtain ⟨front, cell, segment, found, outside, rfl⟩ := trail
  exact ⟨front ++ [(last, cell.value)],
    (segment.append (.cons found (.nil cell.next))).setNext_last none outside, by simp⟩

end Trail

section Freed

variable {β : Type} [DecidableEq β]

/-- `free` of a block that was freed before is undefined. -/
def freeBlock (block : β) (freed : List β) : Option (List β) :=
  if freed.contains block then none else some (freed ++ [block])

/-- To read a block that was freed is undefined. -/
def readBlock (block : β) (freed : List β) : Option Unit :=
  if freed.contains block then none else some ()

variable {block : β} {freed rest : List β}

theorem freeBlock_of_nodup (nodup : (freed ++ block :: rest).Nodup) :
    freeBlock block freed = some (freed ++ [block]) := by
  have fresh : block ∉ freed := fun again =>
    (List.nodup_append.mp nodup).2.2 block again block List.mem_cons_self rfl
  rw [freeBlock, if_neg (by simpa using fresh)]

theorem readBlock_of_nodup (nodup : (freed ++ rest).Nodup) (later : block ∈ rest) :
    readBlock block freed = some () := by
  have fresh : block ∉ freed := fun again =>
    (List.nodup_append.mp nodup).2.2 block again block later rfl
  rw [readBlock, if_neg (by simpa using fresh)]

end Freed

end LinkedCells
