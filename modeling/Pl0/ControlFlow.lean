import Mathlib.Data.List.Basic
import Mathlib.Logic.Relation

set_option autoImplicit false

/- Control flow of code that lies at consecutive indexes. The instructions are
arbitrary: `targets` lists where control can go from an instruction at an index,
and `none` stands for a return. -/

namespace ControlFlow

variable {ι : Type}

/-- `ir` is the instruction at index `i` of code that starts at `start`. -/
def At (code : List ι) (start i : Int) (ir : ι) : Prop :=
  ∃ k : Nat, i = start + k ∧ code[k]? = some ir

theorem At.bounds {code : List ι} {start i : Int} {ir : ι} (present : At code start i ir) :
    start ≤ i ∧ i < start + code.length := by
  obtain ⟨k, rfl, found⟩ := present
  have inside := (List.getElem?_eq_some_iff.mp found).1
  omega

theorem At.member {code : List ι} {start i : Int} {ir : ι} (present : At code start i ir) :
    ir ∈ code := by
  obtain ⟨k, -, found⟩ := present
  exact List.mem_of_getElem? found

theorem exists_at {code : List ι} {start i : Int} (low : start ≤ i)
    (high : i < start + code.length) : ∃ ir, At code start i ir := by
  have inside : (i - start).toNat < code.length := by omega
  refine ⟨code[(i - start).toNat], (i - start).toNat, by omega, ?_⟩
  exact List.getElem?_eq_getElem inside

theorem at_append {a b : List ι} {start i : Int} {ir : ι} :
    At (a ++ b) start i ir ↔ At a start i ir ∨ At b (start + a.length) i ir := by
  constructor
  · rintro ⟨k, rfl, found⟩
    by_cases inLeft : k < a.length
    · rw [List.getElem?_append_left inLeft] at found
      exact .inl ⟨k, rfl, found⟩
    · rw [List.getElem?_append_right (by omega)] at found
      exact .inr ⟨k - a.length, by omega, found⟩
  · rintro (⟨k, rfl, found⟩ | ⟨k, rfl, found⟩)
    · have inside := (List.getElem?_eq_some_iff.mp found).1
      exact ⟨k, rfl, by rw [List.getElem?_append_left inside]; exact found⟩
    · refine ⟨a.length + k, by omega, ?_⟩
      rw [List.getElem?_append_right (by omega), Nat.add_sub_cancel_left]
      exact found

theorem at_singleton {x ir : ι} {start i : Int} : At [x] start i ir ↔ i = start ∧ ir = x := by
  constructor
  · rintro ⟨k, rfl, found⟩
    match k with
    | 0 =>
        simp only [List.getElem?_cons_zero, Option.some.injEq] at found
        exact ⟨by omega, found.symm⟩
    | k + 1 => simp at found
  · rintro ⟨rfl, rfl⟩
    exact ⟨0, by omega, rfl⟩

theorem at_map {f : ι → ι} {code : List ι} {start i : Int} {ir : ι} :
    At (code.map f) start i ir ↔ ∃ source, At code start i source ∧ ir = f source := by
  constructor
  · rintro ⟨k, rfl, found⟩
    rw [List.getElem?_map] at found
    obtain ⟨source, present, rfl⟩ := Option.map_eq_some_iff.mp found
    exact ⟨source, ⟨k, rfl, present⟩, rfl⟩
  · rintro ⟨source, ⟨k, rfl, found⟩, rfl⟩
    exact ⟨k, rfl, by rw [List.getElem?_map, found]; rfl⟩

theorem at_shift {code : List ι} {start i d : Int} {ir : ι} :
    At code (start + d) (i + d) ir ↔ At code start i ir := by
  constructor
  · rintro ⟨k, place, found⟩
    exact ⟨k, by omega, found⟩
  · rintro ⟨k, rfl, found⟩
    exact ⟨k, by omega, found⟩

theorem At.unique {code : List ι} {start i : Int} {ir ir' : ι} (first : At code start i ir)
    (second : At code start i ir') : ir = ir' := by
  obtain ⟨k, rfl, found⟩ := first
  obtain ⟨k', same, found'⟩ := second
  obtain rfl : k = k' := by omega
  rw [found] at found'
  exact Option.some.inj found'

variable (targets : ι → Int → List (Option Int))

/-- Control can go from index `i` of the code to `j`. -/
def Flows (code : List ι) (start i : Int) (j : Option Int) : Prop :=
  ∃ ir, At code start i ir ∧ j ∈ targets ir i

/-- There is a control path from `i` to `j` through the code; `j` need not be in it. -/
def Reaches (code : List ι) (start : Int) : Int → Int → Prop :=
  Relation.ReflTransGen fun i j => Flows targets code start i (some j)

/-- No instruction jumps to an index outside `low` .. `high`. -/
def JumpsWithin (low high : Int) (code : List ι) (start : Int) : Prop :=
  ∀ i j, Flows targets code start i (some j) → low ≤ j ∧ j ≤ high

/-- No instruction jumps out of the code, except to the index right behind it. -/
def Closed (code : List ι) (start : Int) : Prop :=
  JumpsWithin targets start (start + code.length) code start

/-- A path leads through the code. -/
def Passes (code : List ι) (start : Int) : Prop :=
  Reaches targets code start start (start + code.length)

/-- No instruction of the code returns. -/
def NoReturn (code : List ι) : Prop :=
  ∀ ir ∈ code, ∀ i, none ∉ targets ir i

/-- Every path from the start stays inside the code. -/
def Confined (code : List ι) (start : Int) : Prop :=
  ∀ i, Reaches targets code start start i → start ≤ i ∧ i < start + code.length

/-- Straight-line code. -/
def Straight (code : List ι) : Prop :=
  ∀ ir ∈ code, ∀ i, targets ir i = [some (i + 1)]

variable {targets}

theorem Flows.mono {a b : List ι} {start start' i : Int} {j : Option Int}
    (sub : ∀ i ir, At a start i ir → At b start' i ir) (flows : Flows targets a start i j) :
    Flows targets b start' i j := by
  obtain ⟨ir, present, target⟩ := flows
  exact ⟨ir, sub i ir present, target⟩

theorem Flows.bounds {code : List ι} {start i : Int} {j : Option Int}
    (flows : Flows targets code start i j) : start ≤ i ∧ i < start + code.length := by
  obtain ⟨ir, present, -⟩ := flows
  exact present.bounds

theorem flows_append {a b : List ι} {start i : Int} {j : Option Int} :
    Flows targets (a ++ b) start i j ↔
      Flows targets a start i j ∨ Flows targets b (start + a.length) i j := by
  unfold Flows
  simp only [at_append, or_and_right, exists_or]

theorem flows_singleton {x : ι} {start i : Int} {j : Option Int} :
    Flows targets [x] start i j ↔ i = start ∧ j ∈ targets x start := by
  unfold Flows
  simp only [at_singleton]
  constructor
  · rintro ⟨ir, ⟨rfl, rfl⟩, target⟩
    exact ⟨rfl, target⟩
  · rintro ⟨rfl, target⟩
    exact ⟨x, ⟨rfl, rfl⟩, target⟩

theorem not_flows_nil {start i : Int} {j : Option Int} : ¬ Flows targets [] start i j := by
  rintro ⟨ir, present, -⟩
  exact absurd present.member List.not_mem_nil

theorem Reaches.mono {a b : List ι} {start start' i j : Int}
    (sub : ∀ i ir, At a start i ir → At b start' i ir) (reaches : Reaches targets a start i j) :
    Reaches targets b start' i j := by
  induction reaches with
  | refl => exact .refl
  | tail _ flows ih => exact ih.tail (flows.mono sub)

theorem Reaches.left {a : List ι} {start i j : Int} (reaches : Reaches targets a start i j)
    (b : List ι) : Reaches targets (a ++ b) start i j :=
  reaches.mono fun _ _ present => at_append.mpr (.inl present)

theorem Reaches.right {b : List ι} {start i j : Int} (a : List ι)
    (reaches : Reaches targets b (start + a.length) i j) : Reaches targets (a ++ b) start i j :=
  reaches.mono fun _ _ present => at_append.mpr (.inr present)

theorem JumpsWithin.mono {low low' high high' start : Int} {code : List ι}
    (within : JumpsWithin targets low high code start) (down : low' ≤ low) (up : high ≤ high') :
    JumpsWithin targets low' high' code start := by
  intro i j flows
  have bounds := within i j flows
  omega

theorem JumpsWithin.append {low high start : Int} {a b : List ι}
    (first : JumpsWithin targets low high a start)
    (second : JumpsWithin targets low high b (start + a.length)) :
    JumpsWithin targets low high (a ++ b) start := by
  intro i j flows
  rcases flows_append.mp flows with inLeft | inRight
  · exact first i j inLeft
  · exact second i j inRight

theorem Closed.nil {start : Int} : Closed targets ([] : List ι) start :=
  fun _ _ flows => absurd flows not_flows_nil

theorem Closed.append {a b : List ι} {start : Int} (first : Closed targets a start)
    (second : Closed targets b (start + a.length)) : Closed targets (a ++ b) start := by
  apply JumpsWithin.append
  · exact first.mono (by omega) (by simp only [List.length_append]; omega)
  · exact second.mono (by omega) (by simp only [List.length_append]; omega)

theorem Passes.nil {start : Int} : Passes targets ([] : List ι) start := by
  unfold Passes
  rw [List.length_nil, Int.natCast_zero, Int.add_zero]
  exact .refl

theorem Passes.append {a b : List ι} {start : Int} (first : Passes targets a start)
    (second : Passes targets b (start + a.length)) : Passes targets (a ++ b) start := by
  have through := (Reaches.left first b).trans (Reaches.right a second)
  unfold Passes
  rw [List.length_append, Int.natCast_add, ← Int.add_assoc]
  exact through

theorem NoReturn.append {a b : List ι} (first : NoReturn targets a)
    (second : NoReturn targets b) : NoReturn targets (a ++ b) := by
  intro ir member
  rcases List.mem_append.mp member with inLeft | inRight
  · exact first ir inLeft
  · exact second ir inRight

theorem Straight.append {a b : List ι} (first : Straight targets a) (second : Straight targets b) :
    Straight targets (a ++ b) := by
  intro ir member
  rcases List.mem_append.mp member with inLeft | inRight
  · exact first ir inLeft
  · exact second ir inRight

theorem Straight.noReturn {code : List ι} (straight : Straight targets code) :
    NoReturn targets code := by
  intro ir member i
  rw [straight ir member i]
  simp

theorem Straight.closed {code : List ι} (straight : Straight targets code) (start : Int) :
    Closed targets code start := by
  rintro i j ⟨ir, present, target⟩
  have bounds := present.bounds
  rw [straight ir present.member i, List.mem_singleton, Option.some.injEq] at target
  omega

theorem Straight.passes {code : List ι} (straight : Straight targets code) (start : Int) :
    Passes targets code start := by
  induction code generalizing start with
  | nil => exact .nil
  | cons ir code ih =>
      have rest := ih (fun ir member => straight ir (List.mem_cons_of_mem _ member)) (start + 1)
      have one : Passes targets [ir] start := by
        refine Relation.ReflTransGen.single (flows_singleton.mpr ⟨rfl, ?_⟩)
        rw [straight ir List.mem_cons_self start]
        simp
      exact Passes.append (a := [ir]) one rest

/-- A path that starts inside closed code does not leave it before its end. -/
theorem Closed.reaches {code : List ι} {start i j : Int} (closed : Closed targets code start)
    (reaches : Reaches targets code start i j) (low : start ≤ i) (high : i ≤ start + code.length) :
    start ≤ j ∧ j ≤ start + code.length := by
  induction reaches with
  | refl => exact ⟨low, high⟩
  | tail _ flows _ => exact closed _ _ flows

/-- A set of indexes of the code that holds the start and that no flow leaves. -/
theorem confined_of_invariant {code : List ι} {start : Int} {S : Int → Prop}
    (first : S start) (bounds : ∀ i, S i → start ≤ i ∧ i < start + code.length)
    (step : ∀ i j, S i → Flows targets code start i (some j) → S j) :
    Confined targets code start := by
  intro i reaches
  apply bounds
  induction reaches with
  | refl => exact first
  | tail _ flows ih => exact step _ _ ih flows

theorem Passes.not_confined {code : List ι} {start : Int} (passes : Passes targets code start) :
    ¬ Confined targets code start := by
  intro confined
  have bounds := confined _ passes
  omega

/-- Closed code in front of a return. -/
theorem Closed.confined_return {a : List ι} {x : ι} {start : Int} (closed : Closed targets a start)
    (returns : ∀ i, targets x i = [none]) : Confined targets (a ++ [x]) start := by
  have length : (a ++ [x]).length = a.length + 1 := by simp
  apply confined_of_invariant (S := fun i => start ≤ i ∧ i < start + (a ++ [x]).length)
  · omega
  · exact fun _ inside => inside
  · intro i j _ flows
    rcases flows_append.mp flows with within | last
    · have bounds := closed i j within
      omega
    · obtain ⟨-, target⟩ := flows_singleton.mp last
      rw [returns, List.mem_singleton] at target
      cases target

/-- Straight-line code in front of closed code. -/
theorem Straight.confined_append {a b : List ι} {start : Int} (straight : Straight targets a)
    (closed : Closed targets b (start + a.length)) :
    Confined targets (a ++ b) start ↔ Confined targets b (start + a.length) := by
  constructor
  · intro confined i reaches
    have through := (Reaches.left (straight.passes start) b).trans (Reaches.right a reaches)
    have bounds := confined i through
    have above := closed.reaches reaches (Int.le_refl _) (by omega)
    rw [List.length_append] at bounds
    omega
  · intro confined
    apply confined_of_invariant (S := fun i => (start ≤ i ∧ i < start + a.length) ∨
      Reaches targets b (start + a.length) (start + a.length) i)
    · by_cases empty : a.length = 0
      · right
        have same : start + a.length = start := by omega
        rw [same]
        exact .refl
      · left
        omega
    · intro i inside
      rw [List.length_append]
      rcases inside with inA | inB
      · omega
      · have bounds := confined i inB
        omega
    · intro i j inside flows
      rcases flows_append.mp flows with inA | inB
      · have bounds := straight.closed start i j inA
        by_cases last : j = start + a.length
        · rw [last]
          exact .inr .refl
        · left
          omega
      · have bounds := inB.bounds
        rcases inside with before | reaches
        · omega
        · exact .inr (reaches.tail inB)

/-- A segment of a program that no path leaves is left by no path of the program. -/
theorem confined_segment {program code : List ι} {start : Int}
    (segment : ∀ i ir, At code start i ir → At program 0 i ir) :
    (∀ i, Reaches targets program 0 start i → start ≤ i ∧ i < start + code.length) ↔
      Confined targets code start := by
  constructor
  · intro stays i reaches
    exact stays i (reaches.mono segment)
  · intro confined i reaches
    have inside : Reaches targets code start start i := by
      induction reaches with
      | refl => exact .refl
      | tail _ flows ih =>
          have bounds := confined _ ih
          obtain ⟨ir, present, target⟩ := flows
          obtain ⟨own, ownPresent⟩ := exists_at bounds.1 bounds.2
          obtain rfl := present.unique (segment _ _ ownPresent)
          exact ih.tail ⟨ir, ownPresent, target⟩
    exact confined i inside

section Relocate

/- `relocate d` is an instruction that was written for index 0 and now lies at `d`. -/
variable {relocate : Int → ι → ι}

theorem flows_relocate
    (moves : ∀ d ir i, targets (relocate d ir) (i + d) = (targets ir i).map (Option.map (· + d)))
    {code : List ι} {start i d : Int} {j : Option Int} :
    Flows targets (code.map (relocate d)) (start + d) (i + d) (j.map (· + d)) ↔
      Flows targets code start i j := by
  have cancel : Function.Injective (Option.map (· + d) : Option Int → Option Int) :=
    Option.map_injective fun a b same => by simpa using same
  constructor
  · rintro ⟨ir, present, target⟩
    obtain ⟨source, own, rfl⟩ := at_map.mp present
    rw [moves, List.mem_map_of_injective cancel] at target
    exact ⟨source, at_shift.mp own, target⟩
  · rintro ⟨source, present, target⟩
    refine ⟨relocate d source, at_map.mpr ⟨source, at_shift.mpr present, rfl⟩, ?_⟩
    rw [moves, List.mem_map_of_injective cancel]
    exact target

theorem reaches_relocate
    (moves : ∀ d ir i, targets (relocate d ir) (i + d) = (targets ir i).map (Option.map (· + d)))
    {code : List ι} {start i j d : Int} :
    Reaches targets (code.map (relocate d)) (start + d) (i + d) (j + d) ↔
      Reaches targets code start i j := by
  constructor
  · intro reaches
    generalize target : j + d = j' at reaches
    induction reaches generalizing j with
    | refl =>
        obtain rfl : i = j := by omega
        exact .refl
    | @tail m j' before flows ih =>
        subst target
        have first := ih (show (m - d) + d = m by omega)
        have source : Flows targets code start (m - d) (some j) := by
          rw [← flows_relocate moves, Int.sub_add_cancel]
          exact flows
        exact first.tail source
  · intro reaches
    induction reaches with
    | refl => exact .refl
    | tail _ flows ih => exact ih.tail ((flows_relocate moves).mpr flows)

theorem confined_relocate
    (moves : ∀ d ir i, targets (relocate d ir) (i + d) = (targets ir i).map (Option.map (· + d)))
    {code : List ι} {start d : Int} :
    Confined targets (code.map (relocate d)) (start + d) ↔ Confined targets code start := by
  constructor
  · intro confined i reaches
    have bounds := confined (i + d) ((reaches_relocate moves).mpr reaches)
    rw [List.length_map] at bounds
    omega
  · intro confined i reaches
    have whole : (i - d) + d = i := by omega
    rw [← whole, reaches_relocate moves] at reaches
    have bounds := confined _ reaches
    rw [List.length_map]
    omega

end Relocate

end ControlFlow
