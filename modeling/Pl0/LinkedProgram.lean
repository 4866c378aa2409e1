import Mathlib.Algebra.BigOperators.Intervals
import Mathlib.Algebra.Order.BigOperators.Group.Finset
import Pl0.Linker
import Pl0.VirtualMachineStep

set_option autoImplicit false

namespace Pl0

section Layout

variable (code : CodeSets) (sets : Nat)

/-- Where the segments of the sets from `i` on end: they lie behind the table of jumps, the
last set first. -/
def linkedEnd (i : Nat) : Nat :=
  sets + ∑ j ∈ Finset.Ico i sets, (code j).length

def linkedStart (i : Nat) : Nat :=
  linkedEnd code sets (i + 1)

def segment (i : Nat) : List Instruction :=
  (code i).map (relocate (linkedStart code sets i + 1))

/-- The segments of the sets from `i` on. -/
def segmentsFrom (i : Nat) : List Instruction :=
  (List.range' i (sets - i)).reverse.flatMap (segment code sets)

/-- The table of jumps, in which those below `i` wait for their targets. -/
def jumpTable (i : Nat) : List Instruction :=
  (List.range sets).map fun k => procedureJump (if k < i then 0 else linkedStart code sets k)

variable {code sets}

theorem linkedEnd_succ {i : Nat} (inside : i < sets) :
    linkedEnd code sets i = linkedStart code sets i + (code i).length := by
  unfold linkedStart linkedEnd
  rw [Finset.sum_eq_sum_Ico_succ_bot inside]
  omega

theorem linkedEnd_last : linkedEnd code sets sets = sets := by
  unfold linkedEnd
  rw [Finset.Ico_self, Finset.sum_empty, Nat.add_zero]

theorem linkedEnd_le {i j : Nat} (le : i ≤ j) : linkedEnd code sets j ≤ linkedEnd code sets i := by
  apply Nat.add_le_add_left
  exact Finset.sum_le_sum_of_subset (Finset.Ico_subset_Ico_left le)

theorem linkedEnd_behind (i : Nat) : sets ≤ linkedEnd code sets i :=
  Nat.le_add_right _ _

theorem segmentsFrom_last : segmentsFrom code sets sets = [] := by
  unfold segmentsFrom
  rw [Nat.sub_self]
  rfl

theorem segmentsFrom_succ {i : Nat} (inside : i < sets) :
    segmentsFrom code sets i = segmentsFrom code sets (i + 1) ++ segment code sets i := by
  unfold segmentsFrom
  have count : sets - i = sets - (i + 1) + 1 := by omega
  rw [count, List.range'_succ, List.reverse_cons, List.flatMap_append, List.flatMap_singleton]

theorem length_jumpTable (i : Nat) : (jumpTable code sets i).length = sets := by
  unfold jumpTable
  rw [List.length_map, List.length_range]

theorem length_segmentsFrom {i : Nat} (inside : i ≤ sets) :
    sets + (segmentsFrom code sets i).length = linkedEnd code sets i := by
  induction inside using Nat.decreasingInduction with
  | self => rw [segmentsFrom_last, linkedEnd_last]; rfl
  | of_succ k below ih =>
      have grown : (segment code sets k).length = (code k).length := List.length_map _
      rw [segmentsFrom_succ below, List.length_append, linkedEnd_succ below, grown,
        ← Nat.add_assoc, ih]
      rfl

theorem getElem?_jumpTable {i k : Nat} (inside : k < sets) :
    (jumpTable code sets i)[k]? =
      some (procedureJump (if k < i then 0 else linkedStart code sets k)) := by
  unfold jumpTable
  rw [List.getElem?_map, List.getElem?_range inside]
  rfl

/-- The jump of a set gets its target. -/
theorem jumpTable_set {i : Nat} :
    (jumpTable code sets (i + 1)).set i (procedureJump (linkedStart code sets i)) =
      jumpTable code sets i := by
  apply List.ext_getElem?
  intro k
  rw [List.getElem?_set, length_jumpTable]
  by_cases inside : k < sets
  · by_cases same : i = k
    · subst same
      rw [if_pos rfl, if_pos inside, getElem?_jumpTable inside, if_neg (Nat.lt_irrefl i)]
    · rw [if_neg same, getElem?_jumpTable inside, getElem?_jumpTable inside]
      by_cases before : k < i
      · rw [if_pos before, if_pos (by omega)]
      · rw [if_neg before, if_neg (by omega)]
  · have none : ∀ j, (jumpTable code sets j)[k]? = none := fun j =>
      List.getElem?_eq_none (by rw [length_jumpTable]; omega)
    rw [none, none]
    by_cases same : i = k
    · rw [if_pos same, if_neg (same ▸ inside)]
    · rw [if_neg same]

end Layout

section Move

variable {code : CodeSets} {sets : Nat}

/-- The final code after the sets from `i` on were moved. -/
def movedFrom (code : CodeSets) (sets i : Nat) : CodeSets :=
  Function.update code FINAL_CODE (jumpTable code sets i ++ segmentsFrom code sets i)

theorem moveSet_movedFrom {i : Nat} (inside : i < sets) :
    moveSet (movedFrom code sets (i + 1)) i = movedFrom code sets i := by
  have notFinal : (i : Int) ≠ FINAL_CODE := by
    show (i : Int) ≠ -1
    omega
  have final : movedFrom code sets (i + 1) FINAL_CODE =
      jumpTable code sets (i + 1) ++ segmentsFrom code sets (i + 1) := Function.update_self _ _ _
  have jump : (movedFrom code sets (i + 1) FINAL_CODE)[i]? = some (procedureJump 0) := by
    rw [final, List.getElem?_append_left (by rw [length_jumpTable]; exact inside),
      getElem?_jumpTable inside, if_pos (Nat.lt_succ_self i)]
  have length : (movedFrom code sets (i + 1) FINAL_CODE).length = linkedStart code sets i := by
    rw [final, List.length_append, length_jumpTable, length_segmentsFrom inside]
    rfl
  have own : movedFrom code sets (i + 1) i = code i := Function.update_of_ne notFinal _ _
  rw [moveSet_final jump, length, own, final,
    List.set_append_left _ _ (by rw [length_jumpTable]; exact inside), jumpTable_set]
  unfold movedFrom
  rw [Function.update_idem, segmentsFrom_succ inside, List.append_assoc]
  rfl

theorem moveSets_movedFrom (i : Nat) (inside : i ≤ sets) :
    (List.range i).reverse.foldl (fun code (i : Nat) => moveSet code i) (movedFrom code sets i) =
      movedFrom code sets 0 := by
  induction i with
  | zero => rfl
  | succ i ih =>
      rw [List.range_succ, List.reverse_append, List.reverse_singleton, List.singleton_append,
        List.foldl_cons, moveSet_movedFrom inside]
      exact ih (by omega)

/-- The whole final code: the jumps into the segments, and the segments. -/
theorem prepareMcode_final (few : sets < maxCodeSets) (used : ∀ k < sets, code k ≠ [])
    (free : code sets = []) (fresh : code FINAL_CODE = []) :
    prepareMcode code FINAL_CODE = jumpTable code sets 0 ++ segmentsFrom code sets 0 := by
  have count := usedSets_eq few used free
  have waiting : generateProcedureJumps code FINAL_CODE sets = movedFrom code sets sets := by
    unfold movedFrom jumpTable
    rw [generateProcedureJumps_final, fresh, segmentsFrom_last, List.nil_append, List.append_nil]
    congr 1
    apply List.ext_getElem?
    intro k
    rw [List.getElem?_replicate, List.getElem?_map]
    by_cases inside : k < sets
    · rw [if_pos inside, List.getElem?_range inside, Option.map_some, if_pos inside]
    · rw [if_neg inside, List.getElem?_eq_none (by rw [List.length_range]; omega), Option.map_none]
  unfold prepareMcode
  rw [count]
  by_cases none : sets = 0
  · subst none
    exact fresh
  · rw [if_neg none, waiting, moveSets_movedFrom sets (Nat.le_refl sets)]
    exact Function.update_self _ _ _

end Move

/-- How a program is linked. -/
structure Links (code : CodeSets) (sets : Nat) (final : List Instruction) : Prop where
  /-- The jump that bears the number of a set leads to its segment. -/
  jump : ∀ i < sets, final[i]? = some (procedureJump (linkedStart code sets i))
  /-- The segments start behind the jumps, the last set first, ... -/
  first : linkedStart code sets (sets - 1) = sets
  ordered : ∀ i j, i < j → j < sets →
    linkedStart code sets j + (code j).length ≤ linkedStart code sets i
  /-- ... and cover the rest of the program. -/
  covered : ∀ p : Nat, sets ≤ p ∧ p < final.length ↔
    ∃ i < sets, linkedStart code sets i ≤ p ∧ p < linkedStart code sets i + (code i).length
  rows : ∀ i < sets, ∀ (k : Nat) (ir : Instruction), (code i)[k]? = some ir →
    final[linkedStart code sets i + k]? = some (relocate (linkedStart code sets i + 1) ir)
  /-- A jump to the `t`-th instruction behind the INC of its set lands there. -/
  lands : ∀ i < sets, ∀ (inc : Instruction) (body : List Instruction), code i = inc :: body →
    ∀ (j : Nat) (ir : Instruction), body[j]? = some ir →
      ir.op = Opcode.jmp.toInt ∨ ir.op = Opcode.jpc.toInt →
      ∀ (t : Nat) (target : Instruction), ir.m = t → body[t]? = some target →
        final[linkedStart code sets i + 1 + j]? =
          some { ir with m := ↑(linkedStart code sets i + 1 + t) } ∧
        final[linkedStart code sets i + 1 + t]? =
          some (relocate (linkedStart code sets i + 1) target)
  /-- The turn after a CAL of set `i` takes the machine to its first instruction. -/
  called : ∀ i < sets, ∀ head : Instruction, (code i)[0]? = some head →
    ∀ (vm vm' : VirtualMachine) (r l : Int), vm.code = final →
      Fetches vm ⟨Opcode.cal.toInt, r, l, i⟩ →
      step vm = .ok vm' → ∃ vm'', step vm' = .ok vm'' ∧ vm''.pc = linkedStart code sets i ∧
        vm''.code[linkedStart code sets i]? = some (relocate (linkedStart code sets i + 1) head)

section Linked

variable {code : CodeSets} {sets : Nat}

theorem length_linked : (jumpTable code sets 0 ++ segmentsFrom code sets 0).length =
    linkedEnd code sets 0 := by
  rw [List.length_append, length_jumpTable, length_segmentsFrom (Nat.zero_le sets)]

/-- The segment of a set, and what comes before and behind it. -/
theorem segmentsFrom_split {i : Nat} (inside : i < sets) :
    ∃ behind, segmentsFrom code sets 0 =
      segmentsFrom code sets (i + 1) ++ (segment code sets i ++ behind) := by
  induction i with
  | zero => exact ⟨[], by rw [List.append_nil, segmentsFrom_succ inside]⟩
  | succ i ih =>
      obtain ⟨behind, split⟩ := ih (by omega)
      rw [segmentsFrom_succ inside, List.append_assoc] at split
      exact ⟨segment code sets i ++ behind, split⟩

theorem linked_rows {i k : Nat} {ir : Instruction} (inside : i < sets)
    (row : (code i)[k]? = some ir) :
    (jumpTable code sets 0 ++ segmentsFrom code sets 0)[linkedStart code sets i + k]? =
      some (relocate (linkedStart code sets i + 1) ir) := by
  obtain ⟨behind, split⟩ := segmentsFrom_split inside
  have before : (jumpTable code sets 0 ++ segmentsFrom code sets (i + 1)).length =
      linkedStart code sets i := by
    rw [List.length_append, length_jumpTable, length_segmentsFrom inside]
    rfl
  have below := (List.getElem?_eq_some_iff.mp row).1
  rw [split, ← List.append_assoc, List.getElem?_append_right (by rw [before]; omega), before,
    Nat.add_sub_cancel_left, List.getElem?_append_left (by unfold segment; rwa [List.length_map])]
  unfold segment
  rw [List.getElem?_map, row]
  rfl

/-- A position behind the jumps lies in the segment of one of the sets from `i` on. -/
theorem segment_covers {p i : Nat} (le : i ≤ sets) (behind : sets ≤ p)
    (before : p < linkedEnd code sets i) :
    ∃ k < sets, linkedStart code sets k ≤ p ∧ p < linkedStart code sets k + (code k).length := by
  induction le using Nat.decreasingInduction with
  | self =>
      rw [linkedEnd_last] at before
      omega
  | of_succ k below ih =>
      by_cases later : p < linkedStart code sets k
      · exact ih later
      · rw [linkedEnd_succ below] at before
        exact ⟨k, below, by omega, before⟩

/-- A jump of the table, executed. -/
theorem step_procedureJump {vm : VirtualMachine} {i start : Nat} (few : i < maxCodeSets)
    (jump : vm.code[i]? = some (procedureJump start)) (pc : vm.pc = i) :
    ∃ vm'', step vm = .ok vm'' ∧ vm''.pc = start ∧ vm''.code = vm.code := by
  have fetches : Fetches vm (procedureJump start) := by
    refine ⟨by omega, ?_, ?_⟩
    · rw [pc]
      have bound : i < 100 := few
      show (i : Int) < 500
      omega
    · rw [pc, Int.toNat_natCast]
      exact jump
  exact ⟨_, step_of_fetches fetches, rfl, rfl⟩

theorem cal_pc {vm vm' : VirtualMachine} {r l m : Int}
    (fetches : Fetches vm ⟨Opcode.cal.toInt, r, l, m⟩)
    (stepped : step vm = .ok vm') : vm'.pc = m := by
  rw [step_of_fetches fetches] at stepped
  have effect := instructionExecution_effect stepped
  have op : Opcode.ofInt? (⟨Opcode.cal.toInt, r, l, m⟩ : Instruction).op = some .cal := by rfl
  cases effect with
  | cal link op' resolved sp bp stack frameBreak frameLevel level status pc room => exact pc
  | inner plain same pc =>
      have control := plain .cal op
      cases control
  | jmp other | jpc other | sto _ _ other | inc other | rtn other =>
      rw [op] at other
      cases other

end Linked

theorem prepareMcode_links {code : CodeSets} {sets : Nat} (some_ : 1 ≤ sets)
    (few : sets < maxCodeSets)
    (used : ∀ k < sets, code k ≠ []) (free : ∀ k : Nat, sets ≤ k → k < maxCodeSets → code k = [])
    (fresh : code FINAL_CODE = []) : Links code sets (prepareMcode code FINAL_CODE) := by
  rw [prepareMcode_final few used (free sets (Nat.le_refl sets) few) fresh]
  have jump : ∀ i < sets, (jumpTable code sets 0 ++ segmentsFrom code sets 0)[i]? =
      some (procedureJump (linkedStart code sets i)) := by
    intro i inside
    rw [List.getElem?_append_left (by rw [length_jumpTable]; exact inside),
      getElem?_jumpTable inside, if_neg (Nat.not_lt_zero i)]
  refine ⟨jump, ?_, ?_, ?_, ?_, ?_, ?_⟩
  · unfold linkedStart
    rw [Nat.sub_add_cancel some_, linkedEnd_last]
  · intro i j less inside
    rw [← linkedEnd_succ inside]
    exact linkedEnd_le less
  · intro p
    rw [length_linked]
    constructor
    · rintro ⟨behind, before⟩
      exact segment_covers (Nat.zero_le sets) behind before
    · rintro ⟨i, inside, from_, before⟩
      rw [← linkedEnd_succ inside] at before
      have behind : sets ≤ linkedStart code sets i := linkedEnd_behind (i + 1)
      have last : linkedEnd code sets i ≤ linkedEnd code sets 0 := linkedEnd_le (Nat.zero_le i)
      omega
  · exact fun i inside k ir row => linked_rows inside row
  · intro i inside inc body split j ir row jumps t target lands there
    have moved : ∀ (k : Nat) (ir : Instruction), body[k]? = some ir →
        (jumpTable code sets 0 ++ segmentsFrom code sets 0)[linkedStart code sets i + 1 + k]? =
          some (relocate (linkedStart code sets i + 1) ir) := by
      intro k ir row
      have behind : (code i)[1 + k]? = some ir := by
        rw [split, Nat.add_comm]
        exact row
      rw [Nat.add_assoc]
      exact linked_rows inside behind
    refine ⟨?_, moved t target there⟩
    rw [moved j ir row]
    unfold relocate
    rw [if_pos jumps, lands]
    congr 2
    push_cast
    omega
  · intro i inside head first vm vm' r l linked fetches stepped
    have pc := cal_pc fetches stepped
    have kept := step_code stepped
    have entered : vm'.code[i]? = some (procedureJump (linkedStart code sets i)) := by
      rw [kept, linked]
      exact jump i inside
    obtain ⟨vm'', jumped, there, same⟩ := step_procedureJump (by omega) entered pc
    refine ⟨vm'', jumped, there, ?_⟩
    rw [same, kept, linked]
    exact linked_rows inside first

/-- A main set that calls set 1 and jumps over an instruction, and the set it calls. -/
def callingSets : CodeSets :=
  Function.update (Function.update (fun _ => []) 0 [⟨Opcode.inc.toInt, 0, 0, 4⟩,
    ⟨Opcode.cal.toInt, 0, 0, 1⟩, ⟨Opcode.jmp.toInt, 0, 0, 3⟩, ⟨Opcode.lit.toInt, 0, 0, 7⟩,
    ⟨Opcode.sio.toInt, 0, 0, 3⟩]) 1 [⟨Opcode.inc.toInt, 0, 0, 4⟩, ⟨Opcode.rtn.toInt, 0, 0, 0⟩]

theorem prepareMcode_links_calling : 1 ≤ 2 ∧ 2 < maxCodeSets ∧
    (∀ k < 2, callingSets (k : Nat) ≠ []) ∧
    (∀ k : Nat, 2 ≤ k → k < maxCodeSets → callingSets k = []) ∧ callingSets FINAL_CODE = [] ∧
    Links callingSets 2 (prepareMcode callingSets FINAL_CODE) := by
  have used : ∀ k < 2, callingSets (k : Nat) ≠ [] := by decide
  have free : ∀ k : Nat, 2 ≤ k → k < maxCodeSets → callingSets k = [] := by
    intro k from_ _
    have second : (k : Int) ≠ 1 := by omega
    have first : (k : Int) ≠ 0 := by omega
    unfold callingSets
    rw [Function.update_of_ne second, Function.update_of_ne first]
  exact ⟨by decide, by decide, used, free, by decide,
    prepareMcode_links (by decide) (by decide) used free (by decide)⟩

example : (prepareMcode callingSets FINAL_CODE).map (·.m) = [4, 2, 4, 0, 4, 1, 8, 7, 3] := by
  decide

end Pl0
