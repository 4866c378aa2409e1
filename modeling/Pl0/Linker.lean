import Pl0.GenCode

set_option autoImplicit false

namespace Pl0

/-- An instruction of a code set, whose indexes start at 0, in a program where they
start at `d`. -/
def relocate (d : Int) (ir : Instruction) : Instruction :=
  if ir.op = Opcode.jmp.toInt ∨ ir.op = Opcode.jpc.toInt then { ir with m := ir.m + d } else ir

theorem relocate_op (d : Int) (ir : Instruction) : (relocate d ir).op = ir.op := by
  unfold relocate
  split <;> rfl

theorem relocate_plain {d : Int} {ir : Instruction}
    (plain : ir.op ≠ Opcode.jmp.toInt ∧ ir.op ≠ Opcode.jpc.toInt) : relocate d ir = ir :=
  if_neg (by rw [not_or]; exact plain)

/-- The jump at the head of the final code through which set `k` is entered. -/
def procedureJump (start : Int) : Instruction :=
  ⟨Opcode.jmp.toInt, 0, 0, start⟩

theorem generateProcedureJumps_final (code : CodeSets) (space : Nat) :
    generateProcedureJumps code FINAL_CODE space = Function.update code FINAL_CODE
      (code FINAL_CODE ++ List.replicate space (procedureJump 0)) := by
  unfold generateProcedureJumps
  induction space with
  | zero => simp
  | succ space ih =>
      rw [List.range_succ, List.foldl_append, ih, List.foldl_cons, List.foldl_nil]
      unfold generateJump appendCode
      rw [Function.update_idem, Function.update_self, List.append_assoc, List.replicate_succ']
      rfl

theorem changeM_of_lt {code : CodeSets} {set : Int} {index : Nat} {m : Int}
    (inside : index < (code set).length) : changeM code set index m =
      Function.update code set ((code set).modify index fun ir => { ir with m := m }) := by
  unfold changeM getCodeLength
  rw [if_neg (by omega), Int.toNat_natCast]

/-- What the inner loop of `prepareMcode` does with one instruction, when the jump of
the set is in place. -/
theorem moveInstruction_final {code : CodeSets} {i : Nat} {ir : Instruction} {start : Int}
    (jump : (code FINAL_CODE)[i]? = some (procedureJump start)) :
    moveInstruction i code ir = Function.update code FINAL_CODE
      (code FINAL_CODE ++ [relocate (start + 1) ir]) := by
  have inside := (List.getElem?_eq_some_iff.mp jump).1
  have looked : ((code FINAL_CODE) ++ [ir]).getD i ⟨0, 0, 0, 0⟩ = procedureJump start := by
    rw [List.getD_eq_getElem?_getD, List.getElem?_append_left inside, jump]
    rfl
  unfold moveInstruction appendCode relocate
  split
  · have last : getCodeLength (Function.update code FINAL_CODE (code FINAL_CODE ++ [ir])) FINAL_CODE
        - 1 = (code FINAL_CODE).length := by
      unfold getCodeLength
      rw [Function.update_self, List.length_append, List.length_singleton]
      omega
    simp only [Int.toNat_natCast]
    rw [last, changeM_of_lt (by simp), Function.update_self, Function.update_idem, looked]
    rw [modify_length_append, Int.add_assoc]
    rfl
  · rfl

theorem moveInstructions_final {i : Nat} {start : Int} (rows : List Instruction) (code : CodeSets)
    (jump : (code FINAL_CODE)[i]? = some (procedureJump start)) :
    rows.foldl (moveInstruction i) code = Function.update code FINAL_CODE
      (code FINAL_CODE ++ rows.map (relocate (start + 1))) := by
  induction rows generalizing code with
  | nil => rw [List.map_nil, List.append_nil, Function.update_eq_self]; rfl
  | cons ir rows ih =>
      have inside := (List.getElem?_eq_some_iff.mp jump).1
      rw [List.foldl_cons, moveInstruction_final jump, ih]
      · rw [Function.update_self, Function.update_idem, List.append_assoc]
        rfl
      · rw [Function.update_self, List.getElem?_append_left inside]
        exact jump

theorem moveSet_final {code : CodeSets} {i : Nat} {m : Int}
    (jump : (code FINAL_CODE)[i]? = some (procedureJump m)) :
    moveSet code i = Function.update code FINAL_CODE
      ((code FINAL_CODE).set i (procedureJump (code FINAL_CODE).length) ++
        (code i).map (relocate ((code FINAL_CODE).length + 1))) := by
  have inside := (List.getElem?_eq_some_iff.mp jump).1
  have changed : changeM code FINAL_CODE i (getCodeLength code FINAL_CODE) =
      Function.update code FINAL_CODE
        ((code FINAL_CODE).set i (procedureJump (code FINAL_CODE).length)) := by
    rw [changeM_of_lt inside]
    congr 1
    apply List.ext_getElem?
    intro j
    rw [List.getElem?_modify, List.getElem?_set]
    by_cases same : i = j
    · subst same
      rw [jump, if_pos rfl, if_pos inside, Option.map_eq_map, Option.map_some, if_pos rfl]
      rfl
    · rw [if_neg same]
      simp only [same, if_false, Option.map_eq_map, Option.map_id']
  unfold moveSet
  rw [changed, moveInstructions_final]
  · rw [Function.update_self, Function.update_idem]
  · rw [Function.update_self, List.getElem?_set, if_pos rfl, if_pos inside]

/-- Set `k` lies at `start` of the program, and the jump at `k` leads there. -/
structure Placed (code : CodeSets) (final : List Instruction) (k start : Nat) : Prop where
  jump : final[k]? = some (procedureJump start)
  rows : ∀ j ir, (code k)[j]? = some ir → final[start + j]? = some (relocate (start + 1) ir)

/-- The program after the sets from `i` on were moved. -/
structure Linking (code moved : CodeSets) (sets i : Nat) : Prop where
  others : ∀ j, j ≠ FINAL_CODE → moved j = code j
  enough : sets ≤ (moved FINAL_CODE).length
  waiting : ∀ k < i, (moved FINAL_CODE)[k]? = some (procedureJump 0)
  placed : ∀ k, i ≤ k → k < sets → ∃ start, sets ≤ start ∧
    Placed code (moved FINAL_CODE) k start

theorem Linking.step {code moved : CodeSets} {sets i : Nat}
    (linking : Linking code moved sets (i + 1))
    (inside : i < sets) : Linking code (moveSet moved i) sets i := by
  have jump := linking.waiting i (Nat.lt_succ_self i)
  have notFinal : (i : Int) ≠ -1 := by omega
  have enough := linking.enough
  have row : (moveSet moved i) FINAL_CODE =
      (moved FINAL_CODE).set i (procedureJump (moved FINAL_CODE).length) ++
        (code i).map (relocate ((moved FINAL_CODE).length + 1)) := by
    rw [moveSet_final jump, Function.update_self, linking.others i notFinal]
  have early : ∀ j, j ≠ i → ∀ ir, (moved FINAL_CODE)[j]? = some ir →
      ((moveSet moved i) FINAL_CODE)[j]? = some ir := by
    intro j different ir found
    have below := (List.getElem?_eq_some_iff.mp found).1
    rw [row, List.getElem?_append_left (by rw [List.length_set]; exact below),
      List.getElem?_set_ne (Ne.symm different)]
    exact found
  refine ⟨?_, ?_, ?_, ?_⟩
  · intro j different
    rw [moveSet_final jump, Function.update_of_ne different]
    exact linking.others j different
  · rw [row, List.length_append, List.length_set]
    omega
  · intro k below
    exact early k (by omega) _ (linking.waiting k (by omega))
  · intro k from_ below
    by_cases same : k = i
    · subst same
      refine ⟨(moved FINAL_CODE).length, enough, ?_, ?_⟩
      · rw [row, List.getElem?_append_left (by rw [List.length_set]; omega),
          List.getElem?_set_self (by omega)]
      · intro j ir found
        rw [row, List.getElem?_append_right (by rw [List.length_set]; omega), List.length_set,
          Nat.add_sub_cancel_left, List.getElem?_map, found]
        rfl
    · obtain ⟨start, behind, placed⟩ := linking.placed k (by omega) below
      refine ⟨start, behind, early k same _ placed.jump, ?_⟩
      intro j ir found
      exact early (start + j) (by omega) _ (placed.rows j ir found)

theorem Linking.loop {code : CodeSets} {sets : Nat} (i : Nat) (moved : CodeSets) (inside : i ≤ sets)
    (linking : Linking code moved sets i) :
    Linking code
      ((List.range i).reverse.foldl (fun code (i : Nat) => moveSet code i) moved) sets 0 := by
  induction i generalizing moved with
  | zero => exact linking
  | succ i ih =>
      rw [List.range_succ, List.reverse_append, List.reverse_singleton, List.singleton_append,
        List.foldl_cons]
      exact ih _ (by omega) (linking.step (by omega))

theorem usedSets_eq {code : CodeSets} {sets : Nat} (few : sets < maxCodeSets)
    (used : ∀ k < sets, code k ≠ []) (free : code sets = []) : usedSets code = sets := by
  have found : (List.range maxCodeSets).find? (fun (i : Nat) => getCodeLength code i = 0) =
      some sets := by
    rw [List.find?_range_eq_some]
    refine ⟨?_, List.mem_range.mpr few, ?_⟩
    · unfold getCodeLength
      rw [free]
      rfl
    · intro k below
      have length := List.length_pos_iff.mpr (used k below)
      unfold getCodeLength
      simp only [Bool.not_eq_true', decide_eq_false_iff_not]
      omega
  unfold usedSets
  rw [found]
  rfl

/-- `prepareMcode` links the sets in use: each lies in the final code as a whole,
relocated, and the jump that bears its number leads to it. -/
theorem prepareMcode_placed {code : CodeSets} {sets : Nat} (few : sets < maxCodeSets)
    (used : ∀ k < sets, code k ≠ []) (free : code sets = []) (fresh : code FINAL_CODE = [])
    {k : Nat} (inUse : k < sets) : ∃ start, sets ≤ start ∧
      Placed code (prepareMcode code FINAL_CODE) k start := by
  have count := usedSets_eq few used free
  have jumps : generateProcedureJumps code FINAL_CODE sets =
      Function.update code FINAL_CODE (List.replicate sets (procedureJump 0)) := by
    rw [generateProcedureJumps_final, fresh, List.nil_append]
  have first : Linking code (generateProcedureJumps code FINAL_CODE sets) sets sets := by
    rw [jumps]
    refine ⟨?_, ?_, ?_, ?_⟩
    · intro j different
      rw [Function.update_of_ne different]
    · exact Nat.le_of_eq (by rw [Function.update_self, List.length_replicate])
    · intro j below
      rw [Function.update_self, List.getElem?_replicate, if_pos below]
    · intro j from_ below
      omega
  unfold prepareMcode
  rw [count, if_neg (by omega)]
  exact (first.loop sets _ (Nat.le_refl sets)).placed k (Nat.zero_le k) inUse

end Pl0
