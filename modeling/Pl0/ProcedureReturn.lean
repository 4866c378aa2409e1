import Pl0.CodeSize

set_option autoImplicit false

namespace Pl0

open ControlFlow StateExcept

theorem targets_relocate (d : Int) (ir : Instruction) (i : Int) :
    targets (relocate d ir) (i + d) = (targets ir i).map (Option.map (· + d)) := by
  have next : i + d + 1 = i + 1 + d := by omega
  by_cases jmp : ir.op = Opcode.jmp.toInt
  · have moved : relocate d ir = { ir with m := ir.m + d } := if_pos (.inl jmp)
    unfold targets
    rw [moved, if_pos jmp, if_pos jmp]
    rfl
  · by_cases jpc : ir.op = Opcode.jpc.toInt
    · have moved : relocate d ir = { ir with m := ir.m + d } := if_pos (.inr jpc)
      unfold targets
      rw [moved, if_neg jmp, if_neg jmp, if_pos jpc, if_pos jpc, next]
      rfl
    · have kept : relocate d ir = ir := if_neg (by rw [not_or]; exact ⟨jmp, jpc⟩)
      unfold targets
      rw [kept, if_neg jmp, if_neg jmp, if_neg jpc, if_neg jpc, next]
      by_cases rtn : ir.op = Opcode.rtn.toInt
      · rw [if_pos rtn, if_pos rtn]
        rfl
      · rw [if_neg rtn, if_neg rtn]
        rfl

/-- Where a call of procedure `k` ends up: the target of the jump at index `k`. -/
def segmentStart (final : List Instruction) (k : Int) : Int :=
  (final.getD k.toNat ⟨0, 0, 0, 0⟩).m

/-- Every path of the final code that enters the segment of a code set at its first
instruction stays inside the segment; a path ends where it returns. -/
def StaysInSegment (code : CodeSets) (k : Int) : Prop :=
  let final := prepareMcode code FINAL_CODE
  ∀ i, Reaches targets final 0 (segmentStart final k) i →
    segmentStart final k ≤ i ∧ i < segmentStart final k + getCodeLength code k

theorem Placed.segmentStart {code : CodeSets} {final : List Instruction} {k start : Nat}
    (placed : Placed code final k start) : segmentStart final k = start := by
  unfold Pl0.segmentStart
  rw [Int.toNat_natCast, List.getD_eq_getElem?_getD, placed.jump]
  rfl

theorem Placed.segment {code : CodeSets} {final : List Instruction} {k start : Nat}
    (placed : Placed code final k start) (i : Int) (ir : Instruction)
    (present : At ((code k).map (relocate (start + 1))) start i ir) : At final 0 i ir := by
  obtain ⟨source, ⟨j, rfl, found⟩, rfl⟩ := at_map.mp present
  exact ⟨start + j, by omega, placed.rows j source found⟩

/-- A placed set keeps control exactly when its own code does. -/
theorem Placed.staysInSegment {code : CodeSets} {k start : Nat}
    (placed : Placed code (prepareMcode code FINAL_CODE) k start) :
    StaysInSegment code k ↔ Confined targets ((code k).map (relocate (start + 1))) start := by
  unfold StaysInSegment getCodeLength
  dsimp only
  rw [placed.segmentStart, ← confined_segment placed.segment, List.length_map]

/-- The code of a procedure's set: control gets behind the space of its variables, and
then stays exactly when it stays in its statement. -/
theorem confined_procedure (c : CodeContext) (node : StatementNode) (n space start : Int) :
    Confined targets ((instr .inc 0 0 space :: compileStatement c node n 0).map
      (relocate (start + 1))) start ↔ Confined targets (compileStatement c node n 0) 0 := by
  have inc : Straight targets [instr .inc 0 0 space] :=
    straight_instr _ (by decide) _ _ _
  have closed : Closed targets ((compileStatement c node n 0).map (relocate (start + 1)))
      (start + 1) := by
    intro i j flows
    have own : Flows targets (compileStatement c node n 0) 0 (i - (start + 1))
        (some (j - (start + 1))) := by
      refine (flows_relocate targets_relocate).mp (?_ : Flows targets _ (0 + (start + 1)) _ _)
      simp only [Option.map_some, Int.sub_add_cancel, Int.zero_add]
      exact flows
    have bounds := compileStatement_closed c node n 0 _ _ own
    rw [List.length_map]
    push_cast at bounds
    omega
  have first : (instr .inc 0 0 space :: compileStatement c node n 0).map (relocate (start + 1)) =
      [instr .inc 0 0 space] ++ (compileStatement c node n 0).map (relocate (start + 1)) := rfl
  have behind : start + ([instr .inc 0 0 space].length : Int) = start + 1 := rfl
  rw [first, inc.confined_append (by rw [behind]; exact closed), behind]
  have moved : Confined targets ((compileStatement c node n 0).map (relocate (start + 1)))
      (0 + (start + 1)) ↔ Confined targets (compileStatement c node n 0) 0 :=
    confined_relocate targets_relocate
  rw [Int.zero_add] at moved
  exact moved

/-- For every accepted program with fewer code sets than there is room for, none of them longer
than its row of `generatedCode`, and every procedure of it, control stays in the segment of the
procedure until it returns exactly when every way through the procedure's statement ends in a
begin statement. -/
theorem procedure_stays_iff {fuel : Nat} {tokens : List CurrentToken} {block : BlockNode}
    {s : ParseState} (accepted : parse fuel tokens = .ok block s)
    (few : block.procedures.length + 1 < maxCodeSets) (_fits : FitsRows block) {p : Procedure}
    (declared : p ∈ block.procedures) :
    StaysInSegment s.gen.code p.addr ↔ p.body.statement.endsInBegin = true := by
  have layout := parse_layout accepted (Nat.lt_of_succ_lt few)
  obtain ⟨positive, below, c, procedure, -, row⟩ := layout.compiled p declared
  obtain ⟨k, number⟩ := Int.eq_ofNat_of_zero_le (Int.le_of_lt positive)
  obtain ⟨start, -, placed⟩ := layout.placed few (k := k) (by omega)
  rw [number, placed.staysInSegment, ← number, row, confined_procedure]
  constructor
  · intro confined
    cases ends : p.body.statement.endsInBegin with
    | true => rfl
    | false =>
        have passes := compileStatement_passes c p.body.statement 0 0 (.inr ends)
        exact absurd confined passes.not_confined
  · intro ends
    exact compileStatement_confined c (by rw [procedure]; exact positive) p.body.statement 0 0 ends

/-- `var x; procedure p; x := 1; begin call p end.` -/
def assignmentBody : List CurrentToken :=
  [.word .varsym, .ident [120], .word .semicolonsym, .word .procsym, .ident [112],
    .word .semicolonsym, .ident [120], .word .becomessym, .number 1, .word .semicolonsym,
    .word .beginsym, .word .callsym, .ident [112], .word .endsym, .word .periodsym]

/-- The code of `p` is followed at once by the code of the main block. -/
theorem assignmentBody_parsed : ∃ block s, parse 20 assignmentBody = .ok block s ∧
    block.procedures.length + 1 < maxCodeSets ∧ FitsRows block ∧
    (∃ p ∈ block.procedures, p.addr = 1) ∧
    getCodeLength s.gen.code 1 = 3 ∧ prepareMcode s.gen.code FINAL_CODE =
      [procedureJump 5, procedureJump 2, instr .inc 0 0 4, instr .lit 0 0 1, instr .sto 0 1 4,
        instr .inc 0 0 5, instr .cal 0 0 1, instr .sio 0 0 3] := by
  have looked : returned? (fun block s => (block.procedures.map fun p =>
      (p.addr, p.body.statement.codeSize true), block.statement.codeSize false,
      getCodeLength s.gen.code 1, prepareMcode s.gen.code FINAL_CODE)) (parse 20 assignmentBody) =
      some ([(1, 2)], 1, 3, [procedureJump 5, procedureJump 2, instr .inc 0 0 4, instr .lit 0 0 1,
        instr .sto 0 1 4, instr .inc 0 0 5, instr .cal 0 0 1, instr .sio 0 0 3]) := by
    rfl
  obtain ⟨block, s, accepted, found⟩ := returned?_eq_some.mp looked
  simp only [Prod.mk.injEq] at found
  obtain ⟨numbers, size, length, final⟩ := found
  have count : block.procedures.length = 1 := by
    have lengths := congrArg List.length numbers
    rwa [List.length_map] at lengths
  have each : ∀ p ∈ block.procedures, (p.addr, p.body.statement.codeSize true) = (1, 2) := by
    intro p member
    have inside := List.mem_map_of_mem (f := fun p : Procedure =>
      (p.addr, p.body.statement.codeSize true)) member
    rw [numbers] at inside
    exact List.mem_singleton.mp inside
  obtain ⟨p, member⟩ := List.exists_mem_of_length_pos (by omega : 0 < block.procedures.length)
  have own := congrArg Prod.fst (each p member)
  refine ⟨block, s, accepted, by rw [count]; decide, ⟨by rw [size]; decide, ?_⟩, ⟨p, member, own⟩,
    length, final⟩
  intro q inside
  have length : q.body.statement.codeSize true = 2 := congrArg Prod.snd (each q inside)
  rw [length]
  decide

theorem procedure_stays_iff_assignmentBody : ∃ block s, parse 20 assignmentBody = .ok block s ∧
    FitsRows block ∧ ∃ p ∈ block.procedures,
      (StaysInSegment s.gen.code p.addr ↔ p.body.statement.endsInBegin = true) := by
  obtain ⟨block, s, accepted, few, fits, ⟨p, member, -⟩, -, -⟩ := assignmentBody_parsed
  exact ⟨block, s, accepted, fits, p, member, procedure_stays_iff accepted few fits member⟩

/-- The body `x := 1` of `p` is left through its end, into the code of the main block. -/
theorem assignment_body_falls_out : ¬ ∀ (fuel : Nat) (tokens : List CurrentToken)
    (block : BlockNode) (s : ParseState), parse fuel tokens = .ok block s →
      block.procedures.length + 1 < maxCodeSets → ∀ p ∈ block.procedures,
        StaysInSegment s.gen.code p.addr := by
  intro always
  obtain ⟨block, s, accepted, few, -, ⟨p, member, number⟩, length, final⟩ := assignmentBody_parsed
  have stays := always _ _ _ _ accepted few p member
  unfold StaysInSegment at stays
  rw [number, length, final] at stays
  have body : Straight targets [instr .inc 0 0 4, instr .lit 0 0 1, instr .sto 0 1 4] :=
    (straight_instr .inc (by decide) 0 0 4).append
      ((straight_instr .lit (by decide) 0 0 1).append
        (straight_instr .sto (by decide) 0 1 4))
  have inside : Reaches targets _ (0 + (2 : Nat)) 2 5 :=
    Reaches.left (body.passes 2) [instr .inc 0 0 5, instr .cal 0 0 1, instr .sio 0 0 3]
  have bounds := stays 5 (Reaches.right [procedureJump 5, procedureJump 2] inside)
  exact absurd bounds.2 (by decide)

end Pl0
