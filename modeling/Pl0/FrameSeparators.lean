import Pl0.ActivationRecordDiscipline

set_option autoImplicit false

namespace Pl0

/- What `printVMState` prints of the stack: a bar behind the last cell of every activation
record that a call left. The array `frameBreak` it looks them up in keeps entries of calls
that have returned. -/

/-- An argument of `CompilerStdout`. -/
inductive PrintArg
  | int (value : Int)
  | str (word : String)
  deriving DecidableEq, Repr

/-- A call of `CompilerStdout`. -/
structure Printed where
  format : String
  args : List PrintArg
  deriving DecidableEq, Repr

def opcode : List String :=
  ["NUL", "LIT", "RTN", "LOD", "STO", "CAL", "INC", "JMP", "JPC", "SIO", "NUL", "NUL", "NEG",
    "ADD", "SUB", "MUL", "DIV", "ODD", "MOD", "EQL", "NEQ", "LSS", "LEQ", "GTR", "GEQ"]

def prettyprintInstruction (idx : Int) (ir : Instruction) : Except Fault Printed := do
  checkIndex ir.op opcode.length
  return ⟨"%4d %3s %2d %2d %2d",
    [.int idx, .str (opcode.getD ir.op.toNat ""), .int ir.r, .int ir.l, .int ir.m]⟩

def printRegister (vm : VirtualMachine) (i : Nat) : Printed :=
  ⟨if (i : Int) = commonRegisterNumber - 1 then "%d" else "%d ", [.int (vm.r i)]⟩

def printRegisters (vm : VirtualMachine) : List Printed :=
  ⟨"\t%2d %2d %2d\t", [.int vm.pc, .int vm.bp, .int vm.sp]⟩ ::
    ⟨"Register[%d]=\x7b", [.int commonRegisterNumber]⟩ ::
      (List.range commonRegisterNumber.toNat).map (printRegister vm) ++ [⟨"\x7d\t", []⟩]

/-- `pcnt`, the number of cells that are printed. -/
def printedCells (vm : VirtualMachine) : Int := if vm.sp ≥ 1 then vm.sp else 1

/-- The inner loop over `frameBreak`. -/
def printBreaks (vm : VirtualMachine) (i : Nat) : List Printed :=
  (List.range maxLexiLevels.toNat).flatMap fun j : Nat =>
    if i = vm.frameBreak j ∧ i > 1 then [⟨"| ", []⟩] else []

def printCell (vm : VirtualMachine) (i : Nat) : Printed :=
  ⟨if (i : Int) = printedCells vm - 1 then "%d" else "%d ", [.int (vm.stack i)]⟩

def printStack (vm : VirtualMachine) : List Printed :=
  ⟨"Stack[%d]=\x7b", [.int (printedCells vm)]⟩ ::
    ((List.range (printedCells vm).toNat).flatMap (fun i => printCell vm i :: printBreaks vm i) ++
      [⟨"\x7d\t", []⟩])

def printVMState (vm : VirtualMachine) : Except Fault (List Printed) := do
  let instruction ← prettyprintInstruction vm.prePc vm.ir
  -- the cells that are read lie below the number of them
  checkIndex (printedCells vm - 1) maxStackHeight
  return instruction :: printRegisters vm ++ printStack vm

/-- The cells behind which a bar stands, with `cells` of them printed so far. -/
def separatorsFrom : Nat → List Printed → List Nat
  | _, [] => []
  | cells, printed :: rest =>
      if printed.format = "| " then (cells - 1) :: separatorsFrom cells rest
      else if printed.format = "%d" ∨ printed.format = "%d " then separatorsFrom (cells + 1) rest
      else separatorsFrom cells rest

/-- The cells of the printed stack behind which a bar stands, as often as it stands there. -/
def separators (out : List Printed) : List Nat :=
  separatorsFrom 0 (out.dropWhile fun printed => printed.format ≠ "Stack[%d]=\x7b").tail

/-- How often a bar is printed behind a cell. -/
def breakCount (vm : VirtualMachine) (i : Nat) : Nat :=
  (List.range maxLexiLevels.toNat).countP fun j : Nat => decide (i = vm.frameBreak j ∧ i > 1)

theorem printBreaks_eq (vm : VirtualMachine) (i : Nat) :
    printBreaks vm i = List.replicate (breakCount vm i) ⟨"| ", []⟩ := by
  unfold printBreaks breakCount
  induction List.range maxLexiLevels.toNat with
  | nil => rfl
  | cons j rest ih =>
      rw [List.flatMap_cons, ih, List.countP_cons]
      by_cases here : i = vm.frameBreak j ∧ i > 1
      · rw [if_pos here, if_pos (by simpa using here), List.replicate_succ]
        rfl
      · rw [if_neg here, if_neg (by simpa using here)]
        rfl

theorem separatorsFrom_bars (cells count : Nat) (rest : List Printed) :
    separatorsFrom cells (List.replicate count ⟨"| ", []⟩ ++ rest) =
      List.replicate count (cells - 1) ++ separatorsFrom cells rest := by
  induction count with
  | zero => rfl
  | succ count ih =>
      rw [List.replicate_succ, List.cons_append, separatorsFrom, if_pos rfl, ih]
      rfl

theorem separatorsFrom_cell (vm : VirtualMachine) (i cells : Nat) (rest : List Printed) :
    separatorsFrom cells (printCell vm i :: rest) = separatorsFrom (cells + 1) rest := by
  rw [separatorsFrom]
  unfold printCell
  by_cases last : (i : Int) = printedCells vm - 1
  · simp [last]
  · simp [last]

theorem separatorsFrom_cells (vm : VirtualMachine) (count : Nat) :
    ∀ first : Nat, separatorsFrom first ((List.range' first count).flatMap
      (fun i => printCell vm i :: printBreaks vm i) ++ [⟨"\x7d\t", []⟩]) =
        (List.range' first count).flatMap fun i => List.replicate (breakCount vm i) i := by
  induction count with
  | zero =>
      intro first
      rfl
  | succ count ih =>
      intro first
      rw [List.range'_succ, List.flatMap_cons, List.flatMap_cons, List.cons_append,
        List.cons_append, separatorsFrom_cell, printBreaks_eq, List.append_assoc,
        separatorsFrom_bars, Nat.add_sub_cancel, ih]

theorem printRegisters_formats (vm : VirtualMachine) :
    ∀ printed ∈ printRegisters vm, printed.format ≠ "Stack[%d]=\x7b" := by
  intro printed member
  simp only [printRegisters, List.cons_append, List.mem_cons, List.mem_append, List.mem_map,
    List.not_mem_nil, or_false] at member
  rcases member with rfl | rfl | ⟨i, -, rfl⟩ | rfl
  · simp
  · simp
  · unfold printRegister
    split <;> simp
  · simp

/-- The bars of a printed state, cell by cell. -/
theorem separators_printVMState {vm : VirtualMachine} {out : List Printed}
    (printed : printVMState vm = .ok out) :
    separators out = (List.range (printedCells vm).toNat).flatMap fun i =>
      List.replicate (breakCount vm i) i := by
  unfold printVMState at printed
  obtain ⟨instruction, ofInstruction, rest⟩ := Except.bind_eq_ok.mp printed
  obtain ⟨-, -, built⟩ := Except.bind_eq_ok.mp rest
  obtain rfl := Except.pure_eq_ok.mp built
  have header : ∀ printed ∈ instruction :: printRegisters vm,
      decide (printed.format ≠ "Stack[%d]=\x7b") = true := by
    intro printed member
    rw [decide_eq_true_iff]
    rcases List.mem_cons.mp member with rfl | among
    · obtain ⟨-, -, same⟩ := Except.bind_eq_ok.mp ofInstruction
      rw [← Except.pure_eq_ok.mp same]
      simp
    · exact printRegisters_formats vm printed among
  unfold separators printStack
  rw [List.dropWhile_append_of_pos header, List.dropWhile_cons_of_neg (by simp), List.tail_cons,
    List.range_eq_range', separatorsFrom_cells]

theorem count_flatMap_replicate (counts : Nat → Nat) (i count : Nat) : ∀ first : Nat,
    ((List.range' first count).flatMap fun j => List.replicate (counts j) j).count i =
      if first ≤ i ∧ i < first + count then counts i else 0 := by
  induction count with
  | zero =>
      intro first
      rw [if_neg (by omega)]
      rfl
  | succ count ih =>
      intro first
      rw [List.range'_succ, List.flatMap_cons, List.count_append, ih, List.count_replicate]
      by_cases here : first = i
      · subst here
        rw [if_pos (by simp), if_neg (by omega), if_pos (by omega), Nat.add_zero]
      · rw [if_neg (by simpa using here), Nat.zero_add]
        congr 1
        rw [eq_iff_iff]
        omega

theorem count_separators {vm : VirtualMachine} {out : List Printed}
    (printed : printVMState vm = .ok out) (i : Nat) :
    (separators out).count i = if (i : Int) < printedCells vm then breakCount vm i else 0 := by
  rw [separators_printVMState printed, List.range_eq_range', count_flatMap_replicate]
  congr 1
  rw [eq_iff_iff]
  omega

/-- Each active call has the `sp` it saved at its level. -/
def Breaks (frameBreak : Int → Int) : List Frame → Prop
  | [] => True
  | [_] => True
  | frame :: caller :: older =>
      frameBreak older.length = frame.callSp ∧ Breaks frameBreak (caller :: older)

theorem Breaks.congr {frameBreak frameBreak' : Int → Int} {frames : List Frame}
    (breaks : Breaks frameBreak frames)
    (same : ∀ level : Int, level < frames.length - 1 → frameBreak' level = frameBreak level) :
    Breaks frameBreak' frames := by
  induction frames with
  | nil => trivial
  | cons frame rest ih =>
      cases rest with
      | nil => trivial
      | cons caller older =>
          simp only [List.length_cons] at same
          refine ⟨(same older.length (by omega)).trans breaks.1, ih breaks.2 fun level low => ?_⟩
          rw [List.length_cons] at low
          exact same level (by omega)

theorem Breaks.setSize {frameBreak : Int → Int} {frames : List Frame}
    (breaks : Breaks frameBreak frames) (size : Int) :
    Breaks frameBreak (setSize size frames) := by
  cases frames with
  | nil => trivial
  | cons newest older =>
      cases older with
      | nil => trivial
      | cons caller rest => exact breaks

theorem setSize_length (size : Int) (frames : List Frame) :
    (setSize size frames).length = frames.length := by
  cases frames <;> rfl

/-- The levels hold what the active calls saved, outermost first. -/
theorem Breaks.levels {frameBreak : Int → Int} {frames : List Frame}
    (breaks : Breaks frameBreak frames) :
    ((List.range (frames.length - 1)).map fun level : Nat => frameBreak level) =
      (frames.dropLast.map Frame.callSp).reverse := by
  induction frames with
  | nil => rfl
  | cons frame rest ih =>
      cases rest with
      | nil => rfl
      | cons caller older =>
          have below := ih breaks.2
          simp only [List.length_cons, Nat.add_sub_cancel] at below ⊢
          rw [List.range_succ, List.map_append, below, List.map_singleton, breaks.1,
            List.dropLast_cons_cons, List.map_cons, List.reverse_cons]

/-- The array of the breaks. Only the level that the next call would take can hold an entry of
a call that has returned; then that call has given its cells back, up to this entry. -/
structure BreakInv (g : Monitor) : Prop where
  level : g.vm.frameLevel = g.frames.length - 1
  bounded : g.vm.frameLevel ≤ maxLexiLevels
  breaks : Breaks g.vm.frameBreak g.frames
  top : 0 ≤ g.vm.frameLevel → g.vm.frameBreak g.vm.frameLevel = 0 ∨
    g.pending = false ∧ g.vm.sp ≤ g.vm.frameBreak g.vm.frameLevel
  above : ∀ level, g.vm.frameLevel < level → g.vm.frameBreak level = 0

theorem breakInv_start (code : List Instruction) (input : List Int) :
    BreakInv (Monitor.start code input) where
  level := rfl
  bounded := show (0 : Int) ≤ maxLexiLevels by decide
  breaks := trivial
  top := fun _ => .inl rfl
  above := fun _ _ => rfl

theorem BreakInv.keep {g : Monitor} (inv : BreakInv g) {vm' : VirtualMachine}
    (sp : vm'.sp = g.vm.sp) (frameBreak : vm'.frameBreak = g.vm.frameBreak)
    (frameLevel : vm'.frameLevel = g.vm.frameLevel) : BreakInv { g with vm := vm' } := by
  constructor
  · exact frameLevel.trans inv.level
  · exact Int.le_trans (Int.le_of_eq frameLevel) inv.bounded
  · change Breaks vm'.frameBreak g.frames
    rw [frameBreak]
    exact inv.breaks
  · change 0 ≤ vm'.frameLevel → vm'.frameBreak vm'.frameLevel = 0 ∨
      g.pending = false ∧ vm'.sp ≤ vm'.frameBreak vm'.frameLevel
    rw [sp, frameBreak, frameLevel]
    exact inv.top
  · change ∀ level, vm'.frameLevel < level → vm'.frameBreak level = 0
    rw [frameBreak, frameLevel]
    exact inv.above

theorem BreakInv.call {g : Monitor} (inv : BreakInv g) (nonempty : g.frames ≠ [])
    {ir : Instruction} {vm' : VirtualMachine} (op : Opcode.ofInt? ir.op = some .cal)
    (frameBreak : vm'.frameBreak = Function.update g.vm.frameBreak g.vm.frameLevel g.vm.sp)
    (frameLevel : vm'.frameLevel = g.vm.frameLevel + 1)
    (room : g.vm.frameLevel < maxLexiLevels) : BreakInv (g.record ir vm') := by
  have recorded : g.record ir vm' =
      { vm := vm'
        frames := { entry := ir.m, base := g.vm.sp + 1, size := 0, callSp := g.vm.sp,
                    callBp := g.vm.bp, callPc := g.vm.pc + 1 } :: g.frames
        pending := true } := by
    simp only [Monitor.record, op]
  have level := inv.level
  rw [recorded]
  constructor
  · change vm'.frameLevel = ((_ :: g.frames).length : Int) - 1
    rw [frameLevel, List.length_cons]
    omega
  · change vm'.frameLevel ≤ maxLexiLevels
    omega
  · change Breaks vm'.frameBreak (_ :: g.frames)
    have below : Breaks vm'.frameBreak g.frames := by
      refine inv.breaks.congr fun other low => ?_
      rw [frameBreak, Function.update_of_ne (by omega)]
    cases whole : g.frames with
    | nil => exact absurd whole nonempty
    | cons caller older =>
        rw [whole] at below level
        rw [List.length_cons] at level
        refine ⟨?_, below⟩
        have here : (older.length : Int) = g.vm.frameLevel := by omega
        rw [frameBreak, here, Function.update_self]
  · intro _
    left
    change vm'.frameBreak vm'.frameLevel = 0
    rw [frameBreak, frameLevel, Function.update_of_ne (by omega)]
    exact inv.above _ (by omega)
  · intro other high
    change vm'.frameLevel < other at high
    change vm'.frameBreak other = 0
    rw [frameBreak, Function.update_of_ne (by omega)]
    exact inv.above other (by omega)

/-- The entry of a call that returns is left behind, at the `sp` that it gives back. -/
theorem BreakInv.return {g : Monitor} (inv : BreakInv g) (record : RecordInv g)
    (nonempty : g.frames ≠ []) {ir : Instruction} {vm' : VirtualMachine}
    (op : Opcode.ofInt? ir.op = some .rtn) (sp : vm'.sp = g.vm.bp - 1)
    (frameBreak : vm'.frameBreak = Function.update g.vm.frameBreak g.vm.frameLevel 0)
    (frameLevel : vm'.frameLevel = g.vm.frameLevel - 1) : BreakInv (g.record ir vm') := by
  have recorded : g.record ir vm' = { vm := vm', frames := g.frames.tail, pending := false } := by
    simp only [Monitor.record, op]
  have level := inv.level
  have bounded := inv.bounded
  have breaks := inv.breaks
  have bp := record.bp
  have linked := record.linked
  rw [recorded]
  cases whole : g.frames with
  | nil => exact absurd whole nonempty
  | cons frame rest =>
      rw [whole] at level breaks bp linked
      rw [List.length_cons] at level
      constructor
      · change vm'.frameLevel = (rest.length : Int) - 1
        omega
      · change vm'.frameLevel ≤ maxLexiLevels
        omega
      · change Breaks vm'.frameBreak rest
        have below : Breaks g.vm.frameBreak rest := by
          cases rest with
          | nil => trivial
          | cons caller older => exact breaks.2
        refine below.congr fun other low => ?_
        rw [frameBreak, Function.update_of_ne (by omega)]
      · intro some_
        change 0 ≤ vm'.frameLevel at some_
        right
        change false = false ∧ vm'.sp ≤ vm'.frameBreak vm'.frameLevel
        refine ⟨rfl, ?_⟩
        cases rest with
        | nil =>
            rw [List.length_nil] at level
            omega
        | cons caller older =>
            rw [List.length_cons] at level
            have here : g.vm.frameLevel - 1 = older.length := by omega
            have entry : g.vm.frameBreak older.length = frame.callSp := breaks.1
            have saved : frame.callSp = frame.base - 1 := linked.1
            rw [List.head?_cons, Option.map_some, Option.getD_some] at bp
            have same : vm'.sp = vm'.frameBreak vm'.frameLevel := by
              rw [frameBreak, frameLevel, Function.update_of_ne (by omega), here, entry, sp, bp,
                saved]
            exact Int.le_of_eq same
      · intro other high
        change vm'.frameLevel < other at high
        change vm'.frameBreak other = 0
        rw [frameBreak]
        by_cases returned : other = g.vm.frameLevel
        · rw [returned, Function.update_self]
        · rw [Function.update_of_ne returned]
          exact inv.above other (by omega)

theorem FrameStep.breakInv {g h : Monitor} (taken : FrameStep g h) (record : RecordInv g)
    (inv : BreakInv g) : BreakInv h := by
  cases taken with
  | stop running _ _ => exact inv.keep rfl rfl rfl
  | @execute ir vm' running fetches undisturbed stepped =>
      have nonempty := record.frames_ne_nil running
      cases MonitorStep.execute_effect fetches stepped with
      | inner op same pc =>
          rw [record_keep g ir vm' (by
            intro op' decoded
            have quiet := op op' decoded
            refine ⟨?_, ?_, ?_⟩ <;> rintro rfl <;> cases quiet)]
          exact inv.keep same.sp same.frameBreak same.frameLevel
      | jmp op same status pc =>
          rw [record_keep g ir vm' (by simp [op])]
          exact inv.keep same.sp same.frameBreak same.frameLevel
      | jpc op same status pc =>
          rw [record_keep g ir vm' (by simp [op])]
          exact inv.keep same.sp same.frameBreak same.frameLevel
      | sto target value op resolved sp bp stack frameBreak frameLevel status pc =>
          rw [record_keep g ir vm' (by simp [op])]
          exact inv.keep sp frameBreak frameLevel
      | inc op sp bp stack frameBreak frameLevel status pc =>
          have waiting : g.pending = true := by
            cases reserved : g.pending with
            | true => rfl
            | false => exact absurd op (undisturbed.reserved reserved)
          have recorded : g.record ir vm' =
              { vm := vm', frames := setSize ir.m g.frames, pending := false } := by
            simp only [Monitor.record, op]
          rw [recorded]
          constructor
          · change vm'.frameLevel = ((setSize ir.m g.frames).length : Int) - 1
            rw [setSize_length, frameLevel]
            exact inv.level
          · exact Int.le_trans (Int.le_of_eq frameLevel) inv.bounded
          · change Breaks vm'.frameBreak (setSize ir.m g.frames)
            rw [frameBreak]
            exact inv.breaks.setSize ir.m
          · intro some_
            left
            change vm'.frameBreak vm'.frameLevel = 0
            change 0 ≤ vm'.frameLevel at some_
            rw [frameLevel] at some_
            rw [frameBreak, frameLevel]
            rcases inv.top some_ with zero | ⟨reserved, -⟩
            · exact zero
            · rw [waiting] at reserved
              cases reserved
          · change ∀ level, vm'.frameLevel < level → vm'.frameBreak level = 0
            rw [frameBreak, frameLevel]
            exact inv.above
      | cal link op resolved sp bp stack frameBreak frameLevel level status pc =>
          exact inv.call nonempty op frameBreak frameLevel level.2
      | rtn op sp bp stack frameBreak frameLevel level status pc =>
          exact inv.return record nonempty op sp frameBreak frameLevel

theorem breakInv_reachable {code : List Instruction} {input : List Int} {g : Monitor}
    (reached : Relation.ReflTransGen FrameStep (Monitor.start code input) g) : BreakInv g := by
  induction reached with
  | refl => exact breakInv_start code input
  | tail before taken ih => exact taken.breakInv (recordInv_spared before) ih

/-- The records of the calls lie above the one of main, each above the saved words of the one
below it. -/
theorem RecordInv.spread {g : Monitor} (record : RecordInv g) :
    g.frames.Pairwise (fun newer older => older.base + 4 ≤ newer.base) ∧
      ∀ frame ∈ g.frames.dropLast, 5 ≤ frame.base := by
  have apart := record.tiled.pairwise record.size_nonneg
  have bounds := record.tiled.bounds record.size_nonneg
  have large := record.older
  generalize g.frames = frames at apart bounds large
  induction frames with
  | nil => exact ⟨.nil, by simp⟩
  | cons newest older ih =>
      obtain ⟨above, below⟩ := List.pairwise_cons.mp apart
      rw [List.tail_cons] at large
      obtain ⟨spread, high⟩ := ih below
        ⟨bounds.1, fun frame member => bounds.2 frame (List.mem_cons_of_mem _ member)⟩
        fun frame member => large frame (List.mem_of_mem_tail member)
      have farther : ∀ frame ∈ older, frame.base + 4 ≤ newest.base := by
        intro frame member
        have size := large frame member
        have bound := above frame member
        omega
      refine ⟨List.pairwise_cons.mpr ⟨farther, spread⟩, ?_⟩
      cases older with
      | nil => simp
      | cons caller rest =>
          rw [List.dropLast_cons_cons]
          refine List.forall_mem_cons.mpr ⟨?_, high⟩
          have caller_ := farther caller List.mem_cons_self
          have low := (bounds.2 caller (by simp)).1
          omega

/-- A CAL saved the `sp` in front of its record. -/
theorem Linked.callSp {stack : Int → Int} {frames : List Frame} (linked : Linked stack frames) :
    ∀ frame ∈ frames.dropLast, frame.callSp = frame.base - 1 := by
  induction frames with
  | nil => simp
  | cons frame rest ih =>
      cases rest with
      | nil => simp
      | cons caller older =>
          rw [List.dropLast_cons_cons]
          exact List.forall_mem_cons.mpr ⟨linked.1, ih linked.tail⟩

theorem RecordInv.saved_nodup {g : Monitor} (record : RecordInv g) :
    (g.frames.dropLast.map Frame.callSp).Nodup := by
  have saved := record.linked.callSp
  have spread := record.spread.1.sublist (List.dropLast_sublist g.frames)
  refine List.pairwise_map.mpr (spread.imp_of_mem ?_)
  intro newer older newerIn olderIn apart
  rw [saved newer newerIn, saved older olderIn]
  omega

/-- How often a cell below `sp` is found in the breaks. -/
theorem BreakInv.breakCount {g : Monitor} (inv : BreakInv g) {i : Nat} (positive : 1 < i)
    (below : (i : Int) < g.vm.sp) :
    breakCount g.vm i = (g.frames.dropLast.map Frame.callSp).count (i : Int) := by
  have level := inv.level
  have bounded := inv.bounded
  have split : List.range maxLexiLevels.toNat = List.range (g.frames.length - 1) ++
      List.range' (g.frames.length - 1) (maxLexiLevels.toNat - (g.frames.length - 1)) := by
    have joined := @List.range'_append_1 0 (g.frames.length - 1)
      (maxLexiLevels.toNat - (g.frames.length - 1))
    rw [Nat.zero_add, Nat.add_sub_cancel' (by omega)] at joined
    rw [List.range_eq_range', List.range_eq_range', joined]
  have stale : ∀ j ∈ List.range' (g.frames.length - 1)
      (maxLexiLevels.toNat - (g.frames.length - 1)),
        ¬ decide ((i : Int) = g.vm.frameBreak j ∧ i > 1) = true := by
    intro j member
    rw [List.mem_range'_1] at member
    rw [decide_eq_true_iff]
    rintro ⟨same, -⟩
    by_cases next : (j : Int) = g.vm.frameLevel
    · rw [next] at same
      rcases inv.top (by omega) with zero | ⟨-, returned⟩
      · omega
      · omega
    · have zero := inv.above j (by omega)
      omega
  rw [Pl0.breakCount, split, List.countP_append, List.countP_eq_zero.mpr stale, Nat.add_zero,
    ← List.count_reverse, ← inv.breaks.levels, List.count, List.countP_map]
  refine List.countP_congr fun j _ => ?_
  simp only [decide_eq_true_iff, Function.comp_apply, beq_iff_eq]
  constructor
  · exact fun holds => holds.1.symm
  · exact fun same => ⟨same.symm, positive⟩

/-- In every state that is printed a bar stands behind a cell exactly when it is the last one
below the record of a call that has not returned, and it stands there once. -/
theorem separators_of_activations {code : List Instruction} {input : List Int} {g : Monitor}
    (reached : Relation.ReflTransGen FrameStep (Monitor.start code input) g) {out : List Printed}
    (printed : printVMState g.vm = .ok out) (i : Nat) :
    (separators out).count i =
      if (∃ frame ∈ g.frames.dropLast, frame.callSp = i) ∧ (i : Int) < g.vm.sp then 1 else 0 := by
  have record := recordInv_spared reached
  have inv := breakInv_reachable reached
  have called : ∀ frame ∈ g.frames.dropLast, frame.callSp = i → 1 < i := by
    intro frame member same
    have saved := record.linked.callSp frame member
    have high := record.spread.2 frame member
    omega
  rw [count_separators printed, printedCells]
  by_cases positive : 1 < i
  · by_cases below : (i : Int) < g.vm.sp
    · rw [if_pos (by split <;> omega), inv.breakCount positive below, record.saved_nodup.count]
      congr 1
      rw [eq_iff_iff, List.mem_map, and_iff_left below]
    · rw [if_neg (by split <;> omega), if_neg fun found => below found.2]
  · have none : breakCount g.vm i = 0 := by
      refine List.countP_eq_zero.mpr fun j _ => ?_
      rw [decide_eq_true_iff]
      exact fun found => positive found.2
    rw [none, ite_self, if_neg]
    rintro ⟨⟨frame, member, same⟩, -⟩
    exact positive (called frame member same)

/-- The state with one procedure called and its space reserved. -/
theorem separators_of_activations_callOnce :
    let g := (Monitor.start callOnce []).turn.turn.turn
    ∃ out, printVMState g.vm = .ok out ∧ (separators out).count 4 = 1 := by
  intro g
  have start : MonitorStep (Monitor.start callOnce []) (Monitor.start callOnce []).turn :=
    monitorStep_turn rfl rfl rfl (by decide) (by decide)
  have call : MonitorStep (Monitor.start callOnce []).turn (Monitor.start callOnce []).turn.turn :=
    monitorStep_turn rfl rfl rfl (by decide) (by decide)
  have enter : MonitorStep (Monitor.start callOnce []).turn.turn g :=
    monitorStep_turn rfl rfl rfl (by decide) (by decide)
  have first := recordInv_start callOnce []
  have second := start.recordInv first
  have third := call.recordInv second
  have reached : Relation.ReflTransGen FrameStep (Monitor.start callOnce []) g :=
    .tail (.tail (.single (start.frameStep first)) (call.frameStep second)) (enter.frameStep third)
  obtain ⟨out, printed⟩ : ∃ out, printVMState g.vm = .ok out := ⟨_, rfl⟩
  refine ⟨out, printed, (separators_of_activations reached printed 4).trans (if_pos ?_)⟩
  exact ⟨⟨_, List.mem_cons_self, rfl⟩, by decide⟩

end Pl0
