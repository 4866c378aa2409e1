import Pl0.CallExecution
import Pl0.GrammarSoundness
import Pl0.ProgramTranslation

set_option autoImplicit false

namespace Pl0

open StateExcept

/- Conditions on the blocks of a program. -/
mutual
theorem BlockNode.eachBlock_of_procedures {Q : Int → BlockNode → Prop} :
    ∀ (block : BlockNode) {outer : List Rib} {number : Int}, Q number block →
      (∀ p ∈ block.procedures, Q p.addr p.body) →
      block.EachBlock (fun _ number block => Q number block) outer number
  | .mk _ _ procDef _, _, _, here, inside =>
      ⟨here, ProdefList.eachBlock_of_procedures procDef inside⟩

theorem ProdefList.eachBlock_of_procedures {Q : Int → BlockNode → Prop} :
    ∀ (procDef : ProdefList) {rib : Rib} {outer : List Rib},
      (∀ p ∈ procDef.procedures, Q p.addr p.body) →
      procDef.EachBlock (fun _ number block => Q number block) rib outer
  | .nil, _, _, _ => trivial
  | .cons ident lexical addr paraProc body next, _, _, inside =>
      ⟨BlockNode.eachBlock_of_procedures body
          (inside ⟨ident, lexical, addr, paraProc, body⟩ List.mem_cons_self)
          fun p member => inside p (List.mem_cons_of_mem _ (List.mem_append_left _ member)),
        ProdefList.eachBlock_of_procedures next fun p member =>
          inside p (List.mem_cons_of_mem _ (List.mem_append_right _ member))⟩
end

/-- A block sees fewer names than the one around it declares, not other ones. -/
theorem Rib.names_sublist (constDecl : List ConstDeclNode) (varDecl : List VarDeclNode)
    (before : List Procedure) (p : Procedure) (after : List Procedure) :
    ((⟨constDecl, varDecl, []⟩ : Rib).upTo before p).names.Sublist
      (⟨constDecl, varDecl, before ++ p :: after⟩ : Rib).names := by
  refine List.Sublist.append (List.Sublist.refl _) (List.Sublist.map _ ?_)
  rw [List.append_cons before p after]
  exact List.sublist_append_left _ _

/- Where every block tells its own names apart, so do all that one can see. -/
mutual
theorem BlockNode.EachBlock.distinct : ∀ (block : BlockNode) {outer : List Rib} {number : Int},
    block.EachBlock (fun _ _ block => block.rib.names.Nodup) outer number →
      (∀ rib ∈ outer, rib.names.Nodup) →
        block.EachBlock (fun ribs _ _ => ∀ rib ∈ ribs, rib.names.Nodup) outer number
  | .mk constDecl varDecl procDef statement, outer, _, each, around => by
      refine ⟨?_, ProdefList.EachBlock.distinct procDef each.2 each.1 around⟩
      intro rib member
      rcases List.mem_cons.mp member with rfl | further
      · exact each.1
      · exact around rib further

theorem ProdefList.EachBlock.distinct : ∀ (procDef : ProdefList) {rib : Rib} {outer : List Rib},
    procDef.EachBlock (fun _ _ block => block.rib.names.Nodup) rib outer →
      ({ rib with procs := rib.procs ++ procDef.direct } : Rib).names.Nodup →
        (∀ rib ∈ outer, rib.names.Nodup) →
          procDef.EachBlock (fun ribs _ _ => ∀ rib ∈ ribs, rib.names.Nodup) rib outer
  | .nil, _, _, _, _, _ => trivial
  | .cons ident lexical addr paraProc body next, rib, outer, each, whole, around => by
      have seen : (rib.upTo rib.procs ⟨ident, lexical, addr, paraProc, body⟩).names.Nodup :=
        whole.sublist (Rib.names_sublist rib.constDecl rib.varDecl rib.procs _ next.direct)
      refine ⟨BlockNode.EachBlock.distinct body each.1 ?_,
        ProdefList.EachBlock.distinct next each.2 ?_ around⟩
      · intro other member
        rcases List.mem_cons.mp member with rfl | further
        · exact seen
        · exact around other further
      · rw [ProdefList.direct, List.append_cons] at whole
        exact whole
end

/-- What a block needs: it declares no name twice, its variables lie in its frame, and it
writes no constant. In the statement part of a procedure every begin statement returns, so
there is one around all of it, and no other. -/
structure Regular (ribs : List Rib) (number : Int) (block : BlockNode) : Prop where
  names : block.rib.names.Nodup
  layout : FrameLayout block
  body : number = 0 ∨ ∃ list, block.statement = .begin list ∧ list.flat = true
  writes : ∀ name ∈ block.statement.writes, IsVariable ribs name

/-- An accepted program whose names are looked up as they are declared, and that the tables and
the machine are large enough for. -/
structure Runnable (block : BlockNode) (s : ParseState) : Prop where
  silent : s.reports = []
  resolved : ∀ u ∈ uses s.gen.trace, u.Resolves
  few : block.procedures.length + 1 < maxCodeSets
  regular : block.EachBlock Regular [] 0
  registers : ∀ ir ∈ prepareMcode s.gen.code FINAL_CODE, ∀ i ∈ registerOperands ir,
    i < commonRegisterNumber
  room : block.varDecl.length + 4 < maxStackHeight
  short : (prepareMcode s.gen.code FINAL_CODE).length ≤ maxCodeLength

section Parse

variable {fuel : Nat} {tokens : List CurrentToken} {block : BlockNode} {s : ParseState}

theorem describes_mainGen : Describes mainGen [⟨[], [], []⟩] := by
  have scope : mainGen.scope = [0] := rfl
  have trace : mainGen.trace = [] := rfl
  refine ⟨rfl, rfl, ?_, ?_, ?_, ?_⟩
  · rw [trace]
    intro n rib there symbol member
    cases member
  · intro n rib there name member
    have only := List.mem_singleton.mp (List.mem_of_getElem? there)
    rw [only] at member
    cases member
  · rw [trace]
    intro d member
    cases member
  · rw [scope]
    intro number member
    rw [List.mem_singleton.mp member]
    exact Int.le_refl 0

/-- The sets behind the main block: its own, and those that its procedures left. -/
theorem main_codes {declared : GenState} {d : Declarations}
    (declares : Declares mainGen .none declared d) (few : declared.procedureCount < maxCodeSets)
    (statement : StatementNode) (space : Int) : declared.currentProcedure = 0 ∧
      ((genBody statement declared).finishMain space).code = Function.update declared.code 0
        (instr .inc 0 0 space ::
          (compileStatement declared.context statement 0 0 ++ [instr .sio 0 0 3])) := by
  have filled := declares.filled mainGen_fresh few
  have current : declared.currentProcedure = 0 := filled.currentProcedure
  have own : declared.code 0 = [] := (filled.kept 0 (Int.le_refl 0)).trans rfl
  exact ⟨current, finishMain_code statement current filled.registerPtr own space⟩

/-- The parse leaves the code of the statement part of every block in its set. -/
theorem parse_codes (accepted : parse fuel tokens = .ok block s) (silent : s.reports = [])
    (resolved : ∀ u ∈ uses s.gen.trace, u.Resolves)
    (few : block.procedures.length < maxCodeSets) :
    block.procDef.EachBlock (CodeFor s.gen.code) ⟨block.constDecl, block.varDecl, []⟩ [] ∧
      ∃ c : CodeContext, c.procedure = 0 ∧ Finds c [block.rib] block.statement.idents ∧
        s.gen.code 0 = instr .inc 0 0 (block.varDecl.length + 4) ::
          (compileStatement c block.statement 0 0 ++ [instr .sio 0 0 3]) := by
  obtain ⟨t, more, taken, rfl⟩ := parse_taken accepted silent
  let node := (t.build mainGen).1
  have counted : ∀ {declared : GenState} {d : Declarations}, Declares mainGen .none declared d →
      node = d.block node.statement → declared.procedureCount < maxCodeSets := by
    intro declared d declares shape
    rw [declares.main_procedureCount shape]
    exact_mod_cast few
  obtain ⟨declared, d, declares, shape, state⟩ := t.build_runs taken.suited
  have roomed := counted declares shape
  have count : (t.build mainGen).2.procedureCount = declared.procedureCount := by
    rw [state]
    exact (genBody_emits _ declared).procedureCount
  have agree : ∀ j, mainGen.procedureCount < j → j ≤ (t.build mainGen).2.procedureCount →
      s.gen.code j = (t.build mainGen).2.code j := by
    intro j above below
    obtain ⟨current, codes⟩ := main_codes declares roomed node.statement (node.varDecl.length + 4)
    have other : j ≠ 0 := Int.ne_of_gt above
    rw [taken.gen, state, codes, Function.update_of_ne other, genBody_code_ne]
    rwa [current]
  have whole : (t.build mainGen).2.trace <+: s.gen.trace := by
    rw [taken.gen]
    exact List.prefix_rfl
  obtain ⟨declared, d, built⟩ := t.build_code resolved taken.suited describes_mainGen mainGen_fresh
    (Int.le_refl 0) (by rw [count]; exact roomed) rfl agree whole
  have prepared : Prepared s.gen.code mainGen [] node (t.build mainGen).2 declared d := built
  obtain ⟨current, codes⟩ := main_codes prepared.declares
    (counted prepared.declares prepared.shape) node.statement (node.varDecl.length + 4)
  refine ⟨prepared.procedures, declared.context, current, prepared.finds whole resolved, ?_⟩
  rw [taken.gen, prepared.state, codes, Function.update_self]

/-- The code of a set, where the linker has put it. -/
theorem Placed.contains {code : CodeSets} {program : List Instruction} {k start : Nat}
    (placed : Placed code program k start) {space : Int} {body : List Instruction}
    (row : code k = instr .inc 0 0 space :: body) :
    program[start]? = some (instr .inc 0 0 space) ∧ Contains program (start + 1) 0 body := by
  constructor
  · exact placed.rows 0 (instr .inc 0 0 space) (by rw [row]; rfl)
  · intro j ir found
    have moved := placed.rows (j + 1) ir (by rw [row]; exact found)
    have place : start + 1 + 0 + j = start + (j + 1) := by omega
    rw [place]
    exact moved

/-- Every register operand is one of the machine: none is negative. -/
theorem Runnable.fits (fits : Runnable block s) {c : CodeContext} {node : StatementNode} {d : Nat}
    (contains : Contains (prepareMcode s.gen.code FINAL_CODE) d 0 (compileStatement c node 0 0)) :
    FitsRegisters (compileStatement c node 0 0) := by
  intro ir member i operand
  refine ⟨(names_statement c node 0 0 ir member i operand).1, ?_⟩
  obtain ⟨j, found⟩ := List.getElem?_of_mem member
  have moved := List.mem_of_getElem? (contains j ir found)
  apply fits.registers _ moved
  rw [registerOperands_relocate]
  exact operand

theorem FrameLayout.laid {b : BlockNode} (layout : FrameLayout b) (names : b.rib.names.Nodup) :
    Laid b.varDecl :=
  ⟨layout, (Rib.nodup_parts names).2.1⟩

/-- A procedure is called through the jump table, and returns behind its statement part. -/
theorem Runnable.serves_procedure (fits : Runnable block s) (layout : Layout s.gen.code block)
    {ribs : List Rib} {number : Int} {b : BlockNode} (inUse : 0 < number ∧
      number ≤ block.procedures.length) (distinct : ∀ rib ∈ ribs, rib.names.Nodup)
    (regular : Regular ribs number b) (coded : CodeFor s.gen.code ribs number b) :
    Serves (prepareMcode s.gen.code FINAL_CODE) ribs number b := by
  obtain ⟨c, behind, procedure, finds, row⟩ := coded
  obtain ⟨list, shape, flat⟩ := regular.body.resolve_left (Int.ne_of_gt inUse.1)
  obtain ⟨k, rfl⟩ := Int.eq_ofNat_of_zero_le (Int.le_of_lt inUse.1)
  obtain ⟨start, -, placed⟩ := layout.placed fits.few (k := k) (by omega)
  obtain ⟨space, contains⟩ := placed.contains row
  have returns : compileStatement c b.statement 0 0 =
      bodyCode c b.statement 0 0 ++ [instr .rtn 0 0 0] := by
    rw [shape, compileStatement, compileReturn, procedure, if_pos inUse.1]
    rfl
  have registers := fits.fits contains.left
  rw [returns] at contains registers
  exact ⟨c, start, ⟨distinct, regular.layout.laid regular.names, by rw [shape]; exact flat, finds,
    regular.writes, ⟨k, rfl, placed.jump⟩, space, contains.left, registers.left⟩⟩

theorem Runnable.serves (accepted : parse fuel tokens = .ok block s) (fits : Runnable block s) :
    OpenTo (Serves (prepareMcode s.gen.code FINAL_CODE)) [block.rib] := by
  have few := fits.few
  have layout := parse_layout accepted (by omega)
  obtain ⟨codes, -⟩ := parse_codes accepted fits.silent fits.resolved (by omega)
  have inUse := @ProdefList.eachBlock_of_procedures
    (fun number _ => 0 < number ∧ number ≤ block.procedures.length) block.procDef
    ⟨block.constDecl, block.varDecl, []⟩ [] (by
      intro p member
      obtain ⟨positive, bound, -⟩ := layout.compiled p (by cases block; exact member)
      exact ⟨positive, bound⟩)
  have regular := (BlockNode.eachBlock_iff.mp fits.regular).2
  have names := BlockNode.EachBlock.distinct block
    (fits.regular.mono (fun _ _ _ regular => regular.names) block) (by simp)
  have distinct := (BlockNode.eachBlock_iff.mp names).2
  have each := (inUse.and _ distinct).and _ (regular.and _ codes)
  have serves := ProdefList.EachBlock.mono (Q := Serves (prepareMcode s.gen.code FINAL_CODE))
    (fun _ _ _ all => fits.serves_procedure layout all.1.1 all.1.2 all.2.1 all.2.2) _ each
  exact ⟨fun before p after parts => serves.split _ before p after parts, trivial⟩

/-- The machine enters the main block, whose variables are 0. -/
theorem main_holds {program : List Instruction} {start : Nat} (laid : Laid block.varDecl)
    (jump : program[0]? = some (procedureJump start))
    (space : program[start]? = some (instr .inc 0 0 (block.varDecl.length + 4)))
    (short : program.length ≤ maxCodeLength) (room : block.varDecl.length + 4 < maxStackHeight)
    (input : List Int) : ∃ vm, Turns (startVm program input) vm ∧
      HoldsAt program (start + 1) [⟨block.rib, 0⟩] (.start block input) 0 vm := by
  have inside := (List.getElem?_eq_some_iff.mp space).1
  have limit : maxStackHeight = 2000 := rfl
  have table : Fetches (startVm program input) (procedureJump start) :=
    ⟨Int.le_refl 0, (by decide : (0 : Int) < maxCodeLength), jump⟩
  let body := { (startVm program input).fetched (procedureJump start) with pc := (start : Int) }
  have enter : Turn (startVm program input) body := ⟨rfl, step_of_fetches table⟩
  have reserve : Fetches body (instr .inc 0 0 (block.varDecl.length + 4)) := by
    refine ⟨Int.natCast_nonneg start, ?_, space⟩
    change (start : Int) < _
    omega
  have grown : toInt (0 + (block.varDecl.length + 4 : Int)) = .ok (block.varDecl.length + 4) := by
    refine toInt_eq_ok.mpr ⟨?_, Int.zero_add _⟩
    unfold InInt intMin intMax
    omega
  let entered := { body.fetched (instr .inc 0 0 (block.varDecl.length + 4)) with
    sp := block.varDecl.length + 4 }
  have turn : Turn body entered :=
    ⟨rfl, (step_of_fetches reserve).trans (Except.bind_of_ok grown _)⟩
  refine ⟨entered, (Relation.ReflTransGen.single enter).tail turn, rfl, rfl, ?_, ?_⟩
  · change (start : Int) + 1 = _
    omega
  have sum : (Memory.start block input).sizes.sum = block.varDecl.length + 4 := rfl
  have only : ∀ {k : Nat} {a : Activation}, (Memory.start block input).activations[k]? = some a →
      a = ⟨block.varDecl, fun _ => some 0⟩ :=
    fun found => List.mem_singleton.mp (List.mem_of_getElem? found)
  refine ⟨⟨(by decide : (1 : Int) ≤ maxLexiLevels), ?_⟩, ⟨_, _, rfl, rfl, rfl⟩, ?_, rfl, ?_, ?_, ?_,
    List.isChain_singleton _, rfl, rfl⟩
  · change ((Memory.start block input).sizes.sum : Int) < _
    omega
  · rw [sum]
    rfl
  · intro layer member
    rw [List.mem_singleton.mp member]
    exact ⟨_, rfl, rfl⟩
  · intro a member
    rw [List.mem_singleton.mp member]
    exact laid
  · intro k a here v _ x value
    rw [only here] at value
    cases value
    rfl

/-- The machine runs the program to its halt, prints what the source does, and leaves the values
of the main block's variables in their cells. -/
def RunsTo (program : List Instruction) (block : BlockNode) (input : List Int) (m : Memory) :
    Prop :=
  ∃ fuel vm, runVm fuel (startVm program input) = .ok (some vm) ∧ vm.status = .idle ∧
    vm.output = m.output ∧ ∀ a ∈ m.activations.head?, ∀ v ∈ block.varDecl,
      ∀ x, a.value v.ident = some x → vm.stack (1 + v.addr) = x

/-- The machine stands before the statement part of the main block, and halts behind it. -/
structure Begun (program : List Instruction) (block : BlockNode) (input : List Int)
    (c : CodeContext) (d : Nat) (vm : VirtualMachine) : Prop where
  around : Around program [⟨block.rib, 0⟩]
  body : Translated program d c [⟨block.rib, 0⟩] block.statement 0 0
  halt : Contains program d (0 + (bodyCode c block.statement 0 0).length) [instr .sio 0 0 3]
  turns : Turns (startVm program input) vm
  there : HoldsAt program d [⟨block.rib, 0⟩] (.start block input) 0 vm

theorem Runnable.begun (accepted : parse fuel tokens = .ok block s) (fits : Runnable block s)
    (input : List Int) :
    ∃ c d vm, Begun (prepareMcode s.gen.code FINAL_CODE) block input c d vm := by
  have few := fits.few
  have regular := (BlockNode.eachBlock_iff.mp fits.regular).1
  have laid := regular.layout.laid regular.names
  have layout := parse_layout accepted (by omega)
  obtain ⟨-, c, procedure, finds, row⟩ :=
    parse_codes accepted fits.silent fits.resolved (by omega)
  obtain ⟨start, -, placed⟩ := layout.placed few (k := 0) (Nat.zero_le _)
  obtain ⟨space, contains⟩ := placed.contains row
  have plain : c.procedure ≤ 0 := Int.le_of_eq procedure
  have around : Around (prepareMcode s.gen.code FINAL_CODE) [⟨block.rib, 0⟩] := by
    refine ⟨fun layer member => ?_, Runnable.serves accepted fits⟩
    rw [List.mem_singleton.mp member]
    exact regular.names
  have registers := fits.fits contains.left
  rw [bodyCode_eq (.inl plain)] at registers contains
  obtain ⟨vm, entered, there⟩ := main_holds laid placed.jump space fits.short fits.room input
  exact ⟨c, start + 1, vm, around, ⟨finds, .inl plain, regular.writes, contains.left, registers⟩,
    contains.right, entered, there⟩

/-- A run of the main block that terminates takes the machine to its halt. -/
theorem Begun.runs {program : List Instruction} {input : List Int} {c : CodeContext} {d : Nat}
    {vm : VirtualMachine} {m : Memory} (begun : Begun program block input c d vm)
    (short : program.length ≤ maxCodeLength)
    (run : Performs intArithmetic RoomFor [⟨block.rib, 0⟩] block.statement
      (.start block input) m) : RunsTo program block input m := by
  obtain ⟨vm2, turns, done, -⟩ := run.turns short begun.around begun.body begun.there
  have executed : instructionExecution (vm2.fetched (instr .sio 0 0 3)) =
      .ok { vm2.fetched (instr .sio 0 0 3) with status := .idle } := rfl
  have halt := done.fetched_turn begun.halt short executed
  obtain ⟨fuel, ran⟩ := runVm_of_turns ((begun.turns.trans turns).tail halt)
    (by decide : VmStatus.idle ≠ .running)
  refine ⟨fuel, _, ran, rfl, done.carries.output, ?_⟩
  intro a first v member x value
  have here : m.activations[0]? = some a := by
    rw [← List.head?_eq_getElem?]
    exact first
  obtain ⟨a', there', vars⟩ := done.carries.layers _ List.mem_cons_self
  have own : v ∈ a.vars := by
    rw [Option.some.inj (here.symm.trans there'), vars]
    exact member
  exact done.carries.cells 0 a here v own x value

/-- For every accepted program, with procedures inside procedures that call each other and
themselves, and every run of its source that terminates: if the values on the way fit an `int`
and the frames the stack, the machine runs the linked code as the source runs. -/
theorem procedures_translated (accepted : parse fuel tokens = .ok block s)
    (fits : Runnable block s) {input : List Int} {m : Memory}
    (run : Performs exactArithmetic (fun _ => True) [⟨block.rib, 0⟩] block.statement
      (.start block input) m)
    (small : ∃ m', Performs intArithmetic RoomFor [⟨block.rib, 0⟩] block.statement
      (.start block input) m') :
    RunsTo (prepareMcode s.gen.code FINAL_CODE) block input m := by
  obtain ⟨m', inInt⟩ := small
  obtain ⟨c, d, vm, begun⟩ := fits.begun accepted input
  obtain rfl := run.unique begun.around inInt.exact
  exact begun.runs fits.short inInt

end Parse

/-- `var n, r; procedure f; var k; procedure g; begin r := r + k end; begin k := n; n := n - 1;
if n > 0 then call f; call g end; begin read n; call f; write r end.` -/
def summing : List CurrentToken :=
  [.word .varsym, .ident [110], .word .commasym, .ident [114], .word .semicolonsym,
    .word .procsym, .ident [102], .word .semicolonsym, .word .varsym, .ident [107],
    .word .semicolonsym, .word .procsym, .ident [103], .word .semicolonsym, .word .beginsym,
    .ident [114], .word .becomessym, .ident [114], .word .plussym, .ident [107], .word .endsym,
    .word .semicolonsym, .word .beginsym, .ident [107], .word .becomessym, .ident [110],
    .word .semicolonsym, .ident [110], .word .becomessym, .ident [110], .word .minussym,
    .number 1, .word .semicolonsym, .word .ifsym, .ident [110], .word .gtrsym, .number 0,
    .word .thensym, .word .callsym, .ident [102], .word .semicolonsym, .word .callsym,
    .ident [103], .word .endsym, .word .semicolonsym, .word .beginsym, .word .readsym,
    .ident [110], .word .semicolonsym, .word .callsym, .ident [102], .word .semicolonsym,
    .word .writesym, .ident [114], .word .endsym, .word .periodsym]

def nameTerm (name : Name) : FactorExp :=
  .cons .nulsym (.ident name) .nil

/-- The body of its inner procedure. -/
def summingInner : BlockNode :=
  .mk [] [] .nil <| .begin <| .cons
    (.assign [114] (.cons .unset (nameTerm [114]) (.cons .plussym (nameTerm [107]) .nil))) .nil

/-- The body of its outer one. -/
def summingOuter : BlockNode :=
  .mk [] [⟨[107], 1, 1, 4⟩] (.cons [103] 2 2 1 summingInner .nil) <| .begin <| .cons
    (.assign [107] (.cons .unset (nameTerm [110]) .nil)) <| .cons
    (.assign [110] (.cons .unset (nameTerm [110])
      (.cons .minussym (.cons .nulsym (.digit 1) .nil) .nil))) <| .cons
    (.ifS (.relOp .gtrsym (.cons .unset (nameTerm [110]) .nil)
      (.cons .unset (.cons .nulsym (.digit 0) .nil) .nil)) (.call [102])) <| .cons
    (.call [103]) .nil

/-- Its tree. -/
def summingBlock : BlockNode :=
  .mk [] [⟨[110], 0, 0, 4⟩, ⟨[114], 0, 0, 5⟩] (.cons [102] 1 1 0 summingOuter .nil) <| .begin <|
    .cons (.read [110]) <| .cons (.call [102]) <| .cons (.write [114]) .nil

theorem summing_parsed : ∃ s, parse 60 summing = .ok summingBlock s ∧ Runnable summingBlock s := by
  have looked : returned? (fun block s => decide (block = summingBlock ∧ s.reports = [] ∧
      (∀ u ∈ uses s.gen.trace, u.Resolves) ∧
      (∀ ir ∈ prepareMcode s.gen.code FINAL_CODE, ∀ i ∈ registerOperands ir,
        i < commonRegisterNumber) ∧
      ((prepareMcode s.gen.code FINAL_CODE).length : Int) ≤ maxCodeLength)) (parse 60 summing) =
        some true := by
    decide +kernel
  obtain ⟨block, s, accepted, met⟩ := returned?_eq_some.mp looked
  obtain ⟨rfl, silent, resolved, registers, short⟩ := of_decide_eq_true met
  have outer : ∀ ribs, Regular ribs 1 summingOuter := fun ribs =>
    ⟨by decide, rfl, .inr ⟨_, rfl, rfl⟩, fun name member => absurd member List.not_mem_nil⟩
  have inner : ∀ ribs, Regular ribs 2 summingInner := fun ribs =>
    ⟨by decide, rfl, .inr ⟨_, rfl, rfl⟩, fun name member => absurd member List.not_mem_nil⟩
  have main : Regular [summingBlock.rib] 0 summingBlock := by
    refine ⟨by decide, rfl, .inl rfl, fun name member => ?_⟩
    have written : name ∈ [[114]] := member
    rw [List.mem_singleton.mp written]
    exact ⟨_, _, rfl, by decide⟩
  exact ⟨s, accepted, silent, resolved, by decide,
    ⟨main, ⟨outer _, ⟨inner _, trivial⟩, trivial⟩, trivial⟩,
    registers, by decide, short⟩

/-- A call of the only procedure that a block declares. -/
theorem performs_only {env outer : List Layer} {layer : Layer} {m m' : Memory} (p : Procedure)
    (seen : visible (·.rib.names) p.ident env = layer :: outer) (declared : layer.rib.procs = [p])
    (room : RoomFor (m.enter p.body.varDecl).activations)
    (body : Performs intArithmetic RoomFor (called layer outer [] p m.activations.length)
      p.body.statement (m.enter p.body.varDecl) m') :
    Performs intArithmetic RoomFor env (.call p.ident) m m'.leave :=
  .call seen (declared.trans (List.nil_append _).symm) room body

def summingProc : Procedure := ⟨[102], 1, 1, 0, summingOuter⟩
def addingProc : Procedure := ⟨[103], 2, 2, 1, summingInner⟩

/-- The outer procedure calls itself once, and each of its activations adds its own `k`. -/
theorem summing_performs : ∃ m, Performs intArithmetic RoomFor [⟨summingBlock.rib, 0⟩]
    summingBlock.statement (.start summingBlock [2]) m ∧ m.output = [3] :=
  ⟨_, .next (.read rfl (by decide) rfl) (.next
      (performs_only summingProc rfl rfl (by decide)
        (.next (.assign rfl (by decide) rfl) (.next (.assign rfl (by decide) rfl) (.next
          (.ifHolds rfl (performs_only summingProc rfl rfl (by decide)
            (.next (.assign rfl (by decide) rfl) (.next (.assign rfl (by decide) rfl) (.next
              (.ifFails rfl) (.next
                (performs_only addingProc rfl rfl (by decide)
                  (.next (.assign rfl (by decide) rfl) (.done _ _)))
                (.done _ _)))))))
          (.next (performs_only addingProc rfl rfl (by decide)
              (.next (.assign rfl (by decide) rfl) (.done _ _)))
            (.done _ _))))))
      (.next (.write rfl) (.done _ _))), rfl⟩

theorem procedures_translated_summing : ∃ s m, parse 60 summing = .ok summingBlock s ∧
    Performs exactArithmetic (fun _ => True) [⟨summingBlock.rib, 0⟩] summingBlock.statement
      (.start summingBlock [2]) m ∧ m.output = [3] ∧
    RunsTo (prepareMcode s.gen.code FINAL_CODE) summingBlock [2] m := by
  obtain ⟨s, accepted, fits⟩ := summing_parsed
  obtain ⟨m, performs, printed⟩ := summing_performs
  exact ⟨s, m, accepted, performs.exact, printed,
    procedures_translated accepted fits performs.exact ⟨m, performs⟩⟩

end Pl0
