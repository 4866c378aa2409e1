import Pl0.ActivationStack
import Pl0.ScopedCode

set_option autoImplicit false

namespace Pl0

open StateExcept

section Names

variable {c : CodeContext} {env outer : List Layer} {layer : Layer} {names : List Name}
  {name : Name} {m : Memory} {vm : VirtualMachine}

/-- Every block around the code tells its names apart. -/
def Distinct (env : List Layer) : Prop :=
  ∀ layer ∈ env, layer.rib.names.Nodup

/-- The layer of a name that the code has found. -/
theorem Finds.symbol (finds : Finds c (env.map (·.rib)) names) (used : name ∈ names)
    (seen : visible (·.rib.names) name env = layer :: outer) :
    ∃ symbol before, c.lookup name = some symbol ∧ env = before ++ layer :: outer ∧
      c.level - symbol.level = before.length ∧ layer.rib.Declares symbol ∧ symbol.name = name := by
  obtain ⟨symbol, looked, denotes⟩ := finds.found name used
  obtain ⟨before, layer', outer', split, seen', declares, named, level⟩ := denotes.layer
  rw [seen, List.cons.injEq] at seen'
  obtain ⟨rfl, rfl⟩ := seen'
  refine ⟨symbol, before, looked, split, ?_, declares, named⟩
  rw [finds.level, level, split, List.length_map, List.length_append, List.length_cons]
  omega

/-- A variable, as an instruction addresses it. -/
structure Addressed (c : CodeContext) (env before outer : List Layer) (layer : Layer) (name : Name)
    (symbol : Symbol) (v : VarDeclNode) : Prop where
  lookup : c.lookup name = some symbol
  kind : symbol.kind = .varS
  split : env = before ++ layer :: outer
  links : c.level - symbol.level = before.length
  declared : v ∈ layer.rib.varDecl
  ident : v.ident = name
  addr : symbol.addr = v.addr

theorem Finds.variable (finds : Finds c (env.map (·.rib)) names) (distinct : Distinct env)
    (used : name ∈ names) (seen : visible (·.rib.names) name env = layer :: outer)
    (declared : name ∈ layer.rib.varNames) :
    ∃ before symbol v, Addressed c env before outer layer name symbol v := by
  obtain ⟨symbol, before, looked, split, links, declares, named⟩ := finds.symbol used seen
  obtain ⟨v, member, ident⟩ := List.mem_map.mp declared
  have apart := distinct layer (by
    rw [split]
    exact List.mem_append_right _ List.mem_cons_self)
  obtain ⟨kind, addr⟩ := Rib.declares_var apart declares member (ident.trans named.symm)
  exact ⟨before, symbol, v, looked, kind, split, links, member, ident, addr⟩

/-- The value of a name where it is one of these. -/
def among (names : List Name) (value : Name → Option Int) (name : Name) : Option Int :=
  if names.contains name then value name else none

theorem among_of_mem {value : Name → Option Int} (used : name ∈ names) :
    value name = among names value name :=
  (if_pos (List.contains_iff_mem.mpr used)).symm

/-- A word of a variable lies in the stack. -/
theorem Carries.variable_inside (carries : Carries env m vm) (member : layer ∈ env)
    {v : VarDeclNode}
    (declared : v ∈ layer.rib.varDecl) :
    0 ≤ m.base layer.place + v.addr ∧ m.base layer.place + v.addr < maxStackHeight := by
  obtain ⟨a, here, vars⟩ := carries.layers layer member
  rw [← vars] at declared
  obtain ⟨cell, addr, -, inside⟩ := (carries.laid a (List.mem_of_getElem? here)).cell declared
  rw [addr]
  exact Memory.word_inside carries.fits here inside

/-- The machine knows the values of the names that the code mentions. -/
theorem Carries.knows (carries : Carries env m vm) (finds : Finds c (env.map (·.rib)) names)
    (distinct : Distinct env) : Knows c (among names (valueOf env m)) vm := by
  intro name v value
  by_cases used : name ∈ names
  · rw [← among_of_mem used] at value
    unfold valueOf at value
    cases seen : visible (·.rib.names) name env with
    | nil =>
        rw [seen] at value
        cases value
    | cons layer outer =>
        rw [seen] at value
        dsimp only at value
        cases constant : layer.rib.constDecl.find? fun k => k.ident = name with
        | some k =>
            rw [constant] at value
            obtain ⟨symbol, before, looked, split, -, declares, named⟩ := finds.symbol used seen
            have apart := distinct layer (by
              rw [split]
              exact List.mem_append_right _ List.mem_cons_self)
            have ident : k.ident = name := by simpa using List.find?_some constant
            obtain ⟨kind, val⟩ := Rib.declares_const apart declares
              (List.mem_of_find?_eq_some constant) (ident.trans named.symm)
            unfold nameValue
            simp only [looked, kind, val]
            exact value
        | none =>
            rw [constant] at value
            dsimp only at value
            by_cases declared : name ∈ layer.rib.varNames
            · rw [if_pos (List.contains_iff_mem.mpr declared)] at value
              obtain ⟨a, here, cell⟩ := Option.bind_eq_some_iff.mp value
              obtain ⟨before, symbol, w, home⟩ := finds.variable distinct used seen declared
              have member : layer ∈ env := by
                rw [home.split]
                exact List.mem_append_right _ List.mem_cons_self
              obtain ⟨a', here', vars⟩ := carries.layers layer member
              have same : a = a' := Option.some.inj (here.symm.trans here')
              have own : w ∈ a.vars := by
                rw [same, vars]
                exact home.declared
              have read : readStack vm (m.base layer.place + symbol.addr) = .ok v := by
                rw [home.addr]
                refine readStack_eq_ok.mpr ⟨carries.variable_inside member home.declared, ?_⟩
                rw [← home.ident] at cell
                exact carries.cells _ a here w own v cell
              unfold nameValue
              simp only [home.lookup, home.kind]
              rw [home.links, Except.bind_of_ok (carries.reaches home.split), read]
              rfl
            · rw [if_neg (mt List.contains_iff_mem.mp declared)] at value
              cases value
  · unfold among at value
    rw [if_neg (mt List.contains_iff_mem.mp used)] at value
    cases value

end Names

/-- The machine runs the program, stands at index `i` of the set that was moved to `d`, and
carries the activations. -/
structure HoldsAt (program : List Instruction) (d : Nat) (env : List Layer) (m : Memory) (i : Nat)
    (vm : VirtualMachine) : Prop where
  code : vm.code = program
  running : vm.status = .running
  pc : vm.pc = d + i
  carries : Carries env m vm

/-- Turns from here that lead to where the machine carries what is left, with the control words
of all frames as they are. -/
def Goes (program : List Instruction) (d : Nat) (env : List Layer) (m m' : Memory) (j : Nat)
    (vm : VirtualMachine) : Prop :=
  ∃ vm', Turns vm vm' ∧ HoldsAt program d env m' j vm' ∧ KeepsFrames m vm vm'

section Turns

variable {c : CodeContext} {program : List Instruction} {d i j : Nat} {env outer : List Layer}
  {layer : Layer} {names : List Name} {m m' m'' : Memory} {n : Int} {vm vm' : VirtualMachine}
  {name : Name}

theorem Goes.refl (holds : HoldsAt program d env m i vm) : Goes program d env m m i vm :=
  ⟨vm, .refl, holds, .of_stack rfl⟩

theorem Goes.trans (first : Goes program d env m m' i vm) (shape : m'.shape = m.shape)
    (rest : ∀ vm', HoldsAt program d env m' i vm' → Goes program d env m' m'' j vm') :
    Goes program d env m m'' j vm := by
  obtain ⟨vm1, turns, there, keeps⟩ := first
  obtain ⟨vm2, turns', behind, keeps'⟩ := rest vm1 there
  exact ⟨vm2, turns.trans turns', behind, keeps.trans (keeps'.of_shape shape.symm)⟩

theorem HoldsAt.pc_succ (holds : HoldsAt program d env m i vm) :
    vm.pc + 1 = d + (i + 1 : Nat) := by
  rw [holds.pc]
  omega

/-- A machine that differs in its registers and its place only. -/
theorem HoldsAt.same (holds : HoldsAt program d env m i vm) (code : vm'.code = vm.code)
    (status : vm'.status = vm.status) (pc : vm'.pc = d + j) (stack : vm'.stack = vm.stack)
    (bp : vm'.bp = vm.bp) (sp : vm'.sp = vm.sp) (frameLevel : vm'.frameLevel = vm.frameLevel)
    (input : vm'.input = vm.input) (output : vm'.output = vm.output) :
    HoldsAt program d env m j vm' :=
  ⟨code.trans holds.code, status.trans holds.running, pc,
    holds.carries.congr (fun _ _ => congrFun stack _) bp sp frameLevel input output⟩

theorem HoldsAt.fetched_turn (holds : HoldsAt program d env m i vm) {ir : Instruction}
    {rest : List Instruction} (contains : Contains program d i (ir :: rest))
    (short : program.length ≤ maxCodeLength)
    (executed : instructionExecution (vm.fetched (relocate d ir)) = .ok vm') : Turn vm vm' := by
  have here : Contains vm.code d i (ir :: rest) := by
    rw [holds.code]
    exact contains
  exact here.turn holds.pc (by rw [holds.code]; exact short) holds.running executed

/-- Plain code that computes a value is run in so many turns. -/
theorem HoldsAt.computes (holds : HoldsAt program d env m i vm) {code : List Instruction}
    (plain : Plain code) (contains : Contains program d i code)
    (short : program.length ≤ maxCodeLength) {v : Int} (computes : Computes code n v vm) :
    ∃ vm', Turns vm vm' ∧ HoldsAt program d env m (i + code.length) vm' ∧
      vm'.stack = vm.stack ∧ vm'.r n = v := by
  obtain ⟨vm', executed, advanced, value⟩ := computes
  have here : Contains vm.code d i code := by
    rw [holds.code]
    exact contains
  refine ⟨vm', execute_turns plain here holds.pc (by rw [holds.code]; exact short) holds.running
    executed, ?_, advanced.stack, value⟩
  have pc : vm'.pc = d + (i + code.length : Nat) := by
    rw [advanced.pc, holds.pc]
    omega
  refine holds.same advanced.code ?_ pc advanced.stack advanced.bp advanced.sp ?_ ?_ ?_
  all_goals rw [advanced.rest]

/-- A store changes the variable and nothing else. -/
theorem HoldsAt.store (holds : HoldsAt program d env m i vm)
    (finds : Finds c (env.map (·.rib)) names) (distinct : Distinct env) (used : name ∈ names)
    (seen : visible (·.rib.names) name env = layer :: outer)
    (declared : name ∈ layer.rib.varNames) (contains : Contains program d i (compileStore c n name))
    (short : program.length ≤ maxCodeLength) (register : 0 ≤ n ∧ n < commonRegisterNumber) :
    Goes program d env m (m.set layer.place name (vm.r n)) (i + 1) vm := by
  obtain ⟨before, symbol, v, home⟩ := finds.variable distinct used seen declared
  have member : layer ∈ env := by
    rw [home.split]
    exact List.mem_append_right _ List.mem_cons_self
  have code : compileStore c n name = [instr .sto n before.length v.addr] := by
    unfold compileStore
    rw [home.lookup]
    simp only [home.links, home.addr]
  rw [code] at contains
  let ir := instr .sto n before.length v.addr
  let stored := Function.update vm.stack (m.base layer.place + v.addr) (vm.r n)
  have executed : instructionExecution (vm.fetched ir) =
      .ok { vm.fetched ir with stack := stored } := by
    have linked := holds.carries.reaches home.split
    rw [← base_fetched vm ir] at linked
    refine Except.bind_eq_ok.mpr ⟨_, linked, Except.bind_eq_ok.mpr ⟨vm.r n, ?_, ?_⟩⟩
    · exact readReg_eq_ok.mpr ⟨register, rfl⟩
    · exact writeStack_eq_ok.mpr ⟨holds.carries.variable_inside member home.declared, rfl⟩
  let vm' := { vm.fetched ir with stack := stored }
  have changed : Carries env (m.set layer.place v.ident (vm.r n)) vm' ∧ KeepsFrames m vm vm' :=
    holds.carries.set member home.declared rfl rfl rfl rfl rfl rfl
  obtain ⟨carries, keeps⟩ := changed
  rw [home.ident] at carries
  exact ⟨_, .single (holds.fetched_turn contains short executed), ⟨holds.code, holds.running,
    holds.pc_succ, carries⟩, keeps⟩

/-- A conditional jump leads to its target when its register is 0. -/
theorem HoldsAt.branches (holds : HoldsAt program d env m i vm) {target : Nat}
    (contains : Contains program d i [instr .jpc n 0 target])
    (short : program.length ≤ maxCodeLength) (register : 0 ≤ n ∧ n < commonRegisterNumber) :
    Goes program d env m m (if vm.r n = 0 then target else i + 1) vm := by
  have read : readReg (vm.fetched (instr .jpc n 0 (target + d))) n = .ok (vm.r n) :=
    readReg_eq_ok.mpr ⟨register, rfl⟩
  have executed : instructionExecution (vm.fetched (instr .jpc n 0 (target + d))) =
      .ok (if vm.r n = 0 then { vm.fetched (instr .jpc n 0 (target + d)) with pc := target + d }
        else vm.fetched (instr .jpc n 0 (target + d))) := by
    exact Except.bind_of_ok read _
  have turn := holds.fetched_turn contains short executed
  by_cases zero : vm.r n = 0
  · rw [if_pos zero] at turn
    rw [if_pos zero]
    exact ⟨_, .single turn, holds.same rfl rfl (Int.add_comm _ _) rfl rfl rfl rfl rfl rfl,
      .of_stack rfl⟩
  · rw [if_neg zero] at turn
    rw [if_neg zero]
    exact ⟨_, .single turn, holds.same rfl rfl holds.pc_succ rfl rfl rfl rfl rfl rfl, .of_stack rfl⟩

theorem HoldsAt.jumps (holds : HoldsAt program d env m i vm) {target : Nat}
    (contains : Contains program d i [instr .jmp 0 0 target])
    (short : program.length ≤ maxCodeLength) : Goes program d env m m target vm := by
  have executed : instructionExecution (vm.fetched (instr .jmp 0 0 (target + d))) =
      .ok { vm.fetched (instr .jmp 0 0 (target + d)) with pc := target + d } := rfl
  exact ⟨_, .single (holds.fetched_turn contains short executed),
    holds.same rfl rfl (Int.add_comm _ _) rfl rfl rfl rfl rfl rfl, .of_stack rfl⟩

/-- A number read goes to the register. -/
theorem HoldsAt.reads (holds : HoldsAt program d env m i vm) {rest : List Instruction}
    (contains : Contains program d i (instr .sio n 0 2 :: rest))
    (short : program.length ≤ maxCodeLength) (register : 0 ≤ n ∧ n < commonRegisterNumber)
    {v : Int} {input : List Int} (more : m.input = v :: input) :
    ∃ vm', Turn vm vm' ∧ HoldsAt program d env { m with input := input } (i + 1) vm' ∧
      vm'.stack = vm.stack ∧ vm'.r n = v := by
  have waiting : (vm.fetched (instr .sio n 0 2)).input = v :: input :=
    holds.carries.input.trans more
  have executed : instructionExecution (vm.fetched (instr .sio n 0 2)) =
      .ok { vm.fetched (instr .sio n 0 2) with r := Function.update vm.r n v, input := input } := by
    change executeSio (vm.fetched (instr .sio n 0 2)) n 2 = _
    unfold executeSio
    simp only [waiting]
    have written : writeReg (vm.fetched (instr .sio n 0 2)) n v =
        .ok { vm.fetched (instr .sio n 0 2) with r := Function.update vm.r n v } :=
      writeReg_eq_ok.mpr ⟨register, rfl⟩
    rw [Except.bind_of_ok written]
    rfl
  have carries := holds.carries
  refine ⟨_, holds.fetched_turn contains short executed, ⟨holds.code, holds.running,
    holds.pc_succ, ?_⟩, rfl, Function.update_self _ _ _⟩
  exact carries.moved rfl (.of_stack rfl) rfl rfl rfl carries.cells rfl carries.output

theorem HoldsAt.prints (holds : HoldsAt program d env m i vm)
    (contains : Contains program d i [instr .sio n 0 1]) (short : program.length ≤ maxCodeLength)
    (register : 0 ≤ n ∧ n < commonRegisterNumber) :
    Goes program d env m { m with output := m.output ++ [vm.r n] } (i + 1) vm := by
  have executed : instructionExecution (vm.fetched (instr .sio n 0 1)) =
      .ok { vm.fetched (instr .sio n 0 1) with output := vm.output ++ [vm.r n] } :=
    Except.bind_eq_ok.mpr ⟨vm.r n, readReg_eq_ok.mpr ⟨register, rfl⟩, rfl⟩
  have carries := holds.carries
  refine ⟨_, .single (holds.fetched_turn contains short executed), ⟨holds.code, holds.running,
    holds.pc_succ, ?_⟩, .of_stack rfl⟩
  exact carries.moved rfl (.of_stack rfl) rfl rfl rfl carries.cells carries.input
    (congrArg (· ++ [vm.r n]) carries.output)

end Turns

section Calls

variable {program : List Instruction} {d i j start : Nat} {env before outer : List Layer}
  {layer : Layer} {m m' : Memory} {vm vm' : VirtualMachine}

/-- The frame of a call ends in front of the end of the stack. -/
theorem RoomFor.enter {vars : List VarDeclNode} (room : RoomFor (m.enter vars).activations) :
    (m.activations.length : Int) + 1 ≤ maxLexiLevels ∧
      (m.sizes.sum : Int) + vars.length + 4 < maxStackHeight := by
  obtain ⟨few, small⟩ := room
  have sizes := Memory.enter_sizes m vars
  unfold Memory.sizes at sizes
  rw [sizes, List.sum_append, List.sum_singleton] at small
  unfold Memory.enter at few
  rw [List.length_append, List.length_singleton] at few
  unfold Memory.sizes
  exact ⟨by omega, by omega⟩

/-- What keeps the control words of the callee and of the frames below it. -/
theorem KeepsFrames.of_enter {vars : List VarDeclNode}
    (keeps : KeepsFrames (m.enter vars) vm vm') : KeepsFrames m vm vm' ∧
      ∀ word : Nat, word < 4 → vm'.stack (m.sizes.sum + (word + 1)) =
        vm.stack (m.sizes.sum + (word + 1)) := by
  have length : (m.enter vars).activations.length = m.activations.length + 1 := by
    unfold Memory.enter
    exact List.length_append
  constructor
  · intro k inside word low
    rw [← Memory.enter_base vars (Nat.le_of_lt inside)]
    exact keeps k (by omega) word low
  · intro word low
    have own := keeps m.activations.length (by omega) word low
    rw [Memory.enter_base_new, Int.add_assoc, Int.add_comm 1] at own
    exact own

theorem Carries.nonempty (carries : Carries env m vm) : 0 < m.activations.length := by
  obtain ⟨first, rest, -, last, -⟩ := carries.current
  omega

theorem Carries.sum_pos (carries : Carries env m vm) : 1 ≤ (m.sizes.sum : Int) := by
  have here := List.getElem?_eq_getElem carries.nonempty
  have below := Memory.word_lt_top here (Nat.lt_of_lt_of_le (by decide : 0 < 4)
    (Nat.le_add_left _ _))
  rw [Memory.base_zero] at below
  omega

/-- A call makes the control words of its frame, goes through the jump of the procedure and
reserves the words of the variables. -/
theorem HoldsAt.call (holds : HoldsAt program d env m i vm)
    (split : env = before ++ layer :: outer) {known : List Procedure} {p : Procedure}
    (contains : Contains program d i [instr .cal 0 before.length p.addr])
    (short : program.length ≤ maxCodeLength)
    (jump : ∃ k : Nat, p.addr = k ∧ program[k]? = some (procedureJump start))
    (space : program[start]? = some (instr .inc 0 0 (p.body.varDecl.length + 4)))
    (laid : Laid p.body.varDecl) (room : RoomFor (m.enter p.body.varDecl).activations) :
    ∃ vm', Turns vm vm' ∧ HoldsAt program (start + 1)
        (called layer outer known p m.activations.length) (m.enter p.body.varDecl) 0 vm' ∧
      KeepsFrames m vm vm' ∧ vm'.stack (m.sizes.sum + 3) = vm.bp ∧
        vm'.stack (m.sizes.sum + 4) = vm.pc + 1 := by
  have carries := holds.carries
  have sp := carries.sp
  have level := carries.frameLevel
  have positive := carries.sum_pos
  obtain ⟨few, small⟩ := room.enter
  obtain ⟨k, number, entry⟩ := jump
  have limit : maxStackHeight = 2000 := rfl
  let ir := instr .cal 0 before.length p.addr
  let fetched := vm.fetched ir
  let saved := { fetched with stack := Function.update vm.stack (vm.sp + 1) 0 }
  have link : base saved before.length vm.bp = .ok (m.base layer.place) := by
    have above : Carries env m saved := by
      refine carries.congr (fun place below => ?_) rfl rfl rfl rfl rfl
      exact Function.update_of_ne (by omega) _ _
    exact above.reaches split
  let linked := { saved with
    stack := Function.update saved.stack (vm.sp + 2) (m.base layer.place) }
  let based := { linked with stack := Function.update linked.stack (vm.sp + 3) vm.bp }
  let returning := { based with stack := Function.update based.stack (vm.sp + 4) (vm.pc + 1) }
  let entering := { returning with
    frameBreak := Function.update vm.frameBreak vm.frameLevel vm.sp
    bp := vm.sp + 1, pc := p.addr, frameLevel := vm.frameLevel + 1 }
  have executed : instructionExecution (vm.fetched ir) = .ok entering := by
    refine Except.bind_eq_ok.mpr ⟨saved, writeStack_eq_ok.mpr ⟨?_, rfl⟩, ?_⟩
    · change 0 ≤ vm.sp + 1 ∧ vm.sp + 1 < maxStackHeight
      omega
    refine Except.bind_eq_ok.mpr ⟨_, link, ?_⟩
    refine Except.bind_eq_ok.mpr ⟨linked, writeStack_eq_ok.mpr ⟨?_, rfl⟩, ?_⟩
    · change 0 ≤ vm.sp + 2 ∧ vm.sp + 2 < maxStackHeight
      omega
    refine Except.bind_eq_ok.mpr ⟨based, writeStack_eq_ok.mpr ⟨?_, rfl⟩, ?_⟩
    · change 0 ≤ vm.sp + 3 ∧ vm.sp + 3 < maxStackHeight
      omega
    refine Except.bind_eq_ok.mpr ⟨returning, writeStack_eq_ok.mpr ⟨?_, rfl⟩, ?_⟩
    · change 0 ≤ vm.sp + 4 ∧ vm.sp + 4 < maxStackHeight
      omega
    refine Except.bind_eq_ok.mpr ⟨_, writeFrameBreak_eq_ok.mpr ⟨?_, rfl⟩, rfl⟩
    change 0 ≤ vm.frameLevel ∧ vm.frameLevel < maxLexiLevels
    have nonempty := carries.nonempty
    omega
  have first : Turn vm entering := holds.fetched_turn contains short executed
  have table : Fetches entering (procedureJump start) := by
    have inside := (List.getElem?_eq_some_iff.mp entry).1
    have code : entering.code = program := holds.code
    have pc : entering.pc = k := number
    refine ⟨by rw [pc]; exact Int.natCast_nonneg k, by rw [pc]; omega, ?_⟩
    rw [code, pc]
    exact entry
  let body := { entering.fetched (procedureJump start) with pc := (start : Int) }
  have second : Turn entering body := ⟨holds.running, step_of_fetches table⟩
  have reserve : Fetches body (instr .inc 0 0 (p.body.varDecl.length + 4)) := by
    have inside := (List.getElem?_eq_some_iff.mp space).1
    have code : body.code = program := holds.code
    refine ⟨Int.natCast_nonneg start, ?_, ?_⟩
    · change (start : Int) < _
      omega
    · rw [code]
      exact space
  have grown : toInt (vm.sp + (p.body.varDecl.length + 4)) =
      .ok (vm.sp + (p.body.varDecl.length + 4)) := by
    refine toInt_eq_ok.mpr ⟨?_, rfl⟩
    unfold InInt intMin intMax
    omega
  let entered := { body.fetched (instr .inc 0 0 (p.body.varDecl.length + 4)) with
    sp := vm.sp + (p.body.varDecl.length + 4) }
  have third : Turn body entered :=
    ⟨holds.running, (step_of_fetches reserve).trans (Except.bind_of_ok grown _)⟩
  have stack : entered.stack = Function.update (Function.update (Function.update
      (Function.update vm.stack (vm.sp + 1) 0) (vm.sp + 2) (m.base layer.place))
      (vm.sp + 3) vm.bp) (vm.sp + 4) (vm.pc + 1) := rfl
  have below : ∀ place ≤ (m.sizes.sum : Int), entered.stack place = vm.stack place := by
    intro place le
    rw [stack, Function.update_of_ne (by omega), Function.update_of_ne (by omega),
      Function.update_of_ne (by omega), Function.update_of_ne (by omega)]
  have keeps : KeepsFrames m vm entered := by
    intro k inside word low
    have here := List.getElem?_eq_getElem inside
    exact below _ (Memory.word_lt_top here (Nat.lt_of_lt_of_le low (Nat.le_add_left _ _)))
  refine ⟨entered, ((Relation.ReflTransGen.single first).tail second).tail third,
    ⟨holds.code, holds.running, ?_, ?_⟩, keeps, ?_, ?_⟩
  · change (start : Int) + 1 = _
    omega
  · refine carries.enter split room laid below ?_ ?_ rfl rfl rfl rfl
    · rw [stack, ← sp, Function.update_of_ne (by omega), Function.update_of_ne (by omega),
        Function.update_self]
    · change vm.sp + 1 = _
      rw [sp]
  · rw [stack, ← sp, Function.update_of_ne (by omega), Function.update_self]
  · rw [stack, ← sp, Function.update_self]

/-- A return leads behind the call, and leaves the frames of the caller as they were. -/
theorem HoldsAt.returns {d' : Nat} {env' : List Layer} {vars : List VarDeclNode}
    (holds : HoldsAt program d env m i vm) (inner : HoldsAt program d' env' m' j vm')
    (contains : Contains program d' j [instr .rtn 0 0 0]) (short : program.length ≤ maxCodeLength)
    (shape : m'.shape = (m.enter vars).shape) (keeps : KeepsFrames m vm vm')
    (bp : vm'.stack (m.sizes.sum + 3) = vm.bp) (pc : vm'.stack (m.sizes.sum + 4) = vm.pc + 1) :
    ∃ vm'', Turn vm' vm'' ∧ HoldsAt program d env m'.leave (i + 1) vm'' ∧
      KeepsFrames m vm vm'' := by
  have room : RoomFor (m.enter vars).activations :=
    (Memory.roomFor_of_shape shape).mp inner.carries.fits
  have positive := holds.carries.sum_pos
  have length := Memory.length_of_shape shape
  have lengthEntered : (m.enter vars).activations.length = m.activations.length + 1 := by
    unfold Memory.enter
    exact List.length_append
  obtain ⟨few, small⟩ := room.enter
  have top : vm'.bp = m.sizes.sum + 1 := by
    obtain ⟨first, -, -, last, base⟩ := inner.carries.current
    have place : first.place = m.activations.length := by omega
    rw [base, Memory.base_of_shape shape, place, Memory.enter_base_new]
  have level := inner.carries.frameLevel
  have callerLevel := holds.carries.frameLevel
  have nonempty := holds.carries.nonempty
  let ir := instr .rtn 0 0 0
  let fetched := vm'.fetched ir
  have deeper : ¬ vm'.bp = 1 := by omega
  have caller : callerBp fetched (vm'.bp - 1) = .ok vm.bp := by
    refine (if_neg deeper).trans (readStack_eq_ok.mpr ⟨by omega, ?_⟩)
    change vm'.stack (vm'.bp - 1 + 3) = _
    rw [← bp, top]
    congr 1
    omega
  have back : readStack fetched (vm'.bp - 1 + 4) = .ok (vm.pc + 1) := by
    refine readStack_eq_ok.mpr ⟨by omega, ?_⟩
    change vm'.stack (vm'.bp - 1 + 4) = _
    rw [← pc, top]
    congr 1
    omega
  let left := { fetched with
    frameBreak := Function.update vm'.frameBreak vm'.frameLevel 0
    sp := vm'.bp - 1, bp := vm.bp, pc := vm.pc + 1, frameLevel := vm'.frameLevel - 1 }
  have executed : instructionExecution (vm'.fetched ir) = .ok left := by
    refine Except.bind_eq_ok.mpr ⟨vm.bp, caller, ?_⟩
    refine Except.bind_eq_ok.mpr ⟨vm.pc + 1, back, ?_⟩
    refine Except.bind_eq_ok.mpr ⟨_, writeFrameBreak_eq_ok.mpr ⟨?_, rfl⟩, ?_⟩
    · change 0 ≤ vm'.frameLevel ∧ vm'.frameLevel < maxLexiLevels
      omega
    · change Except.ok { left with status := if vm'.bp = 1 then .idle else vm'.status } = _
      rw [if_neg deeper]
      rfl
  refine ⟨left, inner.fetched_turn contains short executed, ⟨inner.code, inner.running, ?_, ?_⟩,
    keeps.trans (.of_stack rfl)⟩
  · exact holds.pc_succ
  · refine holds.carries.leave inner.carries shape keeps rfl rfl ?_ ?_ rfl rfl
    · change vm'.bp - 1 = _
      rw [holds.carries.sp]
      omega
    · change vm'.frameLevel - 1 = _
      omega

end Calls

/-- The name stands for a variable. -/
def IsVariable (ribs : List Rib) (name : Name) : Prop :=
  ∃ rib outer, visible Rib.names name ribs = rib :: outer ∧ name ∈ rib.varNames

/-- No begin statement stands in the statements of the list. -/
def StatementList.flat : StatementList → Bool
  | .nil => true
  | .cons sts next => !sts.hasBegin && next.flat

/-- The statement may be a begin statement, but there is none inside it. -/
def StatementNode.flat : StatementNode → Bool
  | .begin list => list.flat
  | node => !node.hasBegin

/-- The code of a statement without the return behind it. -/
def bodyCode (c : CodeContext) : StatementNode → Int → Nat → List Instruction
  | .begin list, n, start => compileStatements c list n start
  | node, n, start => compileStatement c node n start

/-- The code of a procedure lies in the program, behind the jump that bears its number. Its
statement part is a begin statement without others inside, since each of them returns. -/
structure ProcedureAt (program : List Instruction) (ribs : List Rib) (number : Int)
    (block : BlockNode)
    (c : CodeContext) (start : Nat) : Prop where
  distinct : ∀ rib ∈ ribs, rib.names.Nodup
  laid : Laid block.varDecl
  flat : block.statement.flat = true
  finds : Finds c ribs block.statement.idents
  writes : ∀ name ∈ block.statement.writes, IsVariable ribs name
  jump : ∃ k : Nat, number = k ∧ program[k]? = some (procedureJump start)
  space : program[start]? = some (instr .inc 0 0 (block.varDecl.length + 4))
  code : Contains program (start + 1) 0 (bodyCode c block.statement 0 0 ++ [instr .rtn 0 0 0])
  fits : FitsRegisters (bodyCode c block.statement 0 0)

def Serves (program : List Instruction) (ribs : List Rib) (number : Int) (block : BlockNode) :
    Prop :=
  ∃ c start, ProcedureAt program ribs number block c start

/-- What the layers of a running piece of code are like. -/
structure Around (program : List Instruction) (env : List Layer) : Prop where
  distinct : Distinct env
  opened : OpenTo (Serves program) (env.map (·.rib))

/-- The code of a statement lies in the program, and does what the statement needs. -/
structure Translated (program : List Instruction) (d : Nat) (c : CodeContext) (env : List Layer)
    (node : StatementNode) (n : Int) (i : Nat) : Prop where
  finds : Finds c (env.map (·.rib)) node.idents
  plain : c.procedure ≤ 0 ∨ node.flat = true
  writes : ∀ name ∈ node.writes, IsVariable (env.map (·.rib)) name
  contains : Contains program d i (bodyCode c node n i)
  fits : FitsRegisters (bodyCode c node n i)

section Statements

variable {c : CodeContext} {program : List Instruction} {d i : Nat} {env outer : List Layer}
  {layer : Layer} {m m' : Memory} {n : Int} {vm : VirtualMachine}

theorem Finds.mono {ribs : List Rib} {names names' : List Name} (finds : Finds c ribs names)
    (sub : ∀ name ∈ names', name ∈ names) : Finds c ribs names' :=
  ⟨finds.level, fun name used => finds.found name (sub name used)⟩

theorem flat_of_not_hasBegin {node : StatementNode} (none : node.hasBegin = false) :
    node.flat = true := by
  cases node with
  | begin list => cases none
  | _ => exact congrArg (!·) none

theorem bodyCode_eq {node : StatementNode} (plain : c.procedure ≤ 0 ∨ node.hasBegin = false)
    (n : Int) (i : Nat) : compileStatement c node n i = bodyCode c node n i := by
  cases node with
  | begin list =>
      rcases plain with main | none
      · rw [compileStatement, compileReturn, if_neg (by omega), List.append_nil]
        rfl
      · cases none
  | _ => rfl

/-- A statement inside another one. -/
theorem translated_inner {node : StatementNode}
    (finds : Finds c (env.map (·.rib)) node.idents)
    (plain : c.procedure ≤ 0 ∨ node.hasBegin = false)
    (writes : ∀ name ∈ node.writes, IsVariable (env.map (·.rib)) name)
    (contains : Contains program d i (compileStatement c node n i))
    (fits : FitsRegisters (compileStatement c node n i)) :
    Translated program d c env node n i := by
  rw [bodyCode_eq plain] at contains fits
  exact ⟨finds, plain.imp_right flat_of_not_hasBegin, writes, contains, fits⟩

/-- A test leads into its branch, or to where the failed test goes. -/
theorem HoldsAt.guard (holds : HoldsAt program d env m i vm) (around : Around program env)
    {cond : ConditionNode} (finds : Finds c (env.map (·.rib)) cond.idents) {holding : Bool}
    {branch : List Instruction} {failed : Nat} {stop : Int}
    (contains : Contains program d i (guarded (compileCondition c n cond) branch n failed stop))
    (short : program.length ≤ maxCodeLength)
    (fits : FitsRegisters (guarded (compileCondition c n cond) branch n failed stop))
    (value : intArithmetic.condition (valueOf env m) cond = some holding) :
    Goes program d env m m
      (if holding then i + (compileCondition c n cond).length + 1 else failed) vm := by
  obtain ⟨small, exact_⟩ := intArithmetic_condition value
  rw [conditionInt_congr cond fun name used => among_of_mem used] at small
  rw [conditionValue_congr cond fun name used => among_of_mem used] at exact_
  have test : Contains program d i (compileCondition c n cond) := contains.left.left.left
  obtain ⟨v, computes, zero⟩ := computes_condition cond
    (holds.carries.knows finds around.distinct) small exact_ fits.left.left.left
  obtain ⟨vm1, turns, there, stack, tested⟩ :=
    holds.computes (plain_condition c n cond) test short computes
  have jump : Contains program d (i + (compileCondition c n cond).length) [instr .jpc n 0 failed] :=
    contains.left.left.right
  have register := fits.left.left.right _ List.mem_cons_self n List.mem_cons_self
  obtain ⟨vm2, turns', behind, keeps⟩ := there.branches jump short register
  refine ⟨vm2, turns.trans turns', ?_, (KeepsFrames.of_stack stack).trans keeps⟩
  rw [tested] at behind
  cases holding with
  | true =>
      rw [if_neg (zero.mpr rfl)] at behind
      exact behind
  | false =>
      rw [if_pos (by simpa using zero)] at behind
      exact behind

/-- The value of an expression goes to its register. -/
theorem HoldsAt.expression (holds : HoldsAt program d env m i vm) (around : Around program env)
    {e : TermExp} (finds : Finds c (env.map (·.rib)) e.idents)
    (contains : Contains program d i (compileExpression c n e))
    (short : program.length ≤ maxCodeLength)
    (fits : FitsRegisters (compileExpression c n e)) {v : Int}
    (value : intArithmetic.expression (valueOf env m) e = some v) :
    ∃ vm', Turns vm vm' ∧ HoldsAt program d env m (i + (compileExpression c n e).length) vm' ∧
      vm'.stack = vm.stack ∧ vm'.r n = v := by
  have known : termsInt (among e.idents (valueOf env m)) e none = some v := by
    rw [← termsInt_congr e fun name used => among_of_mem used]
    exact value
  exact holds.computes (plain_expression c n e) contains short
    (computes_terms e (holds.carries.knows finds around.distinct) known fits)

/-- Into a called procedure. -/
theorem Around.called (around : Around program env) {name : Name}
    (seen : visible (·.rib.names) name env = layer :: outer) {before after : List Procedure}
    {p : Procedure} (declared : layer.rib.procs = before ++ p :: after) (place : Nat) :
    Serves program (p.body.rib :: layer.rib.upTo before p :: outer.map (·.rib)) p.addr p.body ∧
      Around program (Pl0.called layer outer before p place) := by
  have suffix : layer :: outer <:+ env := by
    rw [← seen]
    exact List.dropWhile_suffix _
  have opened : OpenTo (Serves program) (layer.rib :: outer.map (·.rib)) :=
    around.opened.suffix (suffix.map Layer.rib)
  obtain ⟨serves, within⟩ := opened.called declared
  refine ⟨serves, ?_, within⟩
  obtain ⟨c, start, served⟩ := serves
  intro l member
  apply served.distinct
  have inside := List.mem_map_of_mem (f := (·.rib)) member
  exact inside

/-- The code of a test and of the statement that it guards, and where the failed test and the
jump behind the statement lead. -/
structure GuardedCode (program : List Instruction) (d : Nat) (c : CodeContext) (env : List Layer)
    (cond : ConditionNode) (sts : StatementNode) (n : Int) (i failed stop : Nat) : Prop where
  finds : Finds c (env.map (·.rib)) cond.idents
  contains : Contains program d i (guarded (compileCondition c n cond)
    (bodyCode c sts (n + 1) (i + (compileCondition c n cond).length + 1)) n failed stop)
  fits : FitsRegisters (guarded (compileCondition c n cond)
    (bodyCode c sts (n + 1) (i + (compileCondition c n cond).length + 1)) n failed stop)
  branch : Translated program d c env sts (n + 1) (i + (compileCondition c n cond).length + 1)

section GuardedCode

variable {cond : ConditionNode} {sts : StatementNode} {failed stop : Nat}

theorem guarded_of_finds {names : List Name} (finds : Finds c (env.map (·.rib)) names)
    (tested : ∀ name ∈ cond.idents, name ∈ names) (used : ∀ name ∈ sts.idents, name ∈ names)
    (plain : c.procedure ≤ 0 ∨ sts.hasBegin = false)
    (writes : ∀ name ∈ sts.writes, IsVariable (env.map (·.rib)) name)
    (contains : Contains program d i
      (guarded (compileCondition c n cond) (compileBranch c cond sts n i) n failed stop))
    (fits : FitsRegisters
      (guarded (compileCondition c n cond) (compileBranch c cond sts n i) n failed stop)) :
    GuardedCode program d c env cond sts n i failed stop := by
  have inner := translated_inner (finds.mono used) plain writes contains.guarded.1 fits.left.right
  rw [compileBranch, bodyCode_eq plain] at contains fits
  exact ⟨finds.mono tested, contains, fits, inner⟩

/-- A test that holds leads to its statement. -/
theorem GuardedCode.enter (code : GuardedCode program d c env cond sts n i failed stop)
    (holds : HoldsAt program d env m i vm) (around : Around program env)
    (short : program.length ≤ maxCodeLength)
    (test : intArithmetic.condition (valueOf env m) cond = some true) :
    Goes program d env m m (i + (compileCondition c n cond).length + 1) vm :=
  holds.guard around code.finds code.contains short code.fits test

/-- A test that fails leads to where it says. -/
theorem GuardedCode.skip (code : GuardedCode program d c env cond sts n i failed stop)
    (holds : HoldsAt program d env m i vm) (around : Around program env)
    (short : program.length ≤ maxCodeLength)
    (test : intArithmetic.condition (valueOf env m) cond = some false) :
    Goes program d env m m failed vm :=
  holds.guard around code.finds code.contains short code.fits test

/-- From behind the statement a jump leads on. -/
theorem GuardedCode.jump (code : GuardedCode program d c env cond sts n i failed stop)
    (short : program.length ≤ maxCodeLength)
    (behind : HoldsAt program d env m (i + (compileCondition c n cond).length + 1 +
      (bodyCode c sts (n + 1) (i + (compileCondition c n cond).length + 1)).length) vm) :
    Goes program d env m m stop vm :=
  behind.jumps code.contains.guarded.2 short

/-- Through a test that holds, its statement and the jump behind it. -/
theorem GuardedCode.through (code : GuardedCode program d c env cond sts n i failed stop)
    (holds : HoldsAt program d env m i vm) (around : Around program env)
    (short : program.length ≤ maxCodeLength)
    (test : intArithmetic.condition (valueOf env m) cond = some true) (shape : m'.shape = m.shape)
    (run : ∀ vm', HoldsAt program d env m (i + (compileCondition c n cond).length + 1) vm' →
      Goes program d env m m' (i + (compileCondition c n cond).length + 1 +
        (bodyCode c sts (n + 1) (i + (compileCondition c n cond).length + 1)).length) vm') :
    Goes program d env m m' stop vm :=
  (code.enter holds around short test).trans rfl fun vm1 there =>
    (run vm1 there).trans shape fun _ behind => code.jump short behind

end GuardedCode

theorem Translated.ifS {cond : ConditionNode} {ifsts : StatementNode}
    (code : Translated program d c env (.ifS cond ifsts) n i) :
    ∃ stop, GuardedCode program d c env cond ifsts n i stop stop ∧
      i + (bodyCode c (.ifS cond ifsts) n i).length = stop := by
  obtain ⟨finds, plain, writes, contains, fits⟩ := code
  have whole : bodyCode c (.ifS cond ifsts) n i = _ := compileStatement_ifS c cond ifsts n i
  rw [whole] at contains fits ⊢
  have quiet : c.procedure ≤ 0 ∨ ifsts.hasBegin = false :=
    plain.imp_right fun flat => by simpa [StatementNode.flat, StatementNode.hasBegin] using flat
  exact ⟨_, guarded_of_finds finds (fun _ => List.mem_append_left _)
    (fun _ => List.mem_append_right _) quiet writes contains fits,
    guarded_behind c cond ifsts n _ _ i⟩

theorem Translated.ifElse {cond : ConditionNode} {ifsts elsests : StatementNode}
    (code : Translated program d c env (.ifElse cond ifsts elsests) n i) :
    ∃ other stop, GuardedCode program d c env cond ifsts n i other stop ∧
      Translated program d c env elsests (n + 1) other ∧
      other + (bodyCode c elsests (n + 1) other).length = stop ∧
      i + (bodyCode c (.ifElse cond ifsts elsests) n i).length = stop := by
  obtain ⟨finds, plain, writes, contains, fits⟩ := code
  have whole : bodyCode c (.ifElse cond ifsts elsests) n i = _ :=
    compileStatement_ifElse c cond ifsts elsests n i
  rw [whole] at contains fits ⊢
  have quiet : (c.procedure ≤ 0 ∨ ifsts.hasBegin = false) ∧
      (c.procedure ≤ 0 ∨ elsests.hasBegin = false) := by
    rw [← or_and_left]
    exact plain.imp_right fun flat => by
      simpa [StatementNode.flat, StatementNode.hasBegin] using flat
  have second := contains.right
  rw [guarded_behind] at second
  have elses := translated_inner
    (finds.mono fun _ used => List.mem_append_right _ (List.mem_append_right _ used)) quiet.2
    (fun name member => writes name (List.mem_append_right _ member)) second fits.right
  refine ⟨_, _, guarded_of_finds finds (fun _ => List.mem_append_left _)
    (fun _ used => List.mem_append_right _ (List.mem_append_left _ used)) quiet.1
    (fun name member => writes name (List.mem_append_left _ member)) contains.left fits.left,
    elses, ?_, ?_⟩
  · rw [compileOther, bodyCode_eq quiet.2]
  · rw [List.length_append, ← Nat.add_assoc, guarded_behind]

theorem Translated.loop {cond : ConditionNode} {sts : StatementNode}
    (code : Translated program d c env (.while cond sts) n i) :
    ∃ stop, GuardedCode program d c env cond sts n i stop i ∧
      i + (bodyCode c (.while cond sts) n i).length = stop := by
  obtain ⟨finds, plain, writes, contains, fits⟩ := code
  have whole : bodyCode c (.while cond sts) n i = _ := compileStatement_while c cond sts n i
  rw [whole] at contains fits ⊢
  have quiet : c.procedure ≤ 0 ∨ sts.hasBegin = false :=
    plain.imp_right fun flat => by simpa [StatementNode.flat, StatementNode.hasBegin] using flat
  exact ⟨_, guarded_of_finds finds (fun _ => List.mem_append_left _)
    (fun _ => List.mem_append_right _) quiet writes contains fits,
    guarded_behind c cond sts n _ _ i⟩

/-- The first of the statements of a list, and the others. -/
theorem Translated.next {sts : StatementNode} {rest : StatementList}
    (code : Translated program d c env (.begin (.cons sts rest)) n i) :
    Translated program d c env sts n i ∧
      Translated program d c env (.begin rest) n (i + (bodyCode c sts n i).length) ∧
      bodyCode c (.begin (.cons sts rest)) n i = bodyCode c sts n i ++
        bodyCode c (.begin rest) n (i + (bodyCode c sts n i).length) := by
  have plain : c.procedure ≤ 0 ∨ sts.hasBegin = false ∧ rest.flat = true :=
    code.plain.imp_right fun flat => by simpa [StatementNode.flat, StatementList.flat] using flat
  have whole : bodyCode c (.begin (.cons sts rest)) n i = bodyCode c sts n i ++
      bodyCode c (.begin rest) n (i + (bodyCode c sts n i).length) := by
    rw [← bodyCode_eq (plain.imp_right And.left)]
    rfl
  have contains := code.contains
  have fits := code.fits
  rw [whole] at contains fits
  refine ⟨⟨code.finds.mono fun _ => List.mem_append_left _, ?_, ?_, contains.left, fits.left⟩,
    ⟨code.finds.mono fun _ => List.mem_append_right _, plain.imp_right And.right, ?_,
      contains.right, fits.right⟩, whole⟩
  · exact plain.imp_right fun both => flat_of_not_hasBegin both.1
  · exact fun name member => code.writes name (List.mem_append_left _ member)
  · exact fun name member => code.writes name (List.mem_append_right _ member)

/-- The code of a variable that is written. -/
theorem Addressed.write_code {before : List Layer} {name : Name} {symbol : Symbol} {v : VarDeclNode}
    (home : Addressed c env before outer layer name symbol v) (n : Int) :
    compileWrite c n name = compileName c n name ++ [instr .sio n 0 1] := by
  unfold compileWrite compileName
  simp only [home.lookup, home.kind, if_true]
  rfl

theorem Addressed.read_code {before : List Layer} {name : Name} {symbol : Symbol} {v : VarDeclNode}
    (home : Addressed c env before outer layer name symbol v) (n : Int) :
    compileRead c n name = instr .sio n 0 2 :: compileStore c n name := by
  unfold compileRead compileStore
  rw [home.lookup]

theorem Addressed.store_code {before : List Layer} {name : Name} {symbol : Symbol} {v : VarDeclNode}
    (home : Addressed c env before outer layer name symbol v) (n : Int) :
    compileStore c n name = [instr .sto n (c.level - symbol.level) symbol.addr] := by
  unfold compileStore
  rw [home.lookup]

theorem isVariable_layer {name : Name} (var : IsVariable (env.map (·.rib)) name) :
    ∃ layer outer, visible (·.rib.names) name env = layer :: outer ∧
      name ∈ layer.rib.varNames := by
  obtain ⟨rib, ribs, seen, declared⟩ := var
  rw [visible_map] at seen
  obtain ⟨layer, outer, here, rfl, -⟩ := List.map_eq_cons_iff.mp seen
  exact ⟨layer, outer, here, declared⟩

/-- The machine has called the procedure, and stands before its statement part. -/
structure EnteredAt (program : List Instruction) (c : CodeContext) (env outer : List Layer)
    (layer : Layer) (before : List Procedure) (p : Procedure) (m : Memory) (n : Int) (i : Nat)
    (vm : VirtualMachine) (cp : CodeContext) (start : Nat) (vm' : VirtualMachine) : Prop where
  length : (bodyCode c (.call p.ident) n i).length = 1
  within : Around program (called layer outer before p m.activations.length)
  body : Translated program (start + 1) cp (called layer outer before p m.activations.length)
    p.body.statement 0 0
  back : Contains program (start + 1) (0 + (bodyCode cp p.body.statement 0 0).length)
    [instr .rtn 0 0 0]
  turns : Turns vm vm'
  there : HoldsAt program (start + 1) (called layer outer before p m.activations.length)
    (m.enter p.body.varDecl) 0 vm'
  keeps : KeepsFrames m vm vm'
  bp : vm'.stack (m.sizes.sum + 3) = vm.bp
  pc : vm'.stack (m.sizes.sum + 4) = vm.pc + 1

theorem HoldsAt.enterCall (holds : HoldsAt program d env m i vm) (around : Around program env)
    {before after : List Procedure} {p : Procedure}
    (code : Translated program d c env (.call p.ident) n i)
    (short : program.length ≤ maxCodeLength)
    (seen : visible (·.rib.names) p.ident env = layer :: outer)
    (declared : layer.rib.procs = before ++ p :: after)
    (room : RoomFor (m.enter p.body.varDecl).activations) :
    ∃ cp start vm', EnteredAt program c env outer layer before p m n i vm cp start vm' := by
  obtain ⟨finds, -, -, contains, -⟩ := code
  obtain ⟨⟨cp, start, served⟩, within⟩ := around.called seen declared m.activations.length
  obtain ⟨symbol, path, looked, split, links, declares, named⟩ :=
    finds.symbol List.mem_cons_self seen
  have apart := around.distinct layer (by
    rw [split]
    exact List.mem_append_right _ List.mem_cons_self)
  obtain ⟨-, addr⟩ := Rib.declares_proc apart declares (by
    rw [declared]
    exact List.mem_append_right _ List.mem_cons_self) named.symm
  have whole : bodyCode c (.call p.ident) n i = [instr .cal 0 path.length p.addr] := by
    change compileStatement c (.call p.ident) n i = _
    rw [compileStatement, compileCall, looked]
    simp only [links, addr]
  rw [whole] at contains
  obtain ⟨vm1, turns, there, keeps, bp, pc⟩ :=
    holds.call split contains short served.jump served.space served.laid room
  exact ⟨cp, start, vm1, by rw [whole]; rfl, within,
    ⟨served.finds, .inr served.flat, served.writes, served.code.left, served.fits⟩,
    served.code.right, turns, there, keeps, bp, pc⟩

/-- The code of a statement runs as the statement does, through all its calls, and comes out
behind it. -/
theorem Performs.turns {node : StatementNode}
    (performs : Performs intArithmetic RoomFor env node m m')
    (short : program.length ≤ maxCodeLength) :
    ∀ {c : CodeContext} {n : Int} {d i : Nat} {vm : VirtualMachine}, Around program env →
      Translated program d c env node n i → HoldsAt program d env m i vm →
        Goes program d env m m' (i + (bodyCode c node n i).length) vm := by
  induction performs with
  | empty env m =>
      intro c n d i vm _ _ holds
      exact .refl holds
  | @assign env outer layer name e v m seen declared value =>
      intro c n d i vm around code holds
      have finds := code.finds
      have contains : Contains program d i (compileExpression c n e ++ compileStore c n name) :=
        code.contains
      have fits : FitsRegisters (compileExpression c n e ++ compileStore c n name) := code.fits
      obtain ⟨vm1, turns, there, stack, computed⟩ := holds.expression around
        (finds.mono fun _ used => List.mem_cons_of_mem _ used) contains.left short fits.left value
      obtain ⟨_, _, _, home⟩ :=
        finds.variable around.distinct List.mem_cons_self seen declared
      have store := fits.right
      have length : (compileStore c n name).length = 1 := by
        rw [home.store_code]
        rfl
      rw [home.store_code] at store
      have register := store _ List.mem_cons_self n List.mem_cons_self
      obtain ⟨vm2, turns', behind, keeps⟩ := there.store finds around.distinct List.mem_cons_self
        seen declared contains.right short register
      refine ⟨vm2, turns.trans turns', ?_, (KeepsFrames.of_stack stack).trans keeps⟩
      rw [computed] at behind
      have place : i + (compileExpression c n e ++ compileStore c n name).length =
          i + (compileExpression c n e).length + 1 := by
        rw [List.length_append, length, Nat.add_assoc]
      change HoldsAt program d env _
        (i + (compileExpression c n e ++ compileStore c n name).length) vm2
      rw [place]
      exact behind
  | done env m =>
      intro c n d i vm _ _ holds
      exact .refl holds
  | @next env sts rest m m' m'' first more ihFirst ihMore =>
      intro c n d i vm around code holds
      obtain ⟨own, others, whole⟩ := code.next
      rw [whole, List.length_append, ← Nat.add_assoc]
      exact (ihFirst around own holds).trans first.shape fun vm1 there => ihMore around others there
  | ifHolds test branch ih =>
      intro c n d i vm around code holds
      obtain ⟨stop, guards, place⟩ := code.ifS
      rw [place]
      exact guards.through holds around short test branch.shape fun vm1 there =>
        ih around guards.branch there
  | ifFails test =>
      intro c n d i vm around code holds
      obtain ⟨stop, guards, place⟩ := code.ifS
      rw [place]
      exact guards.skip holds around short test
  | thenBranch test branch ih =>
      intro c n d i vm around code holds
      obtain ⟨other, stop, guards, -, -, place⟩ := code.ifElse
      rw [place]
      exact guards.through holds around short test branch.shape fun vm1 there =>
        ih around guards.branch there
  | elseBranch test branch ih =>
      intro c n d i vm around code holds
      obtain ⟨other, stop, guards, elses, behind, place⟩ := code.ifElse
      rw [place, ← behind]
      exact (guards.skip holds around short test).trans rfl fun vm1 there => ih around elses there
  | leave test =>
      intro c n d i vm around code holds
      obtain ⟨stop, guards, place⟩ := code.loop
      rw [place]
      exact guards.skip holds around short test
  | again test body rest ihBody ihRest =>
      intro c n d i vm around code holds
      obtain ⟨stop, guards, -⟩ := code.loop
      have round := guards.through holds around short test body.shape fun vm1 there =>
        ihBody around guards.branch there
      exact round.trans body.shape fun vm1 there => ihRest around code there
  | @read env outer layer name v input m seen declared more =>
      intro c n d i vm around code holds
      obtain ⟨finds, -, -, contains, fits⟩ := code
      obtain ⟨_, _, _, home⟩ :=
        finds.variable around.distinct List.mem_cons_self seen declared
      have whole : bodyCode c (.read name) n i = instr .sio n 0 2 :: compileStore c n name := by
        change compileStatement c (.read name) n i = _
        rw [compileStatement, home.read_code]
      have length : (instr .sio n 0 2 :: compileStore c n name).length = 1 + 1 := by
        rw [home.store_code]
        rfl
      rw [whole] at contains fits ⊢
      have register := fits _ List.mem_cons_self n List.mem_cons_self
      obtain ⟨vm1, turn, there, stack, value⟩ := holds.reads contains short register more
      obtain ⟨vm2, turns, behind, keeps⟩ := there.store finds around.distinct List.mem_cons_self
        seen declared (Contains.right (a := [_]) contains) short register
      refine ⟨vm2, .head turn turns, ?_, (KeepsFrames.of_stack stack).trans keeps⟩
      rw [value] at behind
      rw [length]
      exact behind
  | @write env name v m value =>
      intro c n d i vm around code holds
      obtain ⟨finds, -, writes, contains, fits⟩ := code
      obtain ⟨layer, outer, seen, declared⟩ := isVariable_layer (writes name List.mem_cons_self)
      obtain ⟨_, _, _, home⟩ :=
        finds.variable around.distinct List.mem_cons_self seen declared
      have whole : bodyCode c (.write name) n i = compileName c n name ++ [instr .sio n 0 1] := by
        change compileStatement c (.write name) n i = _
        rw [compileStatement, home.write_code]
      rw [whole] at contains fits ⊢
      have known : nameValue c vm name = some v := by
        apply holds.carries.knows finds around.distinct
        exact (among_of_mem (List.mem_singleton.mpr rfl)).symm.trans value
      obtain ⟨vm1, turns, there, stack, loaded⟩ := holds.computes (plain_name c n name)
        contains.left short (computes_compileName known fits.left)
      have register := fits.right _ List.mem_cons_self n List.mem_cons_self
      obtain ⟨vm2, turns', behind, keeps⟩ := there.prints contains.right short register
      refine ⟨vm2, turns.trans turns', ?_, (KeepsFrames.of_stack stack).trans keeps⟩
      rw [loaded] at behind
      rw [List.length_append, List.length_singleton, ← Nat.add_assoc]
      exact behind
  | @call env outer layer before after p m m' seen declared room body ih =>
      intro c n d i vm around code holds
      obtain ⟨cp, start, vm1, entered⟩ := holds.enterCall around code short seen declared room
      obtain ⟨vm2, turns', behind, keeps'⟩ := ih entered.within entered.body entered.there
      obtain ⟨older, own⟩ := keeps'.of_enter
      obtain ⟨vm3, turn, done, kept⟩ := holds.returns behind entered.back short body.shape
        (entered.keeps.trans older) ((own 2 (by decide)).trans entered.bp)
        ((own 3 (by decide)).trans entered.pc)
      rw [entered.length]
      exact ⟨vm3, (entered.turns.trans turns').tail turn, done, kept⟩

theorem Performs.call_inv {a : Arithmetic} {fits : List Activation → Prop} {name : Name}
    (performs : Performs a fits env (.call name) m m') :
    ∃ layer outer before after p inner, p.ident = name ∧
      visible (·.rib.names) name env = layer :: outer ∧ layer.rib.procs = before ++ p :: after ∧
      Performs a fits (Pl0.called layer outer before p m.activations.length) p.body.statement
        (m.enter p.body.varDecl) inner ∧ m' = inner.leave := by
  generalize call : StatementNode.call name = node at performs
  cases performs with
  | @call _ outer layer before after p _ inner seen declared _ body =>
      cases call
      exact ⟨layer, outer, before, after, p, inner, rfl, seen, declared, body, rfl⟩
  | _ => cases call

/-- A block that tells its names apart has one procedure of a name. -/
theorem procedure_unique {rib : Rib} (distinct : rib.names.Nodup)
    {before after before' after' : List Procedure} {p p' : Procedure}
    (declared : rib.procs = before ++ p :: after) (declared' : rib.procs = before' ++ p' :: after')
    (same : p.ident = p'.ident) : before = before' ∧ p = p' := by
  have names := (Rib.nodup_parts distinct).2.2.1
  have here : (rib.procs.map (·.ident))[before.length]? = some p.ident := by
    simp [declared]
  have there : (rib.procs.map (·.ident))[before'.length]? = some p'.ident := by
    simp [declared']
  have place : before.length = before'.length := by
    apply (List.getElem?_inj (List.getElem?_eq_some_iff.mp here).1 names).mp
    rw [here, there, same]
  obtain ⟨front, back⟩ := List.append_inj (declared.symm.trans declared') place
  exact ⟨front, (List.cons.inj back).1⟩

/-- A statement has one outcome. -/
theorem Performs.unique {a : Arithmetic} {fits fits' : List Activation → Prop}
    {node : StatementNode} (performs : Performs a fits env node m m') : Around program env →
      ∀ {m'' : Memory}, Performs a fits' env node m m'' → m' = m'' := by
  induction performs with
  | empty env m =>
      intro _ _ other
      cases other
      rfl
  | assign seen declared value =>
      intro _ _ other
      cases other with
      | assign seen' declared' value' =>
          rw [seen, List.cons.injEq] at seen'
          rw [value, Option.some.injEq] at value'
          rw [seen'.1, value']
  | done env m =>
      intro _ _ other
      cases other
      rfl
  | next first more ihFirst ihMore =>
      intro around _ other
      cases other with
      | next first' more' =>
          rw [← ihFirst around first'] at more'
          exact ihMore around more'
  | ifHolds test branch ih =>
      intro around _ other
      cases other with
      | ifHolds test' branch' => exact ih around branch'
      | ifFails test' => cases test.symm.trans test'
  | ifFails test =>
      intro around _ other
      cases other with
      | ifHolds test' branch' => cases test.symm.trans test'
      | ifFails test' => rfl
  | thenBranch test branch ih =>
      intro around _ other
      cases other with
      | thenBranch test' branch' => exact ih around branch'
      | elseBranch test' => cases test.symm.trans test'
  | elseBranch test branch ih =>
      intro around _ other
      cases other with
      | thenBranch test' branch' => cases test.symm.trans test'
      | elseBranch test' branch' => exact ih around branch'
  | leave test =>
      intro around _ other
      cases other with
      | leave test' => rfl
      | again test' => cases test.symm.trans test'
  | again test body rest ihBody ihRest =>
      intro around _ other
      cases other with
      | leave test' => cases test.symm.trans test'
      | again test' body' rest' =>
          rw [← ihBody around body'] at rest'
          exact ihRest around rest'
  | read seen declared more =>
      intro _ _ other
      cases other with
      | read seen' declared' more' =>
          rw [seen, List.cons.injEq] at seen'
          rw [more, List.cons.injEq] at more'
          rw [seen'.1, more'.1, more'.2]
  | write value =>
      intro _ _ other
      cases other with
      | write value' =>
          rw [value, Option.some.injEq] at value'
          rw [value']
  | @call env outer layer before after p m m' seen declared room body ih =>
      intro around _ other
      obtain ⟨layer', outer', before', after', p', inner, named, seen', declared', body', rfl⟩ :=
        other.call_inv
      obtain ⟨-, within⟩ := around.called seen declared m.activations.length
      rw [seen, List.cons.injEq] at seen'
      obtain ⟨rfl, rfl⟩ := seen'
      have member : layer ∈ env := by
        apply (List.dropWhile_suffix _).subset
        rw [show List.dropWhile _ env = _ from seen]
        exact List.mem_cons_self
      obtain ⟨rfl, rfl⟩ := procedure_unique (around.distinct layer member) declared declared'
        named.symm
      rw [ih within body']

end Statements

end Pl0
