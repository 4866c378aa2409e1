import Pl0.MachineRuns
import Pl0.OperandActivations
import Pl0.StackAccess
import Pl0.VariableHomes

set_option autoImplicit false

namespace Pl0

open ControlFlow StateExcept StaticChain

/-- The block is the one with this code set. -/
def Owns (block : BlockNode) (set : Int) (b : BlockNode) : Prop :=
  (set = 0 ∧ b = block) ∨ ∃ p ∈ block.procedures, p.addr = set ∧ p.body = b

theorem owns_of_chain {block : BlockNode} {chain : List Int} (member : chain ∈ block.chains [0])
    {set : Int} (head : chain.head? = some set) : ∃ b, Owns block set b := by
  have heads : chain.head? ∈ (block.chains [0]).map List.head? := List.mem_map_of_mem member
  rw [BlockNode.chains_head, head] at heads
  rcases List.mem_cons.mp heads with main | within
  · exact ⟨block, .inl ⟨Option.some.inj main, rfl⟩⟩
  · obtain ⟨p, declared, same⟩ := List.mem_map.mp within
    exact ⟨p.body, .inr ⟨p, declared, Option.some.inj same, rfl⟩⟩

theorem owns_of_homes {block : BlockNode} {chain : List Int} {addr : Int}
    (homes : Homes [0] block.varDecl block.procedures chain addr) {set : Int}
    (head : chain.head? = some set) : ∃ b, Owns block set b ∧ addr ∈ b.varDecl.map (·.addr) := by
  rcases homes with ⟨rfl, inside⟩ | ⟨p, declared, own, inside⟩
  · cases head
    exact ⟨block, .inl ⟨rfl, rfl⟩, inside⟩
  · rw [own] at head
    exact ⟨p.body, .inr ⟨p, declared, Option.some.inj head, rfl⟩, inside⟩

theorem Owns.known {block b : BlockNode} {set : Int} (owns : Owns block set b) :
    ∃ level, (level, b) ∈ block.blocks := by
  rcases owns with ⟨-, rfl⟩ | ⟨p, declared, -, rfl⟩
  · exact ⟨0, List.mem_cons_self⟩
  · exact ⟨p.lexical, List.mem_cons_of_mem _ (List.mem_map.mpr ⟨p, declared, rfl⟩)⟩

section Code

variable {code : CodeSets} {block b : BlockNode} {set : Int}

/-- The code set of a block: it reserves the frame and runs the statement; the main one
halts behind it. -/
theorem Layout.row (layout : Layout code block) (owns : Owns block set b) :
    ∃ (c : CodeContext) (last : List Instruction),
      code set = instr .inc 0 0 (b.varDecl.length + 4) ::
        (compileStatement c b.statement 0 0 ++ last) ∧ FitsRegisters last := by
  rcases owns with ⟨rfl, rfl⟩ | ⟨p, declared, rfl, rfl⟩
  · obtain ⟨c, -, -, row⟩ := layout.main
    refine ⟨c, _, row, NamesWithin.result rfl ?_ ?_⟩
    · decide
    · decide
  · obtain ⟨-, -, c, -, -, row⟩ := layout.compiled p declared
    refine ⟨c, [], ?_, NamesWithin.nil⟩
    rw [List.append_nil]
    exact row

theorem Layout.placedOf (layout : Layout code block)
    (few : block.procedures.length + 1 < maxCodeSets)
    (owns : Owns block set b) :
    ∃ k start : Nat, set = k ∧ Placed code (prepareMcode code FINAL_CODE) k start := by
  have inUse : 0 ≤ set ∧ set ≤ block.procedures.length := by
    rcases owns with ⟨rfl, -⟩ | ⟨p, declared, rfl, -⟩
    · omega
    · obtain ⟨positive, below, -⟩ := layout.compiled p declared
      omega
  obtain ⟨k, rfl⟩ := Int.eq_ofNat_of_zero_le inUse.1
  obtain ⟨start, -, placed⟩ := layout.placed few (k := k) (by omega)
  exact ⟨k, start, rfl, placed⟩

/-- The first instruction of a block reserves four words and its variables. -/
theorem Layout.opening (layout : Layout code block)
    (few : block.procedures.length + 1 < maxCodeSets)
    (owns : Owns block set b) :
    At (prepareMcode code FINAL_CODE) 0 (segmentBounds code set).1
      (instr .inc 0 0 (b.varDecl.length + 4)) := by
  obtain ⟨c, last, row, -⟩ := layout.row owns
  obtain ⟨k, start, rfl, placed⟩ := layout.placedOf few owns
  have moved := placed.rows 0 _ (by rw [row]; rfl)
  have plain : Opcode.inc.toInt ≠ Opcode.jmp.toInt ∧
    Opcode.inc.toInt ≠ Opcode.jpc.toInt := by decide
  rw [relocate_plain plain] at moved
  rw [placed.bounds row]
  exact ⟨start, (Int.zero_add _).symm, moved⟩

/-- Where a statement needs no more registers than there are, its instructions name no
others. -/
theorem Layout.fits (layout : Layout code block) (few : block.procedures.length + 1 < maxCodeSets)
    (owns : Owns block set b)
    (enough : (b.statement.registers : Int) ≤ commonRegisterNumber) {pc : Int}
    (low : (segmentBounds code set).1 < pc) (high : pc < (segmentBounds code set).2)
    {ir : Instruction} (present : At (prepareMcode code FINAL_CODE) 0 pc ir) :
    ∀ i ∈ registerOperands ir, 0 ≤ i ∧ i < commonRegisterNumber := by
  obtain ⟨c, last, row, fits⟩ := layout.row owns
  obtain ⟨k, start, rfl, placed⟩ := layout.placedOf few owns
  rw [placed.bounds row] at low high
  obtain ⟨source, there, rfl⟩ := placed.behind row present low high
  rw [registerOperands_relocate]
  have body : FitsRegisters (compileStatement c b.statement 0 0 ++ last) :=
    (fits_statement c b.statement 0 0 (Int.le_refl 0) (by omega)).append fits
  exact body source there.member

end Code

/-- A program that the fixed tables and the frames of the compiler are enough for: it has
few procedures, each with a begin statement for its body, its names resolve to the blocks
around them, no two blocks of a level share the addresses of variables, it writes no
constant, and no statement keeps more registers than there are. -/
structure FitsMachine (block : BlockNode) (events : List Event) : Prop where
  few : block.procedures.length + 1 < maxCodeSets
  begins : ∀ p ∈ block.procedures, ∃ list, p.body.statement = .begin list
  resolved : ∀ u ∈ uses events, u.Resolves
  frames : block.blocks.Pairwise fun earlier later =>
    earlier.1 = later.1 → earlier.2.varDecl = [] ∨ later.2.varDecl = []
  written : ∀ u ∈ uses events, u.construct = .write → ∀ symbol ∈ u.result, symbol.kind ≠ .constS
  registers : ∀ b ∈ block.blocks, (b.2.statement.registers : Int) ≤ commonRegisterNumber

theorem FitsMachine.frameLayout {fuel : Nat} {tokens : List CurrentToken} {block : BlockNode}
    {s : ParseState} (accepted : parse fuel tokens = .ok block s)
    (fits : FitsMachine block s.gen.trace) {b : Int × BlockNode} (known : b ∈ block.blocks) :
    FrameLayout b.2 := by
  obtain ⟨before, after, opened⟩ := List.append_of_mem known
  obtain ⟨-, ⟨declared, d, declares, shape, -⟩, -⟩ := parse_runs accepted
  rw [declares.blockLayout_iff shape opened]
  by_cases none : b.2.varDecl = []
  · exact .inl none
  · right
    intro earlier member same
    have apart := fits.frames
    rw [opened] at apart
    have pair := (List.pairwise_append.mp apart).2.2 earlier member b List.mem_cons_self same
    exact pair.resolve_right none

/-- The stack has room for what the next instruction adds to it, and the calls are not
nested deeper than the table of the frames counts. -/
structure Roomy (vm : VirtualMachine) : Prop where
  call : ∀ ir, Fetches vm ir → Opcode.ofInt? ir.op = some .cal → vm.sp + 4 < maxStackHeight
  reserve : ∀ ir, Fetches vm ir → Opcode.ofInt? ir.op = some .inc → vm.sp + ir.m < maxStackHeight
  level : ∀ ir, Fetches vm ir → Opcode.ofInt? ir.op = some .cal ∨ Opcode.ofInt? ir.op = some .rtn →
    vm.frameLevel < maxLexiLevels

/-- One turn of a running machine that finds room. -/
def RoomyStep (vm vm' : VirtualMachine) : Prop :=
  vm.status = .running ∧ Roomy vm ∧ step vm = .ok vm'

structure BoundedInv (code : CodeSets) (block : BlockNode) (g : Monitor) : Prop where
  links : LinkInv (prepareMcode code FINAL_CODE) (block.chains [0]) (segmentBounds code) g
  sized : ∀ frame ∈ g.frames, frame.size ≠ 0 → ∀ b, Owns block frame.entry b →
    frame.size = b.varDecl.length + 4
  height : g.vm.sp < maxStackHeight
  depth : g.vm.frameLevel + 1 = g.frames.length

section Run

variable {fuel : Nat} {tokens : List CurrentToken} {block : BlockNode}
  {s : ParseState} {g : Monitor}

/-- LOD and STO reach a variable of an active frame. -/
theorem BoundedInv.operand (inv : BoundedInv s.gen.code block g)
    (accepted : parse fuel tokens = .ok block s) (clean : s.reports = [])
    (fits : FitsMachine block s.gen.trace) (running : g.vm.status = .running) {ir : Instruction}
    (fetches : Fetches g.vm ir)
    (op : Opcode.ofInt? ir.op = some .lod ∨ Opcode.ofInt? ir.op = some .sto) :
    ∃ owner ∈ g.frames, base g.vm ir.l g.vm.bp = .ok owner.base ∧ 4 ≤ ir.m ∧ ir.m < owner.size := by
  have notes := parse_operandNotes accepted fits.few
  have reaches : reachesOperand ir.op = true := by
    rcases op with lod | sto
    · rw [Opcode.ofInt?_eq_some lod]
      rfl
    · rw [Opcode.ofInt?_eq_some sto]
      rfl
  obtain ⟨frame, older, chain, i, reserved, whole, known, head, -, ⟨symbol, access⟩, accessed⟩ :=
    operand_noted accepted fits.few notes inv.links running fetches reaches
  obtain ⟨-, -, operand⟩ := accessed chain symbol access
  obtain ⟨d, declared, -⟩ := operand.block (accepted_valid accepted) fits.resolved
  have reached := reachesBlock_iff accepted clean notes fits.resolved inv.links reserved whole known
    head operand declared
  obtain ⟨construct, name, used, loads, operation, fields⟩ := operand
  obtain ⟨_, same, suits⟩ := accepted_suits accepted used (.inr clean)
  cases same
  have variable_ : symbol.kind = .varS := by
    cases construct with
    | factor => exact loads rfl
    | write =>
        obtain ⟨before, found⟩ := exists_use used
        have noConst := fits.written _ found rfl symbol rfl
        cases kind : symbol.kind with
        | constS => exact absurd kind noConst
        | varS => rfl
        | procS => exact absurd kind suits
    | assign => exact suits
    | read => exact suits
    | call =>
        rw [opcode_of_eq operation] at op
        rcases op with lod | sto
        · cases lod
        · cases sto
  rw [← operandFields_address _ (.inr variable_), Prod.mk.injEq] at fields
  obtain ⟨owner, member, place, found⟩ := reached.mpr (by simp [variable_])
  obtain ⟨b, owns, inside⟩ := owns_of_homes (parse_homes accepted declared variable_) place
  obtain ⟨v, own, address⟩ := List.mem_map.mp inside
  obtain ⟨level, opened⟩ := owns.known
  obtain ⟨low, high⟩ := (fits.frameLayout accepted opened).reserved own
  have large := inv.links.record.large reserved owner member
  have size := inv.sized owner member (by omega) b owns
  refine ⟨owner, member, found, ?_, ?_⟩
  · rw [fields.2, ← address]
    exact low
  · rw [fields.2, ← address, size]
    exact high

theorem BoundedInv.storesLocally (inv : BoundedInv s.gen.code block g)
    (accepted : parse fuel tokens = .ok block s) (clean : s.reports = [])
    (fits : FitsMachine block s.gen.trace) (running : g.vm.status = .running) {ir : Instruction}
    (fetches : Fetches g.vm ir) : StoresLocally g ir := by
  intro op target resolved
  obtain ⟨owner, member, found, low, high⟩ :=
    inv.operand accepted clean fits running fetches (.inr op)
  have place : owner.base = target := Except.ok.inj (found.symm.trans resolved)
  rw [← place]
  exact ⟨owner, member, by omega, by omega⟩

/-- Where control is, the instruction names registers that there are. -/
theorem BoundedInv.registers (inv : BoundedInv s.gen.code block g)
    (accepted : parse fuel tokens = .ok block s) (fits : FitsMachine block s.gen.trace)
    (running : g.vm.status = .running) {ir : Instruction} (fetches : Fetches g.vm ir) :
    ∀ i ∈ registerOperands ir, 0 ≤ i ∧ i < commonRegisterNumber := by
  have layout := parse_layout accepted (Nat.lt_of_succ_lt fits.few)
  have present := fetches.at
  rw [inv.links.code] at present
  have noRegister : ∀ op : Opcode, op = .jmp ∨ op = .inc → ir.op = op.toInt →
    registerOperands ir = [] := by
    intro op entering same
    unfold registerOperands
    rw [opcode_of_eq same]
    rcases entering with rfl | rfl <;> rfl
  cases whole : g.frames with
  | nil => exact absurd whole (inv.links.record.frames_ne_nil running)
  | cons frame older =>
      have here := inv.links.here running frame (by simp [whole])
      cases waiting : g.pending with
      | true =>
          rw [if_pos waiting] at here
          obtain ⟨chain, member, head, segment, atJump | atStart⟩ := here
          · rw [atJump] at present
            rw [noRegister .jmp (.inl rfl) (segment.jump _ head ir present).1]
            exact fun _ none => absurd none List.not_mem_nil
          · rw [atStart] at present
            rw [noRegister .inc (.inr rfl) (segment.opening ir present).1]
            exact fun _ none => absurd none List.not_mem_nil
      | false =>
          rw [if_neg (by simp [waiting])] at here
          obtain ⟨chain, member, head, -, low, high⟩ := here
          obtain ⟨b, owns⟩ := owns_of_chain member head
          obtain ⟨level, opened⟩ := owns.known
          exact layout.fits fits.few owns (fits.registers _ opened) low high present

/-- Every access of the next instruction is in range. -/
theorem BoundedInv.accessible (inv : BoundedInv s.gen.code block g)
    (accepted : parse fuel tokens = .ok block s) (clean : s.reports = [])
    (fits : FitsMachine block s.gen.trace) (running : g.vm.status = .running) (roomy : Roomy g.vm)
    {ir : Instruction} (fetches : Fetches g.vm ir) : Accessible g.vm ir := by
  have blocks := parse_blocks accepted fits.few fits.begins fits.resolved
  have bounds := inv.links.record.tiled.bounds inv.links.record.size_nonneg
  have stored := inv.storesLocally accepted clean fits running fetches
  have disciplined := inv.links.disciplined running fetches stored
  have depth := inv.depth
  have height := inv.height
  have open_ : 0 < g.frames.length :=
    List.length_pos_iff.mpr (inv.links.record.frames_ne_nil running)
  have settled : Opcode.ofInt? ir.op ≠ some .jmp → Opcode.ofInt? ir.op ≠ some .inc →
      g.pending = false := by
    intro notJmp notInc
    cases waiting : g.pending with
    | false => rfl
    | true =>
        rcases disciplined.opening waiting with jmp | ⟨inc, -⟩
        · exact absurd jmp notJmp
        · exact absurd inc notInc
  refine ⟨inv.registers accepted fits running fetches, ?_, ?_, ?_⟩
  · intro op
    obtain ⟨owner, member, found, low, high⟩ := inv.operand accepted clean fits running fetches op
    have place := bounds.2 owner member
    exact ⟨owner.base, found, by omega, by omega⟩
  · intro op
    have room := roomy.call ir fetches op
    have level := roomy.level ir fetches (.inl op)
    have reserved := settled (by simp [op]) (by simp [op])
    obtain ⟨chain, target, site⟩ := inv.links.callSite blocks reserved running fetches op
    exact ⟨by omega, room, by omega, target, site.resolved⟩
  · intro op
    have level := roomy.level ir fetches (.inr op)
    have reserved := settled (by simp [op]) (by simp [op])
    have current := inv.links.record.bp
    cases whole : g.frames with
    | nil => exact absurd whole (inv.links.record.frames_ne_nil running)
    | cons frame older =>
        rw [whole] at current
        have newest : frame ∈ g.frames := by
          rw [whole]
          exact List.mem_cons_self
        have bp : g.vm.bp = frame.base := current
        have place := bounds.2 frame newest
        have size := inv.links.record.large reserved frame newest
        omega

theorem BoundedInv.counts (inv : BoundedInv s.gen.code block g)
    (accepted : parse fuel tokens = .ok block s) (fits : FitsMachine block s.gen.trace)
    (running : g.vm.status = .running) : 0 ≤ g.vm.pc := by
  have layout := parse_layout accepted (Nat.lt_of_succ_lt fits.few)
  have inside : ∀ {chain : List Int} {set : Int}, chain ∈ block.chains [0] →
    chain.head? = some set →
      0 ≤ set ∧ 0 ≤ (segmentBounds s.gen.code set).1 := by
    intro chain set member head
    obtain ⟨b, owns⟩ := owns_of_chain member head
    obtain ⟨c, last, row, -⟩ := layout.row owns
    obtain ⟨k, start, rfl, placed⟩ := layout.placedOf fits.few owns
    rw [placed.bounds row]
    exact ⟨by omega, by show 0 ≤ (start : Int); omega⟩
  cases whole : g.frames with
  | nil => exact absurd whole (inv.links.record.frames_ne_nil running)
  | cons frame older =>
      have here := inv.links.here running frame (by simp [whole])
      split at here
      · obtain ⟨chain, member, head, -, atJump | atStart⟩ := here
        · rw [atJump]
          exact (inside member head).1
        · rw [atStart]
          exact (inside member head).2
      · obtain ⟨chain, member, head, -, low, -⟩ := here
        have start := (inside member head).2
        omega

theorem step_of_none {vm : VirtualMachine} (counts : 0 ≤ vm.pc) (none : vm.next? = none) :
    step vm = .ok { vm with status := .error } := by
  have decoded : prefetch vm = .ok (false, vm) := by
    unfold prefetch
    by_cases past : vm.pc ≥ maxCodeLength
    · rw [if_pos past]
    · unfold VirtualMachine.next? at none
      rw [if_pos ⟨counts, by omega⟩, List.getElem?_eq_none_iff] at none
      rw [if_neg past, if_pos (by omega)]
  unfold step
  rw [Except.bind_of_ok decoded]
  rfl

/-- A turn keeps what it changes neither in the frames nor in the depth of the calls. -/
theorem BoundedInv.keep (inv : BoundedInv s.gen.code block g) {ir : Instruction}
    {vm' : VirtualMachine} (kept : g.record ir vm' = { g with vm := vm' })
    (links : LinkInv (prepareMcode s.gen.code FINAL_CODE) (block.chains [0])
      (segmentBounds s.gen.code) (g.record ir vm')) (sp : vm'.sp = g.vm.sp)
    (frameLevel : vm'.frameLevel = g.vm.frameLevel) :
    BoundedInv s.gen.code block (g.record ir vm') := by
  rw [kept] at links ⊢
  refine ⟨links, inv.sized, ?_, ?_⟩
  · change vm'.sp < maxStackHeight
    rw [sp]
    exact inv.height
  · change vm'.frameLevel + 1 = g.frames.length
    rw [frameLevel]
    exact inv.depth

/-- The reservation gives the newest frame the size that its block needs. -/
theorem BoundedInv.reserve (inv : BoundedInv s.gen.code block g) (layout : Layout s.gen.code block)
    (few : block.procedures.length + 1 < maxCodeSets) (running : g.vm.status = .running)
    (waiting : g.pending = true) {ir : Instruction} {vm' : VirtualMachine}
    (fetches : Fetches g.vm ir)
    (op : Opcode.ofInt? ir.op = some .inc) (room : g.vm.sp + ir.m < maxStackHeight)
    (links : LinkInv (prepareMcode s.gen.code FINAL_CODE) (block.chains [0])
      (segmentBounds s.gen.code) (g.record ir vm')) (sp : vm'.sp = g.vm.sp + ir.m)
    (frameLevel : vm'.frameLevel = g.vm.frameLevel) :
    BoundedInv s.gen.code block (g.record ir vm') := by
  have recorded : g.record ir vm' =
      { vm := vm', frames := setSize ir.m g.frames, pending := false } := by
    simp only [Monitor.record, op]
  have present := fetches.at
  rw [inv.links.code] at present
  have depth := inv.depth
  have sized := inv.sized
  rw [recorded] at links ⊢
  cases whole : g.frames with
  | nil => exact absurd whole (inv.links.record.frames_ne_nil running)
  | cons frame older =>
      have here := inv.links.here running frame (by simp [whole])
      rw [if_pos waiting] at here
      rw [whole] at links depth sized
      refine ⟨links, ?_, by show vm'.sp < maxStackHeight; omega,
        by show vm'.frameLevel + 1 = (frame :: older).length; omega⟩
      intro other member grown b owns
      rcases List.mem_cons.mp member with rfl | below
      · obtain ⟨chain, known, head, segment, atJump | atStart⟩ := here
        · rw [atJump] at present
          rw [opcode_of_eq (segment.jump _ head ir present).1] at op
          cases op
        · rw [atStart] at present
          rw [present.unique (layout.opening few owns)]
          rfl
      · exact sized other (List.mem_cons_of_mem _ below) grown b owns

/-- Every turn with enough room keeps the bounds. -/
theorem BoundedInv.turn (inv : BoundedInv s.gen.code block g)
    (accepted : parse fuel tokens = .ok block s) (clean : s.reports = [])
    (fits : FitsMachine block s.gen.trace) {vm' : VirtualMachine} (taken : RoomyStep g.vm vm') :
    ∃ g', g'.vm = vm' ∧ BoundedInv s.gen.code block g' := by
  obtain ⟨running, roomy, stepped⟩ := taken
  have blocks := parse_blocks accepted fits.few fits.begins fits.resolved
  cases next : g.vm.next? with
  | none =>
      have ends := step_of_none (inv.counts accepted fits running) next
      obtain rfl : { g.vm with status := .error } = vm' := Except.ok.inj (ends.symm.trans stepped)
      exact ⟨_, rfl, (StoreStep.stop running next ends).linkInv blocks inv.links, inv.sized,
        inv.height, inv.depth⟩
  | some ir =>
      have fetches := next?_eq_some.mp next
      have stores := inv.storesLocally accepted clean fits running fetches
      have disciplined := inv.links.disciplined running fetches stores
      have links := (StoreStep.execute running fetches stores stepped).linkInv blocks inv.links
      have depth := inv.depth
      have height := inv.height
      have bounds := inv.links.record.tiled.bounds inv.links.record.size_nonneg
      have machine : (g.record ir vm').vm = vm' := by
        unfold Monitor.record
        split <;> rfl
      refine ⟨g.record ir vm', machine, ?_⟩
      cases MonitorStep.execute_effect fetches stepped with
      | inner op same pc =>
          have kept : g.record ir vm' = { g with vm := vm' } := by
            apply record_keep
            intro op' decoded
            have plain := op op' decoded
            refine ⟨?_, ?_, ?_⟩ <;> rintro rfl <;> cases plain
          exact inv.keep kept links same.sp same.frameLevel
      | jmp op same status pc =>
          exact inv.keep (record_keep g ir vm' (by simp [op])) links same.sp same.frameLevel
      | jpc op same status pc =>
          exact inv.keep (record_keep g ir vm' (by simp [op])) links same.sp same.frameLevel
      | sto target value op resolved sp bp stack frameBreak frameLevel status pc =>
          exact inv.keep (record_keep g ir vm' (by simp [op])) links sp frameLevel
      | inc op sp bp stack frameBreak frameLevel status pc =>
          have waiting : g.pending = true := by
            cases reserved : g.pending with
            | true => rfl
            | false => exact absurd op (disciplined.reserved reserved)
          exact inv.reserve (parse_layout accepted (Nat.lt_of_succ_lt fits.few)) fits.few running
            waiting fetches op
            (roomy.reserve ir fetches op) links sp frameLevel
      | cal link op resolved sp bp stack frameBreak frameLevel level status pc room =>
          have recorded : g.record ir vm' =
              { vm := vm'
                frames := { entry := ir.m, base := g.vm.sp + 1, size := 0, callSp := g.vm.sp,
                            callBp := g.vm.bp, callPc := g.vm.pc + 1 } :: g.frames
                pending := true } := by
            simp only [Monitor.record, op]
          rw [recorded] at links ⊢
          refine ⟨links, ?_, by show vm'.sp < maxStackHeight; omega, ?_⟩
          · intro frame member grown b owns
            rcases List.mem_cons.mp member with rfl | below
            · exact absurd rfl grown
            · exact inv.sized frame below grown b owns
          · change vm'.frameLevel + 1 = ((g.frames.length + 1 : Nat) : Int)
            omega
      | rtn op sp bp stack frameBreak frameLevel level status pc =>
          have recorded : g.record ir vm' =
            { vm := vm', frames := g.frames.tail, pending := false } := by
            simp only [Monitor.record, op]
          have current := inv.links.record.bp
          have sized := inv.sized
          rw [recorded] at links ⊢
          cases whole : g.frames with
          | nil => exact absurd whole (inv.links.record.frames_ne_nil running)
          | cons frame older =>
              rw [whole] at links depth sized current
              have place := bounds.2 frame (by rw [whole]; exact List.mem_cons_self)
              have large :=
                inv.links.record.size_nonneg frame (by rw [whole]; exact List.mem_cons_self)
              have newest : g.vm.bp = frame.base := current
              rw [List.length_cons] at depth
              refine ⟨links, ?_, by show vm'.sp < maxStackHeight; omega,
                by show vm'.frameLevel + 1 = older.length; omega⟩
              exact fun other member => sized other (List.mem_cons_of_mem _ member)

theorem boundedInv_start (accepted : parse fuel tokens = .ok block s)
    (fits : FitsMachine block s.gen.trace) (input : List Int) : BoundedInv s.gen.code block
      (Monitor.start (prepareMcode s.gen.code FINAL_CODE) input) where
  links := linkInv_start (parse_blocks accepted fits.few fits.begins fits.resolved) input
  sized := by
    intro frame member grown
    rw [List.mem_singleton.mp member] at grown
    exact absurd rfl grown
  height := by
    show (0 : Int) < maxStackHeight
    decide
  depth := rfl

/-- For every accepted program that the tables are enough for, and every run of its final
code whose calls and reservations find room: no turn makes an access out of range. -/
theorem memory_bounds (accepted : parse fuel tokens = .ok block s) (clean : s.reports = [])
    (fits : FitsMachine block s.gen.trace) {input : List Int} {vm : VirtualMachine}
    (reached : Relation.ReflTransGen RoomyStep
      (startVm (prepareMcode s.gen.code FINAL_CODE) input) vm)
    (running : vm.status = .running) (roomy : Roomy vm) : step vm ≠ .error .outOfBounds := by
  have bounded : ∃ g : Monitor, g.vm = vm ∧ BoundedInv s.gen.code block g := by
    clear running roomy
    induction reached with
    | refl => exact ⟨_, rfl, boundedInv_start accepted fits input⟩
    | tail _ taken ih =>
        obtain ⟨g, rfl, inv⟩ := ih
        exact inv.turn accepted clean fits taken
  obtain ⟨g, rfl, inv⟩ := bounded
  cases next : g.vm.next? with
  | none =>
      rw [step_of_none (inv.counts accepted fits running) next]
      intro fault
      cases fault
  | some ir =>
      have fetches := next?_eq_some.mp next
      rw [step_of_fetches fetches]
      exact (inv.accessible accepted clean fits running roomy fetches).executes

end Run

theorem roomyStep_turn {g : Monitor} {ir : Instruction} (running : g.vm.status = .running)
    (next : g.vm.next? = some ir) (completes : (step g.vm).isOk = true) (roomy : Roomy g.vm) :
    RoomyStep g.vm g.turn.vm := by
  cases stepped : step g.vm with
  | error fault =>
      rw [stepped] at completes
      cases completes
  | ok vm' =>
      have turned : g.turn.vm = vm' := by
        unfold Monitor.turn
        rw [next, stepped]
        unfold Monitor.record
        dsimp only
        split <;> rfl
      rw [turned]
      exact ⟨running, roomy, stepped⟩

theorem roomy_of_next {vm : VirtualMachine} {ir : Instruction} (next : vm.next? = some ir)
    (call : Opcode.ofInt? ir.op = some .cal → vm.sp + 4 < maxStackHeight)
    (reserve : Opcode.ofInt? ir.op = some .inc → vm.sp + ir.m < maxStackHeight)
    (level : vm.frameLevel < maxLexiLevels) : Roomy vm where
  call := by
    intro other fetches op
    rw [fetches.unique (next?_eq_some.mp next)] at op
    exact call op
  reserve := by
    intro other fetches op
    rw [fetches.unique (next?_eq_some.mp next)] at op ⊢
    exact reserve op
  level := fun _ _ _ => level

/-- `var x; procedure p; begin read x end; begin call p end.` -/
def readByProcedure : List CurrentToken :=
  [.word .varsym, .ident [120], .word .semicolonsym, .word .procsym, .ident [112],
    .word .semicolonsym, .word .beginsym, .word .readsym, .ident [120], .word .endsym,
    .word .semicolonsym, .word .beginsym, .word .callsym, .ident [112], .word .endsym,
    .word .periodsym]

def readByProcedureCode : List Instruction :=
  [⟨7, 0, 0, 6⟩, ⟨7, 0, 0, 2⟩, ⟨6, 0, 0, 4⟩, ⟨9, 0, 0, 2⟩, ⟨4, 0, 1, 4⟩, ⟨2, 0, 0, 0⟩, ⟨6, 0, 0, 5⟩,
    ⟨5, 0, 0, 1⟩, ⟨9, 0, 0, 3⟩]

/-- The tables are enough for the program. -/
theorem readByProcedure_parsed : ∃ block s, parse 20 readByProcedure = .ok block s ∧
    s.reports = [] ∧ FitsMachine block s.gen.trace ∧
    prepareMcode s.gen.code FINAL_CODE = readByProcedureCode := by
  have shape : returned? (fun block _ => (block.procedures.map fun p => p.body.statement,
      block.blocks.map fun b => (b.1, b.2.statement.registers))) (parse 20 readByProcedure) =
      some ([.begin (.cons (.read [120]) .nil)], [(0, 0), (1, 1)]) := by
    rfl
  have clean : (stateOf (parse 20 readByProcedure)).reports = [] := by rfl
  have resolved : ∀ u ∈ uses (stateOf (parse 20 readByProcedure)).gen.trace, u.Resolves := by
    decide +kernel
  have written : ∀ u ∈ uses (stateOf (parse 20 readByProcedure)).gen.trace, u.construct = .write →
      ∀ symbol ∈ u.result, symbol.kind ≠ .constS := by
    decide +kernel
  have linked : prepareMcode (stateOf (parse 20 readByProcedure)).gen.code FINAL_CODE =
      readByProcedureCode := by
    rfl
  obtain ⟨block, s, accepted, looked⟩ := returned?_eq_some.mp shape
  rw [accepted] at clean resolved written linked
  rw [Prod.mk.injEq] at looked
  obtain ⟨bodies, blocks⟩ := looked
  obtain ⟨main, rest, opened, first, blocks⟩ := List.map_eq_cons_iff.mp blocks
  obtain ⟨inner, none, rfl, second, blocks⟩ := List.map_eq_cons_iff.mp blocks
  obtain rfl := List.map_eq_nil_iff.mp blocks
  rw [Prod.mk.injEq] at first second
  have count : block.procedures.length = 1 := by
    have lengths := congrArg List.length bodies
    rwa [List.length_map] at lengths
  refine ⟨block, s, accepted, clean, ⟨?_, ?_, resolved, ?_, written, ?_⟩, linked⟩
  · rw [count]
    decide
  · intro p declared
    have body : p.body.statement ∈ block.procedures.map fun p => p.body.statement :=
      List.mem_map.mpr ⟨p, declared, rfl⟩
    rw [bodies, List.mem_singleton] at body
    exact ⟨_, body⟩
  · rw [opened, List.pairwise_pair, first.1, second.1]
    intro same
    cases same
  · intro b known
    rw [opened] at known
    rcases List.mem_cons.mp known with rfl | known
    · rw [first.2]
      decide
    · rw [List.mem_singleton.mp known, second.2]
      decide

/-- Control is in front of the STO of the `read`. -/
def beforeStore : Monitor := (Monitor.start readByProcedureCode [5]).turn.turn.turn.turn.turn.turn

theorem beforeStore_reached : Relation.ReflTransGen RoomyStep
    (startVm readByProcedureCode [5]) beforeStore.vm := by
  have start : RoomyStep (Monitor.start readByProcedureCode [5]).vm
      (Monitor.start readByProcedureCode [5]).turn.vm :=
    roomyStep_turn rfl rfl rfl (roomy_of_next rfl (by decide) (by decide) (by decide))
  have main : RoomyStep _ (Monitor.start readByProcedureCode [5]).turn.turn.vm :=
    roomyStep_turn rfl rfl rfl (roomy_of_next rfl (by decide) (by decide) (by decide))
  have call : RoomyStep _ (Monitor.start readByProcedureCode [5]).turn.turn.turn.vm :=
    roomyStep_turn rfl rfl rfl (roomy_of_next rfl (by decide) (by decide) (by decide))
  have enter : RoomyStep _ (Monitor.start readByProcedureCode [5]).turn.turn.turn.turn.vm :=
    roomyStep_turn rfl rfl rfl (roomy_of_next rfl (by decide) (by decide) (by decide))
  have reserve : RoomyStep _ (Monitor.start readByProcedureCode [5]).turn.turn.turn.turn.turn.vm :=
    roomyStep_turn rfl rfl rfl (roomy_of_next rfl (by decide) (by decide) (by decide))
  have input : RoomyStep _ beforeStore.vm :=
    roomyStep_turn rfl rfl rfl (roomy_of_next rfl (by decide) (by decide) (by decide))
  exact (((((Relation.ReflTransGen.single start).tail main).tail call).tail enter).tail
    reserve).tail input

theorem memory_bounds_readByProcedure : ∃ block s, parse 20 readByProcedure = .ok block s ∧
    beforeStore.vm.next? = some ⟨4, 0, 1, 4⟩ ∧ step beforeStore.vm ≠ .error .outOfBounds := by
  obtain ⟨block, s, accepted, clean, fits, linked⟩ := readByProcedure_parsed
  have roomy : Roomy beforeStore.vm :=
    roomy_of_next rfl (by decide) (by decide) (by decide)
  exact ⟨block, s, accepted, rfl, memory_bounds accepted clean fits
    (linked.symm ▸ beforeStore_reached) rfl roomy⟩

/-- `const c = 2000; begin write c end.` -/
def constantAddress : List CurrentToken :=
  [.word .constsym, .ident [99], .word .eqlsym, .number 2000, .word .semicolonsym, .word .beginsym,
    .word .writesym, .ident [99], .word .endsym, .word .periodsym]

def constantAddressCode : List Instruction :=
  [⟨7, 0, 0, 1⟩, ⟨6, 0, 0, 4⟩, ⟨3, 0, 0, 2000⟩, ⟨9, 0, 0, 1⟩, ⟨9, 0, 0, 3⟩]

/-- The `write` loads from cell 2001 of a stack of 2000. -/
theorem constant_read_beyond_stack : ¬ ∀ (fuel : Nat) (tokens : List CurrentToken)
    (block : BlockNode) (s : ParseState), parse fuel tokens = .ok block s → s.reports = [] →
    ∀ (input : List Int) (vm : VirtualMachine),
    Relation.ReflTransGen (fun vm vm' => vm.status = .running ∧ step vm = .ok vm')
      (startVm (prepareMcode s.gen.code FINAL_CODE) input) vm →
    vm.status = .running → step vm ≠ .error .outOfBounds := by
  intro always
  have linked : returned? (fun _ s => (prepareMcode s.gen.code FINAL_CODE, s.reports.length))
      (parse 20 constantAddress) = some (constantAddressCode, 0) := by
    rfl
  obtain ⟨block, s, accepted, looked⟩ := returned?_eq_some.mp linked
  rw [Prod.mk.injEq, List.length_eq_zero_iff] at looked
  have first : step (startVm constantAddressCode []) =
      .ok (Monitor.start constantAddressCode []).turn.vm := by
    rfl
  have second : step (Monitor.start constantAddressCode []).turn.vm =
      .ok (Monitor.start constantAddressCode []).turn.turn.vm := by
    rfl
  have loads : step (Monitor.start constantAddressCode []).turn.turn.vm = .error .outOfBounds := by
    rfl
  refine always 20 constantAddress block s accepted looked.2 [] _ ?_ rfl loads
  rw [looked.1]
  exact (Relation.ReflTransGen.single ⟨rfl, first⟩).tail ⟨rfl, second⟩

end Pl0
