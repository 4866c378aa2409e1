import Pl0.BlockSegments

set_option autoImplicit false

namespace Pl0

open ControlFlow StateExcept StaticChain

/-- The block of the frame has as many blocks around it as its chain says, and its static
links lead through an active frame of each. -/
def HasDisplay (g : Monitor) (chains : List (List Int)) (frame : Frame) : Prop :=
  ∃ chain ∈ chains, chain.head? = some frame.entry ∧ ∀ l : Nat, l < chain.length →
    ∃ owner ∈ g.frames, chain[l]? = some owner.entry ∧ base g.vm l frame.base = .ok owner.base

/-- `base` leads the instruction to an active frame of the block. -/
def ReachesBlock (g : Monitor) (ir : Instruction) (block : List Int) : Prop :=
  ∃ owner ∈ g.frames, block.head? = some owner.entry ∧
    base g.vm ir.l g.vm.bp = .ok owner.base

theorem BlockNode.chains_suffix {block : BlockNode} {chain d : List Int}
    (member : chain ∈ block.chains [0]) (suffix : d <:+ chain) (nonempty : d ≠ []) :
    d ∈ block.chains [0] := by
  induction chain with
  | nil => exact absurd (List.suffix_nil.mp suffix) nonempty
  | cons k outer ih =>
      rcases List.suffix_cons_iff.mp suffix with rfl | further
      · exact member
      · rcases block.chains_tail member with main | ⟨k', outer', same, around⟩
        · rw [List.cons.injEq] at main
          rw [main.2] at further
          exact absurd (List.suffix_nil.mp further) nonempty
        · rw [List.cons.injEq] at same
          obtain ⟨rfl, rfl⟩ := same
          exact ih around further

section Run

variable {final : List Instruction} {chains : List (List Int)} {bounds : Int → Int × Int}
  {g : Monitor}

theorem owner_of_display {b : Int} {chain : List Int}
    (display : Display (staticLink g.vm) (g.frames.map Frame.place) b chain) {l : Nat}
    (inside : l < chain.length) :
    ∃ owner ∈ g.frames, chain[l]? = some owner.entry ∧ baseLoop g.vm l b = .ok owner.base := by
  obtain ⟨b', k, followed, live, key, -⟩ := display.follow inside
  obtain ⟨owner, member, same⟩ := List.mem_map.mp live
  unfold Frame.place at same
  rw [Prod.mk.injEq] at same
  obtain ⟨rfl, rfl⟩ := same
  exact ⟨owner, member, key, baseLoop_of_follow followed⟩

theorem LinkInv.hasDisplay (inv : LinkInv final chains bounds g) :
    ∀ frame ∈ g.frames, HasDisplay g chains frame := by
  intro frame member
  obtain ⟨chain, known, head, display⟩ := inv.nested.display (List.mem_map_of_mem member)
  exact ⟨chain, known, head, fun l inside => owner_of_display display inside⟩

/-- Where an instruction reaches an operand, the newest frame has its space, and control
is in its block. -/
theorem LinkInv.inBlock (inv : LinkInv final chains bounds g) (running : g.vm.status = .running)
    {ir : Instruction} (fetches : Fetches g.vm ir) (reaches : reachesOperand ir.op = true) :
    g.pending = false ∧ ∃ frame older, g.frames = frame :: older ∧
      InBlock final chains bounds frame.entry g.vm.pc := by
  have present := fetches.at
  rw [inv.code] at present
  cases whole : g.frames with
  | nil => exact absurd whole (inv.record.frames_ne_nil running)
  | cons frame older =>
      have here := inv.here running frame (by simp [whole])
      cases waiting : g.pending with
      | false =>
          rw [waiting] at here
          exact ⟨rfl, frame, older, rfl, here⟩
      | true =>
          rw [if_pos waiting] at here
          obtain ⟨chain, member, head, segment, atJump | atStart⟩ := here
          · rw [atJump] at present
            rw [(segment.jump _ head ir present).1] at reaches
            cases reaches
          · rw [atStart] at present
            rw [(segment.opening ir present).1] at reaches
            cases reaches

/-- No two frames that have their space share a base. -/
theorem RecordInv.base_injective (inv : RecordInv g) (reserved : g.pending = false) {frame : Frame}
    {older : List Frame} (whole : g.frames = frame :: older) {owner : Frame}
    (member : owner ∈ g.frames) (same : owner.base = frame.base) : owner = frame := by
  have large := inv.large reserved owner member
  have apart := inv.tiled.pairwise inv.size_nonneg
  rw [whole] at member apart
  rcases List.mem_cons.mp member with rfl | below
  · rfl
  · have order := List.rel_of_pairwise_cons apart below
    omega

end Run

/-- The instruction that control is at comes from the code set of the newest frame. -/
theorem Layout.fetched {code : CodeSets} {block : BlockNode} (layout : Layout code block)
    (few : block.procedures.length + 1 < maxCodeSets) {chain : List Int}
    (member : chain ∈ block.chains [0]) {set : Int} (head : chain.head? = some set) {pc : Int}
    (low : (segmentBounds code set).1 < pc) (high : pc < (segmentBounds code set).2)
    {ir : Instruction} (present : At (prepareMcode code FINAL_CODE) 0 pc ir)
    (plain : ir.op ≠ Opcode.jmp.toInt ∧ ir.op ≠ Opcode.jpc.toInt) :
    ∃ i : Nat, pc - segmentStart (prepareMcode code FINAL_CODE) set - 1 = i ∧
      (code set)[i + 1]? = some ir := by
  have inUse : 0 ≤ set ∧ set ≤ block.procedures.length := by
    have heads : chain.head? ∈ (block.chains [0]).map List.head? := List.mem_map_of_mem member
    rw [BlockNode.chains_head, head] at heads
    rcases List.mem_cons.mp heads with main | within
    · cases main
      omega
    · obtain ⟨p, declared, same⟩ := List.mem_map.mp within
      cases same
      obtain ⟨positive, below, -⟩ := layout.compiled p declared
      omega
  obtain ⟨k, rfl⟩ := Int.eq_ofNat_of_zero_le inUse.1
  obtain ⟨start, -, placed⟩ := layout.placed few (k := k) (by omega)
  unfold segmentBounds getCodeLength at low high
  dsimp only at low high
  rw [placed.segmentStart] at low high ⊢
  refine ⟨(pc - start - 1).toNat, by omega, ?_⟩
  have inside : (pc - start - 1).toNat + 1 < (code k).length := by omega
  obtain ⟨n, place, found⟩ := present
  have moved := placed.rows _ _ (List.getElem?_eq_getElem inside)
  have index : start + ((pc - start - 1).toNat + 1) = n := by omega
  rw [index, found, Option.some.injEq] at moved
  rw [moved, relocate_op] at plain
  rw [moved, relocate_plain plain]
  exact List.getElem?_eq_getElem inside

/-- Where an operand is reached, the static links lead to the block that declares it,
unless it is a constant of another block. -/
theorem reachesBlock_iff {fuel : Nat} {tokens : List CurrentToken} {block : BlockNode}
    {s : ParseState} (accepted : parse fuel tokens = .ok block s) (clean : s.reports = [])
    (notes : OperandNotes s.gen.code s.gen.trace block)
    (resolved : ∀ u ∈ uses s.gen.trace, u.Resolves) {g : Monitor} {bounds : Int → Int × Int}
    (inv : LinkInv (prepareMcode s.gen.code FINAL_CODE) (block.chains [0]) bounds g)
    (reserved : g.pending = false) {frame : Frame} {older : List Frame}
    (whole : g.frames = frame :: older) {scope : List Int} (known : scope ∈ block.chains [0])
    (head : scope.head? = some frame.entry) {ir : Instruction} {symbol : Symbol}
    (operand : Operand (scope.length - 1) scope s.gen.trace ir symbol) {d : List Int}
    (declared : .declare d symbol ∈ s.gen.trace) :
    ReachesBlock g ir d ↔ (symbol.kind = .constS → d = scope) := by
  have valid := accepted_valid accepted
  obtain ⟨own, ownDeclared, suffix, nonempty, level⟩ := operand.block valid resolved
  have sameBlock : own = d := valid.numbered.distinct (own, symbol)
    (mem_declarations.mpr ownDeclared) (d, symbol) (mem_declarations.mpr declared) rfl
  subst sameBlock
  have current : g.vm.bp = frame.base := by
    have bp := inv.record.bp
    rw [whole] at bp
    exact bp
  have newest : frame ∈ g.frames := by
    rw [whole]
    exact List.mem_cons_self
  have display : Display (staticLink g.vm) (g.frames.map Frame.place) g.vm.bp scope := by
    have nested := inv.nested
    rw [whole] at nested
    obtain ⟨⟨chain, member, same, display⟩, -⟩ := nested
    rw [notes.distinct scope known chain member (head.trans same.symm), whole, current]
    exact display
  obtain ⟨construct, name, used, loads, -, fields⟩ := operand
  obtain ⟨_, same, suits⟩ := accepted_suits accepted used (.inr clean)
  cases same
  by_cases written : construct = .write ∧ symbol.kind ≠ .varS
  · -- `generateWrite` takes no level difference for a constant: it reaches the own frame.
    have constant : symbol.kind = .constS := by
      rw [written.1] at suits
      cases kind : symbol.kind with
      | constS => rfl
      | varS => exact absurd kind written.2
      | procS => exact absurd kind suits
    unfold operandFields at fields
    rw [if_pos written, Prod.mk.injEq] at fields
    have reached : base g.vm ir.l g.vm.bp = .ok frame.base := by
      rw [fields.1, current]
      rfl
    constructor
    · rintro ⟨owner, member, ownHead, found⟩ -
      have place : owner.base = frame.base := Except.ok.inj (found.symm.trans reached)
      have only := inv.record.base_injective reserved whole member place
      rw [only] at ownHead
      exact notes.distinct own (BlockNode.chains_suffix known suffix nonempty) scope known
        (ownHead.trans head.symm)
    · intro inner
      rw [inner constant]
      exact ⟨frame, newest, head, reached⟩
  · have variable_ : symbol.kind ≠ .constS := by
      intro constant
      cases construct with
      | factor => simp [constant] at loads
      | write => exact written ⟨rfl, by simp [constant]⟩
      | assign => simp [constant] at suits
      | read => simp [constant] at suits
      | call => simp [constant] at suits
    unfold operandFields at fields
    rw [if_neg written, Prod.mk.injEq, level] at fields
    obtain ⟨inside, drop⟩ := drop_of_suffix suffix nonempty fields.1
    obtain ⟨owner, member, key, found⟩ := owner_of_display display inside
    refine ⟨fun _ constant => absurd constant variable_, fun _ => ⟨owner, member, ?_, found⟩⟩
    rw [← drop, List.head?_drop]
    exact key

/-- The instruction that control is at, where it reaches an operand: the newest frame has
its space, and the notes of the parse tell what the operand is. -/
theorem operand_noted {fuel : Nat} {tokens : List CurrentToken} {block : BlockNode} {s : ParseState}
    (accepted : parse fuel tokens = .ok block s) (few : block.procedures.length + 1 < maxCodeSets)
    (notes : OperandNotes s.gen.code s.gen.trace block) {g : Monitor}
    (inv : LinkInv (prepareMcode s.gen.code FINAL_CODE) (block.chains [0])
      (segmentBounds s.gen.code) g) (running : g.vm.status = .running) {ir : Instruction}
    (fetches : Fetches g.vm ir) (reaches : reachesOperand ir.op = true) :
    ∃ frame older chain, ∃ i : Nat, g.pending = false ∧ g.frames = frame :: older ∧
      chain ∈ block.chains [0] ∧ chain.head? = some frame.entry ∧
      g.vm.pc - segmentStart (prepareMcode s.gen.code FINAL_CODE) frame.entry - 1 = i ∧
      (∃ symbol, .access chain frame.entry i symbol ∈ s.gen.trace) ∧
      ∀ scope symbol, .access scope frame.entry i symbol ∈ s.gen.trace →
        scope ∈ block.chains [0] ∧ scope.head? = some frame.entry ∧
          Operand (scope.length - 1) scope s.gen.trace ir symbol := by
  obtain ⟨reserved, frame, older, whole, chain, member, head, -, low, high⟩ :=
    inv.inBlock running fetches reaches
  have present := fetches.at
  rw [inv.code] at present
  have plain : ir.op ≠ Opcode.jmp.toInt ∧ ir.op ≠ Opcode.jpc.toInt := by
    constructor <;> intro jump <;> rw [jump] at reaches <;> cases reaches
  obtain ⟨i, place, found⟩ :=
    (parse_layout accepted (Nat.lt_of_succ_lt few)).fetched few member head low high present plain
  refine ⟨frame, older, chain, i, reserved, whole, member, head, place,
    notes.covered chain member _ head i ir found reaches, ?_⟩
  intro scope symbol access
  obtain ⟨known, own, j, ir', same, there, operand⟩ := notes.fits _ _ _ _ access
  obtain rfl : i = j := by omega
  rw [found] at there
  cases there
  exact ⟨known, own, operand⟩

/-- For every accepted program and every run of its final code: the static links of each
active frame lead through active frames of the blocks around its own, and at each LOD,
STO and CAL `base` leads to an active frame of the block that declares the operand,
unless the operand is a constant of another block. -/
theorem static_links {fuel : Nat} {tokens : List CurrentToken} {block : BlockNode} {s : ParseState}
    (accepted : parse fuel tokens = .ok block s) (clean : s.reports = [])
    (few : block.procedures.length + 1 < maxCodeSets)
    (begins : ∀ p ∈ block.procedures, ∃ list, p.body.statement = .begin list)
    (resolved : ∀ u ∈ uses s.gen.trace, u.Resolves) {input : List Int} {g : Monitor}
    (reached : Relation.ReflTransGen StoreStep
      (Monitor.start (prepareMcode s.gen.code FINAL_CODE) input) g) :
    (∀ frame ∈ g.frames, HasDisplay g (block.chains [0]) frame) ∧
    ∀ ir, g.vm.status = .running → Fetches g.vm ir → reachesOperand ir.op = true →
      ∃ frame index, g.frames.head? = some frame ∧
        index = g.vm.pc - segmentStart (prepareMcode s.gen.code FINAL_CODE) frame.entry - 1 ∧
        (∃ scope symbol d, .access scope frame.entry index symbol ∈ s.gen.trace ∧
          .declare d symbol ∈ s.gen.trace) ∧
        ∀ scope symbol d, .access scope frame.entry index symbol ∈ s.gen.trace →
          .declare d symbol ∈ s.gen.trace →
            (ReachesBlock g ir d ↔ (symbol.kind = .constS → d = scope)) := by
  have notes := parse_operandNotes accepted few
  have inv := linkInv_reachable (parse_blocks accepted few begins resolved) reached
  refine ⟨inv.hasDisplay, ?_⟩
  intro ir running fetches reaches
  obtain ⟨frame, older, chain, i, reserved, whole, member, head, place, covered, accessed⟩ :=
    operand_noted accepted few notes inv running fetches reaches
  refine ⟨frame, i, by rw [whole]; rfl, place.symm, ?_, ?_⟩
  · obtain ⟨symbol, access⟩ := covered
    obtain ⟨-, -, operand⟩ := accessed chain symbol access
    obtain ⟨d, declared, -⟩ := operand.block (accepted_valid accepted) resolved
    exact ⟨chain, symbol, d, access, declared⟩
  · intro scope symbol d access declared
    obtain ⟨known, own, operand⟩ := accessed scope symbol access
    exact reachesBlock_iff accepted clean notes resolved inv reserved whole known own operand
      declared

/-- `const c = 1; procedure p; begin write c end; begin call p end.` -/
def writtenConstant : List CurrentToken :=
  [.word .constsym, .ident [99], .word .eqlsym, .number 1, .word .semicolonsym, .word .procsym,
    .ident [112], .word .semicolonsym, .word .beginsym, .word .writesym, .ident [99], .word .endsym,
    .word .semicolonsym, .word .beginsym, .word .callsym, .ident [112], .word .endsym,
    .word .periodsym]

def writtenConstantCode : List Instruction :=
  [⟨7, 0, 0, 6⟩, ⟨7, 0, 0, 2⟩, ⟨6, 0, 0, 4⟩, ⟨3, 0, 0, 1⟩, ⟨9, 0, 0, 1⟩, ⟨2, 0, 0, 0⟩, ⟨6, 0, 0, 4⟩,
    ⟨5, 0, 0, 1⟩, ⟨9, 0, 0, 3⟩]

/-- The program meets what the static links are proved for; the instruction at 0 of the
procedure reaches the constant of the main block. -/
theorem writtenConstant_parsed : ∃ block s, parse 20 writtenConstant = .ok block s ∧
    s.reports = [] ∧ block.procedures.length + 1 < maxCodeSets ∧
    (∀ p ∈ block.procedures, ∃ list, p.body.statement = .begin list) ∧
    (∀ u ∈ uses s.gen.trace, u.Resolves) ∧
    prepareMcode s.gen.code FINAL_CODE = writtenConstantCode ∧
    ∃ symbol, .access [1, 0] 1 0 symbol ∈ s.gen.trace ∧ .declare [0] symbol ∈ s.gen.trace := by
  have bodies : returned? (fun block _ => block.procedures.map fun p => p.body.statement)
      (parse 20 writtenConstant) = some [.begin (.cons (.write [99]) .nil)] := by
    rfl
  have clean : (stateOf (parse 20 writtenConstant)).reports = [] := by rfl
  have resolved : ∀ u ∈ uses (stateOf (parse 20 writtenConstant)).gen.trace, u.Resolves := by
    decide +kernel
  have linked : prepareMcode (stateOf (parse 20 writtenConstant)).gen.code FINAL_CODE =
      writtenConstantCode := by
    rfl
  have accessed : (stateOf (parse 20 writtenConstant)).gen.trace[3]? =
      some (.access [1, 0] 1 0 ⟨.constS, [99], 1, 0, 0, 0⟩) := by
    rfl
  have declared : (stateOf (parse 20 writtenConstant)).gen.trace[0]? =
      some (.declare [0] ⟨.constS, [99], 1, 0, 0, 0⟩) := by
    rfl
  obtain ⟨block, s, accepted, bodies⟩ := returned?_eq_some.mp bodies
  rw [accepted] at clean resolved linked accessed declared
  obtain ⟨p, rest, procedures, begins, none⟩ := List.map_eq_cons_iff.mp bodies
  rw [List.map_eq_nil_iff] at none
  subst none
  have few : block.procedures.length + 1 < maxCodeSets := by
    rw [procedures, List.length_singleton]
    decide
  refine ⟨block, s, accepted, clean, few, ?_, resolved, linked,
    ⟨.constS, [99], 1, 0, 0, 0⟩, List.mem_of_getElem? accessed, List.mem_of_getElem? declared⟩
  intro q member
  rw [procedures, List.mem_singleton] at member
  subst member
  exact ⟨_, begins⟩

/-- Control is in front of the `write`. -/
def beforeWrite : Monitor := (Monitor.start writtenConstantCode []).turn.turn.turn.turn.turn

theorem beforeWrite_reached :
    Relation.ReflTransGen StoreStep (Monitor.start writtenConstantCode []) beforeWrite := by
  have start : StoreStep (Monitor.start writtenConstantCode [])
      (Monitor.start writtenConstantCode []).turn :=
    storeStep_turn rfl rfl rfl (by decide)
  have main : StoreStep (Monitor.start writtenConstantCode []).turn
      (Monitor.start writtenConstantCode []).turn.turn :=
    storeStep_turn rfl rfl rfl (by decide)
  have call : StoreStep (Monitor.start writtenConstantCode []).turn.turn
      (Monitor.start writtenConstantCode []).turn.turn.turn :=
    storeStep_turn rfl rfl rfl (by decide)
  have enter : StoreStep (Monitor.start writtenConstantCode []).turn.turn.turn
      (Monitor.start writtenConstantCode []).turn.turn.turn.turn :=
    storeStep_turn rfl rfl rfl (by decide)
  have reserve : StoreStep (Monitor.start writtenConstantCode []).turn.turn.turn.turn beforeWrite :=
    storeStep_turn rfl rfl rfl (by decide)
  exact ((((Relation.ReflTransGen.single start).tail main).tail call).tail enter).tail reserve

theorem static_links_writtenConstant : ∃ block s, parse 20 writtenConstant = .ok block s ∧
    (∀ frame ∈ beforeWrite.frames, HasDisplay beforeWrite (block.chains [0]) frame) ∧
    ∃ symbol, .access [1, 0] 1 0 symbol ∈ s.gen.trace ∧ .declare [0] symbol ∈ s.gen.trace ∧
      (ReachesBlock beforeWrite ⟨3, 0, 0, 1⟩ [0] ↔
        (symbol.kind = .constS → ([0] : List Int) = [1, 0])) := by
  obtain ⟨block, s, accepted, clean, few, begins, resolved, linked, symbol, access, declared⟩ :=
    writtenConstant_parsed
  obtain ⟨displays, reaches⟩ := static_links accepted clean few begins resolved
    (linked.symm ▸ beforeWrite_reached)
  obtain ⟨frame, index, newest, place, -, operand⟩ :=
    reaches ⟨3, 0, 0, 1⟩ rfl (next?_eq_some.mp rfl) rfl
  cases newest
  rw [linked] at place
  have first : index = 0 := place.trans rfl
  subst first
  exact ⟨block, s, accepted, displays, symbol, access, declared,
    operand [1, 0] symbol [0] access declared⟩

/-- The `write` of the main block's constant loads from the frame of the procedure. -/
theorem constant_reached_in_own_frame : ¬ ∀ (fuel : Nat) (tokens : List CurrentToken)
    (block : BlockNode) (s : ParseState), parse fuel tokens = .ok block s → s.reports = [] →
    block.procedures.length + 1 < maxCodeSets →
    (∀ p ∈ block.procedures, ∃ list, p.body.statement = .begin list) →
    (∀ u ∈ uses s.gen.trace, u.Resolves) → ∀ (input : List Int) (g : Monitor),
    Relation.ReflTransGen StoreStep (Monitor.start (prepareMcode s.gen.code FINAL_CODE) input) g →
    ∀ ir, g.vm.status = .running → Fetches g.vm ir → reachesOperand ir.op = true →
    ∀ frame ∈ g.frames.head?, ∀ scope index symbol d,
      index = g.vm.pc - segmentStart (prepareMcode s.gen.code FINAL_CODE) frame.entry - 1 →
      .access scope frame.entry index symbol ∈ s.gen.trace → .declare d symbol ∈ s.gen.trace →
        ReachesBlock g ir d := by
  intro always
  obtain ⟨block, s, accepted, clean, few, begins, resolved, linked, symbol, access, declared⟩ :=
    writtenConstant_parsed
  have frames : beforeWrite.frames = [⟨1, 5, 4, 4, 1, 8⟩, ⟨0, 1, 4, 0, 1, 0⟩] := by rfl
  have newest : beforeWrite.frames.head? = some ⟨1, 5, 4, 4, 1, 8⟩ := by rw [frames]; rfl
  obtain ⟨owner, member, main, reached⟩ := always 20 writtenConstant block s accepted clean few
    begins resolved [] beforeWrite (linked.symm ▸ beforeWrite_reached) ⟨3, 0, 0, 1⟩ rfl
    (next?_eq_some.mp rfl) rfl _ newest [1, 0] 0 symbol [0] (by rw [linked]; rfl) access declared
  have own : base beforeWrite.vm 0 beforeWrite.vm.bp = .ok 5 := by rfl
  have place : (5 : Int) = owner.base := Except.ok.inj (own.symm.trans reached)
  rw [frames] at member
  rcases List.mem_cons.mp member with rfl | oldest
  · cases main
  · rw [List.mem_singleton] at oldest
    rw [oldest] at place
    cases place

end Pl0
