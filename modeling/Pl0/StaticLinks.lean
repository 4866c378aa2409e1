import Pl0.ActivationRecordDiscipline
import Pl0.Linker
import Pl0.StaticChain
import Pl0.StatementFlow

set_option autoImplicit false

namespace Pl0

open ControlFlow StaticChain

/-- An instruction that stops the machine. -/
def Halts (ir : Instruction) : Prop :=
  ir.op = Opcode.sio.toInt ∧ ir.m = 3

/-- The code of a block: it is entered through the jump that bears its number, reserves
its frame first, keeps control until it returns or halts, and calls only procedures that
a block around it declares. -/
structure Segment (final : List Instruction) (chains : List (List Int)) (chain : List Int)
    (start stop : Int) : Prop where
  jump : ∀ set, chain.head? = some set → ∀ ir, At final 0 set ir →
    ir.op = Opcode.jmp.toInt ∧ ir.m = start
  opening : ∀ ir, At final 0 start ir → ir.op = Opcode.inc.toInt ∧ 4 ≤ ir.m
  nonempty : start + 1 < stop
  reserved : ∀ i ir, start < i → i < stop → At final 0 i ir → ir.op ≠ Opcode.inc.toInt
  stays : ∀ i ir, start < i → i < stop → At final 0 i ir → ¬ Halts ir →
    ∀ j, some j ∈ targets ir i → start < j ∧ j < stop
  calls : ∀ i ir, start < i → i < stop → At final 0 i ir → ir.op = Opcode.cal.toInt →
    ir.l.toNat < chain.length ∧ ir.m :: chain.drop ir.l.toNat ∈ chains

/-- Code with a segment for each block, the main one first; `bounds` tells where it
starts and stops. -/
structure Blocks (final : List Instruction) (chains : List (List Int)) (bounds : Int → Int × Int) :
    Prop where
  main : [0] ∈ chains
  distinct : ∀ chain ∈ chains, ∀ chain' ∈ chains, chain.head? = chain'.head? → chain = chain'
  segment : ∀ chain ∈ chains, ∀ set, chain.head? = some set →
    Segment final chains chain (bounds set).1 (bounds set).2

def StoresLocally (g : Monitor) (ir : Instruction) : Prop :=
  Opcode.ofInt? ir.op = some .sto → ∀ target, base g.vm ir.l g.vm.bp = .ok target →
    ∃ frame ∈ g.frames, frame.base + 4 ≤ target + ir.m ∧ target + ir.m < frame.base + frame.size

/-- One turn of a running machine whose STO writes to a local of an active frame. -/
inductive StoreStep : Monitor → Monitor → Prop
  | execute {g : Monitor} {ir : Instruction} {vm' : VirtualMachine}
      (running : g.vm.status = .running) (fetches : Fetches g.vm ir)
      (stores : StoresLocally g ir) (stepped : step g.vm = .ok vm') :
      StoreStep g (g.record ir vm')
  | stop {g : Monitor} (running : g.vm.status = .running) (none : g.vm.next? = none)
      (stepped : step g.vm = .ok { g.vm with status := .error }) :
      StoreStep g { g with vm := { g.vm with status := .error } }

/-- The static link of the frame at `b`. -/
def staticLink (vm : VirtualMachine) (b : Int) : Option Int :=
  match readStack vm (b + 1) with
  | .ok next => some next
  | .error _ => none

theorem staticLink_congr {vm vm' : VirtualMachine} {b : Int}
    (same : vm'.stack (b + 1) = vm.stack (b + 1)) : staticLink vm' b = staticLink vm b := by
  unfold staticLink readStack
  cases checkIndex (b + 1) maxStackHeight with
  | ok => simp only [Except.bind_of_ok rfl, same]
  | error => rfl

theorem staticLink_eq_some {vm : VirtualMachine} {b : Int}
    (inside : 0 ≤ b + 1 ∧ b + 1 < maxStackHeight) : staticLink vm b = some (vm.stack (b + 1)) := by
  unfold staticLink
  rw [readStack_eq_ok.mpr ⟨inside, rfl⟩]

theorem baseLoop_of_follow {vm : VirtualMachine} {n : Nat} {b b' : Int}
    (followed : follow (staticLink vm) n b = some b') : baseLoop vm n b = .ok b' := by
  induction n generalizing b with
  | zero =>
      cases followed
      rfl
  | succ n ih =>
      rw [follow] at followed
      obtain ⟨next, linked, rest⟩ := Option.bind_eq_some_iff.mp followed
      unfold staticLink at linked
      cases read : readStack vm (b + 1) with
      | error fault =>
          rw [read] at linked
          cases linked
      | ok value =>
          rw [read, Option.some.injEq] at linked
          subst linked
          rw [baseLoop, Except.bind_of_ok read]
          exact ih rest

def Frame.place (frame : Frame) : Int × Int := (frame.base, frame.entry)

theorem setSize_places (size : Int) (frames : List Frame) :
    (setSize size frames).map Frame.place = frames.map Frame.place := by
  cases frames <;> rfl

section Run

variable (final : List Instruction) (chains : List (List Int)) (bounds : Int → Int × Int)

/-- `pc` is in the code of the block with this number, behind the reservation. -/
def InBlock (set pc : Int) : Prop :=
  ∃ chain ∈ chains, chain.head? = some set ∧
    Segment final chains chain (bounds set).1 (bounds set).2 ∧
      (bounds set).1 < pc ∧ pc < (bounds set).2

/-- `pc` is where a block is entered. -/
def Entering (set pc : Int) : Prop :=
  ∃ chain ∈ chains, chain.head? = some set ∧
    Segment final chains chain (bounds set).1 (bounds set).2 ∧ (pc = set ∨ pc = (bounds set).1)

/-- Every frame returns into the block of its caller. -/
def Returns : List Frame → Prop
  | [] => True
  | [_] => True
  | frame :: caller :: older => InBlock final chains bounds caller.entry frame.callPc ∧
      Returns (caller :: older)

structure LinkInv (g : Monitor) : Prop where
  record : RecordInv g
  code : g.vm.code = final
  nested : Nested (staticLink g.vm) chains (g.frames.map Frame.place)
  returns : Returns final chains bounds g.frames
  here : g.vm.status = .running → ∀ frame ∈ g.frames.head?,
    if g.pending then Entering final chains bounds frame.entry g.vm.pc
    else InBlock final chains bounds frame.entry g.vm.pc

variable {final chains bounds}

theorem Returns.setSize {frames : List Frame} (returns : Returns final chains bounds frames)
    (size : Int) :
    Returns final chains bounds (setSize size frames) := by
  cases frames with
  | nil => trivial
  | cons newest older =>
      cases older with
      | nil => trivial
      | cons caller rest => exact returns

theorem Returns.tail {frames : List Frame} (returns : Returns final chains bounds frames) :
    Returns final chains bounds frames.tail := by
  cases frames with
  | nil => trivial
  | cons newest older =>
      cases older with
      | nil => trivial
      | cons caller rest => exact returns.2

theorem Fetches.at {vm : VirtualMachine} {ir : Instruction} (fetches : Fetches vm ir) :
    At vm.code 0 vm.pc ir := by
  have nonneg := fetches.nonneg
  exact ⟨vm.pc.toNat, by omega, fetches.there⟩

theorem opcode_of_eq {ir : Instruction} {op : Opcode} (same : ir.op = op.toInt) :
    Opcode.ofInt? ir.op = some op := by
  rw [same, Opcode.ofInt?_toInt]

/-- The reservations are where the discipline of the records wants them. -/
theorem LinkInv.disciplined {g : Monitor} (inv : LinkInv final chains bounds g)
    (running : g.vm.status = .running) {ir : Instruction} (fetches : Fetches g.vm ir)
    (stores : StoresLocally g ir) : Disciplined g ir := by
  have present := fetches.at
  rw [inv.code] at present
  have here := inv.here running
  cases whole : g.frames with
  | nil => exact absurd whole (inv.record.frames_ne_nil running)
  | cons frame older =>
      have at_ := here frame (by simp [whole])
      refine ⟨?_, ?_, stores⟩
      · intro pending
        rw [if_pos pending] at at_
        obtain ⟨chain, member, head, segment, atJump | atStart⟩ := at_
        · rw [atJump] at present
          exact .inl (opcode_of_eq (segment.jump _ head ir present).1)
        · rw [atStart] at present
          obtain ⟨inc, enough⟩ := segment.opening ir present
          exact .inr ⟨opcode_of_eq inc, enough⟩
      · intro reserved
        rw [if_neg (by simp [reserved])] at at_
        obtain ⟨chain, member, head, segment, low, high⟩ := at_
        intro inc
        exact segment.reserved _ ir low high present (Opcode.ofInt?_eq_some inc)

theorem halts_idle {vm vm' : VirtualMachine} {ir : Instruction} (fetches : Fetches vm ir)
    (halts : Halts ir) (stepped : step vm = .ok vm') : vm'.status = .idle := by
  rw [step_of_fetches fetches] at stepped
  have decoded : Opcode.ofInt? (vm.fetched ir).ir.op = some .sio := opcode_of_eq halts.1
  unfold instructionExecution at stepped
  simp only [decoded] at stepped
  have third : (vm.fetched ir).ir.m = 3 := halts.2
  rw [third] at stepped
  cases stepped
  rfl

/-- A turn that is no call and no return stays in its block. -/
theorem InBlock.step {set : Int} {vm vm' : VirtualMachine} {ir : Instruction}
    (inside : InBlock final chains bounds set vm.pc) (code : vm.code = final)
    (fetches : Fetches vm ir)
    (noCall : ir.op ≠ Opcode.cal.toInt) (noReturn : ir.op ≠ Opcode.rtn.toInt)
    (stepped : step vm = .ok vm') (running : vm'.status = .running) :
    InBlock final chains bounds set vm'.pc := by
  have present := fetches.at
  rw [code] at present
  obtain ⟨chain, member, head, segment, low, high⟩ := inside
  have goesOn : ¬ Halts ir := by
    intro halts
    rw [halts_idle fetches halts stepped] at running
    cases running
  rcases step_follows_targets fetches noCall stepped with next | returns
  · have within := segment.stays _ ir low high present goesOn _ next
    exact ⟨chain, member, head, segment, within⟩
  · exact absurd (none_mem_targets returns) noReturn

/-- A turn that leaves the frames and their static links alone. -/
theorem LinkInv.keep {g : Monitor} (inv : LinkInv final chains bounds g) {ir : Instruction}
    {vm' : VirtualMachine} (kept : g.record ir vm' = { g with vm := vm' })
    (record : RecordInv (g.record ir vm')) (code : vm'.code = final)
    (links : ∀ frame ∈ g.frames, vm'.stack (frame.base + 1) = g.vm.stack (frame.base + 1))
    (here : vm'.status = .running → ∀ frame ∈ g.frames.head?,
      if g.pending then Entering final chains bounds frame.entry vm'.pc
      else InBlock final chains bounds frame.entry vm'.pc) :
    LinkInv final chains bounds (g.record ir vm') := by
  rw [kept] at record ⊢
  refine ⟨record, code, inv.nested.congr ?_, inv.returns, here⟩
  intro a member
  obtain ⟨frame, live, rfl⟩ := List.mem_map.mp member
  exact staticLink_congr (links frame live)

theorem LinkInv.reserve {g : Monitor} (inv : LinkInv final chains bounds g) {ir : Instruction}
    {vm' : VirtualMachine} (op : Opcode.ofInt? ir.op = some .inc)
    (record : RecordInv (g.record ir vm')) (code : vm'.code = final)
    (stack : vm'.stack = g.vm.stack)
    (here : ∀ frame ∈ g.frames.head?, InBlock final chains bounds frame.entry vm'.pc) :
    LinkInv final chains bounds (g.record ir vm') := by
  have recorded : g.record ir vm' =
      { vm := vm', frames := setSize ir.m g.frames, pending := false } := by
    simp only [Monitor.record, op]
  rw [recorded] at record ⊢
  refine ⟨record, code, ?_, inv.returns.setSize _, ?_⟩
  · change Nested (staticLink vm') chains ((setSize ir.m g.frames).map Frame.place)
    rw [setSize_places]
    exact inv.nested.congr fun a _ => staticLink_congr (by rw [stack])
  · intro running frame isNewest
    change frame ∈ (setSize ir.m g.frames).head? at isNewest
    change InBlock final chains bounds frame.entry vm'.pc
    cases whole : g.frames with
    | nil =>
        rw [whole] at isNewest
        cases isNewest
    | cons newest older =>
        rw [whole] at isNewest
        cases isNewest
        exact here newest (by simp [whole])

/-- What a CAL finds: the block that it returns into, and the links that it follows, whose
cells lie below the ones that it writes. -/
structure CallSite (final : List Instruction) (chains : List (List Int)) (bounds : Int → Int × Int)
    (g : Monitor) (ir : Instruction) (chain : List Int) (target : Int) : Prop where
  returns : ∀ frame ∈ g.frames.head?, InBlock final chains bounds frame.entry (g.vm.pc + 1)
  levels : ir.l.toNat < chain.length
  declared : ir.m :: chain.drop ir.l.toNat ∈ chains
  display : Display (staticLink g.vm) (g.frames.map Frame.place) g.vm.bp chain
  followed : follow (staticLink g.vm) ir.l.toNat g.vm.bp = some target
  resolved : base { g.vm with stack := Function.update g.vm.stack (g.vm.sp + 1) 0 } ir.l g.vm.bp =
    .ok target

/-- The static links of the frames lie below the top of the stack. -/
theorem LinkInv.links_below {g : Monitor} (inv : LinkInv final chains bounds g)
    (reserved : g.pending = false) : ∀ frame ∈ g.frames, frame.base + 1 < g.vm.sp + 1 := by
  intro frame member
  have bound := ((inv.record.tiled.bounds inv.record.size_nonneg).2 frame member).2
  have size := inv.record.large reserved frame member
  omega

theorem LinkInv.callSite {g : Monitor} (inv : LinkInv final chains bounds g)
    (blocks : Blocks final chains bounds) (reserved : g.pending = false)
    (running : g.vm.status = .running) {ir : Instruction} (fetches : Fetches g.vm ir)
    (op : Opcode.ofInt? ir.op = some .cal) :
    ∃ chain target, CallSite final chains bounds g ir chain target := by
  have present := fetches.at
  rw [inv.code] at present
  cases whole : g.frames with
  | nil => exact absurd whole (inv.record.frames_ne_nil running)
  | cons frame rest =>
      have here := inv.here running frame (by simp [whole])
      rw [if_neg (by simp [reserved])] at here
      obtain ⟨chain, member, head, segment, low, high⟩ := here
      obtain ⟨levels, declared⟩ :=
        segment.calls _ ir low high present (Opcode.ofInt?_eq_some op)
      have current : g.vm.bp = frame.base := by
        have bp := inv.record.bp
        rw [whole] at bp
        exact bp
      have display : Display (staticLink g.vm) (g.frames.map Frame.place) g.vm.bp chain := by
        have nested := inv.nested
        rw [whole] at nested
        obtain ⟨⟨own, ownMember, ownHead, display⟩, -⟩ := nested
        rw [blocks.distinct chain member own ownMember (head.trans ownHead.symm), whole, current]
        exact display
      obtain ⟨target, _, followed, -, -, -⟩ := display.follow levels
      have cleared : ∀ a ∈ g.frames.map Frame.place, staticLink { g.vm with
          stack := Function.update g.vm.stack (g.vm.sp + 1) 0 } a.1 = staticLink g.vm a.1 := by
        intro a live
        obtain ⟨other, otherLive, rfl⟩ := List.mem_map.mp live
        have apart := inv.links_below reserved other otherLive
        apply staticLink_congr
        exact Function.update_of_ne (Int.ne_of_lt apart) _ _
      have resolved : base { g.vm with stack := Function.update g.vm.stack (g.vm.sp + 1) 0 } ir.l
          g.vm.bp = .ok target := by
        have same := display.follow_congr levels cleared
        rw [followed] at same
        exact baseLoop_of_follow same
      have next : some (g.vm.pc + 1) ∈ targets ir g.vm.pc := by
        unfold targets
        rw [Opcode.ofInt?_eq_some op, if_neg (by decide), if_neg (by decide), if_neg (by decide)]
        exact List.mem_singleton.mpr rfl
      have goesOn : ¬ Halts ir := by
        intro halts
        rw [halts.1] at op
        cases op
      refine ⟨chain, target, ?_, levels, declared, display, followed, resolved⟩
      intro newest isNewest
      rw [whole] at isNewest
      cases isNewest
      exact ⟨chain, member, head, segment, segment.stays _ ir low high present goesOn _ next⟩

/-- A call links the new frame to the activation of the block that declares the
procedure. -/
theorem LinkInv.call {g : Monitor} (inv : LinkInv final chains bounds g)
    (blocks : Blocks final chains bounds)
    (reserved : g.pending = false) (running : g.vm.status = .running) {ir : Instruction}
    {vm' : VirtualMachine} {link : Int} (fetches : Fetches g.vm ir)
    (op : Opcode.ofInt? ir.op = some .cal)
    (resolved : base { g.vm with stack := Function.update g.vm.stack (g.vm.sp + 1) 0 }
      ir.l g.vm.bp =
      .ok link)
    (stack : vm'.stack = Function.update (Function.update (Function.update
      (Function.update g.vm.stack (g.vm.sp + 1) 0) (g.vm.sp + 2) link) (g.vm.sp + 3) g.vm.bp)
      (g.vm.sp + 4) (g.vm.pc + 1))
    (pc : vm'.pc = ir.m) (room : 0 ≤ g.vm.sp + 2 ∧ g.vm.sp + 2 < maxStackHeight)
    (record : RecordInv (g.record ir vm')) (code : vm'.code = final) :
    LinkInv final chains bounds (g.record ir vm') := by
  have recorded : g.record ir vm' =
      { vm := vm'
        frames := { entry := ir.m, base := g.vm.sp + 1, size := 0, callSp := g.vm.sp,
                    callBp := g.vm.bp, callPc := g.vm.pc + 1 } :: g.frames
        pending := true } := by
    simp only [Monitor.record, op]
  obtain ⟨chain, target, site⟩ := inv.callSite blocks reserved running fetches op
  have links : ∀ a ∈ g.frames.map Frame.place, staticLink vm' a.1 = staticLink g.vm a.1 := by
    intro a member
    obtain ⟨frame, live, rfl⟩ := List.mem_map.mp member
    have apart := inv.links_below reserved frame live
    apply staticLink_congr
    change vm'.stack (frame.base + 1) = g.vm.stack (frame.base + 1)
    rw [stack, Function.update_of_ne (by omega), Function.update_of_ne (by omega),
      Function.update_of_ne (by omega), Function.update_of_ne (by omega)]
  have found : link = target := Except.ok.inj (resolved.symm.trans site.resolved)
  have linked : staticLink vm' (g.vm.sp + 1) = follow (staticLink g.vm) ir.l.toNat g.vm.bp := by
    have cell : g.vm.sp + 1 + 1 = g.vm.sp + 2 := by omega
    rw [staticLink_eq_some (by rw [cell]; exact room), site.followed, cell, stack,
      Function.update_of_ne (by omega), Function.update_of_ne (by omega), Function.update_self,
      found]
  rw [recorded] at record ⊢
  refine ⟨record, code, ?_, ?_, ?_⟩
  · exact inv.nested.call site.display site.levels site.declared linked links
  · change Returns final chains bounds (_ :: g.frames)
    cases whole : g.frames with
    | nil => exact absurd whole (inv.record.frames_ne_nil running)
    | cons frame rest =>
        have returns := inv.returns
        rw [whole] at returns
        exact ⟨site.returns frame (by simp [whole]), returns⟩
  · intro _ newest isNewest
    cases isNewest
    change Entering final chains bounds ir.m vm'.pc
    exact ⟨_, site.declared, rfl, blocks.segment _ site.declared _ rfl, .inl pc⟩

theorem LinkInv.return {g : Monitor} (inv : LinkInv final chains bounds g)
    (running : g.vm.status = .running) {ir : Instruction} {vm' : VirtualMachine}
    (op : Opcode.ofInt? ir.op = some .rtn) (stack : vm'.stack = g.vm.stack)
    (pc : vm'.pc = g.vm.stack (g.vm.bp + 3)) (record : RecordInv (g.record ir vm'))
    (code : vm'.code = final) : LinkInv final chains bounds (g.record ir vm') := by
  have recorded : g.record ir vm' = { vm := vm', frames := g.frames.tail, pending := false } := by
    simp only [Monitor.record, op]
  have nested : Nested (staticLink vm') chains (g.frames.map Frame.place) :=
    inv.nested.congr fun a _ => staticLink_congr (by rw [stack])
  have returns := inv.returns
  have linked := inv.record.linked
  have bp := inv.record.bp
  cases whole : g.frames with
  | nil => exact absurd whole (inv.record.frames_ne_nil running)
  | cons frame older =>
      rw [whole] at nested returns linked bp
      rw [recorded, whole] at record ⊢
      refine ⟨record, code, nested.2, returns.tail, ?_⟩
      intro _ caller isNewest
      cases older with
      | nil => cases isNewest
      | cons newest rest =>
          cases isNewest
          change InBlock final chains bounds caller.entry vm'.pc
          obtain ⟨-, -, -, address, -⟩ := linked
          have current : g.vm.bp = frame.base := bp
          rw [pc, current, address]
          exact returns.1

/-- Every turn keeps the static links. -/
theorem StoreStep.linkInv {g h : Monitor} (taken : StoreStep g h)
    (blocks : Blocks final chains bounds)
    (inv : LinkInv final chains bounds g) : LinkInv final chains bounds h := by
  cases taken with
  | stop running none stepped =>
      refine ⟨inv.record.keep (inv.record.frames_ne_nil running) rfl rfl fun _ _ => ⟨rfl, rfl⟩,
        inv.code, inv.nested.congr fun _ _ => staticLink_congr rfl, inv.returns, ?_⟩
      intro impossible
      cases impossible
  | @execute ir vm' running fetches stores stepped =>
      have disciplined := inv.disciplined running fetches stores
      have record := (MonitorStep.execute running fetches disciplined stepped).recordInv inv.record
      have code : vm'.code = final := (step_code stepped).trans inv.code
      -- Only the jump and the reservation of a block are executed while it is entered.
      have settled : Opcode.ofInt? ir.op ≠ some .jmp → Opcode.ofInt? ir.op ≠ some .inc →
          g.pending = false := by
        intro notJmp notInc
        cases waiting : g.pending with
        | false => rfl
        | true =>
            rcases disciplined.opening waiting with jmp | ⟨inc, -⟩
            · exact absurd jmp notJmp
            · exact absurd inc notInc
      have goesOn : Opcode.ofInt? ir.op ≠ some .cal → Opcode.ofInt? ir.op ≠ some .rtn →
          g.pending = false → vm'.status = .running → ∀ frame ∈ g.frames.head?,
            if g.pending then Entering final chains bounds frame.entry vm'.pc
            else InBlock final chains bounds frame.entry vm'.pc := by
        intro noCall noReturn reserved still frame isNewest
        have here := inv.here running frame isNewest
        have inner : ¬ g.pending = true := by simp [reserved]
        rw [if_neg inner] at here ⊢
        exact here.step inv.code fetches (fun same => noCall (opcode_of_eq same))
          (fun same => noReturn (opcode_of_eq same)) stepped still
      cases MonitorStep.execute_effect fetches stepped with
      | inner op same pc =>
          have quiet : ∀ op' : Opcode, op'.isControl = true → Opcode.ofInt? ir.op ≠ some op' := by
            intro op' control decoded
            rw [op op' decoded] at control
            cases control
          have kept : g.record ir vm' = { g with vm := vm' } := by
            apply record_keep
            intro op' decoded
            have plain := op op' decoded
            refine ⟨?_, ?_, ?_⟩ <;> rintro rfl <;> cases plain
          exact inv.keep kept record code (fun _ _ => by rw [same.stack])
            (goesOn (quiet _ rfl) (quiet _ rfl) (settled (quiet _ rfl) (quiet _ rfl)))
      | jmp op same status pc =>
          have kept : g.record ir vm' = { g with vm := vm' } := record_keep g ir vm' (by simp [op])
          apply inv.keep kept record code (fun _ _ => by rw [same.stack])
          cases waiting : g.pending with
          | false =>
              intro still
              have inside := goesOn (by simp [op]) (by simp [op]) waiting still
              rw [waiting] at inside
              exact inside
          | true =>
              intro _ frame isNewest
              have here := inv.here running frame isNewest
              rw [if_pos waiting] at here
              rw [if_pos rfl]
              obtain ⟨chain, member, head, segment, atJump | atStart⟩ := here
              · refine ⟨chain, member, head, segment, .inr ?_⟩
                have present := fetches.at
                rw [inv.code, atJump] at present
                rw [pc, (segment.jump _ head ir present).2]
              · have present := fetches.at
                rw [inv.code, atStart] at present
                rw [opcode_of_eq (segment.opening ir present).1] at op
                cases op
      | jpc op same status pc =>
          have kept : g.record ir vm' = { g with vm := vm' } := record_keep g ir vm' (by simp [op])
          exact inv.keep kept record code (fun _ _ => by rw [same.stack])
            (goesOn (by simp [op]) (by simp [op]) (settled (by simp [op]) (by simp [op])))
      | sto target value op resolved sp bp stack frameBreak frameLevel status pc =>
          have kept : g.record ir vm' = { g with vm := vm' } := record_keep g ir vm' (by simp [op])
          obtain ⟨owner, owned, low, high⟩ := stores op target resolved
          refine inv.keep kept record code ?_
            (goesOn (by simp [op]) (by simp [op]) (settled (by simp [op]) (by simp [op])))
          intro frame live
          have apart : target + ir.m ≠ frame.base + 1 :=
            inv.record.tiled.locals_apart inv.record.size_nonneg inv.record.older
              owned live low high
              (by decide)
          rw [stack, Function.update_of_ne apart.symm]
      | inc op sp bp stack frameBreak frameLevel status pc =>
          have waiting : g.pending = true := by
            cases reserved : g.pending with
            | true => rfl
            | false => exact absurd op (disciplined.reserved reserved)
          apply inv.reserve op record code stack
          intro frame isNewest
          have here := inv.here running frame isNewest
          rw [if_pos waiting] at here
          have present := fetches.at
          rw [inv.code] at present
          obtain ⟨chain, member, head, segment, atJump | atStart⟩ := here
          · rw [atJump] at present
            rw [opcode_of_eq (segment.jump _ head ir present).1] at op
            cases op
          · refine ⟨chain, member, head, segment, ?_⟩
            have nonempty := segment.nonempty
            omega
      | cal link op resolved sp bp stack frameBreak frameLevel level status pc room =>
          exact inv.call blocks (settled (by simp [op]) (by simp [op])) running fetches op resolved
            stack pc room record code
      | rtn op sp bp stack frameBreak frameLevel level status pc =>
          exact inv.return running op stack pc record code

theorem linkInv_start (blocks : Blocks final chains bounds) (input : List Int) :
    LinkInv final chains bounds (Monitor.start final input) where
  record := recordInv_start final input
  code := rfl
  nested := ⟨⟨[0], blocks.main, rfl, .outermost List.mem_cons_self⟩, trivial⟩
  returns := trivial
  here := by
    intro _ frame isNewest
    cases isNewest
    exact ⟨[0], blocks.main, rfl, blocks.segment _ blocks.main _ rfl, .inl rfl⟩

theorem linkInv_reachable (blocks : Blocks final chains bounds) {input : List Int} {g : Monitor}
    (reached : Relation.ReflTransGen StoreStep (Monitor.start final input) g) :
    LinkInv final chains bounds g := by
  induction reached with
  | refl => exact linkInv_start blocks input
  | tail _ taken ih => exact taken.linkInv blocks ih

end Run

/-- A turn of a running machine that stores nothing. -/
theorem storeStep_turn {g : Monitor} {ir : Instruction} (running : g.vm.status = .running)
    (next : g.vm.next? = some ir) (completes : (step g.vm).isOk = true)
    (noStore : Opcode.ofInt? ir.op ≠ some .sto) : StoreStep g g.turn := by
  have fetches := next?_eq_some.mp next
  cases stepped : step g.vm with
  | error fault =>
      rw [stepped] at completes
      cases completes
  | ok vm' =>
      have turned : g.turn = g.record ir vm' := by
        unfold Monitor.turn
        rw [next, stepped]
      rw [turned]
      exact .execute running fetches (fun isSto => absurd isSto noStore) stepped

end Pl0
