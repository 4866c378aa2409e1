import Pl0.CallRuns
import Pl0.VirtualMachineStep

set_option autoImplicit false

namespace Pl0

/-- An activation record: the code index its CAL jumped to, its cells
`[base, base + size)`, and `sp`, `bp` and the return address at its CAL. -/
structure Frame where
  entry : Int
  base : Int
  size : Int
  callSp : Int
  callBp : Int
  callPc : Int
  deriving DecidableEq, Repr

/-- A machine with the history of its calls. `frames` are the active records,
newest first; the newest is `pending` between its CAL and its INC. -/
structure Monitor where
  vm : VirtualMachine
  frames : List Frame
  pending : Bool

def Monitor.start (code : List Instruction) (input : List Int) : Monitor :=
  { vm := startVm code input
    frames := [{ entry := 0, base := 1, size := 0, callSp := 0, callBp := 1, callPc := 0 }]
    pending := true }

/-- The record of an INC: the newest frame gets its size. -/
def setSize (size : Int) : List Frame → List Frame
  | [] => []
  | newest :: older => { newest with size := size } :: older

/-- The history after the machine executed `ir`. -/
def Monitor.record (g : Monitor) (ir : Instruction) (vm' : VirtualMachine) : Monitor :=
  match Opcode.ofInt? ir.op with
  | some .cal =>
      { vm := vm'
        frames := { entry := ir.m, base := g.vm.sp + 1, size := 0, callSp := g.vm.sp,
                    callBp := g.vm.bp, callPc := g.vm.pc + 1 } :: g.frames
        pending := true }
  | some .inc => { vm := vm', frames := setSize ir.m g.frames, pending := false }
  | some .rtn => { vm := vm', frames := g.frames.tail, pending := false }
  | _ => { g with vm := vm' }

/-- The first instruction of an activation other than JMP is an INC of at least
4, no other INC is executed, and every STO writes to a local of an active frame. -/
structure Disciplined (g : Monitor) (ir : Instruction) : Prop where
  opening : g.pending = true → Opcode.ofInt? ir.op = some .jmp ∨
    Opcode.ofInt? ir.op = some .inc ∧ 4 ≤ ir.m
  reserved : g.pending = false → Opcode.ofInt? ir.op ≠ some .inc
  stores : Opcode.ofInt? ir.op = some .sto → ∀ target, base g.vm ir.l g.vm.bp = .ok target →
    ∃ frame ∈ g.frames, frame.base + 4 ≤ target + ir.m ∧ target + ir.m < frame.base + frame.size

/-- One turn of a running machine; a turn without an instruction ends the run. -/
inductive MonitorStep : Monitor → Monitor → Prop
  | execute {g : Monitor} {ir : Instruction} {vm' : VirtualMachine}
      (running : g.vm.status = .running) (fetches : Fetches g.vm ir)
      (disciplined : Disciplined g ir) (stepped : step g.vm = .ok vm') :
      MonitorStep g (g.record ir vm')
  | stop {g : Monitor} (running : g.vm.status = .running) (none : g.vm.next? = none)
      (stepped : step g.vm = .ok { g.vm with status := .error }) :
      MonitorStep g { g with vm := { g.vm with status := .error } }

/-- The same, but that an STO may write anywhere except over the dynamic link or the return
address that a CAL saved. -/
structure Undisturbed (g : Monitor) (ir : Instruction) : Prop where
  opening : g.pending = true → Opcode.ofInt? ir.op = some .jmp ∨
    Opcode.ofInt? ir.op = some .inc ∧ 4 ≤ ir.m
  reserved : g.pending = false → Opcode.ofInt? ir.op ≠ some .inc
  stores : Opcode.ofInt? ir.op = some .sto → ∀ target, base g.vm ir.l g.vm.bp = .ok target →
    ∀ frame ∈ g.frames.dropLast, target + ir.m ≠ frame.base + 2 ∧ target + ir.m ≠ frame.base + 3

/-- One turn of a running machine that spares the saved words. -/
inductive FrameStep : Monitor → Monitor → Prop
  | execute {g : Monitor} {ir : Instruction} {vm' : VirtualMachine}
      (running : g.vm.status = .running) (fetches : Fetches g.vm ir)
      (undisturbed : Undisturbed g ir) (stepped : step g.vm = .ok vm') :
      FrameStep g (g.record ir vm')
  | stop {g : Monitor} (running : g.vm.status = .running) (none : g.vm.next? = none)
      (stepped : step g.vm = .ok { g.vm with status := .error }) :
      FrameStep g { g with vm := { g.vm with status := .error } }

/-- Whether the next turn calls or returns. -/
def Monitor.kind (g : Monitor) : CallRuns.Kind :=
  match g.vm.next?.bind fun ir => Opcode.ofInt? ir.op with
  | some .cal => .call
  | some .rtn => .ret
  | _ => .inner

/-- The frames are contiguous from cell 1 up to the cell before `top`. -/
def Tiled : Int → List Frame → Prop
  | top, [] => top = 1
  | top, newest :: older => newest.base + newest.size = top ∧ Tiled newest.base older

/-- Every frame but the oldest holds the dynamic link and the return address
that its CAL saved, and its caller is the frame below it. -/
def Linked (stack : Int → Int) : List Frame → Prop
  | [] => True
  | [_] => True
  | frame :: caller :: older =>
      frame.callSp = frame.base - 1 ∧ frame.callBp = caller.base ∧
        stack (frame.base + 2) = frame.callBp ∧ stack (frame.base + 3) = frame.callPc ∧
        Linked stack (caller :: older)

structure RecordInv (g : Monitor) : Prop where
  tiled : Tiled (g.vm.sp + 1) g.frames
  older : ∀ frame ∈ g.frames.tail, 4 ≤ frame.size
  newest : ∀ frame ∈ g.frames.head?, (g.pending = true ∧ frame.size = 0) ∨
    (g.pending = false ∧ 4 ≤ frame.size)
  bp : g.vm.bp = (g.frames.head?.map Frame.base).getD 1
  linked : Linked g.vm.stack g.frames
  finished : g.frames = [] → g.vm.status = .idle

theorem RecordInv.size_nonneg {g : Monitor} (inv : RecordInv g) :
    ∀ frame ∈ g.frames, 0 ≤ frame.size := by
  intro frame member
  cases whole : g.frames with
  | nil => simp [whole] at member
  | cons newest older =>
      rw [whole, List.mem_cons] at member
      rcases member with rfl | below
      · have sized := inv.newest frame (by simp [whole])
        omega
      · have sized := inv.older frame (by simpa [whole] using below)
        omega

theorem Tiled.bounds {top : Int} {frames : List Frame} (tiled : Tiled top frames)
    (sized : ∀ frame ∈ frames, 0 ≤ frame.size) :
    1 ≤ top ∧ ∀ frame ∈ frames, 1 ≤ frame.base ∧ frame.base + frame.size ≤ top := by
  induction frames generalizing top with
  | nil => exact ⟨Int.le_of_eq tiled.symm, by simp⟩
  | cons newest older ih =>
      obtain ⟨whole, rest⟩ := tiled
      have sizedNewest := sized newest List.mem_cons_self
      obtain ⟨low, within⟩ :=
        ih rest fun frame member => sized frame (List.mem_cons_of_mem _ member)
      refine ⟨by omega, ?_⟩
      intro frame member
      rcases List.mem_cons.mp member with rfl | below
      · exact ⟨low, by omega⟩
      · have bound := within frame below
        exact ⟨bound.1, by omega⟩

/-- Older frames lie entirely below newer ones. -/
theorem Tiled.pairwise {top : Int} {frames : List Frame} (tiled : Tiled top frames)
    (sized : ∀ frame ∈ frames, 0 ≤ frame.size) :
    frames.Pairwise fun newer older => older.base + older.size ≤ newer.base := by
  induction frames generalizing top with
  | nil => exact .nil
  | cons newest older ih =>
      have sizedOlder : ∀ frame ∈ older, 0 ≤ frame.size := fun frame member =>
        sized frame (List.mem_cons_of_mem _ member)
      exact .cons (fun frame member => ((tiled.2.bounds sizedOlder).2 frame member).2)
        (ih tiled.2 sizedOlder)

/-- Contiguous frames cover every cell below `top`. -/
theorem Tiled.covers {top : Int} {frames : List Frame} (tiled : Tiled top frames)
    (sized : ∀ frame ∈ frames, 0 ≤ frame.size) (cell : Int) :
    (1 ≤ cell ∧ cell < top) ↔
      ∃ frame ∈ frames, frame.base ≤ cell ∧ cell < frame.base + frame.size := by
  constructor
  · rintro ⟨low, high⟩
    induction frames generalizing top with
    | nil =>
        rw [tiled] at high
        omega
    | cons newest older ih =>
        by_cases inside : newest.base ≤ cell
        · exact ⟨newest, List.mem_cons_self, inside, by have := tiled.1; omega⟩
        · obtain ⟨frame, member, found⟩ := ih tiled.2
            (fun frame member => sized frame (List.mem_cons_of_mem _ member)) (by omega)
          exact ⟨frame, List.mem_cons_of_mem _ member, found⟩
  · rintro ⟨frame, member, low, high⟩
    have bound := (tiled.bounds sized).2 frame member
    omega

/-- Only the words that a CAL saved matter for the links. -/
theorem Linked.congr {stack stack' : Int → Int} {frames : List Frame} (linked : Linked stack frames)
    (same : ∀ frame ∈ frames.dropLast, stack' (frame.base + 2) = stack (frame.base + 2) ∧
      stack' (frame.base + 3) = stack (frame.base + 3)) : Linked stack' frames := by
  induction frames with
  | nil => trivial
  | cons frame rest ih =>
      cases rest with
      | nil => trivial
      | cons caller older =>
          obtain ⟨sp, bp, link, address, below⟩ := linked
          rw [List.dropLast_cons_cons] at same
          obtain ⟨sameLink, sameAddress⟩ := same frame List.mem_cons_self
          exact ⟨sp, bp, sameLink.trans link, sameAddress.trans address,
            ih below fun frame member => same frame (List.mem_cons_of_mem _ member)⟩

theorem Linked.tail {stack : Int → Int} {frame : Frame} {older : List Frame}
    (linked : Linked stack (frame :: older)) : Linked stack older := by
  cases older with
  | nil => trivial
  | cons caller rest => exact linked.2.2.2.2

/-- Links do not mention sizes. -/
theorem Linked.setSize {stack : Int → Int} {frames : List Frame} (linked : Linked stack frames)
    (size : Int) : Linked stack (setSize size frames) := by
  cases frames with
  | nil => trivial
  | cons newest older =>
      cases older with
      | nil => trivial
      | cons caller rest => exact linked

/-- No local of an active frame is a control word of an active frame. -/
theorem Tiled.locals_apart {top : Int} {frames : List Frame} (tiled : Tiled top frames)
    (sized : ∀ frame ∈ frames, 0 ≤ frame.size) (older : ∀ frame ∈ frames.tail, 4 ≤ frame.size)
    {owner other : Frame} (owned : owner ∈ frames) (present : other ∈ frames) {cell : Int}
    (low : owner.base + 4 ≤ cell) (high : cell < owner.base + owner.size) {word : Int}
    (control : 0 ≤ word ∧ word < 4) : cell ≠ other.base + word := by
  have apart := tiled.pairwise sized
  induction frames generalizing top with
  | nil => cases owned
  | cons newest rest ih =>
      have below := List.pairwise_cons.mp apart
      rw [List.tail_cons] at older
      rcases List.mem_cons.mp owned with rfl | ownedBelow
      · rcases List.mem_cons.mp present with rfl | presentBelow
        · omega
        · have bound := below.1 other presentBelow
          have large := older other presentBelow
          omega
      · rcases List.mem_cons.mp present with rfl | presentBelow
        · have bound := below.1 owner ownedBelow
          omega
        · exact ih tiled.2 (fun frame member => sized frame (List.mem_cons_of_mem _ member))
            (fun frame member => older frame (List.mem_of_mem_tail member))
            ownedBelow presentBelow below.2

theorem record_keep (g : Monitor) (ir : Instruction) (vm' : VirtualMachine)
    (op : ∀ op, Opcode.ofInt? ir.op = some op → op ≠ .cal ∧ op ≠ .inc ∧ op ≠ .rtn) :
    g.record ir vm' = { g with vm := vm' } := by
  unfold Monitor.record
  split
  · rename_i decoded
    exact absurd rfl (op _ decoded).1
  · rename_i decoded
    exact absurd rfl (op _ decoded).2.1
  · rename_i decoded
    exact absurd rfl (op _ decoded).2.2
  · rfl

/-- A turn that neither moves the pointers nor writes a saved word. -/
theorem RecordInv.keep {g : Monitor} (inv : RecordInv g) {vm' : VirtualMachine}
    (nonempty : g.frames ≠ []) (sp : vm'.sp = g.vm.sp) (bp : vm'.bp = g.vm.bp)
    (saved : ∀ frame ∈ g.frames.dropLast, vm'.stack (frame.base + 2) = g.vm.stack (frame.base + 2) ∧
      vm'.stack (frame.base + 3) = g.vm.stack (frame.base + 3)) :
    RecordInv { g with vm := vm' } where
  tiled := by
    change Tiled (vm'.sp + 1) g.frames
    rw [sp]
    exact inv.tiled
  older := inv.older
  newest := inv.newest
  bp := bp.trans inv.bp
  linked := inv.linked.congr saved
  finished := fun none => absurd none nonempty

/-- Once the newest frame has its space, every active frame has at least its
four control words. -/
theorem RecordInv.large {g : Monitor} (inv : RecordInv g) (reserved : g.pending = false) :
    ∀ frame ∈ g.frames, 4 ≤ frame.size := by
  intro frame member
  cases whole : g.frames with
  | nil => simp [whole] at member
  | cons newest older =>
      rw [whole, List.mem_cons] at member
      rcases member with rfl | below
      · have sized := inv.newest frame (by simp [whole])
        simp [reserved] at sized
        exact sized
      · exact inv.older frame (by simpa [whole] using below)

theorem RecordInv.call {g : Monitor} (inv : RecordInv g) (reserved : g.pending = false)
    (nonempty : g.frames ≠ []) {ir : Instruction} {vm' : VirtualMachine} {link : Int}
    (op : Opcode.ofInt? ir.op = some .cal) (sp : vm'.sp = g.vm.sp) (bp : vm'.bp = g.vm.sp + 1)
    (stack : vm'.stack = Function.update (Function.update (Function.update
      (Function.update g.vm.stack (g.vm.sp + 1) 0) (g.vm.sp + 2) link) (g.vm.sp + 3) g.vm.bp)
      (g.vm.sp + 4) (g.vm.pc + 1)) :
    RecordInv (g.record ir vm') := by
  have recorded : g.record ir vm' =
      { vm := vm'
        frames := { entry := ir.m, base := g.vm.sp + 1, size := 0, callSp := g.vm.sp,
                    callBp := g.vm.bp, callPc := g.vm.pc + 1 } :: g.frames
        pending := true } := by
    simp only [Monitor.record, op]
  have large := inv.large reserved
  have bounds := (inv.tiled.bounds inv.size_nonneg).2
  have below : Linked vm'.stack g.frames := by
    refine inv.linked.congr ?_
    intro frame among
    have member := List.dropLast_subset _ among
    have bound := (bounds frame member).2
    have size := large frame member
    rw [stack]
    constructor
    all_goals
      rw [Function.update_of_ne (by omega), Function.update_of_ne (by omega),
        Function.update_of_ne (by omega), Function.update_of_ne (by omega)]
  rw [recorded]
  refine
    { tiled := ⟨by rw [sp]; exact Int.add_zero _, inv.tiled⟩
      older := large
      newest := ?_
      bp := bp
      linked := ?_
      finished := fun none => absurd none (List.cons_ne_nil _ _) }
  · intro frame isNewest
    cases isNewest
    exact Or.inl ⟨rfl, rfl⟩
  · cases whole : g.frames with
    | nil => exact absurd whole nonempty
    | cons caller older =>
        have callerBp := inv.bp
        rw [whole, List.head?_cons, Option.map_some, Option.getD_some] at callerBp
        rw [whole] at below
        have link : vm'.stack (g.vm.sp + 1 + 2) = g.vm.bp := by
          rw [stack, show g.vm.sp + 1 + 2 = g.vm.sp + 3 by omega,
            Function.update_of_ne (by omega), Function.update_self]
        have address : vm'.stack (g.vm.sp + 1 + 3) = g.vm.pc + 1 := by
          rw [stack, show g.vm.sp + 1 + 3 = g.vm.sp + 4 by omega, Function.update_self]
        have freed : g.vm.sp = g.vm.sp + 1 - 1 := by omega
        exact ⟨freed, callerBp, link, address, below⟩

theorem RecordInv.reserve {g : Monitor} (inv : RecordInv g) (pending : g.pending = true)
    (nonempty : g.frames ≠ []) {ir : Instruction} {vm' : VirtualMachine}
    (op : Opcode.ofInt? ir.op = some .inc) (enough : 4 ≤ ir.m) (sp : vm'.sp = g.vm.sp + ir.m)
    (bp : vm'.bp = g.vm.bp) (stack : vm'.stack = g.vm.stack) :
    RecordInv (g.record ir vm') := by
  have recorded : g.record ir vm' =
      { vm := vm', frames := setSize ir.m g.frames, pending := false } := by
    simp only [Monitor.record, op]
  rw [recorded]
  cases whole : g.frames with
  | nil => exact absurd whole nonempty
  | cons newest older =>
      have unsized := inv.newest newest (by simp [whole])
      have tiled := inv.tiled
      rw [whole] at tiled
      obtain ⟨top, rest⟩ := tiled
      have large := inv.older
      have linked := inv.linked
      have callerBp := inv.bp
      rw [whole] at large linked callerBp
      refine
        { tiled := ⟨?_, rest⟩
          older := large
          newest := ?_
          bp := bp.trans callerBp
          linked := ?_
          finished := fun none => absurd none (List.cons_ne_nil _ _) }
      · change newest.base + ir.m = vm'.sp + 1
        simp [pending] at unsized
        omega
      · intro frame isNewest
        cases isNewest
        exact Or.inr ⟨rfl, enough⟩
      · change Linked vm'.stack (Pl0.setSize ir.m (newest :: older))
        rw [stack]
        exact linked.setSize ir.m

theorem RecordInv.return {g : Monitor} (inv : RecordInv g) (reserved : g.pending = false)
    (nonempty : g.frames ≠ []) {ir : Instruction} {vm' : VirtualMachine}
    (op : Opcode.ofInt? ir.op = some .rtn) (sp : vm'.sp = g.vm.bp - 1)
    (bp : vm'.bp = if g.vm.bp = 1 then g.vm.bp else g.vm.stack (g.vm.bp + 2))
    (stack : vm'.stack = g.vm.stack)
    (status : vm'.status = if g.vm.bp = 1 then .idle else g.vm.status) :
    RecordInv (g.record ir vm') := by
  have recorded : g.record ir vm' = { vm := vm', frames := g.frames.tail, pending := false } := by
    simp only [Monitor.record, op]
  have large := inv.large reserved
  have sized := inv.size_nonneg
  have current := inv.bp
  have tiled := inv.tiled
  have linked := inv.linked
  rw [recorded]
  cases whole : g.frames with
  | nil => exact absurd whole nonempty
  | cons newest older =>
      rw [whole] at current tiled linked large sized
      rw [List.head?_cons, Option.map_some, Option.getD_some] at current
      have largeOlder : ∀ frame ∈ older, 4 ≤ frame.size := fun frame member =>
        large frame (List.mem_cons_of_mem _ member)
      have tiledOlder := tiled.2
      refine
        { tiled := ?_
          older := fun frame member => largeOlder frame (List.mem_of_mem_tail member)
          newest := fun frame isNewest =>
            Or.inr ⟨rfl, largeOlder frame (List.mem_of_mem_head? isNewest)⟩
          bp := ?_
          linked := ?_
          finished := ?_ }
      · change Tiled (vm'.sp + 1) older
        rw [sp, current, show newest.base - 1 + 1 = newest.base by omega]
        exact tiledOlder
      · change vm'.bp = (older.head?.map Frame.base).getD 1
        cases older with
        | nil =>
            have main : g.vm.bp = 1 := current.trans tiledOlder
            rw [bp, if_pos main, main]
            rfl
        | cons caller rest =>
            have bound := (tiledOlder.bounds fun frame member =>
              sized frame (List.mem_cons_of_mem _ member)).2 caller List.mem_cons_self
            have size := largeOlder caller List.mem_cons_self
            rw [bp, if_neg (by omega), current, linked.2.2.1, linked.2.1]
            rfl
      · change Linked vm'.stack older
        rw [stack]
        exact linked.tail
      · intro none
        change older = [] at none
        subst none
        rw [status, if_pos (current.trans tiledOlder)]

theorem recordInv_start (code : List Instruction) (input : List Int) :
    RecordInv (Monitor.start code input) where
  tiled := ⟨rfl, rfl⟩
  older := by simp [Monitor.start]
  newest := by
    intro frame isNewest
    cases isNewest
    exact Or.inl ⟨rfl, rfl⟩
  bp := rfl
  linked := trivial
  finished := fun none => absurd none (List.cons_ne_nil _ _)

theorem RecordInv.frames_ne_nil {g : Monitor} (inv : RecordInv g)
    (running : g.vm.status = .running) : g.frames ≠ [] := by
  intro none
  rw [inv.finished none] at running
  cases running

theorem MonitorStep.execute_effect {g : Monitor} {ir : Instruction} {vm' : VirtualMachine}
    (fetches : Fetches g.vm ir) (stepped : step g.vm = .ok vm') : Effect g.vm ir vm' :=
  instructionExecution_effect ((step_of_fetches fetches).symm.trans stepped)

/-- A turn that writes only to locals spares the saved words. -/
theorem MonitorStep.frameStep {g h : Monitor} (taken : MonitorStep g h) (inv : RecordInv g) :
    FrameStep g h := by
  cases taken with
  | stop running none stepped => exact .stop running none stepped
  | @execute ir vm' running fetches disciplined stepped =>
      refine .execute running fetches ⟨disciplined.opening, disciplined.reserved, ?_⟩ stepped
      intro op target resolved frame among
      have member := List.dropLast_subset _ among
      obtain ⟨owner, owned, low, high⟩ := disciplined.stores op target resolved
      have apart : ∀ {word : Int}, 0 ≤ word ∧ word < 4 → target + ir.m ≠ frame.base + word :=
        inv.tiled.locals_apart inv.size_nonneg inv.older owned member low high
      exact ⟨apart (by decide), apart (by decide)⟩

/-- Every turn keeps the record discipline. -/
theorem FrameStep.recordInv {g h : Monitor} (taken : FrameStep g h) (inv : RecordInv g) :
    RecordInv h := by
  cases taken with
  | stop running _ _ =>
      exact inv.keep (inv.frames_ne_nil running) rfl rfl fun _ _ => ⟨rfl, rfl⟩
  | @execute ir vm' running fetches undisturbed stepped =>
      have nonempty := inv.frames_ne_nil running
      -- Nothing but JMP and INC is executed while the newest frame has no space.
      have settled : Opcode.ofInt? ir.op ≠ some .jmp → Opcode.ofInt? ir.op ≠ some .inc →
          g.pending = false := by
        intro notJmp notInc
        cases waiting : g.pending with
        | false => rfl
        | true =>
            rcases undisturbed.opening waiting with jmp | ⟨inc, -⟩
            · exact absurd jmp notJmp
            · exact absurd inc notInc
      cases MonitorStep.execute_effect fetches stepped with
      | inner op same pc =>
          rw [record_keep g ir vm' (by
            intro op' decoded
            have quiet := op op' decoded
            refine ⟨?_, ?_, ?_⟩ <;> rintro rfl <;> cases quiet)]
          exact inv.keep nonempty same.sp same.bp fun _ _ => by rw [same.stack]; exact ⟨rfl, rfl⟩
      | jmp op same status pc =>
          rw [record_keep g ir vm' (by simp [op])]
          exact inv.keep nonempty same.sp same.bp fun _ _ => by rw [same.stack]; exact ⟨rfl, rfl⟩
      | jpc op same status pc =>
          rw [record_keep g ir vm' (by simp [op])]
          exact inv.keep nonempty same.sp same.bp fun _ _ => by rw [same.stack]; exact ⟨rfl, rfl⟩
      | sto target value op resolved sp bp stack frameBreak frameLevel status pc =>
          rw [record_keep g ir vm' (by simp [op])]
          refine inv.keep nonempty sp bp fun frame member => ?_
          obtain ⟨link, address⟩ := undisturbed.stores op target resolved frame member
          rw [stack, Function.update_of_ne link.symm, Function.update_of_ne address.symm]
          exact ⟨rfl, rfl⟩
      | inc op sp bp stack frameBreak frameLevel status pc =>
          have waiting : g.pending = true := by
            cases reserved : g.pending with
            | true => rfl
            | false => exact absurd op (undisturbed.reserved reserved)
          rcases undisturbed.opening waiting with jmp | ⟨-, enough⟩
          · rw [op] at jmp
            cases jmp
          · exact inv.reserve waiting nonempty op enough sp bp stack
      | cal link op resolved sp bp stack frameBreak frameLevel level status pc =>
          exact inv.call (settled (by simp [op]) (by simp [op])) nonempty op sp bp stack
      | rtn op sp bp stack frameBreak frameLevel level status pc =>
          exact inv.return (settled (by simp [op]) (by simp [op])) nonempty op sp bp stack status

theorem MonitorStep.recordInv {g h : Monitor} (taken : MonitorStep g h) (inv : RecordInv g) :
    RecordInv h :=
  (taken.frameStep inv).recordInv inv

theorem recordInv_spared {code : List Instruction} {input : List Int} {g : Monitor}
    (reached : Relation.ReflTransGen FrameStep (Monitor.start code input) g) : RecordInv g := by
  induction reached with
  | refl => exact recordInv_start code input
  | tail _ taken ih => exact taken.recordInv ih

theorem recordInv_reachable {code : List Instruction} {input : List Int} {g : Monitor}
    (reached : Relation.ReflTransGen MonitorStep (Monitor.start code input) g) : RecordInv g := by
  induction reached with
  | refl => exact recordInv_start code input
  | tail _ taken ih => exact taken.recordInv ih

end Pl0
