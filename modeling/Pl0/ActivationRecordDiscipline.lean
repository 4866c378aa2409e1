import Pl0.ActivationRecords

set_option autoImplicit false

namespace Pl0

theorem kind_of_fetches {g : Monitor} {ir : Instruction} (fetches : Fetches g.vm ir) :
    g.kind = match Opcode.ofInt? ir.op with
      | some .cal => .call
      | some .rtn => .ret
      | _ => .inner := by
  unfold Monitor.kind
  rw [next?_eq_some.mpr fetches]
  rfl

theorem kind_eq_call {g : Monitor} {ir : Instruction} (fetches : Fetches g.vm ir)
    (isCall : g.kind = .call) : Opcode.ofInt? ir.op = some .cal := by
  rw [kind_of_fetches fetches] at isCall
  split at isCall
  · assumption
  · cases isCall
  · cases isCall

theorem kind_eq_ret {g : Monitor} {ir : Instruction} (fetches : Fetches g.vm ir)
    (isRet : g.kind = .ret) : Opcode.ofInt? ir.op = some .rtn := by
  rw [kind_of_fetches fetches] at isRet
  split at isRet
  · cases isRet
  · assumption
  · cases isRet

theorem kind_of_no_instruction {g : Monitor} (none : g.vm.next? = none) : g.kind = .inner := by
  unfold Monitor.kind
  rw [none]
  rfl

/-- The part of a record that only its own CAL writes. -/
def Frame.saved (frame : Frame) : Int × Int × Int × Int × Int :=
  (frame.entry, frame.base, frame.callSp, frame.callBp, frame.callPc)

theorem setSize_tail (size : Int) (frames : List Frame) :
    (setSize size frames).tail = frames.tail := by
  cases frames <;> rfl

theorem setSize_saved (size : Int) (frames : List Frame) :
    (setSize size frames).head?.map Frame.saved = frames.head?.map Frame.saved := by
  cases frames <;> rfl

theorem MonitorStep.inner_frames {g h : Monitor} (taken : MonitorStep g h)
    (inner : g.kind = .inner) :
    h.frames.tail = g.frames.tail ∧
      h.frames.head?.map Frame.saved = g.frames.head?.map Frame.saved := by
  cases taken with
  | stop => exact ⟨rfl, rfl⟩
  | @execute ir vm' running fetches disciplined stepped =>
      rw [kind_of_fetches fetches] at inner
      unfold Monitor.record
      split
      · rename_i decoded
        rw [decoded] at inner
        cases inner
      · exact ⟨setSize_tail ir.m g.frames, setSize_saved ir.m g.frames⟩
      · rename_i decoded
        rw [decoded] at inner
        cases inner
      · exact ⟨rfl, rfl⟩

/-- The frames are the open calls of the run. -/
theorem monitor_discipline : CallRuns.Discipline MonitorStep Monitor.kind Monitor.frames where
  call := by
    intro g h taken isCall
    cases taken with
    | stop _ none _ =>
        rw [kind_of_no_instruction none] at isCall
        cases isCall
    | execute _ fetches _ _ =>
        simp only [Monitor.record, kind_eq_call fetches isCall, List.tail_cons]
  ret := by
    intro g h taken isRet
    cases taken with
    | stop _ none _ =>
        rw [kind_of_no_instruction none] at isRet
        cases isRet
    | execute _ fetches _ _ =>
        simp only [Monitor.record, kind_eq_ret fetches isRet]
  inner := fun taken inner => (taken.inner_frames inner).1

theorem MonitorStep.running {g h : Monitor} (taken : MonitorStep g h) :
    g.vm.status = .running := by
  cases taken <;> assumption

/-- The frames that the dynamic links pass from `b` on, up to the base level. -/
def dynamicChain (stack : Int → Int) : Nat → Int → List Int
  | 0, _ => []
  | fuel + 1, b => b :: if b = 1 then [] else dynamicChain stack fuel (stack (b + 2))

theorem dynamicChain_eq {top : Int} {stack : Int → Int} {frames : List Frame}
    (tiled : Tiled top frames) (older : ∀ frame ∈ frames.tail, 4 ≤ frame.size)
    (linked : Linked stack frames) {b : Int} (newest : b ∈ frames.head?.map Frame.base)
    {fuel : Nat} (enough : frames.length ≤ fuel) :
    dynamicChain stack fuel b = frames.map Frame.base := by
  induction frames generalizing top b fuel with
  | nil => cases newest
  | cons frame rest ih =>
      cases newest
      cases fuel with
      | zero => cases enough
      | succ fuel =>
          rw [dynamicChain, List.map_cons]
          cases rest with
          | nil =>
              have main : frame.base = 1 := tiled.2
              rw [if_pos main, List.map_nil]
          | cons caller below =>
              obtain ⟨-, callerBase, link, -, linkedBelow⟩ := linked
              have bound := (tiled.2.bounds fun f member => by
                have := older f member
                omega).2 caller List.mem_cons_self
              have size := older caller List.mem_cons_self
              have notMain : ¬ frame.base = 1 := by omega
              rw [if_neg notMain, link, callerBase]
              have remaining : (caller :: below).length ≤ fuel := by
                simpa using enough
              rw [ih tiled.2 (fun f member => older f (List.mem_cons_of_mem _ member)) linkedBelow
                rfl remaining]

theorem Tiled.oldest {top : Int} {frames : List Frame} (tiled : Tiled top frames)
    (nonempty : frames ≠ []) : (frames.map Frame.base).getLast? = some 1 := by
  induction frames generalizing top with
  | nil => exact absurd rfl nonempty
  | cons frame rest ih =>
      cases rest with
      | nil => exact congrArg some tiled.2
      | cons caller below =>
          rw [List.map_cons, List.map_cons, List.getLast?_cons_cons]
          exact ih tiled.2 (List.cons_ne_nil _ _)

/-- `before` executes the CAL whose activation is the newest one in `now`. -/
structure MatchingCall (start before now : Monitor) : Prop where
  reached : Relation.ReflTransGen MonitorStep start before
  isCall : before.kind = .call
  balanced : ∃ after, MonitorStep before after ∧
    CallRuns.Balanced MonitorStep Monitor.kind after now

theorem MatchingCall.newest {start before now : Monitor}
    (matching : MatchingCall start before now) :
    ∃ frame, now.frames = frame :: before.frames ∧ frame.base = before.vm.sp + 1 ∧
      frame.callSp = before.vm.sp ∧ frame.callBp = before.vm.bp ∧
      frame.callPc = before.vm.pc + 1 := by
  obtain ⟨after, called, balanced⟩ := matching.balanced
  have below := balanced.tail_eq monitor_discipline
  have kept := balanced.head_eq monitor_discipline
    fun taken inner => (MonitorStep.inner_frames taken inner).2
  rw [monitor_discipline.call called matching.isCall] at below
  cases called with
  | stop _ none _ =>
      have inner := kind_of_no_instruction none
      rw [matching.isCall] at inner
      cases inner
  | @execute ir vm' _ fetches _ _ =>
      simp only [Monitor.record, kind_eq_call fetches matching.isCall, List.head?_cons,
        Option.map_some] at kept
      cases whole : now.frames with
      | nil => simp [whole] at kept
      | cons frame rest =>
          rw [whole] at kept below
          simp only [List.head?_cons, Option.map_some, Option.some.injEq, Frame.saved,
            Prod.mk.injEq] at kept
          rw [List.tail_cons] at below
          exact ⟨frame, by rw [below], kept.2⟩

theorem MonitorStep.return_effect {g h : Monitor} (taken : MonitorStep g h)
    (isRet : g.kind = .ret) (nested : g.vm.bp ≠ 1) :
    h.vm.sp = g.vm.bp - 1 ∧ h.vm.bp = g.vm.stack (g.vm.bp + 2) ∧
      h.vm.pc = g.vm.stack (g.vm.bp + 3) := by
  cases taken with
  | stop _ none _ =>
      rw [kind_of_no_instruction none] at isRet
      cases isRet
  | @execute ir vm' running fetches disciplined stepped =>
      have decoded := kind_eq_ret fetches isRet
      have recorded : (g.record ir vm').vm = vm' := by
        simp only [Monitor.record, decoded]
      rw [recorded]
      have effect := MonitorStep.execute_effect fetches stepped
      cases effect with
      | rtn op sp bp stack frameBreak frameLevel level status pc =>
          exact ⟨sp, by rw [bp, if_neg nested], pc⟩
      | inner op => exact absurd (op _ decoded) (by decide)
      | jmp op => simp [decoded] at op
      | jpc op => simp [decoded] at op
      | sto _ _ op => simp [decoded] at op
      | inc op => simp [decoded] at op
      | cal _ op => simp [decoded] at op

theorem MatchingCall.restores {start before now next : Monitor}
    (matching : MatchingCall start before now) (inv : RecordInv now)
    (nonempty : before.frames ≠ []) (taken : MonitorStep now next)
    (isRet : now.kind = .ret) (nested : now.vm.bp ≠ 1) :
    next.vm.sp = before.vm.sp ∧ next.vm.bp = before.vm.bp ∧ next.vm.pc = before.vm.pc + 1 := by
  obtain ⟨sp, bp, pc⟩ := taken.return_effect isRet nested
  obtain ⟨frame, whole, frameBase, callSp, callBp, callPc⟩ := matching.newest
  have current := inv.bp
  have linked := inv.linked
  rw [whole] at current linked
  rw [List.head?_cons, Option.map_some, Option.getD_some] at current
  cases older : before.frames with
  | nil => exact absurd older nonempty
  | cons caller rest =>
      rw [older] at linked
      obtain ⟨-, -, link, address, -⟩ := linked
      rw [current] at sp bp pc
      exact ⟨by omega, by rw [bp, link, callBp], by rw [pc, address, callPc]⟩

/-- In every reachable state the frames tile the stack, the dynamic links visit
them, and every RTN of a nested activation undoes its CAL. -/
theorem activation_record_discipline {code : List Instruction} {input : List Int} {g : Monitor}
    (reached : Relation.ReflTransGen MonitorStep (Monitor.start code input) g) :
    Tiled (g.vm.sp + 1) g.frames ∧
    (g.frames.Pairwise fun newer older => older.base + older.size ≤ newer.base) ∧
    (∀ cell, 1 ≤ cell ∧ cell ≤ g.vm.sp ↔
      ∃ frame ∈ g.frames, frame.base ≤ cell ∧ cell < frame.base + frame.size) ∧
    (∀ frame ∈ g.frames.head?, frame.size = 0 ↔ g.pending = true) ∧
    (g.frames = [] → g.vm.status = .idle ∧ g.vm.bp = 1) ∧
    (g.frames ≠ [] → ∀ fuel, g.frames.length ≤ fuel →
      dynamicChain g.vm.stack fuel g.vm.bp = g.frames.map Frame.base ∧
        (dynamicChain g.vm.stack fuel g.vm.bp).getLast? = some 1) ∧
    ∀ h, MonitorStep g h → g.kind = .ret → g.vm.bp ≠ 1 →
      (∃ before, MatchingCall (Monitor.start code input) before g) ∧
      ∀ before, MatchingCall (Monitor.start code input) before g →
        h.vm.sp = before.vm.sp ∧ h.vm.bp = before.vm.bp ∧ h.vm.pc = before.vm.pc + 1 := by
  have inv := recordInv_reachable reached
  have sized := inv.size_nonneg
  refine ⟨inv.tiled, inv.tiled.pairwise sized, ?_, ?_, ?_, ?_, ?_⟩
  · intro cell
    have covers := inv.tiled.covers sized cell
    rw [← covers]
    omega
  · intro frame isNewest
    rcases inv.newest frame isNewest with ⟨pending, size⟩ | ⟨reserved, size⟩
    · simp [pending, size]
    · simp only [reserved, Bool.false_eq_true, iff_false]
      omega
  · intro none
    have current := inv.bp
    rw [none] at current
    exact ⟨inv.finished none, current⟩
  · intro nonempty fuel enough
    have newest : g.vm.bp ∈ g.frames.head?.map Frame.base := by
      rw [inv.bp]
      cases whole : g.frames with
      | nil => exact absurd whole nonempty
      | cons frame rest => rfl
    have chain := dynamicChain_eq inv.tiled inv.older inv.linked newest enough
    exact ⟨chain, by rw [chain, inv.tiled.oldest nonempty]⟩
  · intro h taken isRet nested
    constructor
    · have above : g.frames.tail ≠ [] := by
        intro single
        have current := inv.bp
        have tiled := inv.tiled
        cases whole : g.frames with
        | nil => exact inv.frames_ne_nil taken.running whole
        | cons frame rest =>
            rw [whole] at current tiled single
            rw [List.tail_cons] at single
            subst single
            exact nested (current.trans tiled.2)
      obtain ⟨before, after, reach, called, isCall, balanced, -⟩ :=
        CallRuns.matching_call monitor_discipline rfl
          (fun u t reach taken => (recordInv_reachable reach).frames_ne_nil taken.running)
          reached above
      exact ⟨before, reach, isCall, after, called, balanced⟩
    · intro before matching
      obtain ⟨after, called, -⟩ := matching.balanced
      have open_ := (recordInv_reachable matching.reached).frames_ne_nil called.running
      exact matching.restores inv open_ taken isRet nested

/-- Main calls the procedure at 3 once and halts. -/
def callOnce : List Instruction :=
  [⟨6, 0, 0, 4⟩, ⟨5, 0, 0, 3⟩, ⟨9, 0, 0, 3⟩, ⟨6, 0, 0, 4⟩, ⟨2, 0, 0, 0⟩]

/-- The history after one more turn of a machine that meets no fault. -/
def Monitor.turn (g : Monitor) : Monitor :=
  match g.vm.next?, step g.vm with
  | some ir, .ok vm' => g.record ir vm'
  | none, .ok vm' => { g with vm := vm' }
  | _, .error _ => g

/-- A turn that stores nothing follows the discipline if an INC of at least 4 is
executed exactly while the newest frame waits for its space. -/
theorem monitorStep_turn {g : Monitor} {ir : Instruction} (running : g.vm.status = .running)
    (next : g.vm.next? = some ir) (completes : (step g.vm).isOk = true)
    (noStore : Opcode.ofInt? ir.op ≠ some .sto)
    (space : if g.pending then Opcode.ofInt? ir.op = some .inc ∧ 4 ≤ ir.m
      else Opcode.ofInt? ir.op ≠ some .inc) : MonitorStep g g.turn := by
  have fetches := next?_eq_some.mp next
  cases stepped : step g.vm with
  | error fault =>
      rw [stepped] at completes
      cases completes
  | ok vm' =>
      have turned : g.turn = g.record ir vm' := by
        unfold Monitor.turn
        rw [next, stepped]
      rw [turned]
      refine .execute running fetches ⟨?_, ?_, fun isSto => absurd isSto noStore⟩ stepped
      · intro pending
        rw [if_pos pending] at space
        exact Or.inr space
      · intro reserved
        rw [if_neg (by simp [reserved])] at space
        exact space

theorem activation_record_discipline_callOnce :
    let g := (Monitor.start callOnce []).turn.turn.turn
    Relation.ReflTransGen MonitorStep (Monitor.start callOnce []) g ∧ g.kind = .ret ∧
      g.frames.map Frame.base = [5, 1] ∧ MonitorStep g g.turn ∧
      dynamicChain g.vm.stack 2 g.vm.bp = [5, 1] ∧
      ∀ before, MatchingCall (Monitor.start callOnce []) before g →
        g.turn.vm.sp = before.vm.sp ∧ g.turn.vm.bp = before.vm.bp ∧
          g.turn.vm.pc = before.vm.pc + 1 := by
  intro g
  have start : MonitorStep (Monitor.start callOnce []) (Monitor.start callOnce []).turn :=
    monitorStep_turn rfl rfl rfl (by decide) (by decide)
  have call : MonitorStep (Monitor.start callOnce []).turn (Monitor.start callOnce []).turn.turn :=
    monitorStep_turn rfl rfl rfl (by decide) (by decide)
  have enter : MonitorStep (Monitor.start callOnce []).turn.turn g :=
    monitorStep_turn rfl rfl rfl (by decide) (by decide)
  have back : MonitorStep g g.turn :=
    monitorStep_turn rfl rfl rfl (by decide) (by decide)
  have reached : Relation.ReflTransGen MonitorStep (Monitor.start callOnce []) g :=
    ((Relation.ReflTransGen.single start).tail call).tail enter
  obtain ⟨-, -, -, -, -, chain, returns⟩ := activation_record_discipline reached
  exact ⟨reached, rfl, rfl, back, (chain (by decide) 2 (by decide)).1,
    (returns g.turn back rfl (by decide)).2⟩

end Pl0
