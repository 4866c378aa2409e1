import Pl0.ParseRuns
import Pl0.StatementRuns

set_option autoImplicit false

namespace Pl0

open ControlFlow StateExcept

/-- The statement part of a block. -/
theorem genBody_emits (statement : StatementNode) (g : GenState) :
    Emitted g (genBody statement g) (compileStatement g.context statement g.registerPtr
      (g.code g.currentProcedure).length) 0 :=
  (genStatement_emits statement g (g.code g.currentProcedure).length rfl).recorded rfl true

theorem makeProc_trace (g : GenState) (name : Name) : ∃ symbol,
    (g.makeProc name).trace = g.trace ++ [.declare g.scope symbol] := by
  unfold GenState.makeProc GenState.getFreeSet
  dsimp only
  cases (List.range maxCodeSets).find? fun i => !g.inUse i with
  | none => exact ⟨_, rfl⟩
  | some i => exact ⟨_, rfl⟩

theorem genBody_trace_grows (statement : StatementNode) (g : GenState) :
    g.trace <+: (genBody statement g).trace := by
  obtain ⟨events, grown, -⟩ := (genBody_emits statement g).trace
  rw [grown]
  exact List.prefix_append _ _

/-- The history of the declarations goes on from where it was. -/
theorem Declares.trace_grows {g g' : GenState} {d d' : Declarations}
    (declares : Declares g d g' d') : g.trace <+: g'.trace := by
  induction declares with
  | done => exact List.prefix_rfl
  | const name value small inside _ ih => exact (List.prefix_append _ _).trans ih
  | var name inside _ ih => exact (List.prefix_append _ _).trans ih
  | @proc g gb _ _ _ _ name statement _ _ ihNested ih =>
      obtain ⟨symbol, made⟩ := makeProc_trace g name
      have opened : g.trace <+: (g.makeProc name).trace := by
        rw [made]
        exact List.prefix_append _ _
      exact ((opened.trans ihNested).trans (genBody_trace_grows statement gb)).trans ih

section History

variable {P : Event → Prop}

theorem Emitted.history {g g' : GenState} {code : List Instruction} {count : Int}
    (compiled : ∀ c scope event, Logged c scope event → P event)
    (emitted : Emitted g g' code count) (before : ∀ event ∈ g.trace, P event) :
    ∀ event ∈ g'.trace, P event := by
  obtain ⟨events, grown, logged⟩ := emitted.trace
  intro event member
  rw [grown] at member
  rcases List.mem_append.mp member with early | late
  · exact before event early
  · exact compiled _ _ event (logged event late)

theorem history_append {events : List Event} {event : Event} (before : ∀ e ∈ events, P e)
    (last : P event) : ∀ e ∈ events ++ [event], P e := by
  intro e member
  rcases List.mem_append.mp member with early | late
  · exact before e early
  · rw [List.mem_singleton.mp late]
    exact last

/-- What holds of every event of compiled code and of every declaration holds of the
whole history of the declarations of a block. -/
theorem Declares.history {g g' : GenState} {d d' : Declarations}
    (compiled : ∀ c scope event, Logged c scope event → P event)
    (declared : ∀ scope symbol, P (.declare scope symbol)) (declares : Declares g d g' d')
    (before : ∀ event ∈ g.trace, P event) : ∀ event ∈ g'.trace, P event := by
  induction declares with
  | done => exact before
  | const name value small inside _ ih => exact ih (history_append before (declared _ _))
  | var name inside _ ih => exact ih (history_append before (declared _ _))
  | @proc g gb _ _ _ _ name statement nested _ ihNested ih =>
      apply ih
      have opened : ∀ event ∈ (g.makeProc name).openBlock.trace, P event := by
        obtain ⟨symbol, made⟩ := makeProc_trace g name
        change ∀ event ∈ (g.makeProc name).trace, P event
        rw [made]
        exact history_append before (declared _ _)
      change ∀ event ∈ (genBody statement gb).trace, P event
      exact (genBody_emits statement gb).history compiled (ihNested opened)

theorem BlockRuns.history {g g' : GenState} {block : BlockNode}
    (compiled : ∀ c scope event, Logged c scope event → P event)
    (declared : ∀ scope symbol, P (.declare scope symbol)) (runs : BlockRuns g block g')
    (before : ∀ event ∈ g.trace, P event) : ∀ event ∈ g'.trace, P event := by
  obtain ⟨last, d, declares, -, rfl⟩ := runs
  exact (genBody_emits block.statement last).history compiled
    (declares.history compiled declared before)

/-- The history of an accepted program. -/
theorem parse_history {fuel : Nat} {tokens : List CurrentToken} {block : BlockNode} {s : ParseState}
    (compiled : ∀ c scope event, Logged c scope event → P event)
    (declared : ∀ scope symbol, P (.declare scope symbol))
    (accepted : parse fuel tokens = .ok block s) : ∀ event ∈ s.gen.trace, P event := by
  obtain ⟨g, runs, last⟩ := parse_runs accepted
  have start : mainGen.trace = [] := rfl
  have before : ∀ event ∈ mainGen.trace, P event := by
    rw [start]
    exact fun _ member => absurd member List.not_mem_nil
  rw [last]
  change ∀ event ∈ g.trace, P event
  exact runs.history compiled declared before

end History

/-- A statement of the history carries the code it compiles to. -/
def CompiledEvent : Event → Prop
  | .statement _ _ set start code node => ∃ (c : CodeContext) (n : Int) (first : Nat),
      c.procedure = set ∧ start = first ∧ code = compileStatement c node n first
  | _ => True

theorem compiledEvent_of_logged (c : CodeContext) (scope : List Int) (event : Event)
    (logged : Logged c scope event) : CompiledEvent event := by
  cases logged with
  | use => trivial
  | access => trivial
  | statement body node n start => exact ⟨c, n, start, rfl, rfl, rfl⟩

/-- For every accepted program and every statement of it, run from the first instruction of its
code in any state of the machine: the machine leaves the code, if at all, to the index behind it,
exactly when the statement is in the main procedure or, along its tree, no begin statement in it
comes to its end. -/
theorem statement_singleExit_iff {fuel : Nat} {tokens : List CurrentToken} {block : BlockNode}
    {s : ParseState} (accepted : parse fuel tokens = .ok block s) {scope : List Int} {body : Bool}
    {set start : Int} {code : List Instruction} {node : StatementNode}
    (parsed : .statement scope body set start code node ∈ s.gen.trace) :
    ∃ (c : CodeContext) (n : Int) (first : Nat), c.procedure = set ∧ start = first ∧
      code = compileStatement c node n first ∧
      ∀ (calls : Instruction → VirtualMachine → VirtualMachine → Prop) (vm : VirtualMachine),
        vm.pc = start → ((codeMachine calls).ExitsBehind code start vm ↔
          set ≤ 0 ∨ ¬ Finishes calls c node n first vm none) := by
  have history := parse_history compiledEvent_of_logged (fun _ _ => trivial) accepted
  obtain ⟨c, n, first, rfl, rfl, rfl⟩ := history _ parsed
  exact ⟨c, n, first, rfl, rfl, rfl, fun _ _ => compileStatement_exitsBehind⟩

/-- `procedure p; begin while odd 1 do begin end end; begin call p end.` -/
def beginInLoop : List CurrentToken :=
  [.word .procsym, .ident [112], .word .semicolonsym, .word .beginsym, .word .whilesym,
    .word .oddsym, .number 1, .word .dosym, .word .beginsym, .word .endsym, .word .endsym,
    .word .semicolonsym, .word .beginsym, .word .callsym, .ident [112], .word .endsym,
    .word .periodsym]

/-- A parse of the program returns 0 and notes the loop body, a begin statement in
code set 1 that compiles to a return. -/
theorem beginInLoop_parsed : ∃ block s, parse 20 beginInLoop = .ok block s ∧
    .statement [1, 0] false 1 3 [instr .rtn 0 0 0] (.begin (.cons .empty .nil)) ∈ s.gen.trace := by
  have looked : returned? (fun _ s => s.gen.trace[2]?) (parse 20 beginInLoop) =
      some (some (.statement [1, 0] false 1 3 [instr .rtn 0 0 0]
        (.begin (.cons .empty .nil)))) := by
    rfl
  obtain ⟨block, s, accepted, found⟩ := returned?_eq_some.mp looked
  exact ⟨block, s, accepted, List.mem_of_getElem? found⟩

/-- The machine in the frame of the main procedure, at index 3. -/
def atLoopBody : VirtualMachine :=
  { initVm with pc := 3 }

theorem atLoopBody_returns
    (calls : Instruction → VirtualMachine → VirtualMachine → Prop) :
    ¬ (codeMachine calls).ExitsBehind [instr .rtn 0 0 0] 3 atLoopBody := by
  have turn : codeTurn calls (instr .rtn 0 0 0) atLoopBody none := ⟨_, rfl, rfl⟩
  intro exits
  obtain ⟨vm', impossible, -⟩ := exits 0 atLoopBody none (.stay _)
    ⟨_, at_singleton.mpr ⟨rfl, rfl⟩, turn⟩
  cases impossible

theorem statement_singleExit_iff_beginInLoop : ∃ (c : CodeContext) (n : Int) (first : Nat),
    c.procedure = 1 ∧ first = 3 ∧ ∀ calls,
      Finishes calls c (.begin (.cons .empty .nil)) n first atLoopBody none := by
  obtain ⟨block, s, accepted, parsed⟩ := beginInLoop_parsed
  obtain ⟨c, n, first, procedure, place, -, exits⟩ := statement_singleExit_iff accepted parsed
  refine ⟨c, n, first, procedure, by omega, fun calls => ?_⟩
  have outside := mt (exits calls atLoopBody rfl).mpr (atLoopBody_returns calls)
  rw [not_or, not_not] at outside
  exact outside.2

/-- The body of the loop, which is not the body of the procedure, leaves its code
through its return. -/
theorem begin_in_loop_returns : ¬ ∀ (fuel : Nat) (tokens : List CurrentToken) (block : BlockNode)
    (s : ParseState), parse fuel tokens = .ok block s →
      ∀ scope body set start code node,
        .statement scope body set start code node ∈ s.gen.trace → ¬ (body = true ∧ 0 < set) →
          ∀ calls vm, vm.pc = start → (codeMachine calls).ExitsBehind code start vm := by
  intro always
  obtain ⟨block, s, accepted, parsed⟩ := beginInLoop_parsed
  exact atLoopBody_returns (fun _ _ _ => False)
    (always _ _ _ _ accepted _ _ _ _ _ _ parsed (by simp) _ atLoopBody rfl)

end Pl0
