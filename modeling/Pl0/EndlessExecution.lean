import Pl0.CountedRuns
import Pl0.ProcedureTranslation

set_option autoImplicit false

namespace Pl0

open CountedRuns StateExcept

/- Programs that do not come to an end. What is known of such a run are its beginnings: each of
them has made so many calls and turns of loops, and has read and printed some numbers. -/

section Beginnings

variable (a : Arithmetic) (fits : List Activation → Prop)

/-- The run of a statement comes to the memory, after so many calls and turns of loops. -/
inductive ComesTo : Nat → List Layer → StatementNode → Memory → Memory → Prop
  | here (env : List Layer) (node : StatementNode) (m : Memory) : ComesTo 0 env node m m
  | first {k : Nat} {env : List Layer} {sts : StatementNode} {rest : StatementList}
      {m m' : Memory} (inside : ComesTo k env sts m m') :
      ComesTo k env (.begin (.cons sts rest)) m m'
  | next {k : Nat} {env : List Layer} {sts : StatementNode} {rest : StatementList}
      {m m' m'' : Memory} (first : Performs a fits env sts m m')
      (more : ComesTo k env (.begin rest) m' m'') : ComesTo k env (.begin (.cons sts rest)) m m''
  | ifHolds {k : Nat} {env : List Layer} {cond : ConditionNode} {ifsts : StatementNode}
      {m m' : Memory} (test : a.condition (valueOf env m) cond = some true)
      (branch : ComesTo k env ifsts m m') : ComesTo k env (.ifS cond ifsts) m m'
  | thenBranch {k : Nat} {env : List Layer} {cond : ConditionNode}
      {ifsts elsests : StatementNode} {m m' : Memory}
      (test : a.condition (valueOf env m) cond = some true) (branch : ComesTo k env ifsts m m') :
      ComesTo k env (.ifElse cond ifsts elsests) m m'
  | elseBranch {k : Nat} {env : List Layer} {cond : ConditionNode}
      {ifsts elsests : StatementNode} {m m' : Memory}
      (test : a.condition (valueOf env m) cond = some false)
      (branch : ComesTo k env elsests m m') : ComesTo k env (.ifElse cond ifsts elsests) m m'
  | turn {k : Nat} {env : List Layer} {cond : ConditionNode} {sts : StatementNode}
      {m m' : Memory} (test : a.condition (valueOf env m) cond = some true)
      (body : ComesTo k env sts m m') : ComesTo (k + 1) env (.while cond sts) m m'
  | again {k : Nat} {env : List Layer} {cond : ConditionNode} {sts : StatementNode}
      {m m' m'' : Memory} (test : a.condition (valueOf env m) cond = some true)
      (body : Performs a fits env sts m m') (rest : ComesTo k env (.while cond sts) m' m'') :
      ComesTo (k + 1) env (.while cond sts) m m''
  | call {k : Nat} {env outer : List Layer} {layer : Layer} {before after : List Procedure}
      {p : Procedure} {m m' : Memory} (seen : visible (·.rib.names) p.ident env = layer :: outer)
      (declared : layer.rib.procs = before ++ p :: after)
      (room : fits (m.enter p.body.varDecl).activations)
      (body : ComesTo k (called layer outer before p m.activations.length) p.body.statement
        (m.enter p.body.varDecl) m') : ComesTo (k + 1) env (.call p.ident) m m'

/-- The source never comes to an end: no number of calls and turns of loops is the last. -/
def RunsOn (env : List Layer) (node : StatementNode) (m : Memory) : Prop :=
  ∀ k, ∃ m', ComesTo a fits k env node m m'

end Beginnings

/-- The machine is still running after that many turns or more, and has read and printed the
same numbers as the source. -/
def KeepsUp (k : Nat) (vm : VirtualMachine) (m : Memory) : Prop :=
  ∃ n vm', k ≤ n ∧ Steps Turn n vm vm' ∧ vm'.status = .running ∧ vm'.input = m.input ∧
    vm'.output = m.output

section Turns

variable {k : Nat} {vm vm' : VirtualMachine} {m : Memory}

theorem KeepsUp.after (turns : Turns vm vm') (keeps : KeepsUp k vm' m) : KeepsUp k vm m := by
  obtain ⟨n, later, enough, steps, state⟩ := keeps
  obtain ⟨before, reached⟩ := Steps.of_run turns
  exact ⟨before + n, later, Nat.le_add_left_of_le enough, reached.trans steps, state⟩

/-- On the way the machine has made a turn. -/
theorem KeepsUp.onward (turns : Turns vm vm') (moved : vm ≠ vm') (keeps : KeepsUp k vm' m) :
    KeepsUp (k + 1) vm m := by
  obtain ⟨n, later, enough, steps, state⟩ := keeps
  obtain ⟨before, reached⟩ := Steps.of_ne turns moved
  exact ⟨before + 1 + n, later, by omega, reached.trans steps, state⟩

/-- The loop of `run_vm` ends in a running machine only where its fuel does. -/
theorem runVm_eq_none {fuel : Nat} :
    runVm fuel vm = .ok none ↔ ∃ vm', Steps Turn fuel vm vm' ∧ vm'.status = .running := by
  induction fuel generalizing vm with
  | zero =>
      rw [runVm]
      constructor
      · intro ran
        refine ⟨vm, .none vm, ?_⟩
        by_contra stopped
        rw [if_neg stopped] at ran
        cases ran
      · rintro ⟨_, ⟨⟩, running⟩
        rw [if_pos running]
  | succ fuel ih =>
      rw [runVm]
      constructor
      · intro ran
        by_cases running : vm.status = .running
        · rw [if_pos running] at ran
          obtain ⟨next, stepped, rest⟩ := Except.bind_eq_ok.mp ran
          obtain ⟨later, steps, still⟩ := ih.mp rest
          exact ⟨later, .more ⟨running, stepped⟩ steps, still⟩
        · rw [if_neg running] at ran
          cases ran
      · rintro ⟨later, all, still⟩
        cases all with
        | more turn steps =>
            rw [if_pos turn.1, Except.bind_of_ok turn.2]
            exact ih.mpr ⟨later, steps, still⟩

/-- A machine that keeps up with every beginning never stops. -/
theorem runVm_endless (keeps : ∀ k, ∃ m, KeepsUp k vm m) (fuel : Nat) :
    runVm fuel vm = .ok none := by
  have endless : Endless Turn vm := endless_of_longer fun k => by
    obtain ⟨_, n, vm', enough, steps, -⟩ := keeps k
    exact ⟨n, vm', enough, steps⟩
  obtain ⟨_, steps⟩ := endless (fuel + 1)
  obtain ⟨vm', before, turn⟩ := steps.last
  exact runVm_eq_none.mpr ⟨vm', before, turn.1⟩

end Turns

section Statements

variable {c : CodeContext} {program : List Instruction} {d i j : Nat} {env : List Layer}
  {m m' : Memory} {n : Int} {k : Nat} {vm : VirtualMachine}

theorem HoldsAt.keepsUp (holds : HoldsAt program d env m i vm) : KeepsUp 0 vm m :=
  ⟨0, vm, Nat.le_refl 0, .none vm, holds.running, holds.carries.input, holds.carries.output⟩

theorem Goes.keepsUp {m'' : Memory} (goes : Goes program d env m m' j vm)
    (rest : ∀ vm', HoldsAt program d env m' j vm' → KeepsUp k vm' m'') : KeepsUp k vm m'' := by
  obtain ⟨vm1, turns, there, -⟩ := goes
  exact (rest vm1 there).after turns

/-- A piece of code that is left for another place has taken a turn. -/
theorem Goes.onward {m'' : Memory} (goes : Goes program d env m m' j vm)
    (holds : HoldsAt program d env m i vm) (other : i ≠ j)
    (rest : ∀ vm', HoldsAt program d env m' j vm' → KeepsUp k vm' m'') :
    KeepsUp (k + 1) vm m'' := by
  obtain ⟨vm1, turns, there, -⟩ := goes
  refine KeepsUp.onward turns (fun same => other ?_) (rest vm1 there)
  have pc := congrArg VirtualMachine.pc same
  rw [holds.pc, there.pc] at pc
  omega

/-- The code of a statement keeps up with every beginning of its run. -/
theorem ComesTo.keepsUp {node : StatementNode}
    (comes : ComesTo intArithmetic RoomFor k env node m m')
    (short : program.length ≤ maxCodeLength) :
    ∀ {c : CodeContext} {n : Int} {d i : Nat} {vm : VirtualMachine}, Around program env →
      Translated program d c env node n i → HoldsAt program d env m i vm → KeepsUp k vm m' := by
  induction comes with
  | here env node m =>
      intro c n d i vm _ _ holds
      exact holds.keepsUp
  | first inside ih =>
      intro c n d i vm around code holds
      exact ih around code.next.1 holds
  | next first more ih =>
      intro c n d i vm around code holds
      obtain ⟨own, others, -⟩ := code.next
      exact (first.turns short around own holds).keepsUp fun vm1 there => ih around others there
  | ifHolds test branch ih =>
      intro c n d i vm around code holds
      obtain ⟨stop, guards, -⟩ := code.ifS
      exact (guards.enter holds around short test).keepsUp fun vm1 there =>
        ih around guards.branch there
  | thenBranch test branch ih =>
      intro c n d i vm around code holds
      obtain ⟨other, stop, guards, -⟩ := code.ifElse
      exact (guards.enter holds around short test).keepsUp fun vm1 there =>
        ih around guards.branch there
  | elseBranch test branch ih =>
      intro c n d i vm around code holds
      obtain ⟨other, stop, guards, elses, -⟩ := code.ifElse
      exact (guards.skip holds around short test).keepsUp fun vm1 there => ih around elses there
  | turn test body ih =>
      intro c n d i vm around code holds
      obtain ⟨stop, guards, -⟩ := code.loop
      exact (guards.enter holds around short test).onward holds (by omega) fun vm1 there =>
        ih around guards.branch there
  | again test body rest ih =>
      intro c n d i vm around code holds
      obtain ⟨stop, guards, -⟩ := code.loop
      refine (guards.enter holds around short test).onward holds (by omega) fun vm1 there => ?_
      refine (body.turns short around guards.branch there).keepsUp fun vm2 behind => ?_
      exact (guards.jump short behind).keepsUp fun vm3 start => ih around code start
  | @call k env outer layer before after p m m' seen declared room body ih =>
      intro c n d i vm around code holds
      obtain ⟨cp, start, vm1, entered⟩ := holds.enterCall around code short seen declared room
      refine KeepsUp.onward entered.turns ?_ (ih entered.within entered.body entered.there)
      rintro rfl
      have deeper := entered.there.carries.frameLevel
      have level := holds.carries.frameLevel
      unfold Memory.enter at deeper
      rw [List.length_append, List.length_singleton] at deeper
      omega

end Statements

/-- The machine keeps up with the main block, wherever its run comes to. -/
theorem Begun.keepsUp {program : List Instruction} {block : BlockNode} {input : List Int}
    {c : CodeContext} {d k : Nat} {vm : VirtualMachine} {m : Memory}
    (begun : Begun program block input c d vm) (short : program.length ≤ maxCodeLength)
    (comes : ComesTo intArithmetic RoomFor k [⟨block.rib, 0⟩] block.statement
      (.start block input) m) : KeepsUp k (startVm program input) m :=
  (comes.keepsUp short begun.around begun.body begun.there).after begun.turns

/-- For every accepted program whose source runs on for ever, and does so within the machine: the
machine never stops, and reads and prints on the way all that the source does. -/
theorem endless_translated {fuel : Nat} {tokens : List CurrentToken} {block : BlockNode}
    {s : ParseState} (accepted : parse fuel tokens = .ok block s) (fits : Runnable block s)
    {input : List Int} (endless : RunsOn intArithmetic RoomFor [⟨block.rib, 0⟩] block.statement
      (.start block input)) :
    (∀ fuel, runVm fuel (startVm (prepareMcode s.gen.code FINAL_CODE) input) = .ok none) ∧
      ∀ k m, ComesTo intArithmetic RoomFor k [⟨block.rib, 0⟩] block.statement
        (.start block input) m →
          KeepsUp k (startVm (prepareMcode s.gen.code FINAL_CODE) input) m := by
  obtain ⟨c, d, vm, begun⟩ := fits.begun accepted input
  refine ⟨runVm_endless fun k => ?_, fun k m comes => begun.keepsUp fits.short comes⟩
  obtain ⟨m, comes⟩ := endless k
  exact ⟨m, begun.keepsUp fits.short comes⟩

/-- `var x; procedure p; begin write x end; begin x := 1; while x > 0 do call p end.` -/
def ticking : List CurrentToken :=
  [.word .varsym, .ident [120], .word .semicolonsym, .word .procsym, .ident [112],
    .word .semicolonsym, .word .beginsym, .word .writesym, .ident [120], .word .endsym,
    .word .semicolonsym, .word .beginsym, .ident [120], .word .becomessym, .number 1,
    .word .semicolonsym, .word .whilesym, .ident [120], .word .gtrsym, .number 0, .word .dosym,
    .word .callsym, .ident [112], .word .endsym, .word .periodsym]

def tickingProc : Procedure := ⟨[112], 1, 1, 0, .mk [] [] .nil (.begin (.cons (.write [120]) .nil))⟩

def tickingLoop : StatementNode :=
  .while (.relOp .gtrsym (.cons .unset (nameTerm [120]) .nil)
    (.cons .unset (.cons .nulsym (.digit 0) .nil) .nil)) (.call [112])

def tickingBlock : BlockNode :=
  .mk [] [⟨[120], 0, 0, 4⟩] (.cons [112] 1 1 0 tickingProc.body .nil) <| .begin <| .cons
    (.assign [120] (.cons .unset (.cons .nulsym (.digit 1) .nil) .nil)) <| .cons tickingLoop .nil

theorem ticking_parsed : ∃ s, parse 60 ticking = .ok tickingBlock s ∧ Runnable tickingBlock s := by
  have looked : returned? (fun block s => decide (block = tickingBlock ∧ s.reports = [] ∧
      (∀ u ∈ uses s.gen.trace, u.Resolves) ∧
      (∀ ir ∈ prepareMcode s.gen.code FINAL_CODE, ∀ i ∈ registerOperands ir,
        i < commonRegisterNumber) ∧
      ((prepareMcode s.gen.code FINAL_CODE).length : Int) ≤ maxCodeLength)) (parse 60 ticking) =
        some true := by
    decide +kernel
  obtain ⟨block, s, accepted, met⟩ := returned?_eq_some.mp looked
  obtain ⟨rfl, silent, resolved, registers, short⟩ := of_decide_eq_true met
  have inner : Regular [tickingProc.body.rib, tickingBlock.rib] 1 tickingProc.body := by
    refine ⟨by decide, rfl, .inr ⟨_, rfl, rfl⟩, fun name member => ?_⟩
    have written : name ∈ [[120]] := member
    rw [List.mem_singleton.mp written]
    exact ⟨_, _, rfl, by decide⟩
  have main : Regular [tickingBlock.rib] 0 tickingBlock :=
    ⟨by decide, rfl, .inl rfl, fun name member => absurd member List.not_mem_nil⟩
  exact ⟨s, accepted, silent, resolved, by decide, ⟨main, ⟨inner, trivial⟩, trivial⟩, registers,
    by decide, short⟩

def tickingMain : Activation :=
  ⟨[⟨[120], 0, 0, 4⟩], Function.update (fun _ => some 0) [120] (some 1)⟩

/-- While its variable is 1, the loop goes on. -/
theorem tickingLoop_comes (k : Nat) : ∀ {m : Memory}, m.activations = [tickingMain] →
    ∃ m', ComesTo intArithmetic RoomFor k [⟨tickingBlock.rib, 0⟩] tickingLoop m m' := by
  have room : RoomFor [tickingMain, ⟨[], fun _ => none⟩] := by decide
  induction k with
  | zero => exact fun _ => ⟨_, .here _ _ _⟩
  | succ k ih =>
      rintro ⟨_, input, output⟩ rfl
      obtain ⟨m', later⟩ := @ih ⟨_, input, output ++ [1]⟩ rfl
      exact ⟨m', .again rfl (performs_only tickingProc rfl rfl room
        (.next (.write rfl) (.done _ _))) later⟩

theorem endless_translated_ticking : ∃ s, parse 60 ticking = .ok tickingBlock s ∧
    RunsOn intArithmetic RoomFor [⟨tickingBlock.rib, 0⟩] tickingBlock.statement
      (.start tickingBlock []) ∧
    ∀ fuel, runVm fuel (startVm (prepareMcode s.gen.code FINAL_CODE) []) = .ok none := by
  obtain ⟨s, accepted, fits⟩ := ticking_parsed
  have endless : RunsOn intArithmetic RoomFor [⟨tickingBlock.rib, 0⟩] tickingBlock.statement
      (.start tickingBlock []) := by
    intro k
    obtain ⟨m, comes⟩ := @tickingLoop_comes k
      ((Memory.start tickingBlock []).set 0 [120] 1) rfl
    exact ⟨m, .next (.assign rfl (by decide) rfl) (.first comes)⟩
  exact ⟨s, accepted, endless, (endless_translated accepted fits endless).1⟩

end Pl0
