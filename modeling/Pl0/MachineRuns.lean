import Pl0.CodeExecution
import Pl0.Linker

set_option autoImplicit false

namespace Pl0

open StateExcept

/-- One turn of the loop of `run_vm`. -/
def Turn (vm vm' : VirtualMachine) : Prop :=
  vm.status = .running ∧ step vm = .ok vm'

/-- Any number of turns. -/
abbrev Turns : VirtualMachine → VirtualMachine → Prop :=
  Relation.ReflTransGen Turn

section Turns

variable {vm vm' : VirtualMachine} {program : List Instruction} {d start : Nat}

/-- Turns that stop the machine are a whole run. -/
theorem runVm_of_turns (turns : Turns vm vm') (stopped : vm'.status ≠ .running) :
    ∃ fuel, runVm fuel vm = .ok (some vm') := by
  induction turns using Relation.ReflTransGen.head_induction_on with
  | refl => exact ⟨0, by rw [runVm, if_neg stopped]⟩
  | head turn _ ih =>
      obtain ⟨fuel, ran⟩ := ih
      refine ⟨fuel + 1, ?_⟩
      rw [runVm, if_pos turn.1, Except.bind_of_ok turn.2]
      exact ran

/-- The program has this code at `start` of the set that was moved to `d`. -/
def Contains (program : List Instruction) (d start : Nat) (code : List Instruction) : Prop :=
  ∀ (j : Nat) (ir : Instruction), code[j]? = some ir →
    program[d + start + j]? = some (relocate d ir)

namespace Contains

variable {a b : List Instruction} {ir : Instruction}

theorem left (contains : Contains program d start (a ++ b)) : Contains program d start a := by
  intro j ir there
  have inside := (List.getElem?_eq_some_iff.mp there).1
  exact contains j ir (by rw [List.getElem?_append_left inside]; exact there)

theorem right (contains : Contains program d start (a ++ b)) :
    Contains program d (start + a.length) b := by
  intro j ir there
  have found := contains (a.length + j) ir (by
    rw [List.getElem?_append_right (by omega), Nat.add_sub_cancel_left]
    exact there)
  have place : d + (start + a.length) + j = d + start + (a.length + j) := by omega
  rw [place]
  exact found

/-- The machine is about to execute the first instruction of the code. -/
theorem fetches (contains : Contains vm.code d start (ir :: b)) (pc : vm.pc = d + start)
    (short : vm.code.length ≤ maxCodeLength) : Fetches vm (relocate d ir) := by
  have found := contains 0 ir rfl
  have inside := (List.getElem?_eq_some_iff.mp found).1
  have place : vm.pc.toNat = d + start := by omega
  refine ⟨by omega, by omega, ?_⟩
  rw [place]
  exact found

theorem turn (contains : Contains vm.code d start (ir :: b)) (pc : vm.pc = d + start)
    (short : vm.code.length ≤ maxCodeLength) (running : vm.status = .running)
    (executed : instructionExecution (vm.fetched (relocate d ir)) = .ok vm') : Turn vm vm' :=
  ⟨running, (step_of_fetches (contains.fetches pc short)).trans executed⟩

end Contains

theorem registerOperands_relocate (d : Int) (ir : Instruction) :
    registerOperands (relocate d ir) = registerOperands ir := by
  unfold relocate
  split
  · rename_i jump
    rcases jump with jmp | jpc
    · simp [registerOperands, jmp, Opcode.ofInt?_toInt]
    · simp [registerOperands, jpc, Opcode.ofInt?_toInt]
  · rfl

/-- A plain instruction writes registers and goes on. -/
theorem plain_executed {ir : Instruction}
    (plain : ∀ op, Opcode.ofInt? ir.op = some op → op.isPlain = true)
    (executed : instructionExecution (vm.fetched ir) = .ok vm') :
    vm' = { vm.fetched ir with r := vm'.r } := by
  have written : ∀ {i value : Int}, writeReg (vm.fetched ir) i value = .ok vm' →
      vm' = { vm.fetched ir with r := vm'.r } := by
    intro i value written
    obtain ⟨-, rfl⟩ := writeReg_eq_ok.mp written
    rfl
  unfold instructionExecution at executed
  have decode : (vm.fetched ir).ir.op = ir.op := rfl
  rw [decode] at executed
  cases decoded : Opcode.ofInt? ir.op with
  | none =>
      rw [decoded] at executed
      cases executed
      rfl
  | some op =>
      have isPlain := plain op decoded
      rw [decoded] at executed
      cases op with
      | rtn | sto | cal | inc | jmp | jpc | sio | sio2 | sio3 => cases isPlain
      | lit => exact written executed
      | lod =>
          obtain ⟨b, -, executed⟩ := Except.bind_eq_ok.mp executed
          obtain ⟨value, -, done⟩ := Except.bind_eq_ok.mp executed
          exact written done
      | neg =>
          obtain ⟨value, -, executed⟩ := Except.bind_eq_ok.mp executed
          obtain ⟨negated, -, done⟩ := Except.bind_eq_ok.mp executed
          exact written done
      | odd =>
          obtain ⟨value, -, done⟩ := Except.bind_eq_ok.mp executed
          exact written done
      | _ =>
          obtain ⟨x, -, executed⟩ := Except.bind_eq_ok.mp executed
          obtain ⟨y, -, executed⟩ := Except.bind_eq_ok.mp executed
          obtain ⟨value, -, done⟩ := Except.bind_eq_ok.mp executed
          exact written done

/-- What `execute` does with plain code, the machine does in so many turns. -/
theorem execute_turns {code : List Instruction} (plain : Plain code)
    (contains : Contains vm.code d start code) (pc : vm.pc = d + start)
    (short : vm.code.length ≤ maxCodeLength) (running : vm.status = .running)
    (executed : execute code vm = .ok vm') : Turns vm vm' := by
  induction code generalizing vm start with
  | nil =>
      cases executed
      exact .refl
  | cons ir rest ih =>
      obtain ⟨own, others⟩ := List.forall_mem_cons.mp plain
      obtain ⟨next, first, more⟩ := Except.bind_eq_ok.mp executed
      have jumpless := plain.ne .jmp rfl ir List.mem_cons_self
      have branchless := plain.ne .jpc rfl ir List.mem_cons_self
      have same : relocate d ir = ir := relocate_plain ⟨jumpless, branchless⟩
      have turn : Turn vm next := contains.turn pc short running (by rw [same]; exact first)
      have kept := plain_executed own first
      have code : next.code = vm.code := by rw [kept]; rfl
      have status : next.status = .running := by rw [kept]; exact running
      have behind : next.pc = d + (start + 1 : Nat) := by
        rw [kept]
        change vm.pc + 1 = _
        push_cast
        omega
      have later : Contains next.code d (start + 1) rest := by
        rw [code]
        exact Contains.right (a := [ir]) contains
      exact .head turn (ih others later behind (by rw [code]; exact short) status more)

end Turns

end Pl0
