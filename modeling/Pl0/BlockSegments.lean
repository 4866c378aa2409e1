import Pl0.LexicalScoping
import Pl0.Operands
import Pl0.ProcedureReturn
import Pl0.StaticLinks

set_option autoImplicit false

namespace Pl0

open ControlFlow StateExcept

/-- Code without INC, which only the head of a block has. -/
def Unreserved (code : List Instruction) : Prop :=
  ∀ ir ∈ code, ir.op ≠ Opcode.inc.toInt

namespace Unreserved

theorem nil : Unreserved [] :=
  fun _ none => absurd none List.not_mem_nil

theorem append {a b : List Instruction} (first : Unreserved a) (second : Unreserved b) :
    Unreserved (a ++ b) :=
  List.forall_mem_append.mpr ⟨first, second⟩

theorem one {op : Int} (other : op ≠ Opcode.inc.toInt) (r l m : Int) : Unreserved [⟨op, r, l, m⟩] :=
  fun _ only => List.mem_singleton.mp only ▸ other

theorem instr (op : Opcode) (other : op ≠ .inc) (r l m : Int) : Unreserved [instr op r l m] :=
  one (fun same => other (Opcode.toInt_inj.mp same)) r l m

end Unreserved

section Compile

variable (c : CodeContext)

theorem unreserved_expression (n : Int) (e : TermExp) : Unreserved (compileExpression c n e) :=
  (plain_expression c n e).ne .inc rfl

theorem unreserved_condition (n : Int) (cond : ConditionNode) :
    Unreserved (compileCondition c n cond) :=
  (plain_condition c n cond).ne .inc rfl

theorem unreserved_guarded {test branch : List Instruction} (first : Unreserved test)
    (second : Unreserved branch) (n failed stop : Int) :
    Unreserved (guarded test branch n failed stop) :=
  ((first.append (.instr _ (by decide) _ _ _)).append second).append (.instr _ (by decide) _ _ _)

mutual
theorem compileStatement_unreserved : ∀ (node : StatementNode) (n : Int) (start : Nat),
    Unreserved (compileStatement c node n start)
  | .empty, _, _ => .nil
  | .assign name e, n, _ => by
      apply (unreserved_expression c n e).append
      unfold compileStore
      split
      · exact .nil
      · exact .instr _ (by decide) _ _ _
  | .begin list, n, start => by
      apply (compileStatements_unreserved list n start).append
      unfold compileReturn
      split
      · exact .instr _ (by decide) _ _ _
      · exact .nil
  | .ifS cond ifsts, n, start => by
      rw [compileStatement_ifS]
      exact unreserved_guarded (unreserved_condition c n cond)
        (compileStatement_unreserved ifsts _ _) _ _ _
  | .ifElse cond ifsts elsests, n, start => by
      rw [compileStatement_ifElse]
      exact (unreserved_guarded (unreserved_condition c n cond)
        (compileStatement_unreserved ifsts _ _) _ _ _).append
        (compileStatement_unreserved elsests _ _)
  | .while cond sts, n, start => by
      rw [compileStatement_while]
      exact unreserved_guarded (unreserved_condition c n cond)
        (compileStatement_unreserved sts _ _) _ _ _
  | .read name, n, _ => by
      unfold compileStatement compileRead
      split
      · exact .nil
      · exact (Unreserved.instr .sio (by decide) n 0 2).append (.instr _ (by decide) _ _ _)
  | .write name, n, _ => by
      unfold compileStatement compileWrite
      split
      · exact .nil
      · apply Unreserved.append (a := [_]) _ (.instr .sio (by decide) n 0 1)
        split
        · exact .instr _ (by decide) _ _ _
        · exact .instr _ (by decide) _ _ _
  | .call name, _, _ => by
      unfold compileStatement compileCall
      split
      · exact .nil
      · exact .instr _ (by decide) _ _ _

theorem compileStatements_unreserved : ∀ (list : StatementList) (n : Int) (start : Nat),
    Unreserved (compileStatements c list n start)
  | .nil, _, _ => .nil
  | .cons sts next, n, start =>
      (compileStatement_unreserved sts n start).append (compileStatements_unreserved next _ _)
end

end Compile

/-- Code that keeps control until it returns or halts. -/
def KeepsControl (code : List Instruction) : Prop :=
  ∀ i ir, At code 0 i ir → ¬ Halts ir → ∀ j, some j ∈ targets ir i → 0 ≤ j ∧ j < code.length

theorem keepsControl_last {a : List Instruction} {x : Instruction} (closed : Closed targets a 0)
    (last : Halts x ∨ ∀ i, targets x i = [none]) : KeepsControl (a ++ [x]) := by
  intro i ir present goesOn j target
  rw [List.length_append, List.length_singleton]
  rcases at_append.mp present with inside | behind
  · have bounds := closed i j ⟨ir, inside, target⟩
    push_cast
    omega
  · obtain ⟨-, rfl⟩ := at_singleton.mp behind
    rcases last with halts | returns
    · exact absurd halts goesOn
    · rw [returns] at target
      simp at target

/-- The code that lies behind the reservation of a placed set. -/
theorem Placed.behind {code : CodeSets} {final : List Instruction} {k start : Nat}
    (placed : Placed code final k start) {first : Instruction} {body : List Instruction}
    (row : code k = first :: body) {i : Int} {ir : Instruction} (present : At final 0 i ir)
    (low : (start : Int) < i) (high : i < start + 1 + body.length) :
    ∃ source, At body 0 (i - (start + 1)) source ∧ ir = relocate (start + 1) source := by
  have inside : ∃ source, At body 0 (i - (start + 1)) source := exists_at (by omega) (by omega)
  obtain ⟨source, found⟩ := inside
  refine ⟨source, found, ?_⟩
  obtain ⟨j, place, there⟩ := found
  obtain ⟨n, same, here⟩ := present
  have moved := placed.rows (j + 1) source (by rw [row, List.getElem?_cons_succ]; exact there)
  have index : start + (j + 1) = n := by omega
  rw [index, here, Option.some.injEq] at moved
  exact moved

theorem Placed.segmentOf {code : CodeSets} {final : List Instruction} {k start : Nat}
    (placed : Placed code final k start) {chains : List (List Int)} {chain : List Int}
    (head : chain.head? = some (k : Int)) {space : Int} {body : List Instruction}
    (row : code k = instr .inc 0 0 space :: body) (enough : 4 ≤ space) (nonempty : body ≠ [])
    (unreserved : Unreserved body) (keeps : KeepsControl body)
    (calls : ∀ (i : Nat) (ir : Instruction), body[i]? = some ir → ir.op = Opcode.cal.toInt →
      ir.l.toNat < chain.length ∧ ir.m :: chain.drop ir.l.toNat ∈ chains) :
    Segment final chains chain start (start + 1 + body.length) := by
  have length := List.length_pos_iff.mpr nonempty
  refine ⟨?_, ?_, by omega, ?_, ?_, ?_⟩
  · intro set same ir present
    rw [head, Option.some.injEq] at same
    subst same
    obtain ⟨n, place, found⟩ := present
    obtain rfl : k = n := by omega
    rw [placed.jump, Option.some.injEq] at found
    subst found
    exact ⟨rfl, rfl⟩
  · intro ir present
    obtain ⟨n, place, found⟩ := present
    obtain rfl : start = n := by omega
    have moved := placed.rows 0 _ (by rw [row]; rfl)
    rw [Nat.add_zero, found, Option.some.injEq] at moved
    have plain : Opcode.inc.toInt ≠ Opcode.jmp.toInt ∧
      Opcode.inc.toInt ≠ Opcode.jpc.toInt := by decide
    rw [moved, relocate_plain plain]
    exact ⟨rfl, enough⟩
  · intro i ir low high present
    obtain ⟨source, there, rfl⟩ := placed.behind row present low high
    rw [relocate_op]
    exact unreserved source there.member
  · intro i ir low high present goesOn j target
    obtain ⟨source, there, rfl⟩ := placed.behind row present low high
    have back : i = i - (start + 1) + (start + 1) := by omega
    rw [back, targets_relocate] at target
    obtain ⟨next, within, same⟩ := List.mem_map.mp target
    obtain ⟨j', rfl, rfl⟩ := Option.map_eq_some_iff.mp same
    have stays : ¬ Halts source := by
      intro halts
      apply goesOn
      rw [relocate_plain (by rw [halts.1]; decide)]
      exact halts
    have bounds := keeps _ source there stays j' within
    omega
  · intro i ir low high present call
    obtain ⟨source, ⟨j, -, found⟩, rfl⟩ := placed.behind row present low high
    rw [relocate_op] at call
    rw [relocate_plain (by rw [call]; decide)]
    exact calls j source found call

theorem innermostBlock_ne_nil {events : List Event} {name : Name} {scope block : List Int}
    (innermost : innermostBlock events name scope = some block) : block ≠ [] := by
  induction scope with
  | nil => cases innermost
  | cons procedure outer ih =>
      rw [innermostBlock] at innermost
      split at innermost
      · cases innermost
        exact List.cons_ne_nil _ _
      · exact ih innermost

/-- Where names resolve lexically, the block that declares an operand lies around the
instruction, and its depth is the level of the symbol. -/
theorem Operand.block {events : List Event} (valid : ValidHistory events)
    (resolved : ∀ u ∈ uses events, u.Resolves) {level : Int} {scope : List Int} {ir : Instruction}
    {symbol : Symbol} (operand : Operand level scope events ir symbol) :
    ∃ d, .declare d symbol ∈ events ∧ d <:+ scope ∧ d ≠ [] ∧ symbol.level = d.length - 1 := by
  obtain ⟨construct, name, used, -⟩ := operand
  obtain ⟨before, found⟩ := exists_use used
  obtain ⟨d, other, innermost, declared, -, same⟩ := resolved _ found
  have equal : symbol = other := Option.some.inj same
  subst equal
  obtain ⟨after, split⟩ := mem_uses found
  have inHistory : Event.declare d symbol ∈ events := by
    rw [split]
    exact List.mem_append_left _ (mem_declarations.mp declared)
  refine ⟨d, inHistory, innermostBlock_suffix innermost, innermostBlock_ne_nil innermost, ?_⟩
  exact valid.numbered.level (d, symbol) (mem_declarations.mpr inHistory)

theorem accepted_suits {fuel : Nat} {tokens : List CurrentToken} {block : BlockNode}
    {s : ParseState}
    (accepted : parse fuel tokens = .ok block s) {scope : List Int} {construct : Construct}
    {name : Name} {result : Option Symbol} (used : .use scope construct name result ∈ s.gen.trace)
    (checked : construct ≠ .assign ∨ s.reports = []) : Suits construct result := by
  obtain ⟨-, excused | ⟨s', stopped⟩⟩ := parse_triple fuel tokens
  · rw [accepted] at excused
    by_contra unsuited
    obtain ⟨assigns, reported⟩ := excused _ used unsuited
    exact checked.elim (fun other => other assigns) reported
  · rw [accepted] at stopped
    cases stopped

theorem accepted_valid {fuel : Nat} {tokens : List CurrentToken} {block : BlockNode}
    {s : ParseState}
    (accepted : parse fuel tokens = .ok block s) : ValidHistory s.gen.trace := by
  have valid := (parse_triple fuel tokens).1
  rw [accepted] at valid
  exact valid

/-- From a block, the level difference leads to the block around it that declares. -/
theorem drop_of_suffix {scope d : List Int} (suffix : d <:+ scope) (nonempty : d ≠ []) {l : Int}
    (difference : l = scope.length - 1 - (d.length - 1)) :
    l.toNat < scope.length ∧ scope.drop l.toNat = d := by
  have within := suffix.length_le
  have positive := List.length_pos_iff.mpr nonempty
  have count : l.toNat = scope.length - d.length := by omega
  rw [count]
  exact ⟨by omega, (List.suffix_iff_eq_drop.mp suffix).symm⟩

/-- A call of an accepted program goes to a procedure that a block around it declares. -/
theorem OperandNotes.calls {fuel : Nat} {tokens : List CurrentToken} {block : BlockNode}
    {s : ParseState} (accepted : parse fuel tokens = .ok block s)
    (notes : OperandNotes s.gen.code s.gen.trace block)
    (resolved : ∀ u ∈ uses s.gen.trace, u.Resolves) {chain : List Int}
    (member : chain ∈ block.chains [0]) {set : Int} (head : chain.head? = some set) {i : Nat}
    {ir : Instruction} (found : (s.gen.code set)[i + 1]? = some ir)
    (call : ir.op = Opcode.cal.toInt) :
    ir.l.toNat < chain.length ∧ ir.m :: chain.drop ir.l.toNat ∈ block.chains [0] := by
  obtain ⟨symbol, access⟩ := notes.covered chain member set head i ir found (by rw [call]; rfl)
  obtain ⟨-, -, j, ir', place, there, operand⟩ := notes.fits _ _ _ _ access
  obtain rfl : i = j := by omega
  rw [found] at there
  cases there
  obtain ⟨d, declared, suffix, nonempty, level⟩ := operand.block (accepted_valid accepted) resolved
  obtain ⟨construct, name, used, -, op, fields⟩ := operand
  rw [call, Opcode.toInt_inj] at op
  have isCall : construct = .call := by
    cases construct <;> first | rfl | cases op
  subst isCall
  obtain ⟨callee, same, kind⟩ := accepted_suits accepted used (.inl (by decide))
  cases same
  rw [← operandFields_address _ (.inl (by decide)), Prod.mk.injEq] at fields
  obtain ⟨l, m⟩ := fields
  rw [level] at l
  obtain ⟨inside, drop⟩ := drop_of_suffix suffix nonempty l
  refine ⟨inside, ?_⟩
  rw [drop, m]
  exact notes.declared d symbol declared kind

/-- Where the segment of a code set starts and stops. -/
def segmentBounds (code : CodeSets) (set : Int) : Int × Int :=
  let start := segmentStart (prepareMcode code FINAL_CODE) set
  (start, start + getCodeLength code set)

theorem Placed.bounds {code : CodeSets} {k start : Nat}
    (placed : Placed code (prepareMcode code FINAL_CODE) k start) {first : Instruction}
    {body : List Instruction} (row : code k = first :: body) :
    segmentBounds code k = ((start : Int), (start : Int) + 1 + body.length) := by
  unfold segmentBounds getCodeLength
  dsimp only
  rw [placed.segmentStart, row, List.length_cons, Prod.mk.injEq]
  exact ⟨rfl, by push_cast; omega⟩

/-- The final code of an accepted program has a segment for each of its blocks. -/
theorem parse_blocks {fuel : Nat} {tokens : List CurrentToken} {block : BlockNode} {s : ParseState}
    (accepted : parse fuel tokens = .ok block s)
    (few : block.procedures.length + 1 < maxCodeSets)
    (begins : ∀ p ∈ block.procedures, ∃ list, p.body.statement = .begin list)
    (resolved : ∀ u ∈ uses s.gen.trace, u.Resolves) :
    Blocks (prepareMcode s.gen.code FINAL_CODE) (block.chains [0]) (segmentBounds s.gen.code) := by
  have layout := parse_layout accepted (Nat.lt_of_succ_lt few)
  have notes := parse_operandNotes accepted few
  refine ⟨?_, notes.distinct, ?_⟩
  · cases block
    exact List.mem_cons_self
  · intro chain member set own
    have heads : chain.head? ∈ (block.chains [0]).map List.head? := List.mem_map_of_mem member
    rw [BlockNode.chains_head] at heads
    rcases List.mem_cons.mp heads with head | within
    · obtain ⟨c, -, -, row⟩ := layout.main
      obtain ⟨start, -, placed⟩ := layout.placed few (k := 0) (Nat.zero_le _)
      have closed : Closed targets (compileStatement c block.statement 0 0) 0 :=
        compileStatement_closed c block.statement 0 0
      obtain rfl : set = 0 := Option.some.inj (own.symm.trans head)
      have bounds : segmentBounds s.gen.code 0 = _ := placed.bounds row
      rw [bounds]
      apply placed.segmentOf head row (by omega) (by simp)
        ((compileStatement_unreserved c _ _ _).append (.instr _ (by decide) _ _ _))
        (keepsControl_last closed (.inl ⟨rfl, rfl⟩))
      intro i ir found call
      have there : (s.gen.code 0)[i + 1]? = some ir := by
        rw [row, List.getElem?_cons_succ]
        exact found
      exact notes.calls accepted resolved member head there call
    · obtain ⟨p, declared, head⟩ := List.mem_map.mp within
      obtain ⟨positive, below, c, procedure, -, row⟩ := layout.compiled p declared
      obtain ⟨list, body⟩ := begins p declared
      obtain ⟨k, number⟩ := Int.eq_ofNat_of_zero_le (Int.le_of_lt positive)
      obtain ⟨start, -, placed⟩ := layout.placed few (k := k) (by omega)
      have closed : Closed targets (compileStatements c list 0 0) 0 :=
        compileStatements_closed c list 0 0
      have code : compileStatement c p.body.statement 0 0 =
          compileStatements c list 0 0 ++ [instr .rtn 0 0 0] := by
        rw [body, compileStatement, compileReturn, if_pos (by omega)]
      rw [code, number] at row
      rw [number] at head
      obtain rfl : set = k := Option.some.inj (own.symm.trans head.symm)
      rw [placed.bounds row]
      apply placed.segmentOf head.symm row (by omega) (by simp)
        ((compileStatements_unreserved c _ _ _).append (.instr _ (by decide) _ _ _))
        (keepsControl_last closed (.inr fun _ => rfl))
      intro i ir found call
      have there : (s.gen.code k)[i + 1]? = some ir := by
        rw [row, List.getElem?_cons_succ]
        exact found
      exact notes.calls accepted resolved member head.symm there call

end Pl0
