import Pl0.TokenFile

set_option autoImplicit false

namespace Pl0

/- The scan with what its loops leave behind: each call of `getNextLexeme`, each turn of
its loop, and the place in the input that the machine counts on the way. The stores into
the lexeme buffer are not guarded here. -/

/-- The machine with its place in the input. -/
structure LocatedDfa where
  dfa : Dfa
  line : Nat
  column : Nat
  lastLineLength : Nat

/-- `dfa_init` -/
def locatedInit : LocatedDfa :=
  { dfa := dfaInit, line := 1, column := 1, lastLineLength := 0 }

namespace LocatedDfa

/-- A character is read. -/
def advance (this : LocatedDfa) (inChar : UInt8) : LocatedDfa :=
  let this := { this with column := this.column + 1 }
  if inChar = 10 then
    { this with lastLineLength := this.column, column := 1, line := this.line + 1 }
  else this

/-- The character is given back. -/
def retreat (this : LocatedDfa) : LocatedDfa :=
  let this := { this with column := this.column - 1 }
  if this.column < 1 then { this with line := this.line - 1, column := this.lastLineLength }
  else this

end LocatedDfa

/-- The character and the terminator behind it, wherever the index stands. -/
def storeChar (dfa : Dfa) (inChar : UInt8) : Dfa :=
  let index := dfa.curLexeme.indexBuffer
  setIndex (setBuffer (setBuffer dfa index inChar) (index + 1) 0) (index + 1)

/-- A turn of the loop of `getNextLexeme`: the machine that it finds, the character that
it reads and the file behind the character. -/
structure ScanTurn where
  found : LocatedDfa
  inChar : UInt8
  file : File

namespace ScanTurn

/-- The machine that `transition` is called with. -/
def entered (turn : ScanTurn) : LocatedDfa :=
  { turn.found.advance turn.inChar with dfa := storeChar turn.found.dfa turn.inChar }

/-- The machine that `transition` leaves. -/
def moved (turn : ScanTurn) : Dfa :=
  transition turn.entered.dfa turn.inChar

/-- The machine that the turn leaves. -/
def machine (turn : ScanTurn) : LocatedDfa :=
  if turn.moved.rewind then { turn.entered.retreat with dfa := popChar turn.moved }
  else { turn.entered with dfa := turn.moved }

/-- The file that the turn leaves. -/
def input (turn : ScanTurn) : File :=
  if turn.moved.rewind then seekBack turn.file else turn.file

end ScanTurn

/-- The turns of the loop of `getNextLexeme`, with the machine and the file it leaves;
`none` when it still runs after `fuel` turns. -/
def tracedLoop : Nat → LocatedDfa → File → Option (List ScanTurn × LocatedDfa × File)
  | 0, _, _ => none
  | fuel + 1, this, input =>
      if this.dfa.mState = .run then
        match getNextChar input with
        | (none, input) => some ([], this, input)
        | (some inChar, file) => do
            let turn : ScanTurn := ⟨this, inChar, file⟩
            let (turns, left) ← tracedLoop fuel turn.machine turn.input
            return (turn :: turns, left)
      else some ([], this, input)

/-- A call of `getNextLexeme`: the file before it, the turns of its loop, the machine
behind the loop, and the file after it. -/
structure ScanCall where
  input : File
  turns : List ScanTurn
  last : LocatedDfa
  output : File

/-- The lexeme with its reserved word looked up, as `putLexeme` finds it. -/
def labelLexeme (dfa : Dfa) : Dfa :=
  let dfa := if dfa.curLexeme.type = .identsym then updateReservedWords dfa else dfa
  if dfa.curLexeme.type = .identsym ∨ dfa.curLexeme.type = .numbersym then
    { dfa with curLexeme := { dfa.curLexeme with printable := true } }
  else dfa

namespace ScanCall

/-- The machine that `putLexeme` copies its lexeme from. -/
def put (call : ScanCall) : Option Dfa :=
  if call.last.dfa.dfaState = .accept ∧ (labelLexeme call.last.dfa).curLexeme.type ≠ .nulsym then
    some (labelLexeme call.last.dfa)
  else none

/-- The machine that the call leaves. -/
def machine (call : ScanCall) : LocatedDfa :=
  { call.last with dfa := finishCall call.last.dfa }

end ScanCall

def tracedLexeme (fuel : Nat) (this : LocatedDfa) (input : File) : Option ScanCall := do
  let (turns, last, output) ← tracedLoop fuel { this with dfa := resetMachine this.dfa } input
  return ⟨input, turns, last, output⟩

/-- The calls of the loop of `scanner_run`, with the machine they leave. -/
def tracedCalls : Nat → LocatedDfa → File → Option (List ScanCall × LocatedDfa)
  | 0, this, fin => if fin.eof then some ([], this) else none
  | fuel + 1, this, fin =>
      if fin.eof then some ([], this)
      else do
        let call ← tracedLexeme (fuel + 1) this fin
        let (calls, last) ← tracedCalls fuel call.machine call.output
        return (call :: calls, last)

/-- The calls `scanner_run` makes for a file with this text. -/
def scannerTrace (fuel : Nat) (text : List UInt8) : Option (List ScanCall × LocatedDfa) :=
  tracedCalls fuel locatedInit { text := text, pos := 0, eof := false }

/-- The guard of the store, apart from what it stores. -/
theorem pushChar_eq (dfa : Dfa) (c : UInt8) : pushChar dfa c =
    if dfa.curLexeme.indexBuffer + 1 < maxBufferSize then .ok (storeChar dfa c)
    else .error .outOfBounds := rfl

theorem storeChar_of_pushChar {dfa pushed : Dfa} {c : UInt8} (push : pushChar dfa c = .ok pushed) :
    dfa.curLexeme.indexBuffer + 1 < maxBufferSize ∧ pushed = storeChar dfa c := by
  rw [pushChar_eq] at push
  by_cases fits : dfa.curLexeme.indexBuffer + 1 < maxBufferSize
  · rw [if_pos fits] at push
    exact ⟨fits, (Except.ok.inj push).symm⟩
  · rw [if_neg fits] at push
    cases push

/-- The machine between two turns: in a lexeme, or halted by the last turn. -/
inductive Paused (dfa : Dfa) : Prop
  | pending (pending : Pending dfa)
  | skipped (halted : dfa.mState = .halt) (state : dfa.dfaState = .accept)
      (type : dfa.curLexeme.type = .nulsym)
  | rejected (halted : dfa.mState = .halt) (state : dfa.dfaState = .reject)
  | accepted (type : Token) (word : Name) (table : List LexemeEntry) (halted : dfa.mState = .halt)
      (recognised : Recognised dfa type word table) (lexeme : IsLexeme type word)

theorem Paused.running {dfa : Dfa} (paused : Paused dfa) (runs : dfa.mState = .run) :
    Pending dfa := by
  cases paused with
  | pending pending => exact pending
  | skipped halted state type =>
      rw [halted] at runs
      cases runs
  | rejected halted state =>
      rw [halted] at runs
      cases runs
  | accepted type word table halted recognised lexeme =>
      rw [halted] at runs
      cases runs

/-- What a turn does to a machine between two characters. -/
structure TurnOf (turn : ScanTurn) : Prop where
  fits : turn.found.dfa.curLexeme.indexBuffer + 1 < maxBufferSize
  push : pushChar turn.found.dfa turn.inChar = .ok turn.entered.dfa
  turned : Turned turn.found.dfa.tokenTable turn.moved
  first : turn.found.dfa.dfaState = .start → turn.moved.rewind = false

theorem Pending.turnOf {turn : ScanTurn} (pending : Pending turn.found.dfa) : TurnOf turn := by
  obtain ⟨moved, ran, turned, first⟩ := pending.turns turn.inChar
  obtain ⟨pushed, push, moves⟩ := Except.bind_eq_ok.mp ran
  obtain ⟨fits, rfl⟩ := storeChar_of_pushChar push
  have same : turn.moved = moved := Except.pure_eq_ok.mp moves
  rw [← same] at turned first
  exact ⟨fits, push, turned, first⟩

theorem TurnOf.paused {turn : ScanTurn} (of : TurnOf turn) : Paused turn.machine.dfa := by
  unfold ScanTurn.machine
  cases of.turned with
  | stays pending same =>
      rw [if_neg (by rw [pending.kept]; exact Bool.false_ne_true)]
      exact .pending pending
  | skips halted state kept type same =>
      rw [if_neg (by rw [kept]; exact Bool.false_ne_true)]
      exact .skipped halted state type
  | rejects halted state kept same =>
      rw [if_neg (by rw [kept]; exact Bool.false_ne_true)]
      exact .rejected halted state
  | ends type word halted back recognised lexeme =>
      rw [if_pos back]
      exact .accepted type word _ halted recognised lexeme

/-- What holds of the machine before the loop and is kept by its turns holds behind it, and
what it gives of a turn holds of each of them. -/
theorem tracedLoop_invariant {P : LocatedDfa → File → Prop} {Q : ScanTurn → Prop}
    (turn : ∀ (turn : ScanTurn) (file : File), P turn.found file → turn.found.dfa.mState = .run →
      getNextChar file = (some turn.inChar, turn.file) → Q turn ∧ P turn.machine turn.input)
    (ends : ∀ (this : LocatedDfa) (file next : File), P this file →
      getNextChar file = (none, next) → P this next) :
    ∀ {fuel : Nat} {this last : LocatedDfa} {file next : File} {turns : List ScanTurn},
      P this file → tracedLoop fuel this file = some (turns, last, next) →
        (∀ turn ∈ turns, Q turn) ∧ P last next := by
  intro fuel
  induction fuel with
  | zero =>
      intro this last file next turns holds ran
      cases ran
  | succ fuel ih =>
      intro this last file next turns holds ran
      rw [tracedLoop] at ran
      split at ran
      · rename_i runs
        split at ran
        · rename_i behind got
          cases ran
          exact ⟨by simp, ends _ _ _ holds got⟩
        · rename_i inChar behind got
          obtain ⟨⟨later, left⟩, looped, built⟩ := Option.bind_eq_some_iff.mp ran
          cases built
          obtain ⟨of, kept⟩ := turn ⟨this, inChar, behind⟩ file holds runs got
          obtain ⟨all, final⟩ := ih kept looped
          exact ⟨List.forall_mem_cons.mpr ⟨of, all⟩, final⟩
      · cases ran
        exact ⟨by simp, holds⟩

/-- The same for the calls of the loop of `scanner_run`. -/
theorem tracedCalls_invariant {P : LocatedDfa → File → Prop} {Q : ScanCall → Prop}
    (call : ∀ (fuel : Nat) (this : LocatedDfa) (call : ScanCall), P this call.input →
      tracedLoop fuel { this with dfa := resetMachine this.dfa } call.input =
        some (call.turns, call.last, call.output) → Q call ∧ P call.machine call.output) :
    ∀ {fuel : Nat} {this last : LocatedDfa} {fin : File} {calls : List ScanCall},
      P this fin → tracedCalls fuel this fin = some (calls, last) → ∀ call ∈ calls, Q call := by
  intro fuel
  induction fuel with
  | zero =>
      intro this last fin calls holds ran
      rw [tracedCalls] at ran
      split at ran
      · cases ran
        simp
      · cases ran
  | succ fuel ih =>
      intro this last fin calls holds ran
      rw [tracedCalls] at ran
      split at ran
      · cases ran
        simp
      · obtain ⟨first, called, others⟩ := Option.bind_eq_some_iff.mp ran
        obtain ⟨⟨later, final⟩, ranOn, built⟩ := Option.bind_eq_some_iff.mp others
        cases built
        obtain ⟨⟨turns, left, output⟩, looped, same⟩ := Option.bind_eq_some_iff.mp called
        cases same
        obtain ⟨of, kept⟩ := call (fuel + 1) this ⟨fin, turns, left, output⟩ holds looped
        exact List.forall_mem_cons.mpr ⟨of, ih kept ranOn⟩

theorem getNextChar_rest {file next : File} {c : UInt8} (got : getNextChar file = (some c, next)) :
    file.rest = c :: next.rest ∧ next.text = file.text ∧ next.pos = file.pos + 1 ∧
      next.eof = file.eof := by
  cases read : file.rest with
  | nil =>
      rw [getNextChar_nil read] at got
      cases got
  | cons d more =>
      obtain ⟨behind, taken, text, pos, eof, rest⟩ := getNextChar_cons read
      rw [taken] at got
      cases got
      rw [rest]
      exact ⟨rfl, text, pos, eof⟩

theorem TurnOf.lexemeLoop {turn : ScanTurn} (of : TurnOf turn) {file : File}
    (runs : turn.found.dfa.mState = .run)
    (got : getNextChar file = (some turn.inChar, turn.file)) (fuel : Nat) :
    lexemeLoop (fuel + 1) turn.found.dfa file = lexemeLoop fuel turn.machine.dfa turn.input := by
  rw [Pl0.lexemeLoop, if_pos runs, got]
  dsimp only
  rw [Except.bind_of_ok of.push]
  change (if turn.moved.rewind then _ else _) = _
  unfold ScanTurn.machine ScanTurn.input
  cases turn.moved.rewind with
  | true => rfl
  | false => rfl

theorem tracedLoop_turn {turn : ScanTurn} {file : File} (runs : turn.found.dfa.mState = .run)
    (got : getNextChar file = (some turn.inChar, turn.file)) (fuel : Nat) :
    tracedLoop (fuel + 1) turn.found file =
      (tracedLoop fuel turn.machine turn.input).bind fun ran =>
        some (turn :: ran.1, ran.2) := by
  rw [tracedLoop, if_pos runs, got]
  rfl

/-- Where a turn leaves the file. -/
theorem TurnOf.input {turn : ScanTurn} (of : TurnOf turn) {file : File}
    (got : getNextChar file = (some turn.inChar, turn.file)) (open_ : file.eof = false) :
    turn.input.text = file.text ∧ turn.input.eof = false ∧
      ((turn.moved.rewind = true ∧ turn.machine.dfa.mState ≠ .run ∧ turn.input.pos = file.pos) ∨
        (turn.moved.rewind = false ∧ turn.input.pos = file.pos + 1 ∧
          file.rest = turn.inChar :: turn.input.rest)) := by
  obtain ⟨rest, text, pos, eof⟩ := getNextChar_rest got
  unfold ScanTurn.input ScanTurn.machine
  cases back : turn.moved.rewind with
  | true =>
      obtain ⟨type, word, halted, -⟩ := of.turned.back back
      refine ⟨text, rfl, .inl ⟨rfl, ?_, ?_⟩⟩
      · rw [if_pos rfl]
        change turn.moved.mState ≠ .run
        rw [halted]
        decide
      · change turn.file.pos - 1 = file.pos
        rw [pos, Nat.add_sub_cancel]
  | false => exact ⟨text, eof.trans open_, .inr ⟨rfl, pos, rest⟩⟩

theorem getNextChar_end {file next : File} (got : getNextChar file = (none, next)) :
    next = { file with eof := true } := by
  cases rest : file.rest with
  | nil =>
      rw [getNextChar_nil rest] at got
      exact (Prod.mk.inj got).2.symm
  | cons c more =>
      obtain ⟨behind, taken, -⟩ := getNextChar_cons rest
      rw [taken] at got
      cases got

/-- The loop ends on a file that is open, no later than one turn behind its last character.
It is at the end of the file then, or beyond the character that it began with. -/
theorem tracedLoop_returns : ∀ (fuel : Nat) {this : LocatedDfa} {file : File},
    Paused this.dfa → file.eof = false → 1 ≤ fuel →
      (this.dfa.mState = .run → file.rest.length + 1 ≤ fuel) →
        ∃ turns last next, tracedLoop fuel this file = some (turns, last, next) ∧
          lexemeLoop fuel this.dfa file = .ok (some (last.dfa, next)) ∧ next.text = file.text ∧
          (next.eof = true ∨ (next.eof = false ∧ next.rest.length ≤ file.rest.length ∧
            (this.dfa.mState = .run → this.dfa.dfaState = .start →
              next.rest.length < file.rest.length))) := by
  intro fuel
  induction fuel with
  | zero =>
      intro this file paused open_ some_
      omega
  | succ fuel ih =>
      intro this file paused open_ some_ enough
      by_cases runs : this.dfa.mState = .run
      · cases rest : file.rest with
        | nil =>
            rw [tracedLoop, lexemeLoop, if_pos runs, if_pos runs, getNextChar_nil rest]
            exact ⟨[], this, _, rfl, rfl, rfl, .inl rfl⟩
        | cons inChar more =>
            obtain ⟨behind, got, -⟩ := getNextChar_cons rest
            have of : TurnOf ⟨this, inChar, behind⟩ := (paused.running runs).turnOf
            obtain ⟨text, stillOpen, moves⟩ := of.input got open_
            have left := enough runs
            rw [rest, List.length_cons] at left
            have later : (ScanTurn.machine ⟨this, inChar, behind⟩).dfa.mState = .run →
                (ScanTurn.input ⟨this, inChar, behind⟩).rest.length + 1 ≤ fuel := by
              intro running
              obtain ⟨-, halted, -⟩ | ⟨-, -, taken⟩ := moves
              · exact absurd running halted
              · rw [← (List.cons.inj (rest.symm.trans taken)).2]
                omega
            obtain ⟨turns, last, next, traced, looped, sameText, ended⟩ :=
              ih of.paused stillOpen (by omega) later
            refine ⟨⟨this, inChar, behind⟩ :: turns, last, next, ?_, ?_, sameText.trans text, ?_⟩
            · rw [@tracedLoop_turn ⟨this, inChar, behind⟩ file runs got fuel, traced]
              rfl
            · rw [← looped]
              exact of.lexemeLoop runs got fuel
            · obtain atEnd | ⟨stays, less, -⟩ := ended
              · exact .inl atEnd
              · obtain ⟨back, -, pos⟩ | ⟨-, -, taken⟩ := moves
                · have again : (ScanTurn.input ⟨this, inChar, behind⟩).rest = file.rest := by
                    unfold File.rest
                    rw [text, pos]
                  rw [again, rest] at less
                  refine .inr ⟨stays, less, fun _ start => ?_⟩
                  rw [of.first start] at back
                  cases back
                · rw [← rest, taken, List.length_cons]
                  exact .inr ⟨stays, Nat.le_succ_of_le less, fun _ _ => Nat.lt_succ_of_le less⟩
      · rw [tracedLoop, lexemeLoop, if_neg runs, if_neg runs]
        exact ⟨[], this, file, rfl, rfl, rfl,
          .inr ⟨open_, Nat.le_refl _, fun run => absurd run runs⟩⟩

/-- A call of `getNextLexeme` on a file that is open. -/
theorem tracedLexeme_returns {fuel : Nat} (this : LocatedDfa) {input : File}
    (open_ : input.eof = false) (enough : input.rest.length + 1 ≤ fuel) :
    ∃ call found, tracedLexeme fuel this input = some call ∧ call.input = input ∧
      getNextLexeme fuel this.dfa input = .ok (some (found, call.machine.dfa, call.output)) ∧
      call.output.text = input.text ∧ (call.output.eof = true ∨
        (call.output.eof = false ∧ call.output.rest.length < input.rest.length)) := by
  have paused : Paused (resetMachine this.dfa) := .pending (pending_reset this.dfa)
  obtain ⟨turns, last, next, traced, looped, text, ended⟩ :=
    @tracedLoop_returns fuel { this with dfa := resetMachine this.dfa } input paused open_
      (Nat.le_trans (Nat.le_add_left 1 _) enough) fun _ => enough
  refine ⟨⟨input, turns, last, next⟩, decide (last.dfa.dfaState = .accept), ?_, rfl, ?_, text,
    ended.imp id fun ⟨stays, _, beyond⟩ => ⟨stays, beyond rfl rfl⟩⟩
  · rw [tracedLexeme, traced]
    rfl
  · rw [getNextLexeme, Except.bind_of_ok looped]
    unfold ScanCall.machine finishCall
    by_cases accepted : last.dfa.dfaState = .accept
    · simp only [accepted, decide_true]
      rfl
    · simp only [accepted, decide_false]
      rfl

/-- With less left to read, the file stands further on. -/
theorem pos_lt_of_rest {file next : File} (text : next.text = file.text)
    (less : next.rest.length < file.rest.length) : file.pos < next.pos := by
  unfold File.rest at less
  rw [List.length_drop, List.length_drop, text] at less
  omega

/-- The loop of `scanner_run` ends, with the list that the guarded scanner builds. -/
theorem tracedCalls_returns : ∀ (fuel : Nat) (this : LocatedDfa) {fin : File},
    (fin.eof = false → fin.rest.length + 1 ≤ fuel) →
      ∃ calls last, tracedCalls fuel this fin = some (calls, last) ∧
        scannerLoop fuel this.dfa fin = .ok (some last.dfa) ∧
        (fin.eof = true → calls = []) ∧ calls.length ≤ fin.rest.length + 1 ∧
        ∀ call ∈ calls, call.output.eof = true ∨ call.input.pos < call.output.pos := by
  intro fuel
  induction fuel with
  | zero =>
      intro this fin enough
      have atEnd : fin.eof = true := by
        by_contra open_
        have := enough (eq_false_of_ne_true open_)
        omega
      refine ⟨[], this, ?_, ?_, fun _ => rfl, Nat.zero_le _, by simp⟩
      · rw [tracedCalls, if_pos atEnd]
      · rw [scannerLoop, if_pos atEnd]
  | succ fuel ih =>
      intro this fin enough
      rw [tracedCalls, scannerLoop]
      cases open_ : fin.eof with
      | true => exact ⟨[], this, rfl, rfl, fun _ => rfl, Nat.zero_le _, by simp⟩
      | false =>
          obtain ⟨call, found, traced, from_, lexeme, text, ended⟩ :=
            tracedLexeme_returns this open_ (enough open_)
          have left := enough open_
          have later : call.output.eof = false → call.output.rest.length + 1 ≤ fuel := by
            intro stays
            obtain atEnd | ⟨-, less⟩ := ended
            · rw [stays] at atEnd
              cases atEnd
            · omega
          obtain ⟨calls, last, ranOn, looped, none, few, beyond⟩ := ih call.machine later
          refine ⟨call :: calls, last, ?_, ?_, by simp, ?_, List.forall_mem_cons.mpr ⟨?_, beyond⟩⟩
          · rw [if_neg Bool.false_ne_true, traced]
            change (tracedCalls fuel call.machine call.output).bind _ = _
            rw [ranOn]
            rfl
          · rw [if_neg Bool.false_ne_true, Except.bind_of_ok lexeme]
            exact looped
          · rw [List.length_cons]
            obtain atEnd | ⟨-, less⟩ := ended
            · rw [none atEnd, List.length_nil]
              exact Nat.le_add_left 1 _
            · omega
          · rw [from_]
            obtain atEnd | ⟨-, less⟩ := ended
            · exact .inl atEnd
            · exact .inr (pos_lt_of_rest text less)

/-- The scan of a text ends; its machine has the list that the guarded scanner builds. -/
theorem scannerTrace_returns (text : List UInt8) {fuel : Nat} (enough : text.length + 1 ≤ fuel) :
    ∃ calls last, scannerTrace fuel text = some (calls, last) ∧
      scannerRun fuel text = .ok (some last.dfa.tokenTable) ∧ calls.length ≤ text.length + 1 ∧
      ∀ call ∈ calls, call.output.eof = true ∨ call.input.pos < call.output.pos := by
  obtain ⟨calls, last, traced, looped, -, few, beyond⟩ :=
    @tracedCalls_returns fuel locatedInit { text := text, pos := 0, eof := false } fun _ => enough
  refine ⟨calls, last, traced, ?_, few, beyond⟩
  unfold scannerRun
  have looped : scannerLoop fuel dfaInit { text := text, pos := 0, eof := false } =
    .ok (some last.dfa) := looped
  rw [Except.bind_of_ok looped]
  rfl

/-- In the loop of a call the automaton is inside a lexeme at each turn, and behind the loop
it is at one of the ends of a lexeme or of the file. -/
theorem scannerTrace_paused {fuel : Nat} {text : List UInt8} {calls : List ScanCall}
    {last : LocatedDfa} (traced : scannerTrace fuel text = some (calls, last)) :
    ∀ call ∈ calls, (∀ turn ∈ call.turns, Pending turn.found.dfa) ∧ Paused call.last.dfa := by
  refine @tracedCalls_invariant (fun _ _ => True) _ ?_ fuel _ _ _ _ trivial traced
  intro fuel this call _ looped
  have start : Paused (resetMachine this.dfa) := .pending (pending_reset this.dfa)
  obtain ⟨every, final⟩ := @tracedLoop_invariant (fun this _ => Paused this.dfa)
    (fun turn => Pending turn.found.dfa)
    (fun turn _ paused runs _ => ⟨paused.running runs, (paused.running runs).turnOf.paused⟩)
    (fun _ _ _ paused _ => paused) fuel _ _ _ _ _ start looped
  exact ⟨⟨every, final⟩, trivial⟩

theorem Pending.unfinished {dfa : Dfa} (pending : Pending dfa) :
    dfa.dfaState ∉ [.accept, .reject, .final] := by
  have notFinal : dfa.dfaState ≠ .final := by
    cases pending with
    | lexeme state type word scanning inside =>
        rw [scanning.state]
        rintro rfl
        exact inside
    | comment star inside =>
        rw [inside.state]
        cases star <;> decide
    | closed closed =>
        rw [closed.state]
        decide
  simpa using ⟨pending.running.1, pending.running.2, notFinal⟩

/-- Each call of `getNextLexeme` ends, at the end of the file or with the file further on,
and the automaton takes no step from its end states; so `scanner_run` ends too. -/
theorem scanner_progress (text : List UInt8) {fuel : Nat} (enough : text.length + 1 ≤ fuel) :
    ∃ calls last, scannerTrace fuel text = some (calls, last) ∧
      calls.length ≤ text.length + 1 ∧ ∀ call ∈ calls,
        (call.output.eof = true ∨ call.input.pos < call.output.pos) ∧
        ∀ turn ∈ call.turns, turn.entered.dfa.dfaState ∉ [.accept, .reject, .final] := by
  obtain ⟨calls, last, traced, -, few, beyond⟩ := scannerTrace_returns text enough
  refine ⟨calls, last, traced, few, fun call member => ⟨beyond call member, ?_⟩⟩
  intro turn among
  exact ((scannerTrace_paused traced call member).1 turn among).unfinished

/-- The text `x:?`, with a name, an operator that is not finished and no lexeme. -/
theorem scanner_progress_unfinished : ∃ calls last,
    scannerTrace 4 [120, 58, 63] = some (calls, last) ∧ calls.length ≤ 4 ∧ ∀ call ∈ calls,
      (call.output.eof = true ∨ call.input.pos < call.output.pos) ∧
      ∀ turn ∈ call.turns, turn.entered.dfa.dfaState ∉ [.accept, .reject, .final] :=
  scanner_progress [120, 58, 63] (by decide)

end Pl0
