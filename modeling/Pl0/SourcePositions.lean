import Pl0.ScannerTurns

set_option autoImplicit false

namespace Pl0

/- The lines and columns that `getNextLexeme` counts while it reads characters and gives
them back, and the places that `transition` reports. -/

/-- What an error of `transition` names besides its place. -/
inductive LexicalCulprit
  | inChar (c : UInt8)
  | spelling (word : Name)
  deriving DecidableEq, Repr

/-- The error that `transition` reports of a character, with the format of its text. -/
def transitionError (dfa : Dfa) (input : UInt8) : Option (String × LexicalCulprit) :=
  let spelling : LexicalCulprit := .spelling (cString dfa.curLexeme.buffer)
  match dfa.dfaState with
  | .start =>
      if isSpace input || isCntrl input then none
      else if isDigit input then none
      else if isAlpha input then none
      else match operatorStart input with
        | some _ => none
        | none =>
            some ("The input char[%d] is error, the localtion is:[%d,%d]\n", .inChar input)
  | .digit =>
      if isDigit input then
        if dfa.curLexeme.indexBuffer > maxNumberLength then
          some ("Invalid numerical(%s) length at (%d, %d)\n", spelling)
        else none
      else if isAlpha input then some ("Invalid identifier %s at (%d, %d)\n", spelling)
      else none
  | .alpha =>
      if isAlnum input then
        if dfa.curLexeme.indexBuffer > maxIdentLength then
          some ("Identifier too long %s at (%d, %d)\n", spelling)
        else none
      else none
  | .colon => if input = 61 then none else some ("Invalid input %s at (%d, %d)", spelling)
  | .accept | .reject => some ("Invalid input %s at (%d, %d)", spelling)
  | _ => none

/-- A call of `logerror` in `transition`. -/
structure LexicalReport where
  format : String
  culprit : LexicalCulprit
  line : Nat
  column : Nat
  deriving DecidableEq, Repr

def ScanTurn.report (turn : ScanTurn) : Option LexicalReport :=
  (transitionError turn.entered.dfa turn.inChar).map fun (format, culprit) =>
    { format := format, culprit := culprit, line := turn.entered.line,
      column := turn.entered.column }

/-- The automaton rejects a lexeme exactly when it reports an error. -/
theorem transitionError_rejects {dfa : Dfa} (input : UInt8)
    (running : dfa.dfaState ≠ .accept ∧ dfa.dfaState ≠ .reject) :
    (transition dfa input).dfaState = .reject ↔ (transitionError dfa input).isSome := by
  unfold transition transitionError
  cases state : dfa.dfaState with
  | accept => exact absurd state running.1
  | reject => exact absurd state running.2
  | start =>
      dsimp only
      split_ifs with blank digit alpha
      · simp [accept]
      · simp [goto, setType]
      · simp [goto, setType]
      · cases starts : operatorStart input with
        | none => simp [reject]
        | some pair =>
            obtain ⟨type, next⟩ := pair
            have inside := operatorStart_inside starts
            refine iff_of_false ?_ (by simp)
            intro rejected
            dsimp only [goto] at rejected
            rw [rejected] at inside
            exact inside
  | digit | alpha | div | lcomm | comm | less | lare | colon =>
      dsimp only
      split_ifs <;> simp [accept, reject, goto, setIndex]
  | _ => simp [accept]

/-- The line that a text reaches. -/
def lineOf (read : List UInt8) : Nat := 1 + read.count 10

/-- The column that a text reaches in its last line. -/
def columnOf (read : List UInt8) : Nat := 1 + (read.reverse.takeWhile fun c => c ≠ 10).length

theorem lineOf_newline (read : List UInt8) : lineOf (read ++ [10]) = lineOf read + 1 := by
  unfold lineOf
  rw [List.count_append, List.count_singleton_self]
  omega

theorem lineOf_push (read : List UInt8) {c : UInt8} (inLine : c ≠ 10) :
    lineOf (read ++ [c]) = lineOf read := by
  have none : [c].count 10 = 0 := List.count_eq_zero_of_not_mem (by simpa using inLine.symm)
  unfold lineOf
  rw [List.count_append, none, Nat.add_zero]

theorem columnOf_newline (read : List UInt8) : columnOf (read ++ [10]) = 1 := by
  unfold columnOf
  rw [List.reverse_append, List.reverse_singleton, List.singleton_append,
    List.takeWhile_cons_of_neg (by simp)]
  rfl

theorem columnOf_push (read : List UInt8) {c : UInt8} (inLine : c ≠ 10) :
    columnOf (read ++ [c]) = columnOf read + 1 := by
  unfold columnOf
  rw [List.reverse_append, List.reverse_singleton, List.singleton_append,
    List.takeWhile_cons_of_pos (by simpa using inLine), List.length_cons]
  omega

/-- What the machine has consumed of the file. -/
def File.consumed (file : File) : List UInt8 :=
  file.text.take file.pos

/-- The counters name the true place. -/
structure TruePlace (this : LocatedDfa) (read : List UInt8) : Prop where
  line : this.line = lineOf read
  column : this.column = columnOf read

/-- The counters between two turns. When a newline was given back the column is not that of
the character before it, but the newline will be read again, and sets it. -/
inductive Positioned (this : LocatedDfa) (file : File) : Prop
  | inPlace (place : TruePlace this file.consumed)
  | newline (more : List UInt8) (line : this.line = lineOf file.consumed)
      (next : file.rest = 10 :: more)

theorem Positioned.congr {this that : LocatedDfa} {file : File} (positioned : Positioned this file)
    (line : that.line = this.line) (column : that.column = this.column) : Positioned that file := by
  cases positioned with
  | inPlace place => exact .inPlace ⟨line.trans place.line, column.trans place.column⟩
  | newline more here next => exact .newline more (line.trans here) next

/-- The end of the file is no character. -/
theorem Positioned.atEnd {this : LocatedDfa} {file : File} (positioned : Positioned this file) :
    Positioned this { file with eof := true } := by
  cases positioned with
  | inPlace place => exact .inPlace ⟨place.line, place.column⟩
  | newline more line next => exact .newline more line next

theorem TruePlace.advance {this : LocatedDfa} {read : List UInt8} (place : TruePlace this read)
    (c : UInt8) : TruePlace (this.advance c) (read ++ [c]) := by
  unfold LocatedDfa.advance
  by_cases newline : c = 10
  · subst newline
    rw [if_pos rfl]
    exact ⟨by rw [lineOf_newline, ← place.line], (columnOf_newline read).symm⟩
  · rw [if_neg newline]
    exact ⟨by rw [lineOf_push read newline, ← place.line],
      by rw [columnOf_push read newline, ← place.column]⟩

/-- Whatever the column was, a newline sets it. -/
theorem advance_newline {this : LocatedDfa} {read : List UInt8}
    (line : this.line = lineOf read) : TruePlace (this.advance 10) (read ++ [10]) := by
  unfold LocatedDfa.advance
  rw [if_pos rfl]
  exact ⟨by rw [lineOf_newline, ← line], (columnOf_newline read).symm⟩

theorem Positioned.advance {this : LocatedDfa} {file : File} (positioned : Positioned this file)
    {c : UInt8} {more : List UInt8} (read : file.rest = c :: more) :
    TruePlace (this.advance c) (file.consumed ++ [c]) := by
  cases positioned with
  | inPlace place => exact place.advance c
  | newline others line next =>
      obtain ⟨rfl, -⟩ := List.cons.inj (next.symm.trans read)
      exact advance_newline line

/-- A character that is given back leaves the place before it, but for the column of a
newline. -/
theorem TruePlace.retreat {this : LocatedDfa} {file : File} {c : UInt8} {more : List UInt8}
    (place : TruePlace this (file.consumed ++ [c])) (read : file.rest = c :: more) :
    Positioned this.retreat file := by
  unfold LocatedDfa.retreat
  dsimp only
  by_cases newline : c = 10
  · subst newline
    have line := place.line
    rw [lineOf_newline] at line
    rw [if_pos (by rw [place.column, columnOf_newline]; decide)]
    exact .newline more (by rw [line, Nat.add_sub_cancel]) read
  · have column := place.column
    rw [columnOf_push _ newline] at column
    have positive : 1 ≤ columnOf file.consumed := Nat.le_add_right 1 _
    rw [if_neg (by rw [column]; omega)]
    exact .inPlace ⟨by rw [place.line, lineOf_push _ newline],
      by rw [column, Nat.add_sub_cancel]⟩

/-- The turn knows its place: what it has read ends with its character, and the counters
and the report of `transition` name the line and the column of that character. -/
structure TurnPlaced (text : List UInt8) (turn : ScanTurn) : Prop where
  text : turn.file.text = text
  consumed : ∃ before, turn.file.consumed = before ++ [turn.inChar]
  place : TruePlace turn.entered turn.file.consumed
  report : ∀ report, turn.report = some report →
    report.line = lineOf turn.file.consumed ∧ report.column = columnOf turn.file.consumed

theorem getNextChar_consumed {file next : File} {c : UInt8}
    (got : getNextChar file = (some c, next)) : next.consumed = file.consumed ++ [c] := by
  obtain ⟨rest, text, pos, -⟩ := getNextChar_rest got
  unfold File.consumed
  unfold File.rest at rest
  rw [text, pos, List.take_add_one]
  congr 1
  rw [← List.head?_drop, rest]
  rfl

/-- A turn reads its character at its true place, and leaves the counters in order. -/
theorem turn_positioned {text : List UInt8} {turn : ScanTurn} {file : File}
    (of : file.text = text) (positioned : Positioned turn.found file)
    (got : getNextChar file = (some turn.inChar, turn.file)) :
    TurnPlaced text turn ∧ turn.input.text = text ∧ Positioned turn.machine turn.input := by
  obtain ⟨rest, sameText, pos, -⟩ := getNextChar_rest got
  have consumed := getNextChar_consumed got
  have advanced := positioned.advance rest
  have place : TruePlace turn.entered turn.file.consumed := by
    rw [consumed]
    exact ⟨advanced.line, advanced.column⟩
  refine ⟨⟨sameText.trans of, ⟨_, consumed⟩, place, ?_⟩, ?_⟩
  · intro report reported
    obtain ⟨_, _, rfl⟩ := Option.map_eq_some_iff.mp reported
    exact ⟨place.line, place.column⟩
  · unfold ScanTurn.machine ScanTurn.input
    cases turn.moved.rewind with
    | true =>
        refine ⟨sameText.trans of, ?_⟩
        have back : (seekBack turn.file).consumed = file.consumed := by
          unfold File.consumed seekBack
          dsimp only
          rw [sameText, pos, Nat.add_sub_cancel]
        have again := seekBack_rest rest sameText pos
        rw [consumed, ← back] at place
        rw [if_pos rfl]
        exact (place.retreat again).congr rfl rfl
    | false =>
        refine ⟨sameText.trans of, .inPlace ?_⟩
        exact ⟨place.line, place.column⟩

/-- The calls of `getNextLexeme` keep the counters in order; neither the reset of the
machine nor the lexeme it finds touches them. -/
theorem call_positioned {text : List UInt8} (fuel : Nat) (this : LocatedDfa) (call : ScanCall)
    (holds : call.input.text = text ∧ Positioned this call.input)
    (looped : tracedLoop fuel { this with dfa := resetMachine this.dfa } call.input =
      some (call.turns, call.last, call.output)) :
    (∀ turn ∈ call.turns, TurnPlaced text turn) ∧
      call.output.text = text ∧ Positioned call.machine call.output := by
  obtain ⟨of, positioned⟩ := holds
  have start : Positioned { this with dfa := resetMachine this.dfa } call.input :=
    positioned.congr rfl rfl
  obtain ⟨placed, kept, left⟩ := @tracedLoop_invariant
    (fun this file => file.text = text ∧ Positioned this file) (TurnPlaced text)
    (fun turn file holds _ got => turn_positioned holds.1 holds.2 got)
    (fun this file next holds got => by
      rw [getNextChar_end got]
      exact ⟨holds.1, holds.2.atEnd⟩) fuel _ _ _ _ _ ⟨of, start⟩ looped
  exact ⟨placed, kept, left.congr rfl rfl⟩

/-- Every call of `transition`, and every report of it, has the line and the column of the
character it is about, whatever the text is. -/
theorem source_positions (text : List UInt8) {fuel : Nat} (enough : text.length + 1 ≤ fuel) :
    ∃ calls last, scannerTrace fuel text = some (calls, last) ∧
      ∀ call ∈ calls, ∀ turn ∈ call.turns, TurnPlaced text turn := by
  obtain ⟨calls, last, traced, -⟩ := scannerTrace_returns text enough
  have start : Positioned locatedInit { text := text, pos := 0, eof := false } :=
    .inPlace ⟨rfl, rfl⟩
  have every := @tracedCalls_invariant
    (fun this file => file.text = text ∧ Positioned this file)
    (fun call => ∀ turn ∈ call.turns, TurnPlaced text turn)
    call_positioned fuel locatedInit last _ calls ⟨rfl, start⟩ traced
  exact ⟨calls, last, traced, every⟩

/-- A name in front of a newline, which is read twice. -/
theorem source_positions_newline : ∃ calls last,
    scannerTrace 4 [120, 10, 58] = some (calls, last) ∧
      ∀ call ∈ calls, ∀ turn ∈ call.turns, TurnPlaced [120, 10, 58] turn :=
  source_positions [120, 10, 58] (by decide)

end Pl0
