import Pl0.Dfa
import Pl0.StateExcept

set_option autoImplicit false

namespace Pl0

/-- What is left to read. -/
def File.rest (file : File) : List UInt8 :=
  file.text.drop file.pos

theorem getNextChar_cons {file : File} {c : UInt8} {more : List UInt8}
    (rest : file.rest = c :: more) :
    ∃ next, getNextChar file = (some c, next) ∧ next.text = file.text ∧
      next.pos = file.pos + 1 ∧ next.eof = file.eof ∧ next.rest = more := by
  unfold File.rest at rest
  have inside : file.pos < file.text.length := by
    by_contra outside
    rw [List.drop_eq_nil_of_le (by omega)] at rest
    cases rest
  have split := List.drop_eq_getElem_cons inside
  rw [rest] at split
  injection split with head tail
  refine ⟨{ file with pos := file.pos + 1 }, ?_, rfl, rfl, rfl, tail.symm⟩
  unfold getNextChar
  rw [List.getElem?_eq_getElem inside, head]

theorem getNextChar_nil {file : File} (rest : file.rest = []) :
    getNextChar file = (none, { file with eof := true }) := by
  have outside : file.text.length ≤ file.pos := List.drop_eq_nil_iff.mp rest
  unfold getNextChar
  rw [List.getElem?_eq_none outside]

/-- Reading one character and seeking back leaves it to be read. -/
theorem seekBack_rest {file next : File} {c : UInt8} {more : List UInt8}
    (rest : file.rest = c :: more) (text : next.text = file.text) (pos : next.pos = file.pos + 1) :
    (seekBack next).rest = c :: more := by
  rw [← rest]
  simp only [File.rest, seekBack, text, pos, Nat.add_sub_cancel]

/-- The buffer spells `word`, followed by its terminator. -/
def Holds (buffer : Nat → UInt8) (word : Name) : Prop :=
  ∀ i, i ≤ word.length → buffer i = word.getD i 0

theorem holds_nil {buffer : Nat → UInt8} (zero : buffer 0 = 0) : Holds buffer [] := by
  intro i inside
  have first : i = 0 := Nat.le_zero.mp inside
  rw [first, zero]
  rfl

theorem Holds.push {buffer : Nat → UInt8} {word : Name} (holds : Holds buffer word) (c : UInt8) :
    Holds (Function.update (Function.update buffer word.length c) (word.length + 1) 0)
      (word ++ [c]) := by
  intro i inside
  rw [List.length_append, List.length_singleton] at inside
  rw [List.getD_eq_getElem?_getD]
  rcases Nat.lt_trichotomy i word.length with below | rfl | above
  · rw [Function.update_of_ne (by omega), Function.update_of_ne (by omega), holds i (by omega),
      List.getD_eq_getElem?_getD, List.getElem?_append_left below]
  · rw [Function.update_of_ne (by omega), Function.update_self, List.getElem?_concat_length]
    rfl
  · have last : i = word.length + 1 := by omega
    rw [last, Function.update_self, List.getElem?_eq_none (by simp)]
    rfl

theorem Holds.pop {buffer : Nat → UInt8} {word : Name} {c : UInt8}
    (holds : Holds buffer (word ++ [c])) : Holds (Function.update buffer word.length 0) word := by
  intro i inside
  rcases Nat.lt_or_eq_of_le inside with below | rfl
  · rw [Function.update_of_ne (by omega), holds i (by simp; omega), List.getD_eq_getElem?_getD,
      List.getD_eq_getElem?_getD, List.getElem?_append_left below]
  · rw [Function.update_self, List.getD_eq_getElem?_getD, List.getElem?_eq_none (Nat.le_refl _)]
    rfl

/-- A word without NUL bytes that fits is what `strcmp` and `strcpy` see. -/
theorem Holds.cString {buffer : Nat → UInt8} {word : Name} (holds : Holds buffer word)
    (fits : word.length < maxBufferSize) (printable : ∀ c ∈ word, c ≠ 0) :
    cString buffer = word := by
  have split : (List.range maxBufferSize).map buffer =
      word ++ 0 :: (List.range' (word.length + 1)
        (maxBufferSize - word.length - 1)).map buffer := by
    have ranges : List.range maxBufferSize = List.range word.length ++ word.length ::
        List.range' (word.length + 1) (maxBufferSize - word.length - 1) := by
      rw [List.range_eq_range', List.range_eq_range',
        show maxBufferSize = word.length + (maxBufferSize - word.length - 1 + 1) by omega,
        ← List.range'_append_1, List.range'_succ]
      simp
    rw [ranges, List.map_append, List.map_cons, holds word.length (Nat.le_refl _)]
    congr 1
    · apply List.ext_getElem
      · simp
      · intro i short inside
        rw [List.getElem_map, List.getElem_range, holds i (by omega), List.getD_eq_getElem?_getD,
          List.getElem?_eq_getElem inside]
        rfl
    · rw [List.getD_eq_getElem?_getD, List.getElem?_eq_none (Nat.le_refl _)]
      rfl
  unfold Pl0.cString
  rw [split, List.takeWhile_append_of_pos (by simpa using printable)]
  simp

/-- The machine is in `state` with `word` in its buffer. -/
structure Scanning (dfa : Dfa) (state : DfaQ) (type : Token) (word : Name)
    (table : List LexemeEntry) : Prop where
  runs : dfa.mState = .run
  state : dfa.dfaState = state
  kept : dfa.rewind = false
  type : dfa.curLexeme.type = type
  holds : Holds dfa.curLexeme.buffer word
  index : dfa.curLexeme.indexBuffer = word.length
  quiet : dfa.curLexeme.printable = false
  table : dfa.tokenTable = table

/-- The loop ended with `word` accepted. -/
structure Recognised (dfa : Dfa) (type : Token) (word : Name) (table : List LexemeEntry) :
    Prop where
  state : dfa.dfaState = .accept
  type : dfa.curLexeme.type = type
  holds : Holds dfa.curLexeme.buffer word
  quiet : dfa.curLexeme.printable = false
  table : dfa.tokenTable = table

theorem scanning_reset (dfa : Dfa) :
    Scanning (resetMachine dfa) .start .nulsym [] dfa.tokenTable where
  runs := rfl
  state := rfl
  kept := rfl
  type := rfl
  holds := holds_nil rfl
  index := rfl
  quiet := rfl
  table := rfl

theorem Scanning.pushChar {dfa : Dfa} {state : DfaQ} {type : Token} {word : Name}
    {table : List LexemeEntry} (scanning : Scanning dfa state type word table)
    (fits : word.length + 1 < maxBufferSize) (c : UInt8) :
    ∃ pushed, pushChar dfa c = .ok pushed ∧ Scanning pushed state type (word ++ [c]) table := by
  have index := scanning.index
  refine ⟨setIndex (setBuffer (setBuffer dfa word.length c) (word.length + 1) 0)
    (word.length + 1), ?_, ?_⟩
  · unfold Pl0.pushChar
    rw [index, if_pos fits]
  · refine ⟨scanning.runs, scanning.state, scanning.kept, scanning.type, scanning.holds.push c,
      ?_, scanning.quiet, scanning.table⟩
    rw [List.length_append]
    rfl

/-- From `dfa` the loop ends with `word` accepted and `rest` left to read, whenever
it may take `turns` turns. -/
def Accepts (dfa : Dfa) (file : File) (type : Token) (word : Name) (table : List LexemeEntry)
    (rest : List UInt8) (turns : Nat) : Prop :=
  ∃ dfa' next, Recognised dfa' type word table ∧ next.text = file.text ∧ next.eof = false ∧
    next.rest = rest ∧ ∀ fuel, turns ≤ fuel → lexemeLoop fuel dfa file = .ok (some (dfa', next))

theorem Accepts.mono {dfa : Dfa} {file : File} {type : Token} {word : Name}
    {table : List LexemeEntry} {rest : List UInt8} {turns more : Nat}
    (accepts : Accepts dfa file type word table rest turns) (enough : turns ≤ more) :
    Accepts dfa file type word table rest more := by
  obtain ⟨dfa', next, recognised, text, eof, remaining, looped⟩ := accepts
  exact ⟨dfa', next, recognised, text, eof, remaining, fun fuel le =>
    looped fuel (Nat.le_trans enough le)⟩

/-- A turn that stays in the automaton. -/
theorem accepts_step {dfa pushed : Dfa} {file : File} {c : UInt8} {more rest : List UInt8}
    {type : Token} {word : Name} {table : List LexemeEntry} {turns : Nat}
    (runs : dfa.mState = .run) (read : file.rest = c :: more) (push : pushChar dfa c = .ok pushed)
    (kept : (transition pushed c).rewind = false)
    (then_ : ∀ next : File, next.rest = more →
      Accepts (transition pushed c) next type word table rest turns) :
    Accepts dfa file type word table rest (turns + 1) := by
  obtain ⟨next, got, text, -, -, remaining⟩ := getNextChar_cons read
  obtain ⟨dfa', last, recognised, sameText, eof, left, looped⟩ := then_ next remaining
  refine ⟨dfa', last, recognised, sameText.trans text, eof, left, fun fuel enough => ?_⟩
  obtain ⟨fuel, rfl⟩ : ∃ less, fuel = less + 1 := ⟨fuel - 1, by omega⟩
  rw [lexemeLoop, if_pos runs, got]
  simp only [Except.bind_of_ok push, kept, Bool.false_eq_true, if_false]
  exact looped fuel (Nat.le_of_succ_le_succ enough)

/-- The turn that accepts a lexeme gives the character after it back. -/
theorem accepts_end {dfa pushed accepted : Dfa} {file : File} {c : UInt8} {more : List UInt8}
    {type : Token} {word : Name} {table : List LexemeEntry}
    (runs : dfa.mState = .run) (read : file.rest = c :: more) (push : pushChar dfa c = .ok pushed)
    (ends : transition pushed c = accept accepted)
    (recognised : Recognised (popChar (accept accepted)) type word table) :
    Accepts dfa file type word table (c :: more) 2 := by
  obtain ⟨next, got, text, pos, -, -⟩ := getNextChar_cons read
  refine ⟨_, seekBack next, recognised, text, rfl, seekBack_rest read text pos, ?_⟩
  intro fuel enough
  obtain ⟨fuel, rfl⟩ : ∃ less, fuel = less + 2 := ⟨fuel - 2, by omega⟩
  have halted : (popChar (accept accepted)).mState ≠ .run := by
    intro same
    cases same
  rw [lexemeLoop, if_pos runs, got]
  simp only [Except.bind_of_ok push, ends]
  change lexemeLoop (fuel + 1) (popChar (accept accepted)) (seekBack next) = _
  rw [lexemeLoop, if_neg halted]

theorem popChar_terminates (dfa : Dfa) :
    (popChar dfa).curLexeme.buffer (dfa.curLexeme.indexBuffer - 1) = 0 :=
  Function.update_self (dfa.curLexeme.indexBuffer - 1) 0 dfa.curLexeme.buffer

theorem Scanning.recognised {dfa : Dfa} {state : DfaQ} {type : Token} {word : Name} {c : UInt8}
    {table : List LexemeEntry} (scanning : Scanning dfa state type (word ++ [c]) table) :
    Recognised (popChar (Pl0.accept dfa)) type word table := by
  have index : dfa.curLexeme.indexBuffer - 1 = word.length := by
    rw [scanning.index, List.length_append, List.length_singleton, Nat.add_sub_cancel]
  refine ⟨rfl, scanning.type, ?_, scanning.quiet, scanning.table⟩
  change Holds (Function.update dfa.curLexeme.buffer (dfa.curLexeme.indexBuffer - 1) 0) word
  rw [index]
  exact scanning.holds.pop

theorem Scanning.goto {dfa : Dfa} {state : DfaQ} {type : Token} {word : Name}
    {table : List LexemeEntry} (scanning : Scanning dfa state type word table) (state' : DfaQ) :
    Scanning (goto dfa state') state' type word table :=
  ⟨scanning.runs, rfl, scanning.kept, scanning.type, scanning.holds, scanning.index,
    scanning.quiet, scanning.table⟩

theorem Scanning.setType {dfa : Dfa} {state : DfaQ} {type : Token} {word : Name}
    {table : List LexemeEntry} (scanning : Scanning dfa state type word table) (type' : Token) :
    Scanning (setType dfa type') state type' word table :=
  ⟨scanning.runs, scanning.state, scanning.kept, rfl, scanning.holds, scanning.index,
    scanning.quiet, scanning.table⟩

/-- The character after a lexeme ends it; `type'` is the type it has then. -/
theorem Scanning.ends {dfa : Dfa} {file : File} {state : DfaQ} {type : Token} {word : Name}
    {table : List LexemeEntry} (scanning : Scanning dfa state type word table)
    {c : UInt8} {more : List UInt8} (read : file.rest = c :: more)
    (fits : word.length + 1 < maxBufferSize) (type' : Token)
    (accepts : ∀ pushed : Dfa, pushed.dfaState = state → pushed.curLexeme.type = type →
      transition pushed c = accept (Pl0.setType pushed type')) :
    Accepts dfa file type' word table (c :: more) 2 := by
  obtain ⟨pushed, push, scanned⟩ := scanning.pushChar fits c
  exact accepts_end scanning.runs read push (accepts pushed scanned.state scanned.type)
    (scanned.setType type').recognised

/-- A character inside a lexeme moves the automaton to `state'`. -/
theorem Scanning.moves {dfa : Dfa} {file : File} {state : DfaQ} {type : Token}
    {word full : Name} {table : List LexemeEntry} (scanning : Scanning dfa state type word table)
    {c : UInt8} {more rest : List UInt8} {last : Token} {turns : Nat}
    (read : file.rest = c :: more) (fits : word.length + 1 < maxBufferSize)
    (state' : DfaQ) (type' : Token)
    (taken : ∀ pushed : Dfa, Scanning pushed state type (word ++ [c]) table →
      Scanning (transition pushed c) state' type' (word ++ [c]) table)
    (then_ : ∀ dfa' next, Scanning dfa' state' type' (word ++ [c]) table → next.rest = more →
      Accepts dfa' next last full table rest turns) :
    Accepts dfa file last full table rest (turns + 1) := by
  obtain ⟨pushed, push, scanned⟩ := scanning.pushChar fits c
  have held := taken pushed scanned
  exact accepts_step scanning.runs read push held.kept fun next remaining =>
    then_ _ next held remaining

/-- An identifier or a number: the automaton loops in one state while the
characters are in the class of that state. -/
theorem Scanning.loops {state : DfaQ} {type : Token} {table : List LexemeEntry} {c : UInt8}
    {rest : List UInt8} (limit : Nat) (inClass : UInt8 → Bool) (fits : limit + 1 < maxBufferSize)
    (stays : ∀ (dfa : Dfa) (x : UInt8), dfa.dfaState = state → inClass x = true →
      dfa.curLexeme.indexBuffer ≤ limit → transition dfa x = Pl0.goto dfa state)
    (stops : ∀ dfa : Dfa, dfa.dfaState = state → transition dfa c = accept dfa)
    {dfa : Dfa} {file : File} {word more : Name}
    (scanning : Scanning dfa state type word table) (read : file.rest = more ++ c :: rest)
    (members : ∀ x ∈ more, inClass x = true) (short : word.length + more.length ≤ limit) :
    Accepts dfa file type (word ++ more) table (c :: rest) (more.length + 2) := by
  induction more generalizing dfa file word with
  | nil =>
      rw [List.append_nil]
      refine scanning.ends read (by simp at short; omega) type fun pushed inState ofType => ?_
      have same : Pl0.setType pushed type = pushed := by
        rw [← ofType]
        rfl
      rw [same, stops pushed inState]
  | cons x more ih =>
      rw [List.length_cons] at short
      have shape : word ++ x :: more = word ++ [x] ++ more := by simp
      rw [shape, List.length_cons]
      refine scanning.moves read (by omega) state type (fun pushed scanned => ?_)
        fun dfa' next held remaining => ih held remaining
          (fun y member => members y (List.mem_cons_of_mem _ member)) (by simp; omega)
      have inside : pushed.curLexeme.indexBuffer ≤ limit := by
        rw [scanned.index, List.length_append, List.length_singleton]
        omega
      rw [stays pushed x scanned.state (members x List.mem_cons_self) inside]
      exact scanned.goto state

/-- Inside a comment; `star` tells whether the last character was a star. The
buffer is reset as the comment goes on, so its index stays small. -/
structure InComment (dfa : Dfa) (star : Bool) (table : List LexemeEntry) : Prop where
  runs : dfa.mState = .run
  state : dfa.dfaState = if star then .comm else .lcomm
  kept : dfa.rewind = false
  index : dfa.curLexeme.indexBuffer ≤ if star then 3 else 2
  quiet : dfa.curLexeme.printable = false
  table : dfa.tokenTable = table

/-- What `pushChar` leaves alone. -/
theorem pushChar_comment {dfa : Dfa} {star : Bool} {table : List LexemeEntry}
    (inside : InComment dfa star table) (c : UInt8) :
    ∃ pushed, pushChar dfa c = .ok pushed ∧ pushed.mState = .run ∧
      pushed.dfaState = dfa.dfaState ∧ pushed.rewind = false ∧
      pushed.curLexeme.indexBuffer = dfa.curLexeme.indexBuffer + 1 ∧
      pushed.curLexeme.printable = false ∧ pushed.tokenTable = table := by
  have small := inside.index
  have bound : dfa.curLexeme.indexBuffer + 1 < maxBufferSize := by
    have most : (if star then 3 else 2) ≤ 3 := by split <;> omega
    simp only [maxBufferSize, maxIdentLength]
    omega
  refine ⟨setIndex (setBuffer (setBuffer dfa dfa.curLexeme.indexBuffer c)
    (dfa.curLexeme.indexBuffer + 1) 0) (dfa.curLexeme.indexBuffer + 1), ?_, ?_⟩
  · unfold pushChar
    rw [if_pos bound]
  · exact ⟨inside.runs, rfl, inside.kept, rfl, inside.quiet, inside.table⟩

/-- A character that does not close the comment. -/
theorem InComment.moves {dfa : Dfa} {star : Bool} {table : List LexemeEntry}
    (inside : InComment dfa star table) {c : UInt8} (open_ : ¬ (star = true ∧ c = 47)) :
    ∃ pushed, pushChar dfa c = .ok pushed ∧ InComment (transition pushed c) (c = 42) table := by
  obtain ⟨pushed, push, runs, state, kept, index, quiet, sameTable⟩ := pushChar_comment inside c
  have inState := state.trans inside.state
  have small := inside.index
  refine ⟨pushed, push, ?_⟩
  cases star with
  | true =>
      have notSlash : c ≠ 47 := fun slash => open_ ⟨rfl, slash⟩
      simp only [if_true] at inState
      unfold transition
      rw [inState]
      by_cases isStar : c = 42
      · simp only [isStar, if_true]
        exact ⟨runs, rfl, kept, Nat.zero_le _, quiet, sameTable⟩
      · simp only [isStar, notSlash, if_false, decide_false]
        exact ⟨runs, rfl, kept, Nat.zero_le _, quiet, sameTable⟩
  | false =>
      simp only [Bool.false_eq_true, if_false] at inState small
      unfold transition
      rw [inState]
      by_cases isStar : c = 42
      · simp only [isStar, if_true, decide_true]
        refine ⟨runs, rfl, kept, ?_, quiet, sameTable⟩
        change pushed.curLexeme.indexBuffer ≤ 3
        omega
      · simp only [isStar, if_false, decide_false]
        exact ⟨runs, rfl, kept, Nat.zero_le _, quiet, sameTable⟩

theorem InComment.continues {dfa : Dfa} {star : Bool} {table : List LexemeEntry} {file : File}
    (inside : InComment dfa star table) {c : UInt8} {more rest : List UInt8} {type : Token}
    {word : Name} {turns : Nat} (read : file.rest = c :: more)
    (open_ : ¬ (star = true ∧ c = 47))
    (then_ : ∀ dfa' next, InComment dfa' (c = 42) table → next.rest = more →
      Accepts dfa' next type word table rest turns) :
    Accepts dfa file type word table rest (turns + 1) := by
  obtain ⟨pushed, push, moved⟩ := inside.moves open_
  exact accepts_step inside.runs read push moved.kept fun next remaining =>
    then_ _ next moved remaining

/-- The machine behind the slash that closes a comment. -/
structure ClosedComment (dfa : Dfa) (table : List LexemeEntry) : Prop where
  runs : dfa.mState = .run
  state : dfa.dfaState = .rcomm
  kept : dfa.rewind = false
  index : dfa.curLexeme.indexBuffer = 0
  quiet : dfa.curLexeme.printable = false
  table : dfa.tokenTable = table

/-- The slash after a star closes the comment. -/
theorem InComment.slash {dfa : Dfa} {table : List LexemeEntry} (inside : InComment dfa true table) :
    ∃ pushed, pushChar dfa 47 = .ok pushed ∧ ClosedComment (transition pushed 47) table := by
  obtain ⟨pushed, push, runs, state, kept, index, quiet, sameTable⟩ := pushChar_comment inside 47
  have inState : pushed.dfaState = .comm := state.trans inside.state
  have moved : transition pushed 47 = goto (setIndex pushed 0) .rcomm := by
    unfold transition
    rw [inState]
    rfl
  refine ⟨pushed, push, ?_⟩
  rw [moved]
  exact ⟨runs, rfl, kept, rfl, quiet, sameTable⟩

/-- The character behind a closed comment ends it. -/
theorem ClosedComment.ends {dfa : Dfa} {table : List LexemeEntry} (closed : ClosedComment dfa table)
    (c : UInt8) : ∃ pushed accepted, pushChar dfa c = .ok pushed ∧
      transition pushed c = accept accepted ∧
        Recognised (popChar (accept accepted)) .commentsym [] table := by
  have index := closed.index
  have inState := closed.state
  have last : pushChar dfa c = .ok (setIndex (setBuffer (setBuffer dfa 0 c) 1 0) 1) := by
    unfold pushChar
    rw [index]
    rfl
  refine ⟨_, setBuffer (setType (setIndex (setBuffer (setBuffer dfa 0 c) 1 0) 1) .commentsym) 0 0,
    last, ?_, rfl, rfl, holds_nil ?_, closed.quiet, closed.table⟩
  · unfold transition
    rw [show (setIndex (setBuffer (setBuffer dfa 0 c) 1 0) 1).dfaState = .rcomm from inState]
  · exact popChar_terminates _

/-- The slash after a star closes the comment; the character after it is given back. -/
theorem InComment.closes {dfa : Dfa} {table : List LexemeEntry} {file : File}
    (inside : InComment dfa true table) {c : UInt8} {rest : List UInt8}
    (read : file.rest = 47 :: c :: rest) : Accepts dfa file .commentsym [] table (c :: rest) 3 := by
  obtain ⟨pushed, push, closed⟩ := inside.slash
  refine accepts_step inside.runs read push closed.kept fun next remaining => ?_
  obtain ⟨pushed', accepted, push', ends, recognised⟩ := closed.ends c
  exact accepts_end closed.runs remaining push' ends recognised

/-- The rest of a comment up to the first star and slash that close it. -/
theorem InComment.runs_to_end {table : List LexemeEntry} {c : UInt8} {rest : List UInt8}
    {body : List UInt8} {dfa : Dfa} {file : File} {star : Bool}
    (inside : InComment dfa star table) (read : file.rest = body ++ 42 :: 47 :: c :: rest)
    (open_ : ¬ [42, 47] <:+: (if star then [42] else []) ++ (body ++ [42])) :
    Accepts dfa file .commentsym [] table (c :: rest) (body.length + 4) := by
  induction body generalizing dfa file star with
  | nil =>
      refine inside.continues read (by simp) fun dfa' next held remaining => ?_
      exact held.closes remaining
  | cons x body ih =>
      have apart : ¬ (star = true ∧ x = 47) := by
        rintro ⟨rfl, rfl⟩
        exact open_ ⟨[], body ++ [42], rfl⟩
      rw [List.length_cons, Nat.add_right_comm]
      refine inside.continues read apart fun dfa' next held remaining => ih held remaining ?_
      intro found
      refine open_ (found.trans ?_)
      by_cases isStar : x = 42
      · rw [if_pos (by simpa using isStar), isStar]
        exact ⟨if star then [42] else [], [], by simp⟩
      · rw [if_neg (by simpa using isStar)]
        exact ⟨(if star then [42] else []) ++ [x], [], by simp⟩

end Pl0
