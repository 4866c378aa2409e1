import Pl0.DfaRuns
import Pl0.LexicalGrammar

set_option autoImplicit false

namespace Pl0

theorem updateReservedWords_skip (words : List (Name × Token)) (dfa : Dfa)
    (absent : ∀ word ∈ words, word.1 ≠ cString dfa.curLexeme.buffer) :
    words.foldl (fun dfa word =>
      if word.1 = cString dfa.curLexeme.buffer then setType dfa word.2 else dfa) dfa = dfa := by
  induction words with
  | nil => rfl
  | cons word words ih =>
      rw [List.foldl_cons, if_neg (absent word List.mem_cons_self)]
      exact ih fun other member => absent other (List.mem_cons_of_mem _ member)

/-- The pass over the reserved words is a lookup. -/
theorem updateReservedWords_fold (words : List (Name × Token)) (dfa : Dfa)
    (distinct : (words.map Prod.fst).Pairwise (· ≠ ·)) :
    words.foldl (fun dfa word =>
      if word.1 = cString dfa.curLexeme.buffer then setType dfa word.2 else dfa) dfa =
    setType dfa ((words.lookup (cString dfa.curLexeme.buffer)).getD dfa.curLexeme.type) := by
  induction words with
  | nil => rfl
  | cons word words ih =>
      rw [List.map_cons, List.pairwise_cons] at distinct
      obtain ⟨key, token⟩ := word
      rw [List.foldl_cons, List.lookup_cons]
      by_cases same : key = cString dfa.curLexeme.buffer
      · rw [if_pos same, ← same, beq_self_eq_true]
        refine updateReservedWords_skip words _ fun other member equal => ?_
        have clash := distinct.1 other.1 (List.mem_map_of_mem member)
        exact clash (same.trans equal.symm)
      · have differs : (cString dfa.curLexeme.buffer == key) = false :=
          beq_eq_false_iff_ne.mpr (Ne.symm same)
        rw [if_neg same, differs]
        exact ih distinct.2

theorem resWord_distinct : (resWord.map Prod.fst).Pairwise (· ≠ ·) := by
  decide

theorem updateReservedWords_eq (dfa : Dfa) :
    updateReservedWords dfa =
      setType dfa ((resWord.lookup (cString dfa.curLexeme.buffer)).getD dfa.curLexeme.type) :=
  updateReservedWords_fold resWord dfa resWord_distinct

/-- No reserved word has the type of an identifier or a number. -/
theorem resWord_reserved {word : Name} {token : Token} (found : resWord.lookup word = some token) :
    token ≠ .identsym ∧ token ≠ .numbersym := by
  have reserved : ∀ entry ∈ resWord, entry.2 ≠ .identsym ∧ entry.2 ≠ .numbersym := by decide
  obtain ⟨before, after, whole, -⟩ := List.lookup_eq_some_iff.mp found
  have member : (word, token) ∈ resWord := by
    rw [whole]
    simp
  exact reserved _ member

theorem finishLexeme_ident {dfa : Dfa} {word : Name} {table : List LexemeEntry}
    (recognised : Recognised dfa .identsym word table)
    (spelled : cString dfa.curLexeme.buffer = word) :
    (finishLexeme dfa).tokenTable = table ++ (identEntry word).toList := by
  have isIdent := recognised.type
  have quiet := recognised.quiet
  have sameTable := recognised.table
  unfold finishLexeme identEntry
  simp only [isIdent, if_true, updateReservedWords_eq, spelled]
  cases found : resWord.lookup word with
  | none =>
      simp [setType, putLexeme, spelled, sameTable]
  | some token =>
      obtain ⟨notIdent, notNumber⟩ := resWord_reserved found
      by_cases null : token = .nulsym
      · simp [setType, null, sameTable]
      · simp [setType, putLexeme, notIdent, notNumber, null, spelled, quiet, sameTable]

theorem finishLexeme_other {dfa : Dfa} {type : Token} {word : Name} {table : List LexemeEntry}
    (recognised : Recognised dfa type word table) (spelled : cString dfa.curLexeme.buffer = word)
    (notIdent : type ≠ .identsym) (notNull : type ≠ .nulsym) :
    (finishLexeme dfa).tokenTable = table ++ [⟨type, word, decide (type = .numbersym)⟩] := by
  have ofType := recognised.type
  have quiet := recognised.quiet
  have sameTable := recognised.table
  unfold finishLexeme
  by_cases number : type = .numbersym
  · simp [ofType, number, putLexeme, spelled, sameTable]
  · simp [ofType, notIdent, notNull, number, putLexeme, spelled, quiet, sameTable]

/-- One call of `getNextLexeme` that reads the word of `entry` and stops before `rest`. -/
def Reads (dfa : Dfa) (file : File) (entry : Option LexemeEntry) (rest : List UInt8)
    (turns : Nat) : Prop :=
  ∃ dfa' next, dfa'.tokenTable = dfa.tokenTable ++ entry.toList ∧ next.eof = false ∧
    next.rest = rest ∧ ∀ fuel, turns ≤ fuel →
      getNextLexeme fuel dfa file = .ok (some (true, dfa', next))

theorem Accepts.reads {dfa : Dfa} {file : File} {type : Token} {word : Name} {rest : List UInt8}
    {turns : Nat} {entry : Option LexemeEntry}
    (accepts : Accepts (resetMachine dfa) file type word dfa.tokenTable rest turns)
    (finished : ∀ accepted, Recognised accepted type word dfa.tokenTable →
      (finishLexeme accepted).tokenTable = dfa.tokenTable ++ entry.toList) :
    Reads dfa file entry rest turns := by
  obtain ⟨accepted, next, recognised, -, eof, remaining, looped⟩ := accepts
  refine ⟨finishLexeme accepted, next, finished accepted recognised, eof, remaining, ?_⟩
  intro fuel enough
  unfold getNextLexeme
  rw [Except.bind_of_ok (looped fuel enough)]
  change (if accepted.dfaState = .accept then _ else _) = _
  rw [if_pos recognised.state]
  rfl

theorem transition_blank {dfa : Dfa} {c : UInt8} (start : dfa.dfaState = .start)
    (blank : isSpace c = true ∨ isCntrl c = true) :
    transition dfa c = { accept (setType dfa .nulsym) with rewind := false } := by
  unfold transition
  rw [start]
  exact if_pos (Bool.or_eq_true_iff.mpr blank)

theorem transition_digit {dfa : Dfa} {c : UInt8} (start : dfa.dfaState = .start)
    (digit : isDigit c = true) : transition dfa c = setType (goto dfa .digit) .numbersym := by
  obtain ⟨notSpace, notCntrl⟩ := isDigit_not_blank digit
  unfold transition
  rw [start]
  simp only [notSpace, notCntrl, digit, Bool.or_self, Bool.false_eq_true, if_false, if_true]

theorem transition_alpha {dfa : Dfa} {c : UInt8} (start : dfa.dfaState = .start)
    (alpha : isAlpha c = true) : transition dfa c = setType (goto dfa .alpha) .identsym := by
  obtain ⟨notSpace, notCntrl⟩ := isAlpha_not_blank alpha
  unfold transition
  rw [start]
  simp only [notSpace, notCntrl, isAlpha_not_digit alpha, alpha, Bool.or_self, Bool.false_eq_true,
    if_false, if_true]

theorem reads_blank {dfa : Dfa} {file : File} {c : UInt8} {rest : List UInt8}
    (read : file.rest = c :: rest) (eof : file.eof = false)
    (blank : isSpace c = true ∨ isCntrl c = true) : Reads dfa file none rest 2 := by
  obtain ⟨next, got, -, -, sameEof, remaining⟩ := getNextChar_cons read
  obtain ⟨pushed, push, scanned⟩ := (scanning_reset dfa).pushChar (by decide) c
  have moved := transition_blank scanned.state blank
  refine ⟨transition pushed c, next, ?_, sameEof.trans eof, remaining, ?_⟩
  · rw [moved]
    exact (scanned.table).trans (List.append_nil _).symm
  · intro fuel enough
    obtain ⟨fuel, rfl⟩ : ∃ less, fuel = less + 2 := ⟨fuel - 2, by omega⟩
    have looped : lexemeLoop (fuel + 2) (resetMachine dfa) file =
        .ok (some (transition pushed c, next)) := by
      have running : (resetMachine dfa).mState = .run := rfl
      rw [lexemeLoop, if_pos running, got]
      simp only [Except.bind_of_ok push]
      rw [moved]
      rfl
    unfold getNextLexeme
    rw [Except.bind_of_ok looped, moved]
    rfl

theorem reads_ident {dfa : Dfa} {file : File} {word rest : List UInt8} {c : UInt8}
    (ident : IsIdent word) (read : file.rest = word ++ c :: rest)
    (short : word.length ≤ maxIdentLength) (stop : isAlnum c = false) :
    Reads dfa file (identEntry word) (c :: rest) (word.length + 2) := by
  have fits : word.length < maxBufferSize := Nat.lt_of_le_of_lt short (by decide)
  have nonzero : ∀ c ∈ word, c ≠ 0 := fun c member => isAlnum_ne_zero (ident.alnum c member)
  obtain ⟨first, more, rfl, alpha, members⟩ := ident
  refine Accepts.reads ?_ fun accepted recognised =>
    finishLexeme_ident recognised (recognised.holds.cString fits nonzero)
  refine (scanning_reset dfa).moves read (by decide) .alpha .identsym ?_ ?_
  · intro pushed scanned
    rw [transition_alpha scanned.state alpha]
    exact (scanned.goto .alpha).setType .identsym
  · intro dfa' next scanned remaining
    refine scanned.loops maxIdentLength isAlnum (by decide) ?_ ?_ remaining
      members (by simpa [Nat.add_comm] using short)
    · intro d x inState alnum below
      unfold transition
      rw [inState]
      simp only [alnum, if_true, gt_iff_lt, Nat.not_lt.mpr below, if_false]
    · intro d inState
      unfold transition
      rw [inState]
      simp only [stop, Bool.false_eq_true, if_false]

theorem reads_number {dfa : Dfa} {file : File} {word rest : List UInt8} {c : UInt8}
    (number : IsNumber word) (read : file.rest = word ++ c :: rest)
    (short : word.length ≤ maxNumberLength) (notDigit : isDigit c = false)
    (notAlpha : isAlpha c = false) :
    Reads dfa file (some ⟨.numbersym, word, true⟩) (c :: rest) (word.length + 2) := by
  have fits : word.length < maxBufferSize := Nat.lt_of_le_of_lt short (by decide)
  obtain ⟨nonempty, digits⟩ := number
  have nonzero : ∀ c ∈ word, c ≠ 0 := fun c member =>
    isAlnum_ne_zero (Bool.or_eq_true_iff.mpr (Or.inr (digits c member)))
  cases word with
  | nil => exact absurd rfl nonempty
  | cons first more =>
      refine Accepts.reads ?_ fun accepted recognised =>
        finishLexeme_other recognised (recognised.holds.cString fits nonzero)
          (by decide) (by decide)
      refine (scanning_reset dfa).moves read (by decide) .digit .numbersym ?_ ?_
      · intro pushed scanned
        rw [transition_digit scanned.state (digits first List.mem_cons_self)]
        exact (scanned.goto .digit).setType .numbersym
      · intro dfa' next scanned remaining
        refine scanned.loops maxNumberLength isDigit (by decide) ?_ ?_
          remaining (fun x member => digits x (List.mem_cons_of_mem _ member))
          (by simpa [Nat.add_comm] using short)
        · intro d x inState digit below
          unfold transition
          rw [inState]
          simp only [digit, if_true, gt_iff_lt, Nat.not_lt.mpr below, if_false]
        · intro d inState
          unfold transition
          rw [inState]
          simp only [notDigit, notAlpha, Bool.false_eq_true, if_false]

/-- What one character at the start of a lexeme leads to. -/
theorem Scanning.operatorStart {dfa : Dfa} {word : Name} {table : List LexemeEntry} {c : UInt8}
    {type type' : Token} {state : DfaQ} (scanning : Scanning dfa .start type word table)
    (starts : operatorStart c = some (type', state))
    (plain : isSpace c = false ∧ isCntrl c = false ∧ isDigit c = false ∧ isAlpha c = false) :
    Scanning (transition dfa c) state type' word table := by
  obtain ⟨notSpace, notCntrl, notDigit, notAlpha⟩ := plain
  have moved : transition dfa c = Pl0.goto (Pl0.setType dfa type') state := by
    unfold transition
    rw [scanning.state]
    simp only [notSpace, notCntrl, notDigit, notAlpha, starts, Bool.or_self, Bool.false_eq_true,
      if_false]
  rw [moved]
  exact (scanning.setType type').goto state

theorem reads_operator {dfa : Dfa} {file : File} {word rest : List UInt8} {type : Token}
    {turns : Nat} (short : word.length < maxBufferSize) (nonzero : ∀ c ∈ word, c ≠ 0)
    (operator : type ≠ .identsym ∧ type ≠ .nulsym ∧ type ≠ .numbersym)
    (accepts : Accepts (resetMachine dfa) file type word dfa.tokenTable rest turns) :
    Reads dfa file (some ⟨type, word, false⟩) rest turns := by
  obtain ⟨notIdent, notNull, notNumber⟩ := operator
  refine accepts.reads fun accepted recognised => ?_
  rw [finishLexeme_other recognised (recognised.holds.cString short nonzero) notIdent notNull,
    decide_eq_false notNumber]
  rfl

/-- The operators of one character. -/
theorem reads_single {dfa : Dfa} {file : File} {c next : UInt8} {rest : List UInt8} {type : Token}
    {state : DfaQ} (read : file.rest = c :: next :: rest)
    (starts : operatorStart c = some (type, state))
    (plain : isSpace c = false ∧ isCntrl c = false ∧ isDigit c = false ∧ isAlpha c = false)
    (operator : type ≠ .identsym ∧ type ≠ .nulsym ∧ type ≠ .numbersym)
    (stops : ∀ d : Dfa, d.dfaState = state → transition d next = accept d) :
    Reads dfa file (some ⟨type, [c], false⟩) (next :: rest) 3 := by
  have nonzero : ∀ x ∈ [c], x ≠ 0 := by
    intro x member
    rw [List.mem_singleton.mp member]
    rintro rfl
    cases plain.2.1
  refine reads_operator (by simp) nonzero operator ?_
  refine (scanning_reset dfa).moves read (by decide) state type
    (fun pushed scanned => scanned.operatorStart starts plain)
      fun dfa' file' scanned remaining => ?_
  refine scanned.ends remaining (by simp) type fun pushed inState ofType => ?_
  rw [stops pushed inState, ← ofType]
  rfl

/-- The operators of two characters. -/
theorem reads_double {dfa : Dfa} {file : File} {c d next : UInt8} {rest : List UInt8}
    {type type' : Token} {first : DfaQ} (state : DfaQ) (read : file.rest = c :: d :: next :: rest)
    (starts : operatorStart c = some (type, first))
    (plain : isSpace c = false ∧ isCntrl c = false ∧ isDigit c = false ∧ isAlpha c = false)
    (nonzero : c ≠ 0 ∧ d ≠ 0)
    (operator : type' ≠ .identsym ∧ type' ≠ .nulsym ∧ type' ≠ .numbersym)
    (moves : ∀ m : Dfa, m.dfaState = first → transition m d = goto m state)
    (stops : ∀ m : Dfa, m.dfaState = state → transition m next = accept (setType m type')) :
    Reads dfa file (some ⟨type', [c, d], false⟩) (next :: rest) 4 := by
  refine reads_operator (by simp) (by simpa using nonzero) operator ?_
  refine (scanning_reset dfa).moves read (by decide) first type
    (fun pushed scanned => scanned.operatorStart starts plain)
      fun dfa' file' scanned remaining => ?_
  refine scanned.moves remaining (by simp) state type (fun pushed held => ?_)
    fun dfa'' file'' last left => ?_
  · rw [moves pushed held.state]
    exact held.goto state
  · exact last.ends left (by simp) type' fun pushed inState _ => stops pushed inState

theorem transition_inState {dfa : Dfa} {state : DfaQ} (inState : dfa.dfaState = state)
    (c : UInt8) : transition dfa c = transition (goto dfa state) c := by
  rw [← inState]
  rfl

/-- The states in which every character ends the lexeme as it is. -/
def DfaQ.isPlain : DfaQ → Bool
  | .plus | .minus | .mult | .eql | .lpare | .rpape | .comma | .semi | .period => true
  | _ => false

theorem transition_plain {dfa : Dfa} {state : DfaQ} (plain : state.isPlain = true)
    (inState : dfa.dfaState = state) (c : UInt8) : transition dfa c = accept dfa := by
  unfold transition
  rw [inState]
  cases state <;> first | rfl | cases plain

theorem reads_comment {dfa : Dfa} {file : File} {body rest : List UInt8} {c : UInt8}
    (read : file.rest = 47 :: 42 :: (body ++ [42, 47]) ++ c :: rest)
    (closed : ¬ [42, 47] <:+: body ++ [42]) :
    Reads dfa file (some ⟨.commentsym, [], false⟩) (c :: rest) (body.length + 6) := by
  refine reads_operator (by decide) (by simp) (by decide) ?_
  have shape : file.rest = 47 :: 42 :: (body ++ 42 :: 47 :: c :: rest) := by
    rw [read]
    simp
  refine (scanning_reset dfa).moves shape (by decide) .div .slashsym
    (fun pushed scanned => scanned.operatorStart rfl (by decide))
      fun dfa' file' scanned remaining => ?_
  obtain ⟨pushed, push, held⟩ := scanned.pushChar (by decide) 42
  have moved : transition pushed 42 = goto pushed .lcomm := by
    unfold transition
    rw [held.state]
    rfl
  refine accepts_step scanned.runs remaining push
    (by rw [moved]; exact held.kept) fun next left => ?_
  rw [moved]
  have inside : InComment (goto pushed .lcomm) false dfa.tokenTable :=
    ⟨held.runs, rfl, held.kept, Nat.le_of_eq held.index, held.quiet, held.table⟩
  exact inside.runs_to_end left closed

theorem operatorToken_double {c d : UInt8} {token : Token}
    (is : operatorToken [c, d] = some token) : Lexical [c, d] :=
  .operator token is

/-- A word of the lexical language is read as one lexeme. -/
theorem reads_word {dfa : Dfa} {file : File} {word rest : List UInt8} {c : UInt8}
    (longest : LongestMatch.Longest Lexical word (c :: rest)) (notBlank : ¬ IsBlank word)
    (read : file.rest = word ++ c :: rest)
    (identShort : IsIdent word → word.length ≤ maxIdentLength)
    (numberShort : IsNumber word → word.length ≤ maxNumberLength ∧ isAlpha c = false)
    (slash : word = [47] → c ≠ 42) :
    Reads dfa file (lexemeOf word) (c :: rest) (word.length + 2) := by
  have ends := longest.not_extends rfl
  cases longest.accepted with
  | blank is => exact absurd is notBlank
  | comment is =>
      obtain ⟨body, rfl, closed⟩ := is
      have entry : lexemeOf (47 :: 42 :: (body ++ [42, 47])) = some ⟨.commentsym, [], false⟩ := by
        cases body <;> rfl
      rw [entry]
      have turns : (47 :: 42 :: (body ++ [42, 47])).length + 2 = body.length + 6 := by simp
      rw [turns]
      exact reads_comment read closed
  | ident is =>
      have stop : isAlnum c = false := by
        by_contra more
        obtain ⟨first, others, rfl, alpha, members⟩ := is
        refine ends (.ident ⟨first, others ++ [c], rfl, alpha, fun x member => ?_⟩)
        rcases List.mem_append.mp member with inside | last
        · exact members x inside
        · rw [List.mem_singleton.mp last]
          simpa using more
      have entry : lexemeOf word = identEntry word := by
        obtain ⟨first, others, rfl, alpha, -⟩ := is
        unfold lexemeOf
        simp only [alpha, if_true]
      rw [entry]
      exact reads_ident is read (identShort is) stop
  | number is =>
      obtain ⟨short, notAlpha⟩ := numberShort is
      have notDigit : isDigit c = false := by
        by_contra more
        refine ends (.number ⟨by simp, fun x member => ?_⟩)
        rcases List.mem_append.mp member with inside | last
        · exact is.2 x inside
        · rw [List.mem_singleton.mp last]
          simpa using more
      have entry : lexemeOf word = some ⟨.numbersym, word, true⟩ := by
        cases word with
        | nil => exact absurd rfl is.1
        | cons first others =>
            have digit := is.2 first List.mem_cons_self
            have notLetter : isAlpha first = false := by
              by_contra alpha
              rw [isAlpha_not_digit (by simpa using alpha)] at digit
              cases digit
            unfold lexemeOf
            simp only [notLetter, digit, Bool.false_eq_true, if_false, if_true]
      rw [entry]
      exact reads_number is read short notDigit notAlpha
  | operator token is =>
      -- The next character never makes a longer operator.
      have apart : ∀ first, word = [first] → operatorToken [first, c] = none := by
        rintro first rfl
        cases found : operatorToken [first, c] with
        | none => rfl
        | some longer => exact absurd (operatorToken_double found) ends
      unfold operatorToken at is
      split at is
      case h_4 =>
        obtain rfl := Option.some.inj is
        refine reads_single read rfl (by decide) (by decide) fun d inState => ?_
        unfold transition
        rw [inState]
        simp only [slash rfl, if_false]
      case h_6 =>
        obtain rfl := Option.some.inj is
        have notEql : c ≠ 61 := by
          rintro rfl
          cases apart 60 rfl
        have notGtr : c ≠ 62 := by
          rintro rfl
          cases apart 60 rfl
        refine reads_single read rfl (by decide) (by decide) fun d inState => ?_
        unfold transition
        rw [inState]
        simp only [notEql, notGtr, if_false]
      case h_7 =>
        obtain rfl := Option.some.inj is
        have notEql : c ≠ 61 := by
          rintro rfl
          cases apart 62 rfl
        refine reads_single read rfl (by decide) (by decide) fun d inState => ?_
        unfold transition
        rw [inState]
        simp only [notEql, if_false]
      case h_17 => cases is
      all_goals obtain rfl := Option.some.inj is
      case h_13 =>
        exact reads_double .leq read rfl (by decide) (by decide) (by decide)
          (fun m inState => (transition_inState inState 61).trans rfl)
          fun m inState => (transition_inState inState c).trans rfl
      case h_14 =>
        exact reads_double .neq read rfl (by decide) (by decide) (by decide)
          (fun m inState => (transition_inState inState 62).trans rfl)
          fun m inState => (transition_inState inState c).trans rfl
      case h_15 =>
        exact reads_double .geq read rfl (by decide) (by decide) (by decide)
          (fun m inState => (transition_inState inState 61).trans rfl)
          fun m inState => (transition_inState inState c).trans rfl
      case h_16 =>
        exact reads_double .becomes read rfl (by decide) (by decide) (by decide)
          (fun m inState => (transition_inState inState 61).trans rfl)
          fun m inState => (transition_inState inState c).trans rfl
      all_goals
        exact reads_single read rfl (by decide) (by decide) fun d inState =>
          transition_plain rfl inState c

theorem lexemeOf_blank {word : List UInt8} (blank : IsBlank word) : lexemeOf word = none := by
  obtain ⟨c, rfl, class_⟩ := blank
  have notAlpha : isAlpha c = false := by
    by_contra alpha
    have apart := isAlpha_not_blank (by simpa using alpha)
    simp [apart] at class_
  have notDigit : isDigit c = false := by
    by_contra digit
    have apart := isDigit_not_blank (by simpa using digit)
    simp [apart] at class_
  have notSlash : c ≠ 47 := by
    rintro rfl
    exact absurd class_ (by decide)
  have notOperator : operatorToken [c] = none := by
    cases found : operatorToken [c] with
    | none => rfl
    | some token =>
        have apart := operatorToken_printable found c List.mem_cons_self
        simp [apart] at class_
  unfold lexemeOf
  simp only [notAlpha, notDigit, notOperator, notSlash, Bool.false_eq_true, if_false]

theorem scannerLoop_end (fuel : Nat) (dfa : Dfa) {file : File} (open_ : file.eof = false)
    (rest : file.rest = []) :
    ∃ dfa', scannerLoop (fuel + 2) dfa file = .ok (some dfa') ∧
      dfa'.tokenTable = dfa.tokenTable := by
  have looped : lexemeLoop (fuel + 2) (resetMachine dfa) file =
      .ok (some (resetMachine dfa, { file with eof := true })) := by
    have running : (resetMachine dfa).mState = .run := rfl
    rw [lexemeLoop, if_pos running, getNextChar_nil rest]
  have found : getNextLexeme (fuel + 2) dfa file =
      .ok (some (false, resetMachine dfa, { file with eof := true })) := by
    unfold getNextLexeme
    rw [Except.bind_of_ok looped]
    rfl
  refine ⟨resetMachine dfa, ?_, rfl⟩
  rw [scannerLoop, open_, if_neg (by decide), Except.bind_of_ok found]
  rfl

theorem scannerLoop_reads {fuel turns : Nat} {dfa : Dfa} {file : File} {rest : List UInt8}
    {entry : Option LexemeEntry} (open_ : file.eof = false)
    (reads : Reads dfa file entry rest turns)
    (enough : turns ≤ fuel + 1) :
    ∃ dfa' next, dfa'.tokenTable = dfa.tokenTable ++ entry.toList ∧ next.eof = false ∧
      next.rest = rest ∧ scannerLoop (fuel + 1) dfa file = scannerLoop fuel dfa' next := by
  obtain ⟨dfa', next, table, eof, remaining, found⟩ := reads
  refine ⟨dfa', next, table, eof, remaining, ?_⟩
  rw [scannerLoop, open_, if_neg (by decide), Except.bind_of_ok (found (fuel + 1) enough)]

/-- The loop of the scanner follows the maximal-munch tokenization word by word. -/
theorem scannerLoop_tokenizes {text : List UInt8} {words : List (List UInt8)}
    (tokenizes : LongestMatch.Tokenizes Lexical text words) (separated : WellSeparated words)
    (ends : ∀ c ∈ text.getLast?, isSpace c = true) {fuel : Nat} {dfa : Dfa} {file : File}
    (open_ : file.eof = false) (read : file.rest = text) (enough : text.length + 2 ≤ fuel) :
    ∃ dfa', scannerLoop fuel dfa file = .ok (some dfa') ∧
      dfa'.tokenTable = dfa.tokenTable ++ words.filterMap lexemeOf := by
  induction tokenizes generalizing fuel dfa file with
  | nil =>
      obtain ⟨fuel, rfl⟩ : ∃ less, fuel = less + 2 := ⟨fuel - 2, by simp at enough; omega⟩
      obtain ⟨dfa', looped, table⟩ := scannerLoop_end fuel dfa open_ read
      exact ⟨dfa', looped, by simp [table]⟩
  | @cons word rest words longest others ih =>
      obtain ⟨identShort, numberShort, slash, separatedRest⟩ := separated
      have nonempty : 1 ≤ word.length := List.length_pos_iff.mpr longest.nonempty
      rw [List.length_append] at enough
      obtain ⟨fuel, rfl⟩ : ∃ less, fuel = less + 1 := ⟨fuel - 1, by omega⟩
      have endsRest : ∀ c ∈ rest.getLast?, isSpace c = true := by
        intro c last
        refine ends c ?_
        rw [List.getLast?_append, Option.mem_def.mp last]
        rfl
      have reads : ∃ turns, turns ≤ fuel + 1 ∧ Reads dfa file (lexemeOf word) rest turns := by
        by_cases blank : IsBlank word
        · rw [lexemeOf_blank blank]
          obtain ⟨c, rfl, class_⟩ := blank
          exact ⟨2, by simp at enough; omega, reads_blank read open_ class_⟩
        · -- Only a blank can be the last word of the text.
          cases rest with
          | nil =>
              exfalso
              rw [List.append_nil] at ends
              cases last : word.getLast? with
              | none => exact longest.nonempty (List.getLast?_eq_none_iff.mp last)
              | some c =>
                  have notSpace := longest.accepted.last_not_space blank last
                  rw [ends c last] at notSpace
                  cases notSpace
          | cons c rest =>
              have first : words.flatten.head? = some c := by
                rw [others.flatten]
                rfl
              refine ⟨word.length + 2, by simp at enough; omega,
                reads_word longest blank read identShort ?_ ?_⟩
              · intro number
                exact ⟨(numberShort number).1, (numberShort number).2 c first⟩
              · rintro isSlash rfl
                exact slash isSlash first
      obtain ⟨turns, fits, reads⟩ := reads
      obtain ⟨dfa', next, table, eof, remaining, looped⟩ := scannerLoop_reads open_ reads fits
      have enoughRest : rest.length + 2 ≤ fuel := by omega
      obtain ⟨last, finished, lastTable⟩ := ih separatedRest endsRest eof remaining enoughRest
      refine ⟨last, looped.trans finished, ?_⟩
      rw [lastTable, table, List.append_assoc]
      cases entry : lexemeOf word <;> simp [entry]

theorem scannerRun_words {text : List UInt8} {words : List (List UInt8)} {c : UInt8}
    {fuel : Nat} (ends : text.getLast? = some c) (space : isSpace c = true)
    (tokenizes : LongestMatch.Tokenizes Lexical text words) (separated : WellSeparated words)
    (enough : text.length + 2 ≤ fuel) :
    scannerRun fuel text = .ok (some (words.filterMap lexemeOf)) := by
  have endsSpace : ∀ last ∈ text.getLast?, isSpace last = true := by
    intro last isLast
    rw [ends] at isLast
    rw [← Option.some.inj isLast]
    exact space
  have opened : File.rest { text := text, pos := 0, eof := false } = text := rfl
  obtain ⟨dfa, looped, table⟩ :=
    @scannerLoop_tokenizes _ _ tokenizes separated endsSpace fuel dfaInit _ rfl opened enough
  unfold scannerRun
  rw [Except.bind_of_ok looped]
  change Except.ok (some dfa.tokenTable) = _
  rw [table]
  rfl

/-- The lexeme list of a text that ends with white space is its maximal-munch
tokenization. -/
theorem scannerRun_tokenizes {text : List UInt8} {words : List (List UInt8)} {c : UInt8}
    {fuel : Nat} (ends : text.getLast? = some c) (space : isSpace c = true)
    (tokenizes : LongestMatch.Tokenizes Lexical text words) (separated : WellSeparated words)
    (enough : text.length + 2 ≤ fuel) :
    scannerRun fuel text = .ok (some (words.filterMap lexemeOf)) ∧
      ∀ others, LongestMatch.Tokenizes Lexical text others → others = words :=
  ⟨scannerRun_words ends space tokenizes separated enough,
    fun _ tokenizes' => tokenizes'.unique tokenizes⟩

theorem longest_blank {c : UInt8} (blank : isSpace c = true ∨ isCntrl c = true)
    (rest : List UInt8) : LongestMatch.Longest Lexical [c] rest where
  accepted := .blank ⟨c, rfl, blank⟩
  nonempty := List.cons_ne_nil _ _
  longest := by
    intro longer shorter same lexical
    cases longer with
    | nil => simp
    | cons first more =>
        injection same with head _
        subst head
        exact Nat.le_of_eq (congrArg List.length (lexical.blank_first blank))

theorem longest_ident {word : List UInt8} {c : UInt8} (ident : IsIdent word)
    (stop : isAlnum c = false) (rest : List UInt8) :
    LongestMatch.Longest Lexical word (c :: rest) where
  accepted := .ident ident
  nonempty := by
    obtain ⟨first, more, rfl, -⟩ := ident
    exact List.cons_ne_nil _ _
  longest := by
    intro longer shorter same lexical
    by_contra long
    have member : c ∈ longer := by
      have inside : word.length < longer.length := by omega
      have at_ : (longer ++ shorter)[word.length]? = some c := by
        rw [← same]
        simp
      rw [List.getElem?_append_left inside] at at_
      exact List.mem_of_getElem? at_
    obtain ⟨first, more, rfl, alpha, -⟩ := ident
    cases longer with
    | nil => cases member
    | cons head tail =>
        injection same with head_eq _
        subst head_eq
        have alnum := (lexical.alpha_first alpha).alnum c member
        rw [stop] at alnum
        cases alnum

/-- The text `if x1` and a newline. -/
theorem scannerRun_tokenizes_if :
    scannerRun 8 [105, 102, 32, 120, 49, 10] =
      .ok (some [⟨.ifsym, [105, 102], false⟩, ⟨.identsym, [120, 49], true⟩]) := by
  have ident : ∀ first more, isAlpha first = true → more.all isAlnum = true →
      IsIdent (first :: more) := fun first more alpha members =>
    ⟨first, more, rfl, alpha, List.all_eq_true.mp members⟩
  have tokenizes : LongestMatch.Tokenizes Lexical [105, 102, 32, 120, 49, 10]
      [[105, 102], [32], [120, 49], [10]] :=
    .cons (longest_ident (ident 105 [102] rfl rfl) rfl [120, 49, 10])
      (.cons (longest_blank (Or.inl rfl) [120, 49, 10])
        (.cons (longest_ident (ident 120 [49] rfl rfl) rfl [])
          (.cons (longest_blank (Or.inl rfl) []) .nil)))
  have separated : WellSeparated [[105, 102], [32], [120, 49], [10]] := by
    have numberFree : ∀ word : List UInt8, word.any (fun c => !isDigit c) = true →
      ¬ IsNumber word := by
      intro word some_ number
      obtain ⟨c, member, notDigit⟩ := List.any_eq_true.mp some_
      simp [number.2 c member] at notDigit
    have plain : ∀ word words, word.length ≤ maxIdentLength → ¬ IsNumber word → word ≠ [47] →
        WellSeparated words → WellSeparated (word :: words) :=
      fun word words short notNumber notSlash rest =>
        ⟨fun _ => short, fun number => absurd number notNumber, fun slash => absurd slash notSlash,
          rest⟩
    exact plain _ _ (by decide) (numberFree _ (by decide)) (by decide)
      (plain _ _ (by decide) (numberFree _ (by decide)) (by decide)
        (plain _ _ (by decide) (numberFree _ (by decide)) (by decide)
          (plain _ _ (by decide) (numberFree _ (by decide)) (by decide) trivial)))
  exact (scannerRun_tokenizes rfl rfl tokenizes separated (by decide)).1.trans rfl

end Pl0
