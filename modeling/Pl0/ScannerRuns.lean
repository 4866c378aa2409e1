import Pl0.Tokenization

set_option autoImplicit false

namespace Pl0

/- The scanner as a fold over its text. The loops of `scanner_run` and `getNextLexeme`
read one character after the other; a character that ends a lexeme is read again. -/

/-- The machine after a lexeme: ready for the next one. -/
def settle (dfa : Dfa) : Dfa :=
  match dfa.dfaState with
  | .accept => resetMachine (finishLexeme dfa)
  | .reject => resetMachine dfa
  | _ => dfa

/-- One turn of the loop of `getNextLexeme`, without the rewinding. -/
def turn (dfa : Dfa) (c : UInt8) : Except Fault Dfa := do
  let pushed ← pushChar dfa c
  return transition pushed c

/-- All turns with one character of the text. -/
def feed (dfa : Dfa) (c : UInt8) : Except Fault Dfa := do
  let moved ← turn dfa c
  if moved.rewind then do
    let moved ← turn (settle (popChar moved)) c
    return settle moved
  else return settle moved

/-- The number of characters that an operator state has read. -/
def DfaQ.width : DfaQ → Nat
  | .leq | .geq | .neq | .becomes => 2
  | _ => 1

/-- The tokens that carry neither a name nor a number. -/
def IsPlainToken (type : Token) : Prop :=
  type ≠ .nulsym ∧ type ≠ .identsym ∧ type ≠ .numbersym

/-- What the buffer holds in each state of a lexeme that is no comment. -/
def InLexeme (state : DfaQ) (type : Token) (word : Name) : Prop :=
  match state with
  | .start => type = .nulsym ∧ word = []
  | .digit => type = .numbersym ∧ IsNumber word ∧ word.length ≤ maxNumberLength
  | .alpha => type = .identsym ∧ IsIdent word ∧ word.length ≤ maxIdentLength
  | .lcomm | .comm | .rcomm | .accept | .reject | .final => False
  | _ => IsPlainToken type ∧ (∀ c ∈ word, c ≠ 0) ∧ word.length = state.width

/-- The machine between two characters. -/
inductive Pending (dfa : Dfa) : Prop
  | lexeme (state : DfaQ) (type : Token) (word : Name)
      (scanning : Scanning dfa state type word dfa.tokenTable) (inside : InLexeme state type word)
  | comment (star : Bool) (inside : InComment dfa star dfa.tokenTable)
  | closed (closed : ClosedComment dfa dfa.tokenTable)

/-- A lexeme that is accepted. -/
def IsLexeme (type : Token) (word : Name) : Prop :=
  (type = .identsym ∧ IsIdent word ∧ word.length ≤ maxIdentLength) ∨
    (type = .numbersym ∧ IsNumber word ∧ word.length ≤ maxNumberLength) ∨
    (IsPlainToken type ∧ (∀ c ∈ word, c ≠ 0) ∧ word.length ≤ 2)

/-- What a turn does to the machine. -/
inductive Turned (table : List LexemeEntry) (moved : Dfa) : Prop
  | stays (pending : Pending moved) (same : moved.tokenTable = table)
  | skips (halted : moved.mState = .halt) (state : moved.dfaState = .accept)
      (kept : moved.rewind = false) (type : moved.curLexeme.type = .nulsym)
      (same : moved.tokenTable = table)
  | rejects (halted : moved.mState = .halt) (state : moved.dfaState = .reject)
      (kept : moved.rewind = false) (same : moved.tokenTable = table)
  | ends (type : Token) (word : Name) (halted : moved.mState = .halt)
      (back : moved.rewind = true)
      (recognised : Recognised (popChar moved) type word table) (lexeme : IsLexeme type word)

theorem Pending.runs {dfa : Dfa} (pending : Pending dfa) : dfa.mState = .run := by
  cases pending with
  | lexeme state type word scanning inside => exact scanning.runs
  | comment star inside => exact inside.runs
  | closed closed => exact closed.runs

theorem Pending.kept {dfa : Dfa} (pending : Pending dfa) : dfa.rewind = false := by
  cases pending with
  | lexeme state type word scanning inside => exact scanning.kept
  | comment star inside => exact inside.kept
  | closed closed => exact closed.kept

theorem pending_reset (dfa : Dfa) : Pending (resetMachine dfa) :=
  .lexeme .start .nulsym [] (scanning_reset dfa) ⟨rfl, rfl⟩

/-- The character behind a lexeme ends it, with its type set to `type'`. -/
theorem turned_ends {pushed : Dfa} {state : DfaQ} {type type' : Token} {word : Name} {c : UInt8}
    {table : List LexemeEntry} (scanning : Scanning pushed state type (word ++ [c]) table)
    (lexeme : IsLexeme type' word) :
    Turned table (accept (setType pushed type')) :=
  .ends type' word rfl rfl (scanning.setType type').recognised lexeme

theorem turned_rejects {pushed : Dfa} {state : DfaQ} {type : Token} {word : Name}
    {table : List LexemeEntry} (scanning : Scanning pushed state type word table) :
    Turned table (reject pushed) :=
  .rejects rfl rfl scanning.kept scanning.table

theorem turned_stays {moved : Dfa} {state : DfaQ} {type : Token} {word : Name}
    {table : List LexemeEntry} (scanning : Scanning moved state type word table)
    (inside : InLexeme state type word) : Turned table moved :=
  .stays (.lexeme state type word (scanning.table.symm ▸ scanning) inside) scanning.table

theorem operatorStart_inside {c : UInt8} {type : Token} {state : DfaQ}
    (starts : operatorStart c = some (type, state)) : InLexeme state type [c] := by
  have chain : ∀ {v : UInt8} {entry : Token × DfaQ} {others : Option (Token × DfaQ)},
      (if c = v then some entry else others) = some (type, state) →
        (c = v ∧ entry = (type, state)) ∨ others = some (type, state) := by
    intro v entry others found
    by_cases same : c = v
    · rw [if_pos same] at found
      exact .inl ⟨same, Option.some.inj found⟩
    · rw [if_neg same] at found
      exact .inr found
  unfold operatorStart at starts
  iterate 13
    obtain ⟨rfl, same⟩ | starts := chain starts
    · cases same
      exact ⟨⟨by decide, by decide, by decide⟩, List.forall_mem_singleton.mpr (by decide), rfl⟩
  cases starts

/-- The first character of a lexeme. -/
theorem turned_start {pushed : Dfa} {c : UInt8} {table : List LexemeEntry}
    (scanning : Scanning pushed .start .nulsym [c] table) :
    Turned table (transition pushed c) ∧ (transition pushed c).rewind = false := by
  have start := scanning.state
  by_cases blank : isSpace c = true ∨ isCntrl c = true
  · rw [transition_blank start blank]
    exact ⟨.skips rfl rfl rfl rfl scanning.table, rfl⟩
  · rw [not_or, Bool.not_eq_true, Bool.not_eq_true] at blank
    by_cases digit : isDigit c = true
    · rw [transition_digit start digit]
      have next := (scanning.goto .digit).setType .numbersym
      refine ⟨turned_stays next
        ⟨rfl, ⟨List.cons_ne_nil _ _, by simpa using digit⟩, Nat.le_of_ble_eq_true rfl⟩, ?_⟩
      exact next.kept
    · by_cases alpha : isAlpha c = true
      · rw [transition_alpha start alpha]
        have next := (scanning.goto .alpha).setType .identsym
        refine ⟨turned_stays next
          ⟨rfl, ⟨c, [], rfl, alpha, by simp⟩, Nat.le_of_ble_eq_true rfl⟩, ?_⟩
        exact next.kept
      · cases starts : operatorStart c with
        | none =>
            have rejected : transition pushed c = reject pushed := by
              unfold transition
              rw [start]
              simp only [blank, digit, alpha, starts, Bool.or_self, Bool.false_eq_true, if_false]
            rw [rejected]
            exact ⟨turned_rejects scanning, scanning.kept⟩
        | some pair =>
            obtain ⟨type, state⟩ := pair
            have moved : transition pushed c = goto (setType pushed type) state := by
              unfold transition
              rw [start]
              simp only [blank, digit, alpha, starts, Bool.or_self, Bool.false_eq_true, if_false]
            have next := (scanning.setType type).goto state
            rw [moved]
            exact ⟨turned_stays next (operatorStart_inside starts), next.kept⟩

theorem turned_ends_same {pushed : Dfa} {state : DfaQ} {type : Token} {word : Name} {c : UInt8}
    {table : List LexemeEntry} (scanning : Scanning pushed state type (word ++ [c]) table)
    (lexeme : IsLexeme type word) : Turned table (accept pushed) :=
  .ends type word rfl rfl scanning.recognised lexeme

theorem IsNumber.push {word : Name} {c : UInt8} (number : IsNumber word)
    (digit : isDigit c = true) :
    IsNumber (word ++ [c]) := by
  refine ⟨by simp, fun d member => ?_⟩
  rcases List.mem_append.mp member with before | last
  · exact number.2 d before
  · rw [List.mem_singleton.mp last]
    exact digit

theorem IsIdent.push {word : Name} {c : UInt8} (ident : IsIdent word) (alnum : isAlnum c = true) :
    IsIdent (word ++ [c]) := by
  obtain ⟨first, more, rfl, alpha, members⟩ := ident
  refine ⟨first, more ++ [c], rfl, alpha, fun d member => ?_⟩
  rcases List.mem_append.mp member with before | last
  · exact members d before
  · rw [List.mem_singleton.mp last]
    exact alnum

theorem turned_digit {pushed : Dfa} {type : Token} {word : Name} {c : UInt8}
    {table : List LexemeEntry} (scanning : Scanning pushed .digit type (word ++ [c]) table)
    (inside : InLexeme .digit type word) : Turned table (transition pushed c) := by
  obtain ⟨isNumber, number, short⟩ := inside
  have index := scanning.index
  rw [List.length_append, List.length_singleton] at index
  unfold transition
  rw [scanning.state]
  dsimp only
  split
  · rename_i digit
    split
    · exact turned_rejects scanning
    · rename_i fits
      refine turned_stays (scanning.goto .digit) ⟨isNumber, number.push digit, ?_⟩
      rw [List.length_append, List.length_singleton]
      omega
  · split
    · exact turned_rejects scanning
    · exact turned_ends_same scanning (.inr (.inl ⟨isNumber, number, short⟩))

theorem turned_alpha {pushed : Dfa} {type : Token} {word : Name} {c : UInt8}
    {table : List LexemeEntry} (scanning : Scanning pushed .alpha type (word ++ [c]) table)
    (inside : InLexeme .alpha type word) : Turned table (transition pushed c) := by
  obtain ⟨isIdent, ident, short⟩ := inside
  have index := scanning.index
  rw [List.length_append, List.length_singleton] at index
  unfold transition
  rw [scanning.state]
  dsimp only
  split
  · rename_i alnum
    split
    · exact turned_rejects scanning
    · rename_i fits
      refine turned_stays (scanning.goto .alpha) ⟨isIdent, ident.push alnum, ?_⟩
      rw [List.length_append, List.length_singleton]
      omega
  · exact turned_ends_same scanning (.inl ⟨isIdent, ident, short⟩)

/-- In an operator state the second character of an operator is read, or the operator
ends. -/
theorem turned_operator {pushed : Dfa} {state : DfaQ} {type : Token} {word : Name} {c : UInt8}
    {table : List LexemeEntry} (scanning : Scanning pushed state type (word ++ [c]) table)
    (plain : IsPlainToken type) (nonzero : ∀ d ∈ word, d ≠ 0) (width : word.length = state.width)
    (operator : state ∉ [.start, .digit, .alpha, .lcomm, .comm, .rcomm, .accept, .reject, .final]) :
    Turned table (transition pushed c) := by
  have short : word.length ≤ 2 := by
    rw [width]
    cases state <;> decide
  have lexeme : IsLexeme type word := .inr (.inr ⟨plain, nonzero, short⟩)
  have ends : Turned table (accept pushed) := turned_ends_same scanning lexeme
  have endsAs : ∀ type', IsPlainToken type' → Turned table (accept (setType pushed type')) :=
    fun type' plain' => turned_ends scanning (.inr (.inr ⟨plain', nonzero, short⟩))
  have grows : ∀ state', word.length = 1 → c ≠ 0 →
      (InLexeme state' type (word ++ [c]) ↔
        IsPlainToken type ∧ (∀ d ∈ word ++ [c], d ≠ 0) ∧ (word ++ [c]).length = state'.width) →
      state'.width = 2 → Turned table (goto pushed state') := by
    intro state' one some_ shape two
    refine turned_stays (scanning.goto state') (shape.mpr ⟨plain, ?_, ?_⟩)
    · intro d member
      rcases List.mem_append.mp member with before | last
      · exact nonzero d before
      · rw [List.mem_singleton.mp last]
        exact some_
    · rw [List.length_append, List.length_singleton, one, two]
  have read := scanning.state
  cases state with
  | plus | minus | mult | eql | lpare | rpape | comma | semi | period =>
      rw [transition_plain rfl read]
      exact ends
  | div =>
      unfold transition
      rw [read]
      dsimp only
      split
      · have index : pushed.curLexeme.indexBuffer = 2 := by
          rw [scanning.index, List.length_append, width]
          rfl
        have opened : InComment (goto pushed .lcomm) false table :=
          ⟨scanning.runs, rfl, scanning.kept, Nat.le_of_eq index, scanning.quiet, scanning.table⟩
        exact .stays (.comment false (opened.table.symm ▸ opened)) opened.table
      · exact ends
  | less =>
      unfold transition
      rw [read]
      dsimp only
      split
      · rename_i equal
        exact grows .leq width (by rw [equal]; decide) Iff.rfl rfl
      · split
        · rename_i greater
          exact grows .neq width (by rw [greater]; decide) Iff.rfl rfl
        · exact ends
  | lare =>
      unfold transition
      rw [read]
      dsimp only
      split
      · rename_i equal
        exact grows .geq width (by rw [equal]; decide) Iff.rfl rfl
      · exact ends
  | colon =>
      unfold transition
      rw [read]
      dsimp only
      split
      · rename_i equal
        exact grows .becomes width (by rw [equal]; decide) Iff.rfl rfl
      · exact turned_rejects scanning
  | leq | geq | neq | becomes =>
      unfold transition
      rw [read]
      exact endsAs _ ⟨by decide, by decide, by decide⟩
  | start | digit | alpha | lcomm | comm | rcomm | accept | reject | final => simp at operator

theorem InLexeme.short {state : DfaQ} {type : Token} {word : Name}
    (inside : InLexeme state type word) :
    word.length ≤ maxIdentLength := by
  cases state with
  | start =>
      rw [inside.2]
      exact Nat.zero_le _
  | digit => exact Nat.le_trans inside.2.2 (by decide)
  | alpha => exact inside.2.2
  | lcomm | comm | rcomm | accept | reject | final => exact inside.elim
  | _ =>
      rw [inside.2.2]
      decide

theorem turned_lexeme {pushed : Dfa} {state : DfaQ} {type : Token} {word : Name} {c : UInt8}
    {table : List LexemeEntry} (scanning : Scanning pushed state type (word ++ [c]) table)
    (inside : InLexeme state type word) :
    Turned table (transition pushed c) ∧
      (state = .start → (transition pushed c).rewind = false) := by
  by_cases start : state = .start
  · subst start
    obtain ⟨rfl, rfl⟩ := inside
    obtain ⟨turned, kept⟩ := turned_start scanning
    exact ⟨turned, fun _ => kept⟩
  · refine ⟨?_, fun here => absurd here start⟩
    cases state with
    | start => exact absurd rfl start
    | digit => exact turned_digit scanning inside
    | alpha => exact turned_alpha scanning inside
    | lcomm | comm | rcomm | accept | reject | final => exact inside.elim
    | _ => exact turned_operator scanning inside.1 inside.2.1 inside.2.2 (by decide)

/-- What a character does to a machine between two characters; one that the machine
reads in its start state is not given back. -/
theorem Pending.turns {dfa : Dfa} (pending : Pending dfa) (c : UInt8) :
    ∃ moved, turn dfa c = .ok moved ∧ Turned dfa.tokenTable moved ∧
      (dfa.dfaState = .start → moved.rewind = false) := by
  cases pending with
  | lexeme state type word scanning inside =>
      have fits : word.length + 1 < maxBufferSize :=
        Nat.succ_lt_succ (Nat.lt_succ_of_le inside.short)
      obtain ⟨pushed, push, scanned⟩ := scanning.pushChar fits c
      obtain ⟨turned, kept⟩ := turned_lexeme scanned inside
      refine ⟨transition pushed c, Except.bind_of_ok push _, turned, fun start => kept ?_⟩
      rw [← scanning.state]
      exact start
  | comment star inside =>
      by_cases open_ : star = true ∧ c = 47
      · obtain ⟨rfl, rfl⟩ := open_
        obtain ⟨pushed, push, closed⟩ := inside.slash
        refine ⟨transition pushed 47, Except.bind_of_ok push _, ?_, fun _ => closed.kept⟩
        exact .stays (.closed (closed.table.symm ▸ closed)) closed.table
      · obtain ⟨pushed, push, moved⟩ := inside.moves open_
        refine ⟨transition pushed c, Except.bind_of_ok push _, ?_, fun _ => moved.kept⟩
        exact .stays (.comment _ (moved.table.symm ▸ moved)) moved.table
  | closed closed =>
      obtain ⟨pushed, accepted, push, ends, recognised⟩ := closed.ends c
      refine ⟨transition pushed c, Except.bind_of_ok push _, ?_, ?_⟩
      · rw [ends]
        exact .ends .commentsym [] rfl rfl recognised
          (.inr (.inr ⟨⟨by decide, by decide, by decide⟩, by simp, by simp⟩))
      · intro start
        rw [closed.state] at start
        cases start

/-- The entry of an accepted lexeme; the reserved word null has none. -/
def entryOf (type : Token) (word : Name) : Option LexemeEntry :=
  if type = .identsym then identEntry word else some ⟨type, word, decide (type = .numbersym)⟩

theorem IsLexeme.fits {type : Token} {word : Name} (lexeme : IsLexeme type word) :
    word.length < maxBufferSize := by
  rcases lexeme with ⟨-, -, short⟩ | ⟨-, -, short⟩ | ⟨-, -, short⟩
  · exact Nat.lt_of_le_of_lt short (by decide)
  · exact Nat.lt_of_le_of_lt short (by decide)
  · exact Nat.lt_of_le_of_lt short (by decide)

/-- The string in the buffer of an accepted lexeme is its word. -/
theorem Recognised.spelled {dfa : Dfa} {type : Token} {word : Name} {table : List LexemeEntry}
    (recognised : Recognised dfa type word table) (lexeme : IsLexeme type word) :
    cString dfa.curLexeme.buffer = word := by
  refine recognised.holds.cString lexeme.fits ?_
  rcases lexeme with ⟨-, ident, -⟩ | ⟨-, number, -⟩ | ⟨-, nonzero, -⟩
  · exact fun c member => isAlnum_ne_zero (ident.alnum c member)
  · exact fun c member => isAlnum_ne_zero (Bool.or_eq_true_iff.mpr (.inr (number.2 c member)))
  · exact nonzero

theorem finishLexeme_entry {dfa : Dfa} {type : Token} {word : Name} {table : List LexemeEntry}
    (recognised : Recognised dfa type word table) (lexeme : IsLexeme type word) :
    (finishLexeme dfa).tokenTable = table ++ (entryOf type word).toList := by
  have spelled := recognised.spelled lexeme
  unfold entryOf
  by_cases isIdent : type = .identsym
  · rw [if_pos isIdent]
    rw [isIdent] at recognised
    exact finishLexeme_ident recognised spelled
  · rw [if_neg isIdent]
    refine finishLexeme_other recognised spelled isIdent ?_
    rcases lexeme with ⟨here, -⟩ | ⟨number, -⟩ | ⟨plain, -⟩
    · exact absurd here isIdent
    · rw [number]
      decide
    · exact plain.1

theorem Pending.running {dfa : Dfa} (pending : Pending dfa) :
    dfa.dfaState ≠ .accept ∧ dfa.dfaState ≠ .reject := by
  cases pending with
  | lexeme state type word scanning inside =>
      rw [scanning.state]
      constructor
      · rintro rfl
        exact inside
      · rintro rfl
        exact inside
  | comment star inside =>
      rw [inside.state]
      cases star <;> decide
  | closed closed =>
      rw [closed.state]
      decide

theorem Pending.settle_eq {dfa : Dfa} (pending : Pending dfa) : settle dfa = dfa := by
  unfold settle
  split
  · rename_i accepted
    exact absurd accepted pending.running.1
  · rename_i rejected
    exact absurd rejected pending.running.2
  · rfl

theorem finishLexeme_skip {dfa : Dfa} (type : dfa.curLexeme.type = .nulsym) :
    finishLexeme dfa = dfa := by
  simp [finishLexeme, type]

/-- The machine behind a turn that gave no character back. -/
theorem Turned.settles {table : List LexemeEntry} {moved : Dfa} (turned : Turned table moved)
    (kept : moved.rewind = false) : Pending (settle moved) ∧ (settle moved).tokenTable = table := by
  cases turned with
  | stays pending same =>
      rw [pending.settle_eq]
      exact ⟨pending, same⟩
  | skips halted state kept type same =>
      unfold settle
      rw [state]
      refine ⟨pending_reset _, ?_⟩
      rw [finishLexeme_skip type]
      exact same
  | rejects halted state kept same =>
      unfold settle
      rw [state]
      exact ⟨pending_reset _, same⟩
  | ends type word halted back recognised lexeme =>
      rw [back] at kept
      cases kept

theorem feed_kept {dfa moved : Dfa} {c : UInt8} (ran : turn dfa c = .ok moved)
    (kept : moved.rewind = false) : feed dfa c = .ok (settle moved) := by
  unfold feed
  rw [Except.bind_of_ok ran, kept]
  rfl

/-- A character that ends a lexeme is the first one of what follows it. -/
theorem feed_back {dfa moved : Dfa} {c : UInt8} (ran : turn dfa c = .ok moved)
    (back : moved.rewind = true) (accepted : (popChar moved).dfaState = .accept) :
    ∃ again, turn (resetMachine (finishLexeme (popChar moved))) c = .ok again ∧
      again.rewind = false ∧ feed dfa c = .ok (settle again) ∧ Pending (settle again) ∧
      (settle again).tokenTable = (finishLexeme (popChar moved)).tokenTable := by
  have settled : settle (popChar moved) = resetMachine (finishLexeme (popChar moved)) := by
    unfold settle
    rw [accepted]
  obtain ⟨again, ranAgain, turned, kept⟩ := (pending_reset (finishLexeme (popChar moved))).turns c
  obtain ⟨next, same⟩ := turned.settles (kept rfl)
  refine ⟨again, ranAgain, kept rfl, ?_, next, same⟩
  unfold feed
  rw [Except.bind_of_ok ran, back, if_pos rfl, settled, Except.bind_of_ok ranAgain]
  rfl

/-- A turn gives its character back exactly when it ends a lexeme. -/
theorem Turned.back {table : List LexemeEntry} {moved : Dfa} (turned : Turned table moved)
    (back : moved.rewind = true) : ∃ type word, moved.mState = .halt ∧
      Recognised (popChar moved) type word table ∧ IsLexeme type word := by
  cases turned with
  | stays pending same =>
      rw [pending.kept] at back
      cases back
  | skips halted state kept type same =>
      rw [kept] at back
      cases back
  | rejects halted state kept same =>
      rw [kept] at back
      cases back
  | ends type word halted _ recognised lexeme => exact ⟨type, word, halted, recognised, lexeme⟩

/-- What a character adds to the lexeme list. -/
theorem Pending.feeds {dfa : Dfa} (pending : Pending dfa) (c : UInt8) :
    ∃ next, feed dfa c = .ok next ∧ Pending next ∧
      (next.tokenTable = dfa.tokenTable ∨ ∃ type word, IsLexeme type word ∧
        next.tokenTable = dfa.tokenTable ++ (entryOf type word).toList) := by
  obtain ⟨moved, ran, turned, -⟩ := pending.turns c
  cases back : moved.rewind with
  | false =>
      obtain ⟨next, same⟩ := turned.settles back
      exact ⟨settle moved, feed_kept ran back, next, .inl same⟩
  | true =>
      obtain ⟨type, word, -, recognised, lexeme⟩ := turned.back back
      obtain ⟨again, -, -, fed, next, same⟩ := feed_back ran back recognised.state
      refine ⟨settle again, fed, next, .inr ⟨type, word, lexeme, ?_⟩⟩
      rw [same]
      exact finishLexeme_entry recognised lexeme

/-- No lexeme begins with the character, and it is not blank. -/
def Invalid (c : UInt8) : Prop :=
  isSpace c = false ∧ isCntrl c = false ∧ isDigit c = false ∧ isAlpha c = false ∧
    operatorStart c = none

/-- The character is a lexical error behind what the machine has read: it begins no lexeme,
it is a letter in a number, it makes a number or a name too long, or it is not the `=`
behind a colon. In a comment nothing is an error. -/
def Spoils (dfa : Dfa) (c : UInt8) : Prop :=
  match dfa.dfaState with
  | .lcomm | .comm => False
  | .colon => c ≠ 61
  | .digit =>
      Invalid c ∨ isAlpha c = true ∨
        (isDigit c = true ∧ maxNumberLength ≤ dfa.curLexeme.indexBuffer)
  | .alpha => Invalid c ∨ (isAlnum c = true ∧ maxIdentLength ≤ dfa.curLexeme.indexBuffer)
  | _ => Invalid c

/-- One of the characters is a lexical error where the machine meets it. -/
def Spoiled (dfa : Dfa) (text : List UInt8) : Prop :=
  ∃ before c after met, text = before ++ c :: after ∧ before.foldlM feed dfa = .ok met ∧
    Spoils met c

theorem spoiled_nil (dfa : Dfa) : ¬ Spoiled dfa [] := by
  rintro ⟨before, c, after, met, whole, -⟩
  simp at whole

theorem spoiled_cons {dfa next : Dfa} {c : UInt8} (more : List UInt8)
    (fed : feed dfa c = .ok next) :
    Spoiled dfa (c :: more) ↔ Spoils dfa c ∨ Spoiled next more := by
  constructor
  · rintro ⟨before, d, after, met, whole, read, spoils⟩
    cases before with
    | nil =>
        obtain ⟨rfl, rfl⟩ := List.cons.inj whole
        cases read
        exact .inl spoils
    | cons first before =>
        obtain ⟨rfl, rfl⟩ := List.cons.inj whole
        rw [List.foldlM_cons, Except.bind_of_ok fed] at read
        exact .inr ⟨before, d, after, met, rfl, read, spoils⟩
  · rintro (spoils | ⟨before, d, after, met, rfl, read, spoils⟩)
    · exact ⟨[], c, more, dfa, rfl, rfl, spoils⟩
    · refine ⟨c :: before, d, after, met, rfl, ?_, spoils⟩
      rw [List.foldlM_cons, Except.bind_of_ok fed]
      exact read

theorem invalid_not_alnum {c : UInt8} (invalid : Invalid c) : ¬ isAlnum c = true := by
  unfold isAlnum
  rw [invalid.2.2.1, invalid.2.2.2.1]
  exact Bool.false_ne_true

theorem invalid_not_operator {c : UInt8} (invalid : Invalid c) : c ≠ 42 ∧ c ≠ 61 ∧ c ≠ 62 := by
  refine ⟨?_, ?_, ?_⟩
  all_goals
    rintro rfl
    cases invalid.2.2.2.2

theorem isAlnum_of_digit {c : UInt8} (digit : isDigit c = true) : isAlnum c = true :=
  Bool.or_eq_true_iff.mpr (.inr digit)

theorem isAlnum_of_alpha {c : UInt8} (alpha : isAlpha c = true) : isAlnum c = true :=
  Bool.or_eq_true_iff.mpr (.inl alpha)

/-- In the start state the invalid characters are rejected. -/
theorem transition_start {dfa : Dfa} {c : UInt8} (start : dfa.dfaState = .start)
    (kept : dfa.rewind = false) :
    (transition dfa c).rewind = false ∧ ((transition dfa c).dfaState = .reject ↔ Invalid c) := by
  unfold transition
  rw [start]
  dsimp only
  split_ifs with blank digit alpha
  · refine ⟨rfl, iff_of_false (by simp [accept]) ?_⟩
    rintro ⟨notSpace, notCntrl, -⟩
    simp [notSpace, notCntrl] at blank
  · exact ⟨kept, iff_of_false (by simp [goto, setType]) fun invalid =>
      invalid_not_alnum invalid (isAlnum_of_digit digit)⟩
  · exact ⟨kept, iff_of_false (by simp [goto, setType]) fun invalid =>
      invalid_not_alnum invalid (isAlnum_of_alpha alpha)⟩
  · rw [Bool.or_eq_true, not_or, Bool.not_eq_true, Bool.not_eq_true] at blank
    rw [Bool.not_eq_true] at digit alpha
    unfold Invalid
    simp only [blank, digit, alpha, true_and]
    cases starts : operatorStart c with
    | none => exact ⟨kept, iff_of_true rfl rfl⟩
    | some pair =>
        obtain ⟨type, next⟩ := pair
        have inside := operatorStart_inside starts
        refine ⟨kept, iff_of_false ?_ (by simp)⟩
        intro rejected
        dsimp only [goto] at rejected
        rw [rejected] at inside
        exact inside

/-- A character either rejects the lexeme that it is taken into, or ends it and is then the
first one of the next. -/
theorem transition_spoils {dfa pushed : Dfa} {c : UInt8} (state : pushed.dfaState = dfa.dfaState)
    (kept : pushed.rewind = false)
    (index : pushed.curLexeme.indexBuffer = dfa.curLexeme.indexBuffer + 1)
    (running : dfa.dfaState ≠ .accept ∧ dfa.dfaState ≠ .reject) :
    ((transition pushed c).rewind = false →
        ((transition pushed c).dfaState = .reject ↔ Spoils dfa c)) ∧
      ((transition pushed c).rewind = true → (Invalid c ↔ Spoils dfa c)) := by
  unfold Spoils
  cases here : dfa.dfaState with
  | accept => exact absurd here running.1
  | reject => exact absurd here running.2
  | start =>
      obtain ⟨stays, rejects⟩ := transition_start (state.trans here) kept
      exact ⟨fun _ => rejects, fun back => absurd (stays.symm.trans back) (by decide)⟩
  | digit =>
      unfold transition
      rw [state, here, index]
      dsimp only
      split_ifs with digit long alpha
      · refine ⟨fun _ => iff_of_true rfl (.inr (.inr ⟨digit, Nat.le_of_lt_succ long⟩)),
          fun back => ?_⟩
        exact absurd (kept.symm.trans back) (by decide)
      · refine ⟨fun _ => iff_of_false (by simp [goto]) ?_, fun back => ?_⟩
        · rintro (invalid | alpha | ⟨-, full⟩)
          · exact invalid_not_alnum invalid (isAlnum_of_digit digit)
          · rw [isAlpha_not_digit alpha] at digit
            cases digit
          · exact long (Nat.lt_succ_of_le full)
        · exact absurd (kept.symm.trans back) (by decide)
      · refine ⟨fun _ => iff_of_true rfl (.inr (.inl alpha)), fun back => ?_⟩
        exact absurd (kept.symm.trans back) (by decide)
      · refine ⟨fun back => (by cases back), fun _ => ⟨.inl, ?_⟩⟩
        rintro (invalid | isAlpha | ⟨isDigit, -⟩)
        · exact invalid
        · exact absurd isAlpha alpha
        · exact absurd isDigit digit
  | alpha =>
      unfold transition
      rw [state, here, index]
      dsimp only
      split_ifs with alnum long
      · refine ⟨fun _ => iff_of_true rfl (.inr ⟨alnum, Nat.le_of_lt_succ long⟩), fun back => ?_⟩
        exact absurd (kept.symm.trans back) (by decide)
      · refine ⟨fun _ => iff_of_false (by simp [goto]) ?_, fun back => ?_⟩
        · rintro (invalid | ⟨-, full⟩)
          · exact invalid_not_alnum invalid alnum
          · exact long (Nat.lt_succ_of_le full)
        · exact absurd (kept.symm.trans back) (by decide)
      · refine ⟨fun back => (by cases back), fun _ => ⟨.inl, ?_⟩⟩
        rintro (invalid | ⟨isAlnum, -⟩)
        · exact invalid
        · exact absurd isAlnum alnum
  | colon =>
      unfold transition
      rw [state, here]
      dsimp only
      split_ifs with equal
      · refine ⟨fun _ => iff_of_false (by simp [goto]) fun other => other equal, fun back => ?_⟩
        exact absurd (kept.symm.trans back) (by decide)
      · refine ⟨fun _ => iff_of_true rfl equal, fun back => ?_⟩
        exact absurd (kept.symm.trans back) (by decide)
  | lcomm | comm =>
      unfold transition
      rw [state, here]
      dsimp only
      split_ifs
      all_goals
        refine ⟨fun _ => iff_of_false (by simp [goto, setIndex]) id, fun back => ?_⟩
        exact absurd (kept.symm.trans back) (by decide)
  | div =>
      unfold transition
      rw [state, here]
      dsimp only
      split_ifs with star
      · exact ⟨fun _ => iff_of_false (by simp [goto]) fun invalid =>
          (invalid_not_operator invalid).1 star, fun back =>
            absurd (kept.symm.trans back) (by decide)⟩
      · exact ⟨fun back => (by cases back), fun _ => Iff.rfl⟩
  | less =>
      unfold transition
      rw [state, here]
      dsimp only
      split_ifs with equal greater
      · exact ⟨fun _ => iff_of_false (by simp [goto]) fun invalid =>
          (invalid_not_operator invalid).2.1 equal,
          fun back => absurd (kept.symm.trans back) (by decide)⟩
      · exact ⟨fun _ => iff_of_false (by simp [goto]) fun invalid =>
          (invalid_not_operator invalid).2.2 greater,
          fun back => absurd (kept.symm.trans back) (by decide)⟩
      · exact ⟨fun back => (by cases back), fun _ => Iff.rfl⟩
  | lare =>
      unfold transition
      rw [state, here]
      dsimp only
      split_ifs with equal
      · exact ⟨fun _ => iff_of_false (by simp [goto]) fun invalid =>
          (invalid_not_operator invalid).2.1 equal,
          fun back => absurd (kept.symm.trans back) (by decide)⟩
      · exact ⟨fun back => (by cases back), fun _ => Iff.rfl⟩
  | _ =>
      unfold transition
      rw [state, here]
      exact ⟨fun back => (by cases back), fun _ => Iff.rfl⟩

/-- The loop of `scanner_run`, with the machine that each call of `getNextLexeme` leaves. -/
def scannerCalls : Nat → List Dfa → Dfa → File → Except Fault (Option (List Dfa × Dfa))
  | 0, calls, dfa, fin => .ok (if fin.eof then some (calls, dfa) else none)
  | fuel + 1, calls, dfa, fin =>
      if fin.eof then .ok (some (calls, dfa))
      else do
        let found ← getNextLexeme (fuel + 1) dfa fin
        match found with
        | none => return none
        | some (_, dfa, fin) => scannerCalls fuel (calls ++ [dfa]) dfa fin

theorem scannerLoop_of_calls {fuel : Nat} : ∀ {calls calls' : List Dfa} {dfa last : Dfa}
    {fin : File}, scannerCalls fuel calls dfa fin = .ok (some (calls', last)) →
      scannerLoop fuel dfa fin = .ok (some last) := by
  induction fuel with
  | zero =>
      intro calls calls' dfa last fin ran
      rw [scannerCalls] at ran
      rw [scannerLoop]
      by_cases atEnd : fin.eof = true
      · rw [if_pos atEnd] at ran ⊢
        cases ran
        rfl
      · rw [if_neg atEnd] at ran
        cases ran
  | succ fuel ih =>
      intro calls calls' dfa last fin ran
      rw [scannerCalls] at ran
      rw [scannerLoop]
      by_cases atEnd : fin.eof = true
      · rw [if_pos atEnd] at ran ⊢
        cases ran
        rfl
      · rw [if_neg atEnd] at ran ⊢
        obtain ⟨found, lexeme, rest⟩ := Except.bind_eq_ok.mp ran
        rw [Except.bind_of_ok lexeme]
        cases found with
        | none => cases rest
        | some triple => exact ih rest

/-- The machine that a call of `getNextLexeme` leaves when its loop ends. -/
def finishCall (dfa : Dfa) : Dfa :=
  if dfa.dfaState = .accept then finishLexeme dfa else dfa

/-- The loop of `scanner_run` from inside a call of `getNextLexeme`. -/
def resume (turns fuel : Nat) (calls : List Dfa) (dfa : Dfa) (file : File) :
    Except Fault (Option (List Dfa × Dfa)) := do
  let scanned ← lexemeLoop turns dfa file
  match scanned with
  | none => return none
  | some (dfa, file) => scannerCalls fuel (calls ++ [finishCall dfa]) (finishCall dfa) file

theorem scannerCalls_resume (fuel : Nat) (calls : List Dfa) (dfa : Dfa) {file : File}
    (open_ : file.eof = false) : scannerCalls (fuel + 1) calls dfa file =
      resume (fuel + 1) fuel calls (resetMachine dfa) file := by
  rw [scannerCalls, open_, if_neg (by decide), resume, getNextLexeme]
  cases lexemeLoop (fuel + 1) (resetMachine dfa) file with
  | error fault => rfl
  | ok scanned =>
      cases scanned with
      | none => rfl
      | some pair =>
          obtain ⟨last, rest⟩ := pair
          unfold finishCall
          by_cases accepted : last.dfaState = .accept
          · simp only [Bind.bind, Except.bind, pure, Except.pure, if_pos accepted]
          · simp only [Bind.bind, Except.bind, pure, Except.pure, if_neg accepted]

theorem resetMachine_finishCall {dfa : Dfa}
    (stopped : dfa.dfaState = .accept ∨ dfa.dfaState = .reject) :
    resetMachine (finishCall dfa) = settle dfa := by
  unfold finishCall settle
  rcases stopped with accepted | rejected
  · rw [if_pos accepted, accepted]
  · rw [if_neg (by rw [rejected]; decide), rejected]

/-- A machine that halted goes on with the next lexeme. -/
theorem resume_halted (turns fuel : Nat) (calls : List Dfa) {dfa : Dfa} {file : File}
    (halted : dfa.mState = .halt) (stopped : dfa.dfaState = .accept ∨ dfa.dfaState = .reject)
    (open_ : file.eof = false) : resume (turns + 1) (fuel + 1) calls dfa file =
      resume (fuel + 1) fuel (calls ++ [finishCall dfa]) (settle dfa) file := by
  have looped : lexemeLoop (turns + 1) dfa file = .ok (some (dfa, file)) := by
    rw [lexemeLoop, if_neg (by rw [halted]; decide)]
  rw [resume, Except.bind_of_ok looped]
  dsimp only
  rw [scannerCalls_resume fuel _ _ open_, resetMachine_finishCall stopped]

/-- Some call of `getNextLexeme` rejected. -/
def Rejects (calls : List Dfa) : Prop :=
  ∃ dfa ∈ calls, dfa.dfaState = .reject

theorem rejects_append {first second : List Dfa} :
    Rejects (first ++ second) ↔ Rejects first ∨ Rejects second := by
  unfold Rejects
  simp only [List.mem_append, or_and_right, exists_or]

theorem rejects_nil : ¬ Rejects [] := by
  rintro ⟨dfa, member, -⟩
  cases member

theorem finishLexeme_state (dfa : Dfa) : (finishLexeme dfa).dfaState = dfa.dfaState := by
  unfold finishLexeme
  rw [updateReservedWords_eq]
  dsimp only
  split_ifs <;> rfl

theorem rejects_finishCall {dfa : Dfa} : Rejects [finishCall dfa] ↔ dfa.dfaState = .reject := by
  unfold Rejects finishCall
  simp only [List.mem_singleton, exists_eq_left]
  split
  · rw [finishLexeme_state]
  · rfl

/-- A turn in which no character is given back. -/
theorem resume_turn {dfa moved : Dfa} {file : File} {c : UInt8} {more : List UInt8}
    {turns fuel : Nat} (enough : Nat) (calls : List Dfa) (runs : dfa.mState = .run)
    (read : file.rest = c :: more) (open_ : file.eof = false) (ran : turn dfa c = .ok moved)
    {table : List LexemeEntry} (turned : Turned table moved) (kept : moved.rewind = false)
    (some_ : 1 ≤ enough) (turnsLeft : enough + 1 ≤ turns) (fuelLeft : enough + 1 ≤ fuel) :
    ∃ (turns' fuel' : Nat) (added : List Dfa) (next : File), resume turns fuel calls dfa file =
        resume turns' fuel' (calls ++ added) (settle moved) next ∧
      (Rejects added ↔ moved.dfaState = .reject) ∧
      next.rest = more ∧ next.eof = false ∧ enough ≤ turns' ∧ enough ≤ fuel' := by
  obtain ⟨next, got, -, -, sameEof, remaining⟩ := getNextChar_cons read
  have stillOpen : next.eof = false := sameEof.trans open_
  obtain ⟨turns, rfl⟩ : ∃ less, turns = less + 1 := ⟨turns - 1, by omega⟩
  obtain ⟨pushed, push, moves⟩ := Except.bind_eq_ok.mp ran
  have same : transition pushed c = moved := Except.pure_eq_ok.mp moves
  have looped : lexemeLoop (turns + 1) dfa file = lexemeLoop turns moved next := by
    rw [lexemeLoop, if_pos runs, got]
    simp only [Except.bind_of_ok push, same, kept, Bool.false_eq_true, if_false]
  have step : resume (turns + 1) fuel calls dfa file = resume turns fuel calls moved next := by
    rw [resume, looped, resume]
  have halts : moved.mState = .halt → moved.dfaState = .accept ∨ moved.dfaState = .reject →
      ∃ (turns' fuel' : Nat) (added : List Dfa) (next' : File), resume turns fuel calls moved next =
        resume turns' fuel' (calls ++ added) (settle moved) next' ∧
      (Rejects added ↔ moved.dfaState = .reject) ∧
      next'.rest = more ∧ next'.eof = false ∧ enough ≤ turns' ∧ enough ≤ fuel' := by
    intro halted stopped
    obtain ⟨turns, rfl⟩ : ∃ less, turns = less + 1 := ⟨turns - 1, by omega⟩
    obtain ⟨fuel, rfl⟩ : ∃ less, fuel = less + 1 := ⟨fuel - 1, by omega⟩
    exact ⟨fuel + 1, fuel, [finishCall moved], next,
      resume_halted turns fuel calls halted stopped stillOpen, rejects_finishCall, remaining,
      stillOpen, by omega, by omega⟩
  rw [step]
  cases turned with
  | stays pending same =>
      rw [pending.settle_eq]
      refine ⟨turns, fuel, [], next, by rw [List.append_nil], ?_, remaining, stillOpen, by omega,
        by omega⟩
      exact iff_of_false rejects_nil pending.running.2
  | skips halted state _ type same => exact halts halted (.inl state)
  | rejects halted state _ same => exact halts halted (.inr state)
  | ends type word halted back recognised lexeme =>
      rw [back] at kept
      cases kept

/-- The turn that ends a lexeme leaves its character to be read. -/
theorem resume_back {dfa moved : Dfa} {file : File} {c : UInt8} {more : List UInt8}
    (turns fuel : Nat) (calls : List Dfa) (runs : dfa.mState = .run) (read : file.rest = c :: more)
    (ran : turn dfa c = .ok moved) (back : moved.rewind = true) (halted : moved.mState = .halt)
    (accepted : moved.dfaState = .accept) :
    ∃ next, resume (turns + 2) (fuel + 1) calls dfa file =
        resume (fuel + 1) fuel (calls ++ [finishCall (popChar moved)])
          (settle (popChar moved)) next ∧
      next.rest = c :: more ∧ next.eof = false := by
  obtain ⟨next, got, text, pos, -, -⟩ := getNextChar_cons read
  obtain ⟨pushed, push, moves⟩ := Except.bind_eq_ok.mp ran
  have same : transition pushed c = moved := Except.pure_eq_ok.mp moves
  have looped : lexemeLoop (turns + 2) dfa file =
      lexemeLoop (turns + 1) (popChar moved) (seekBack next) := by
    rw [lexemeLoop, if_pos runs, got]
    simp only [Except.bind_of_ok push, same, back, if_true]
  refine ⟨seekBack next, ?_, seekBack_rest read text pos, rfl⟩
  have stopped : (popChar moved).mState = .halt := halted
  rw [← resume_halted turns fuel calls stopped (.inl accepted) rfl, resume, looped, resume]

/-- What the next character rejects: a turn that takes it, or the one behind the lexeme
that it ends. -/
theorem Pending.spoils {dfa moved : Dfa} (pending : Pending dfa) {c : UInt8}
    (ran : turn dfa c = .ok moved) :
    (moved.rewind = false → (moved.dfaState = .reject ↔ Spoils dfa c)) ∧
      (moved.rewind = true → (Invalid c ↔ Spoils dfa c)) := by
  obtain ⟨pushed, push, moves⟩ := Except.bind_eq_ok.mp ran
  obtain rfl : transition pushed c = moved := Except.pure_eq_ok.mp moves
  unfold pushChar at push
  dsimp only at push
  split at push
  · obtain rfl := Except.ok.inj push
    exact transition_spoils rfl pending.kept rfl pending.running
  · cases push

/-- The scanner reads its text character by character, and a call rejects exactly at a
lexical error. -/
theorem resume_feeds (text : List UInt8) : ∀ {dfa : Dfa} {file : File} {turns fuel : Nat}
    (calls : List Dfa), Pending dfa → file.rest = text → file.eof = false →
      2 * text.length + 2 ≤ turns → 2 * text.length + 2 ≤ fuel → ∃ last fed added,
        resume turns fuel calls dfa file = .ok (some (calls ++ added, last)) ∧
        text.foldlM feed dfa = .ok fed ∧ Pending fed ∧ last.tokenTable = fed.tokenTable ∧
        (Rejects added ↔ Spoiled dfa text) := by
  induction text with
  | nil =>
      intro dfa file turns fuel calls pending read open_ enoughTurns enoughFuel
      obtain ⟨turns, rfl⟩ : ∃ less, turns = less + 1 := ⟨turns - 1, by omega⟩
      obtain ⟨fuel, rfl⟩ : ∃ less, fuel = less + 1 := ⟨fuel - 1, by omega⟩
      have looped : lexemeLoop (turns + 1) dfa file = .ok
        (some (dfa, { file with eof := true })) := by
        rw [lexemeLoop, if_pos pending.runs, getNextChar_nil read]
      have finished : finishCall dfa = dfa := if_neg pending.running.1
      refine ⟨dfa, dfa, [finishCall dfa], ?_, rfl, pending, rfl, ?_⟩
      · rw [resume, Except.bind_of_ok looped]
        dsimp only
        rw [scannerCalls, if_pos rfl, finished]
      · rw [rejects_finishCall]
        exact iff_of_false pending.running.2 (spoiled_nil dfa)
  | cons c more ih =>
      intro dfa file turns fuel calls pending read open_ enoughTurns enoughFuel
      rw [List.length_cons] at enoughTurns enoughFuel
      obtain ⟨moved, ran, turned, -⟩ := pending.turns c
      cases back : moved.rewind with
      | false =>
          obtain ⟨turns', fuel', added, next, same, rejects, remaining, stillOpen, turnsLeft,
              fuelLeft⟩ :=
            @resume_turn _ _ _ _ _ turns fuel
              (2 * more.length + 2) calls pending.runs read open_ ran
              _ turned back (by omega) (by omega) (by omega)
          have fed := feed_kept ran back
          obtain ⟨last, fedAll, others, resumed, folded, ended, table, later⟩ :=
            ih (calls ++ added) (turned.settles back).1 remaining stillOpen turnsLeft fuelLeft
          refine ⟨last, fedAll, added ++ others, ?_, ?_, ended, table, ?_⟩
          · rw [same, resumed, List.append_assoc]
          · rw [List.foldlM_cons, Except.bind_of_ok fed, folded]
          · rw [rejects_append, spoiled_cons more fed, rejects, (pending.spoils ran).1 back, later]
      | true =>
          obtain ⟨type, word, halted, recognised, lexeme⟩ := turned.back back
          obtain ⟨turns, rfl⟩ : ∃ less, turns = less + 2 := ⟨turns - 2, by omega⟩
          obtain ⟨fuel, rfl⟩ : ∃ less, fuel = less + 1 := ⟨fuel - 1, by omega⟩
          obtain ⟨next, same, remaining, stillOpen⟩ :=
            resume_back turns fuel calls pending.runs read ran back halted recognised.state
          have settled : settle (popChar moved) = resetMachine (finishLexeme (popChar moved)) := by
            unfold settle
            rw [recognised.state]
          have start := pending_reset (finishLexeme (popChar moved))
          obtain ⟨again, ranAgain, kept, fed, pendingAgain, -⟩ :=
            feed_back ran back recognised.state
          obtain ⟨moved', ranMoved, turnedAgain, -⟩ := start.turns c
          have sameTurn := Except.ok.inj (ranAgain.symm.trans ranMoved)
          subst sameTurn
          obtain ⟨turns', fuel', added, last, sameAgain, rejects, left, stillOpen', turnsLeft,
              fuelLeft⟩ :=
            @resume_turn _ _ _ _ _ (fuel + 1) fuel (2 * more.length + 2)
              (calls ++ [finishCall (popChar moved)]) start.runs remaining
              stillOpen ranAgain _ turnedAgain kept (by omega) (by omega) (by omega)
          obtain ⟨final, fedAll, others, resumed, folded, ended, table, later⟩ :=
            ih (calls ++ [finishCall (popChar moved)] ++ added) pendingAgain left stillOpen'
              turnsLeft fuelLeft
          refine ⟨final, fedAll, [finishCall (popChar moved)] ++ added ++ others, ?_, ?_, ended,
            table, ?_⟩
          · rw [same, settled, sameAgain, resumed]
            simp only [List.append_assoc]
          · rw [List.foldlM_cons, Except.bind_of_ok fed, folded]
          · have accepted : ¬ Rejects [finishCall (popChar moved)] := by
              rw [rejects_finishCall, recognised.state]
              decide
            have atStart : Spoils (resetMachine (finishLexeme (popChar moved))) c ↔
              Invalid c := Iff.rfl
            rw [List.append_assoc, rejects_append, rejects_append, or_iff_right accepted,
              spoiled_cons more fed, rejects, (start.spoils ranAgain).1 kept, atStart,
                (pending.spoils ran).2 back, later]

/-- The machine between the last character of the text and the end of the file. -/
def readText (text : List UInt8) : Except Fault Dfa :=
  text.foldlM feed (resetMachine dfaInit)

/-- The lexeme list of a text is what its characters add, one by one. -/
theorem scannerRun_readText (text : List UInt8) {fuel : Nat} (enough : 2 * text.length + 3 ≤ fuel) :
    ∃ dfa, readText text = .ok dfa ∧ Pending dfa ∧
      scannerRun fuel text = .ok (some dfa.tokenTable) := by
  obtain ⟨fuel, rfl⟩ : ∃ less, fuel = less + 1 := ⟨fuel - 1, by omega⟩
  have opened : File.rest { text := text, pos := 0, eof := false } = text := rfl
  obtain ⟨last, fed, calls, ran, read, pending, same, -⟩ :=
    @resume_feeds text _ _ (fuel + 1) fuel [] (pending_reset dfaInit) opened rfl
      (by omega) (by omega)
  refine ⟨fed, read, pending, ?_⟩
  unfold scannerRun
  rw [← scannerCalls_resume fuel [] _ rfl] at ran
  rw [Except.bind_of_ok (scannerLoop_of_calls ran)]
  exact congrArg (fun table => Except.ok (some table)) same

theorem lexemeLoop_succ {result : Dfa × File} : ∀ (fuel : Nat) {dfa : Dfa} {file : File},
    lexemeLoop fuel dfa file = .ok (some result) →
      lexemeLoop (fuel + 1) dfa file = .ok (some result) := by
  intro fuel
  induction fuel with
  | zero =>
      intro dfa file ran
      cases ran
  | succ fuel ih =>
      intro dfa file ran
      rw [lexemeLoop] at ran ⊢
      by_cases runs : dfa.mState = .run
      · rw [if_pos runs] at ran ⊢
        split at ran
        · exact ran
        · obtain ⟨pushed, push, moves⟩ := Except.bind_eq_ok.mp ran
          rw [Except.bind_of_ok push]
          dsimp only at moves ⊢
          split at moves
          · rename_i back
            rw [if_pos back]
            exact ih moves
          · rename_i kept
            rw [if_neg kept]
            exact ih moves
      · rw [if_neg runs] at ran ⊢
        exact ran

theorem scannerLoop_succ {last : Dfa} : ∀ (fuel : Nat) {dfa : Dfa} {file : File},
    scannerLoop fuel dfa file = .ok (some last) →
      scannerLoop (fuel + 1) dfa file = .ok (some last) := by
  intro fuel
  induction fuel with
  | zero =>
      intro dfa file ran
      rw [scannerLoop] at ran
      rw [scannerLoop]
      by_cases atEnd : file.eof = true
      · rw [if_pos atEnd] at ran ⊢
        exact ran
      · rw [if_neg atEnd] at ran
        cases ran
  | succ fuel ih =>
      intro dfa file ran
      rw [scannerLoop] at ran ⊢
      by_cases atEnd : file.eof = true
      · rw [if_pos atEnd] at ran ⊢
        exact ran
      · rw [if_neg atEnd] at ran ⊢
        obtain ⟨found, lexeme, rest⟩ := Except.bind_eq_ok.mp ran
        obtain ⟨scanned, looped, finished⟩ := Except.bind_eq_ok.mp lexeme
        cases scanned with
        | none =>
            cases finished
            cases rest
        | some pair =>
            have same : getNextLexeme (fuel + 2) dfa file = .ok found := by
              unfold getNextLexeme
              rw [Except.bind_of_ok (lexemeLoop_succ (fuel + 1) looped)]
              exact finished
            rw [Except.bind_of_ok same]
            cases found with
            | none => cases rest
            | some triple => exact ih rest

/-- A scan that comes to its end does not need its last turns. -/
theorem scannerRun_more {fuel more : Nat} {text : List UInt8} {tokenTable : List LexemeEntry}
    (scanned : scannerRun fuel text = .ok (some tokenTable)) (enough : fuel ≤ more) :
    scannerRun more text = .ok (some tokenTable) := by
  obtain ⟨extra, rfl⟩ := Nat.exists_eq_add_of_le enough
  obtain ⟨dfa, looped, built⟩ := Except.bind_eq_ok.mp scanned
  cases dfa with
  | none => cases built
  | some last =>
      have later : scannerLoop (fuel + extra) dfaInit { text := text, pos := 0, eof := false } =
          .ok (some last) := by
        clear enough
        induction extra with
        | zero => exact looped
        | succ extra ih => exact scannerLoop_succ (fuel + extra) ih
      unfold scannerRun
      rw [Except.bind_of_ok later]
      exact built

/-- Whatever turns the scan took, its list is that of the characters. -/
theorem readText_of_scannerRun {fuel : Nat} {text : List UInt8} {tokenTable : List LexemeEntry}
    (scanned : scannerRun fuel text = .ok (some tokenTable)) :
    ∃ dfa, readText text = .ok dfa ∧ Pending dfa ∧ tokenTable = dfa.tokenTable := by
  obtain ⟨dfa, read, pending, ran⟩ :=
    @scannerRun_readText text (fuel + (2 * text.length + 3)) (Nat.le_add_left _ _)
  refine ⟨dfa, read, pending, ?_⟩
  rw [scannerRun_more scanned (Nat.le_add_right _ _)] at ran
  exact Option.some.inj (Except.ok.inj ran)

/-- The machines that the calls of `getNextLexeme` leave while the text is scanned. -/
def textCalls (fuel : Nat) (text : List UInt8) : Except Fault (Option (List Dfa)) := do
  let ran ← scannerCalls fuel [] dfaInit { text := text, pos := 0, eof := false }
  return ran.map Prod.fst

/-- A call rejects exactly in front of a lexical error. -/
theorem textCalls_rejects (text : List UInt8) {fuel : Nat} (enough : 2 * text.length + 3 ≤ fuel) :
    ∃ calls, textCalls fuel text = .ok (some calls) ∧
      (Rejects calls ↔ Spoiled (resetMachine dfaInit) text) := by
  obtain ⟨fuel, rfl⟩ : ∃ less, fuel = less + 1 := ⟨fuel - 1, by omega⟩
  have opened : File.rest { text := text, pos := 0, eof := false } = text := rfl
  obtain ⟨last, fed, calls, ran, -, -, -, rejects⟩ :=
    @resume_feeds text _ _ (fuel + 1) fuel [] (pending_reset dfaInit) opened rfl
      (by omega) (by omega)
  rw [← scannerCalls_resume fuel [] _ rfl] at ran
  refine ⟨calls, ?_, rejects⟩
  unfold textCalls
  rw [Except.bind_of_ok ran]
  rfl

end Pl0
