import Pl0.ScannerRuns
import Mathlib.Data.List.TakeWhile

set_option autoImplicit false

namespace Pl0

/- Where a text breaks the lexical rules of the language, told by its words alone, and where
the automaton meets it. -/

/-- A word of the lexical language in front of the rest of its text: it does not go on there,
and it is not too long. -/
inductive WordAt : List UInt8 → List UInt8 → Prop
  | blank {c : UInt8} {rest : List UInt8} (is : isSpace c = true ∨ isCntrl c = true) :
      WordAt [c] rest
  | comment {word rest : List UInt8} (is : IsComment word) : WordAt word rest
  | ident {word rest : List UInt8} (is : IsIdent word) (short : word.length ≤ maxIdentLength)
      (ends : ∀ c ∈ rest.head?, isAlnum c = false) : WordAt word rest
  | number {word rest : List UInt8} (is : IsNumber word) (short : word.length ≤ maxNumberLength)
      (ends : ∀ c ∈ rest.head?, isAlnum c = false) : WordAt word rest
  | operator {word rest : List UInt8} {token : Token} (is : operatorToken word = some token)
      (ends : ∀ c ∈ rest.head?, operatorToken (word ++ [c]) = none ∧ ¬ (word = [47] ∧ c = 42)) :
      WordAt word rest

/-- What no lexeme begins with: a character that begins none, a letter in a number, a number or
an identifier that is one character too long, or a colon without its `=`. -/
inductive Malformed : List UInt8 → Prop
  | invalid {c : UInt8} (none : ∀ more, ¬ Lexical (c :: more)) : Malformed [c]
  | letter {digits : List UInt8} {c : UInt8} (number : IsNumber digits)
      (short : digits.length ≤ maxNumberLength) (letter : isAlpha c = true) :
      Malformed (digits ++ [c])
  | longNumber {digits : List UInt8} (number : IsNumber digits)
      (long : digits.length = maxNumberLength + 1) : Malformed digits
  | longIdent {word : List UInt8} (ident : IsIdent word)
      (long : word.length = maxIdentLength + 1) : Malformed word
  | colon {c : UInt8} (other : c ≠ 61) : Malformed [58, c]

/-- Behind some of its words the text goes on with what no lexeme begins with. -/
inductive LexicalError : List UInt8 → Prop
  | here {bad : List UInt8} (malformed : Malformed bad) (rest : List UInt8) :
      LexicalError (bad ++ rest)
  | behind {word rest : List UInt8} (piece : WordAt word rest) (error : LexicalError rest) :
      LexicalError (word ++ rest)

section Turns

variable {dfa moved : Dfa} {c : UInt8}

/-- A character that the machine takes into its lexeme is no error. -/
theorem Pending.grows (pending : Pending dfa) (ran : turn dfa c = .ok moved)
    (taken : Pending moved) (more : List UInt8) :
    Spoiled dfa (c :: more) ↔ Spoiled moved more := by
  rw [spoiled_cons more (feed_kept ran taken.kept), taken.settle_eq,
    ← (pending.spoils ran).1 taken.kept]
  exact or_iff_right taken.running.2

/-- A character that ends the lexeme is read again as the first one of the next. -/
theorem Pending.ends (pending : Pending dfa) (ran : turn dfa c = .ok moved)
    (back : moved.rewind = true) (more : List UInt8) :
    ∃ dfa', Spoiled dfa (c :: more) ↔ Spoiled (resetMachine dfa') (c :: more) := by
  obtain ⟨moved', ran', turned, -⟩ := pending.turns c
  obtain rfl := Except.ok.inj (ran.symm.trans ran')
  obtain ⟨type, word, -, recognised, -⟩ := turned.back back
  obtain ⟨again, ranAgain, kept, fed, -⟩ := feed_back ran back recognised.state
  have start := pending_reset (finishLexeme (popChar moved))
  have atStart : Spoils (resetMachine (finishLexeme (popChar moved))) c ↔ Invalid c := Iff.rfl
  refine ⟨finishLexeme (popChar moved), ?_⟩
  rw [spoiled_cons more fed, spoiled_cons more (feed_kept ranAgain kept),
    ← (pending.spoils ran).2 back, atStart]

/-- The same for the end of the text, where the machine is left with its lexeme. -/
theorem Pending.rests (pending : Pending dfa) {rest : List UInt8}
    (back : ∀ c ∈ rest.head?, ∀ moved, turn dfa c = .ok moved → moved.rewind = true) :
    ∃ dfa', Spoiled dfa rest ↔ Spoiled (resetMachine dfa') rest := by
  cases rest with
  | nil => exact ⟨dfa, iff_of_false (spoiled_nil dfa) (spoiled_nil _)⟩
  | cons c more =>
      obtain ⟨moved, ran, -⟩ := pending.turns c
      exact pending.ends ran (back c rfl moved ran) more

theorem spoiled_here (spoils : Spoils dfa c) (rest : List UInt8) : Spoiled dfa (c :: rest) :=
  ⟨[], c, rest, dfa, rfl, rfl, spoils⟩

end Turns

section Words

variable {dfa : Dfa} {state : DfaQ} {type : Token} {word : Name}

theorem InLexeme.fits (inside : InLexeme state type word) : word.length + 1 < maxBufferSize :=
  Nat.succ_lt_succ (Nat.lt_succ_of_le inside.short)

theorem Scanning.pending (scanning : Scanning dfa state type word dfa.tokenTable)
    (inside : InLexeme state type word) : Pending dfa :=
  .lexeme state type word scanning inside

/-- The next character of a lexeme takes the machine to `state'`. -/
theorem Scanning.grows (scanning : Scanning dfa state type word dfa.tokenTable)
    (inside : InLexeme state type word) {c : UInt8} {state' : DfaQ} {type' : Token}
    (taken : ∀ pushed : Dfa, Scanning pushed state type (word ++ [c]) dfa.tokenTable →
      Scanning (transition pushed c) state' type' (word ++ [c]) dfa.tokenTable)
    (inside' : InLexeme state' type' (word ++ [c])) :
    ∃ next : Dfa, Scanning next state' type' (word ++ [c]) next.tokenTable ∧
      ∀ rest, Spoiled dfa (c :: rest) ↔ Spoiled next rest := by
  obtain ⟨pushed, push, scanned⟩ := scanning.pushChar inside.fits c
  have held := taken pushed scanned
  have next : Scanning (transition pushed c) state' type' (word ++ [c])
      (transition pushed c).tokenTable := held.table.symm ▸ held
  exact ⟨_, next, (scanning.pending inside).grows (Except.bind_of_ok push _)
    (next.pending inside')⟩

/-- The machine is done with the lexeme where no character goes on with it. -/
theorem Scanning.rests (scanning : Scanning dfa state type word dfa.tokenTable)
    (inside : InLexeme state type word) {rest : List UInt8}
    (ends : ∀ c ∈ rest.head?, ∀ pushed : Dfa, pushed.dfaState = state →
      (transition pushed c).rewind = true) :
    ∃ dfa', Spoiled dfa rest ↔ Spoiled (resetMachine dfa') rest := by
  refine (scanning.pending inside).rests fun c first moved ran => ?_
  obtain ⟨pushed, push, scanned⟩ := scanning.pushChar inside.fits c
  rw [turn, Except.bind_of_ok push] at ran
  rw [← Except.ok.inj ran]
  exact ends c first pushed scanned.state

/-- Characters of the class of a state, up to its limit. -/
theorem Scanning.loop (limit : Nat) (inClass : UInt8 → Bool)
    (stays : ∀ (pushed : Dfa) (c : UInt8), pushed.dfaState = state → inClass c = true →
      pushed.curLexeme.indexBuffer ≤ limit → transition pushed c = Pl0.goto pushed state)
    (push : ∀ (w : Name) (c : UInt8), InLexeme state type w → inClass c = true →
      w.length < limit → InLexeme state type (w ++ [c]))
    (scanning : Scanning dfa state type word dfa.tokenTable) (inside : InLexeme state type word)
    {more : Name} (members : ∀ c ∈ more, inClass c = true)
    (short : word.length + more.length ≤ limit) :
    ∃ next : Dfa, Scanning next state type (word ++ more) next.tokenTable ∧
      InLexeme state type (word ++ more) ∧
      ∀ rest, Spoiled dfa (more ++ rest) ↔ Spoiled next rest := by
  induction more generalizing dfa word with
  | nil =>
      rw [List.append_nil]
      exact ⟨dfa, scanning, inside, fun _ => Iff.rfl⟩
  | cons c more ih =>
      rw [List.length_cons] at short
      have first := members c List.mem_cons_self
      have inside' := push word c inside first (by omega)
      obtain ⟨next, held, same⟩ := scanning.grows inside
        (fun pushed scanned => by
          have index : pushed.curLexeme.indexBuffer ≤ limit := by
            rw [scanned.index, List.length_append, List.length_singleton]
            omega
          rw [stays pushed c scanned.state first index]
          exact scanned.goto state) inside'
      obtain ⟨last, ended, whole, rest⟩ := ih held inside'
        (fun d member => members d (List.mem_cons_of_mem _ member)) (by simp; omega)
      rw [List.append_assoc] at ended whole
      exact ⟨last, ended, whole, fun left => (same _).trans (rest left)⟩

end Words

section Runs

variable {word rest : List UInt8}

/-- The machine behind the first character of a lexeme. -/
theorem first_grows (dfa : Dfa) {c : UInt8} {state : DfaQ} {type : Token}
    (taken : ∀ pushed : Dfa, Scanning pushed .start .nulsym [c] dfa.tokenTable →
      Scanning (transition pushed c) state type [c] dfa.tokenTable)
    (inside : InLexeme state type [c]) :
    ∃ next : Dfa, Scanning next state type [c] next.tokenTable ∧
      ∀ rest, Spoiled (resetMachine dfa) (c :: rest) ↔ Spoiled next rest :=
  (scanning_reset dfa).grows ⟨rfl, rfl⟩ taken inside

theorem first_ident {c : UInt8} (alpha : isAlpha c = true) : InLexeme .alpha .identsym [c] :=
  ⟨rfl, ⟨c, [], rfl, alpha, by simp⟩, Nat.le_of_ble_eq_true rfl⟩

theorem ident_runs (ident : IsIdent word) (short : word.length ≤ maxIdentLength) (dfa : Dfa) :
    ∃ next : Dfa, Scanning next .alpha .identsym word next.tokenTable ∧
      InLexeme .alpha .identsym word ∧
      ∀ rest, Spoiled (resetMachine dfa) (word ++ rest) ↔ Spoiled next rest := by
  obtain ⟨c, more, rfl, alpha, members⟩ := ident
  obtain ⟨first, scanning, begins⟩ := first_grows dfa (fun pushed scanned => by
    rw [transition_alpha scanned.state alpha]
    exact (scanned.goto .alpha).setType .identsym) (first_ident alpha)
  have stays : ∀ (pushed : Dfa) (x : UInt8), pushed.dfaState = .alpha → isAlnum x = true →
      pushed.curLexeme.indexBuffer ≤ maxIdentLength → transition pushed x = goto pushed .alpha := by
    intro pushed x state alnum index
    unfold transition
    rw [state]
    dsimp only
    rw [if_pos alnum, if_neg (Nat.not_lt.mpr index)]
  have push : ∀ (w : Name) (x : UInt8), InLexeme .alpha .identsym w → isAlnum x = true →
      w.length < maxIdentLength → InLexeme .alpha .identsym (w ++ [x]) := by
    intro w x inside alnum fits
    refine ⟨rfl, inside.2.1.push alnum, ?_⟩
    rw [List.length_append, List.length_singleton]
    exact fits
  rw [List.length_cons] at short
  obtain ⟨next, held, inside, same⟩ := scanning.loop maxIdentLength isAlnum stays push
    (first_ident alpha) members (by rw [List.length_singleton]; omega)
  exact ⟨next, held, inside, fun left => (begins _).trans (same left)⟩

theorem first_number {c : UInt8} (digit : isDigit c = true) : InLexeme .digit .numbersym [c] :=
  ⟨rfl, ⟨List.cons_ne_nil _ _, by simpa using digit⟩, Nat.le_of_ble_eq_true rfl⟩

theorem number_runs (number : IsNumber word) (short : word.length ≤ maxNumberLength) (dfa : Dfa) :
    ∃ next : Dfa, Scanning next .digit .numbersym word next.tokenTable ∧
      InLexeme .digit .numbersym word ∧
      ∀ rest, Spoiled (resetMachine dfa) (word ++ rest) ↔ Spoiled next rest := by
  obtain ⟨some_, members⟩ := number
  obtain ⟨c, more, rfl⟩ := List.exists_cons_of_ne_nil some_
  have digit := members c List.mem_cons_self
  obtain ⟨first, scanning, begins⟩ := first_grows dfa (fun pushed scanned => by
    rw [transition_digit scanned.state digit]
    exact (scanned.goto .digit).setType .numbersym) (first_number digit)
  have stays : ∀ (pushed : Dfa) (x : UInt8), pushed.dfaState = .digit → isDigit x = true →
      pushed.curLexeme.indexBuffer ≤ maxNumberLength →
        transition pushed x = goto pushed .digit := by
    intro pushed x state digit index
    unfold transition
    rw [state]
    dsimp only
    rw [if_pos digit, if_neg (Nat.not_lt.mpr index)]
  have push : ∀ (w : Name) (x : UInt8), InLexeme .digit .numbersym w → isDigit x = true →
      w.length < maxNumberLength → InLexeme .digit .numbersym (w ++ [x]) := by
    intro w x inside digit fits
    refine ⟨rfl, inside.2.1.push digit, ?_⟩
    rw [List.length_append, List.length_singleton]
    exact fits
  rw [List.length_cons] at short
  obtain ⟨next, held, inside, same⟩ := scanning.loop maxNumberLength isDigit stays push
    (first_number digit) (fun x member => members x (List.mem_cons_of_mem _ member))
    (by rw [List.length_singleton]; omega)
  exact ⟨next, held, inside, fun left => (begins _).trans (same left)⟩

/-- The characters that begin an operator. -/
def operatorChars : List UInt8 :=
  [43, 45, 42, 47, 61, 60, 62, 40, 41, 44, 59, 58, 46]

theorem operatorStart_isSome (c : UInt8) :
    (operatorStart c).isSome = true ↔ c ∈ operatorChars := by
  have chain : ∀ (v : UInt8) (entry : Token × DfaQ) (others : Option (Token × DfaQ)),
      (if c = v then some entry else others).isSome = true ↔ c = v ∨ others.isSome = true := by
    intro v entry others
    by_cases same : c = v
    · rw [if_pos same]
      exact iff_of_true rfl (.inl same)
    · rw [if_neg same]
      exact (or_iff_right same).symm
  unfold operatorStart
  rw [chain, chain, chain, chain, chain, chain, chain, chain, chain, chain, chain, chain, chain]
  simp only [operatorChars, List.mem_cons, List.not_mem_nil, or_false, Option.isSome_none,
    Bool.false_eq_true]

theorem operatorChars_class : ∀ c ∈ operatorChars,
    isSpace c = false ∧ isCntrl c = false ∧ isDigit c = false ∧ isAlpha c = false := by
  decide +kernel

theorem operator_grows {c : UInt8} {state : DfaQ} {type : Token}
    (starts : operatorStart c = some (type, state)) (dfa : Dfa) :
    ∃ next : Dfa, Scanning next state type [c] next.tokenTable ∧ InLexeme state type [c] ∧
      ∀ rest, Spoiled (resetMachine dfa) (c :: rest) ↔ Spoiled next rest := by
  obtain ⟨space, cntrl, digit, alpha⟩ := operatorChars_class c
    ((operatorStart_isSome c).mp (by rw [starts]; rfl))
  have inside := operatorStart_inside starts
  obtain ⟨next, held, same⟩ := first_grows dfa (fun pushed scanned => by
    unfold transition
    rw [scanned.state]
    simp only [space, cntrl, digit, alpha, starts, Bool.or_self, Bool.false_eq_true, if_false]
    exact (scanned.setType type).goto state) inside
  exact ⟨next, held, inside, same⟩

/-- The second character of an operator. -/
theorem operator_grows_twice {c d : UInt8} {state state' : DfaQ} {type : Token}
    (starts : operatorStart c = some (type, state))
    (taken : ∀ pushed : Dfa, pushed.dfaState = state → transition pushed d = goto pushed state')
    (inside : InLexeme state' type [c, d]) (dfa : Dfa) :
    ∃ next : Dfa, Scanning next state' type [c, d] next.tokenTable ∧
      ∀ rest, Spoiled (resetMachine dfa) (c :: d :: rest) ↔ Spoiled next rest := by
  obtain ⟨first, held, begins, same⟩ := operator_grows starts dfa
  obtain ⟨next, held', same'⟩ := held.grows begins (fun pushed scanned => by
    rw [taken pushed scanned.state]
    exact scanned.goto state') inside
  exact ⟨next, held', fun rest => (same _).trans (same' rest)⟩

theorem plain_runs {c : UInt8} {state : DfaQ} {type : Token}
    (starts : operatorStart c = some (type, state)) (dfa : Dfa)
    (ends : ∀ d ∈ rest.head?, ∀ pushed : Dfa, pushed.dfaState = state →
      (transition pushed d).rewind = true) :
    ∃ dfa', Spoiled (resetMachine dfa) ([c] ++ rest) ↔ Spoiled (resetMachine dfa') rest := by
  obtain ⟨next, held, inside, same⟩ := operator_grows starts dfa
  obtain ⟨dfa', done⟩ := held.rests inside ends
  exact ⟨dfa', (same rest).trans done⟩

theorem double_runs {c d : UInt8} {state state' : DfaQ} {type : Token}
    (starts : operatorStart c = some (type, state))
    (taken : ∀ pushed : Dfa, pushed.dfaState = state → transition pushed d = goto pushed state')
    (inside : InLexeme state' type [c, d]) (dfa : Dfa)
    (ends : ∀ x, ∀ pushed : Dfa, pushed.dfaState = state' →
      (transition pushed x).rewind = true) :
    ∃ dfa', Spoiled (resetMachine dfa) ([c, d] ++ rest) ↔ Spoiled (resetMachine dfa') rest := by
  obtain ⟨next, held, same⟩ := operator_grows_twice starts taken inside dfa
  obtain ⟨dfa', done⟩ := held.rests inside fun x _ => ends x
  exact ⟨dfa', (same rest).trans done⟩

theorem rewind_of_plain {state : DfaQ} (plain : state.isPlain = true) {d : UInt8} {pushed : Dfa}
    (inState : pushed.dfaState = state) : (transition pushed d).rewind = true := by
  rw [transition_plain plain inState]
  rfl

theorem operator_runs {token : Token} (is : operatorToken word = some token)
    (ends : ∀ c ∈ rest.head?, operatorToken (word ++ [c]) = none ∧ ¬ (word = [47] ∧ c = 42))
    (dfa : Dfa) :
    ∃ dfa', Spoiled (resetMachine dfa) (word ++ rest) ↔ Spoiled (resetMachine dfa') rest := by
  unfold operatorToken at is
  split at is
  · exact plain_runs (show operatorStart 43 = some (.plussym, .plus) from rfl) dfa
      fun _ _ _ => rewind_of_plain rfl
  · exact plain_runs (show operatorStart 45 = some (.minussym, .minus) from rfl) dfa
      fun _ _ _ => rewind_of_plain rfl
  · exact plain_runs (show operatorStart 42 = some (.multsym, .mult) from rfl) dfa
      fun _ _ _ => rewind_of_plain rfl
  · refine plain_runs (show operatorStart 47 = some (.slashsym, .div) from rfl) dfa
      fun d first pushed state => ?_
    unfold transition
    rw [state]
    dsimp only
    rw [if_neg fun star => (ends d first).2 ⟨rfl, star⟩]
    rfl
  · exact plain_runs (show operatorStart 61 = some (.eqlsym, .eql) from rfl) dfa
      fun _ _ _ => rewind_of_plain rfl
  · refine plain_runs (show operatorStart 60 = some (.lessym, .less) from rfl) dfa
      fun d first pushed state => ?_
    have alone := (ends d first).1
    unfold transition
    rw [state]
    dsimp only
    rw [if_neg (by rintro rfl; cases alone), if_neg (by rintro rfl; cases alone)]
    rfl
  · refine plain_runs (show operatorStart 62 = some (.gtrsym, .lare) from rfl) dfa
      fun d first pushed state => ?_
    have alone := (ends d first).1
    unfold transition
    rw [state]
    dsimp only
    rw [if_neg (by rintro rfl; cases alone)]
    rfl
  · exact plain_runs (show operatorStart 40 = some (.lparentsym, .lpare) from rfl) dfa
      fun _ _ _ => rewind_of_plain rfl
  · exact plain_runs (show operatorStart 41 = some (.rparentsym, .rpape) from rfl) dfa
      fun _ _ _ => rewind_of_plain rfl
  · exact plain_runs (show operatorStart 44 = some (.commasym, .comma) from rfl) dfa
      fun _ _ _ => rewind_of_plain rfl
  · exact plain_runs (show operatorStart 59 = some (.semicolonsym, .semi) from rfl) dfa
      fun _ _ _ => rewind_of_plain rfl
  · exact plain_runs (show operatorStart 46 = some (.periodsym, .period) from rfl) dfa
      fun _ _ _ => rewind_of_plain rfl
  · exact double_runs (show operatorStart 60 = some (.lessym, .less) from rfl)
      (fun pushed state => by unfold transition; rw [state]; rfl)
      (show InLexeme .leq .lessym [60, 61] from
        ⟨⟨by decide, by decide, by decide⟩, by decide +kernel, rfl⟩) dfa
      fun x pushed state => by unfold transition; rw [state]; rfl
  · exact double_runs (show operatorStart 60 = some (.lessym, .less) from rfl)
      (fun pushed state => by unfold transition; rw [state]; rfl)
      (show InLexeme .neq .lessym [60, 62] from
        ⟨⟨by decide, by decide, by decide⟩, by decide +kernel, rfl⟩) dfa
      fun x pushed state => by unfold transition; rw [state]; rfl
  · exact double_runs (show operatorStart 62 = some (.gtrsym, .lare) from rfl)
      (fun pushed state => by unfold transition; rw [state]; rfl)
      (show InLexeme .geq .gtrsym [62, 61] from
        ⟨⟨by decide, by decide, by decide⟩, by decide +kernel, rfl⟩) dfa
      fun x pushed state => by unfold transition; rw [state]; rfl
  · exact double_runs (show operatorStart 58 = some (.becomessym, .colon) from rfl)
      (fun pushed state => by unfold transition; rw [state]; rfl)
      (show InLexeme .becomes .becomessym [58, 61] from
        ⟨⟨by decide, by decide, by decide⟩, by decide +kernel, rfl⟩) dfa
      fun x pushed state => by unfold transition; rw [state]; rfl
  · cases is

theorem InComment.grows {dfa : Dfa} {star : Bool} (inside : InComment dfa star dfa.tokenTable)
    {c : UInt8} (open_ : ¬ (star = true ∧ c = 47)) :
    ∃ next : Dfa, InComment next (c = 42) next.tokenTable ∧
      ∀ rest, Spoiled dfa (c :: rest) ↔ Spoiled next rest := by
  obtain ⟨pushed, push, moved⟩ := inside.moves open_
  have next : InComment (transition pushed c) (c = 42) (transition pushed c).tokenTable :=
    moved.table.symm ▸ moved
  exact ⟨_, next, (Pending.comment star inside).grows (Except.bind_of_ok push _) (.comment _ next)⟩

theorem InComment.ends {dfa : Dfa} (inside : InComment dfa true dfa.tokenTable)
    (rest : List UInt8) :
    ∃ dfa', Spoiled dfa (47 :: rest) ↔ Spoiled (resetMachine dfa') rest := by
  obtain ⟨pushed, push, closed⟩ := inside.slash
  have next : ClosedComment (transition pushed 47) (transition pushed 47).tokenTable :=
    closed.table.symm ▸ closed
  have same := (Pending.comment true inside).grows (Except.bind_of_ok push _) (.closed next) rest
  have back : ∀ c ∈ rest.head?, ∀ moved, turn (transition pushed 47) c = .ok moved →
      moved.rewind = true := by
    intro c _ moved ran
    obtain ⟨pushed', accepted, push', ends, -⟩ := next.ends c
    rw [turn, Except.bind_of_ok push', ends] at ran
    rw [← Except.ok.inj ran]
    rfl
  obtain ⟨dfa', done⟩ := (Pending.closed next).rests back
  exact ⟨dfa', same.trans done⟩

theorem open_tail {star : Bool} {c : UInt8} {tail : List UInt8}
    (open_ : ¬ [42, 47] <:+: (if star then [42] else []) ++ c :: tail) :
    ¬ (star = true ∧ c = 47) ∧
      ¬ [42, 47] <:+: (if decide (c = 42) then [42] else []) ++ tail := by
  constructor
  · rintro ⟨rfl, rfl⟩
    exact open_ ⟨[], tail, rfl⟩
  · intro found
    refine open_ (found.trans ?_)
    by_cases isStar : c = 42
    · rw [if_pos (by simpa using isStar), isStar]
      exact ⟨if star then [42] else [], [], by simp⟩
    · rw [if_neg (by simpa using isStar)]
      exact ⟨(if star then [42] else []) ++ [c], [], by simp⟩

/-- The rest of a comment up to the first star and slash, with what follows it. -/
theorem InComment.closes_runs {dfa : Dfa} {star : Bool}
    (inside : InComment dfa star dfa.tokenTable) {body : List UInt8}
    (open_ : ¬ [42, 47] <:+: (if star then [42] else []) ++ (body ++ [42])) (rest : List UInt8) :
    ∃ dfa', Spoiled dfa (body ++ 42 :: 47 :: rest) ↔ Spoiled (resetMachine dfa') rest := by
  induction body generalizing dfa star with
  | nil =>
      have apart : ¬ (star = true ∧ (42 : UInt8) = 47) := by simp
      obtain ⟨next, held, same⟩ := inside.grows apart
      obtain ⟨dfa', done⟩ := InComment.ends held rest
      exact ⟨dfa', (same _).trans done⟩
  | cons c body ih =>
      obtain ⟨apart, open'⟩ := open_tail open_
      obtain ⟨next, held, same⟩ := inside.grows apart
      obtain ⟨dfa', done⟩ := ih held open'
      exact ⟨dfa', (same _).trans done⟩

/-- Nothing is an error in a comment that is not closed. -/
theorem InComment.unclosed {dfa : Dfa} {star : Bool} (inside : InComment dfa star dfa.tokenTable)
    {body : List UInt8} (open_ : ¬ [42, 47] <:+: (if star then [42] else []) ++ body) :
    ¬ Spoiled dfa body := by
  induction body generalizing dfa star with
  | nil => exact spoiled_nil dfa
  | cons c body ih =>
      obtain ⟨apart, open'⟩ := open_tail open_
      obtain ⟨next, held, same⟩ := inside.grows apart
      rw [same]
      exact ih held open'

theorem comment_opens (dfa : Dfa) : ∃ next : Dfa, InComment next false next.tokenTable ∧
    ∀ rest, Spoiled (resetMachine dfa) (47 :: 42 :: rest) ↔ Spoiled next rest := by
  obtain ⟨first, held, inside, same⟩ :=
    operator_grows (show operatorStart 47 = some (.slashsym, .div) from rfl) dfa
  obtain ⟨pushed, push, scanned⟩ := held.pushChar inside.fits 42
  have moved : transition pushed 42 = goto pushed .lcomm := by
    unfold transition
    rw [scanned.state]
    rfl
  have opened : InComment (goto pushed .lcomm) false (goto pushed .lcomm).tokenTable :=
    ⟨scanned.runs, rfl, scanned.kept, Nat.le_of_eq scanned.index, scanned.quiet, rfl⟩
  refine ⟨_, opened, fun rest => (same _).trans ?_⟩
  refine (held.pending inside).grows ?_ (.comment false opened) rest
  rw [turn, Except.bind_of_ok push, moved]
  rfl

/-- The machine reads a word of the language, and starts again behind it. -/
theorem WordAt.runs (piece : WordAt word rest) (dfa : Dfa) :
    ∃ dfa', Spoiled (resetMachine dfa) (word ++ rest) ↔ Spoiled (resetMachine dfa') rest := by
  cases piece with
  | @blank c _ is =>
      obtain ⟨pushed, push, scanned⟩ := (scanning_reset dfa).pushChar (by decide) c
      have ran : turn (resetMachine dfa) c =
          .ok { accept (setType pushed .nulsym) with rewind := false } := by
        rw [turn, Except.bind_of_ok push, transition_blank scanned.state is]
        rfl
      have spoils := ((pending_reset dfa).spoils ran).1 rfl
      refine ⟨finishLexeme { accept (setType pushed .nulsym) with rewind := false }, ?_⟩
      rw [List.singleton_append, spoiled_cons rest (feed_kept ran rfl), ← spoils]
      exact or_iff_right (by simp [accept])
  | comment is =>
      obtain ⟨body, rfl, closed⟩ := is
      obtain ⟨next, held, same⟩ := comment_opens dfa
      obtain ⟨dfa', done⟩ := held.closes_runs closed rest
      refine ⟨dfa', ?_⟩
      rw [← done, ← same]
      simp
  | ident is short ends =>
      obtain ⟨next, held, inside, same⟩ := ident_runs is short dfa
      obtain ⟨dfa', done⟩ := held.rests inside fun c first pushed state => by
        unfold transition
        rw [state]
        dsimp only
        rw [if_neg (by rw [ends c first]; exact Bool.false_ne_true)]
        rfl
      exact ⟨dfa', (same rest).trans done⟩
  | number is short ends =>
      obtain ⟨next, held, inside, same⟩ := number_runs is short dfa
      obtain ⟨dfa', done⟩ := held.rests inside fun c first pushed state => by
        have other := ends c first
        rw [isAlnum, Bool.or_eq_false_iff] at other
        unfold transition
        rw [state]
        dsimp only
        rw [other.1, other.2]
        rfl
      exact ⟨dfa', (same rest).trans done⟩
  | operator is ends => exact operator_runs is ends dfa

theorem operator_first {c : UInt8} {more : List UInt8} {token : Token}
    (is : operatorToken (c :: more) = some token) : c ∈ operatorChars := by
  unfold operatorToken at is
  split at is
  all_goals first | (rename_i whole; cases whole; decide) | cases is

theorem operatorToken_long (c d x : UInt8) : operatorToken [c, d, x] = none := by
  unfold operatorToken
  split
  all_goals first | (rename_i whole; cases whole) | rfl

theorem operatorChars_words : ∀ c ∈ operatorChars, c = 58 ∨ (operatorToken [c]).isSome = true := by
  decide +kernel

/-- The characters that begin no lexeme are those that the start state rejects. -/
theorem invalid_iff (c : UInt8) : Invalid c ↔ ∀ more, ¬ Lexical (c :: more) := by
  have starts : operatorStart c = none ↔ c ∉ operatorChars := by
    rw [← operatorStart_isSome, Bool.not_eq_true, Option.isSome_eq_false_iff,
      Option.isNone_iff_eq_none]
  constructor
  · rintro ⟨space, cntrl, digit, alpha, operator⟩ more lexical
    cases lexical with
    | blank is =>
        obtain ⟨d, whole, blank⟩ := is
        cases whole
        simp [space, cntrl] at blank
    | comment is =>
        obtain ⟨body, whole, -⟩ := is
        cases whole
        cases operator
    | ident is =>
        obtain ⟨first, others, whole, isAlpha, -⟩ := is
        cases whole
        rw [alpha] at isAlpha
        cases isAlpha
    | number is =>
        have isDigit := is.2 c List.mem_cons_self
        rw [digit] at isDigit
        cases isDigit
    | operator token is => exact starts.mp operator (operator_first is)
  · intro none
    refine ⟨?_, ?_, ?_, ?_, starts.mpr fun member => ?_⟩
    · by_contra space
      exact none [] (.blank ⟨c, rfl, .inl (by simpa using space)⟩)
    · by_contra cntrl
      exact none [] (.blank ⟨c, rfl, .inr (by simpa using cntrl)⟩)
    · by_contra digit
      exact none [] (.number ⟨List.cons_ne_nil _ _, by simpa using digit⟩)
    · by_contra alpha
      exact none [] (.ident ⟨c, [], rfl, by simpa using alpha, by simp⟩)
    · rcases operatorChars_words c member with rfl | word
      · exact none [61] (.operator .becomessym rfl)
      · obtain ⟨token, is⟩ := Option.isSome_iff_exists.mp word
        exact none [] (.operator token is)

/-- The machine rejects the last character of what no lexeme begins with. -/
theorem Malformed.runs {bad : List UInt8} (malformed : Malformed bad) (dfa : Dfa)
    (rest : List UInt8) : Spoiled (resetMachine dfa) (bad ++ rest) := by
  cases malformed with
  | @invalid c none =>
      have spoils : Spoils (resetMachine dfa) c := (invalid_iff c).mpr none
      exact spoiled_here spoils rest
  | @letter digits c number short letter =>
      obtain ⟨next, held, -, same⟩ := number_runs number short dfa
      rw [List.append_assoc, same]
      refine spoiled_here ?_ rest
      unfold Spoils
      rw [held.state]
      exact .inr (.inl letter)
  | longNumber number long =>
      obtain ⟨digits, c, rfl⟩ : ∃ digits c, bad = digits ++ [c] :=
        ⟨_, _, (List.dropLast_append_getLast number.1).symm⟩
      rw [List.length_append, List.length_singleton] at long
      have six : digits.length = maxNumberLength := Nat.succ.inj long
      have front : IsNumber digits := by
        refine ⟨?_, fun d member => number.2 d (List.mem_append_left _ member)⟩
        rintro rfl
        cases six
      obtain ⟨next, held, -, same⟩ := number_runs front (Nat.le_of_eq six) dfa
      rw [List.append_assoc, same]
      refine spoiled_here ?_ rest
      unfold Spoils
      rw [held.state]
      exact .inr (.inr ⟨number.2 c (by simp), by rw [held.index, six]⟩)
  | longIdent ident long =>
      obtain ⟨first, more, rfl, alpha, members⟩ := ident
      rw [List.length_cons] at long
      have eleven : more.length = maxIdentLength := Nat.succ.inj long
      obtain ⟨tail, c, rfl⟩ : ∃ tail c, more = tail ++ [c] := by
        refine ⟨_, _, (List.dropLast_append_getLast ?_).symm⟩
        rintro rfl
        cases eleven
      rw [List.length_append, List.length_singleton] at eleven
      have front : IsIdent (first :: tail) :=
        ⟨first, tail, rfl, alpha, fun d member => members d (List.mem_append_left _ member)⟩
      obtain ⟨next, held, -, same⟩ := ident_runs front (Nat.le_of_eq eleven) dfa
      rw [← List.cons_append, List.append_assoc, same]
      refine spoiled_here ?_ rest
      unfold Spoils
      rw [held.state]
      exact .inr ⟨members c (by simp), by rw [held.index, List.length_cons, eleven]⟩
  | @colon c other =>
      obtain ⟨next, held, -, same⟩ :=
        operator_grows (show operatorStart 58 = some (.becomessym, .colon) from rfl) dfa
      refine (same (c :: rest)).mpr (spoiled_here ?_ rest)
      unfold Spoils
      rw [held.state]
      exact other

/-- What the end of the text may cut off: a colon, or a comment that is not closed. -/
def Unfinished (text : List UInt8) : Prop :=
  text = [58] ∨ ∃ body, text = 47 :: 42 :: body ∧ ¬ [42, 47] <:+: body

theorem Unfinished.runs {text : List UInt8} (unfinished : Unfinished text) (dfa : Dfa) :
    ¬ Spoiled (resetMachine dfa) text := by
  rcases unfinished with rfl | ⟨body, rfl, open_⟩
  · obtain ⟨next, -, -, same⟩ :=
      operator_grows (show operatorStart 58 = some (.becomessym, .colon) from rfl) dfa
    rw [same]
    exact spoiled_nil next
  · obtain ⟨next, held, same⟩ := comment_opens dfa
    rw [same]
    exact held.unclosed open_

theorem first_close (body : List UInt8) : ¬ [42, 47] <:+: body ∨
    ∃ inside rest, body = inside ++ 42 :: 47 :: rest ∧ ¬ [42, 47] <:+: inside ++ [42] := by
  induction body with
  | nil => exact .inl (by simp)
  | cons c more ih =>
      by_cases here : [42, 47] <+: c :: more
      · obtain ⟨rest, whole⟩ := here
        exact .inr ⟨[], rest, whole.symm, by decide⟩
      · rcases ih with none | ⟨inside, rest, rfl, first⟩
        · refine .inl fun found => ?_
          rcases List.infix_cons_iff.mp found with now | later
          · exact here now
          · exact none later
        · refine .inr ⟨c :: inside, rest, rfl, fun found => ?_⟩
          rcases List.infix_cons_iff.mp found with now | later
          · refine here (now.trans ?_)
            exact ⟨47 :: rest, by simp⟩
          · exact first later

theorem takeWhile_split (inClass : UInt8 → Bool) (text : List UInt8) :
    ∃ front rest, text = front ++ rest ∧ (∀ c ∈ front, inClass c = true) ∧
      ∀ c ∈ rest.head?, inClass c = false := by
  refine ⟨text.takeWhile inClass, text.dropWhile inClass, List.takeWhile_append_dropWhile.symm,
    fun c member => List.mem_takeWhile_imp member, fun c first => ?_⟩
  have stops := List.head?_dropWhile_not inClass text
  rw [Option.mem_def.mp first] at stops
  simpa using stops

/-- An operator, one that goes on with the next character, a comment, or a colon. -/
theorem operator_begins {c : UInt8} (operator : c ∈ operatorChars) (more : List UInt8) :
    (∃ bad rest, c :: more = bad ++ rest ∧ Malformed bad) ∨
      (∃ word rest, c :: more = word ++ rest ∧ word ≠ [] ∧ WordAt word rest) ∨
      Unfinished (c :: more) := by
  by_cases colon : c = 58
  · subst colon
    cases more with
    | nil => exact .inr (.inr (.inl rfl))
    | cons d rest =>
        by_cases equal : d = 61
        · subst equal
          refine .inr (.inl ⟨[58, 61], rest, rfl, List.cons_ne_nil _ _,
            .operator (show operatorToken [58, 61] = some .becomessym from rfl) fun x _ => ?_⟩)
          exact ⟨rfl, by simp⟩
        · exact .inl ⟨[58, d], rest, rfl, .colon equal⟩
  obtain ⟨token, is⟩ : ∃ token, operatorToken [c] = some token := by
    rcases operatorChars_words c operator with isColon | word
    · exact absurd isColon colon
    · exact Option.isSome_iff_exists.mp word
  cases more with
  | nil =>
      refine .inr (.inl ⟨[c], [], rfl, List.cons_ne_nil _ _, .operator is fun x first => ?_⟩)
      cases first
  | cons d rest =>
      by_cases comment : c = 47 ∧ d = 42
      · obtain ⟨rfl, rfl⟩ := comment
        rcases first_close rest with open_ | ⟨body, left, rfl, first⟩
        · exact .inr (.inr (.inr ⟨rest, rfl, open_⟩))
        · refine .inr (.inl ⟨47 :: 42 :: (body ++ [42, 47]), left, by simp, List.cons_ne_nil _ _,
            .comment ⟨body, rfl, first⟩⟩)
      · cases two : operatorToken [c, d] with
        | some token' =>
            refine .inr (.inl
              ⟨[c, d], rest, rfl, List.cons_ne_nil _ _, .operator two fun x _ => ?_⟩)
            exact ⟨operatorToken_long c d x, by simp⟩
        | none =>
            refine .inr (.inl ⟨[c], d :: rest, rfl, List.cons_ne_nil _ _,
              .operator is fun x first => ?_⟩)
            cases first
            exact ⟨two, fun both => comment ⟨List.cons.inj both.1 |>.1, both.2⟩⟩

/-- How a text can begin. -/
theorem text_begins (c : UInt8) (more : List UInt8) :
    (∃ bad rest, c :: more = bad ++ rest ∧ Malformed bad) ∨
      (∃ word rest, c :: more = word ++ rest ∧ word ≠ [] ∧ WordAt word rest) ∨
      Unfinished (c :: more) := by
  by_cases blank : isSpace c = true ∨ isCntrl c = true
  · exact .inr (.inl ⟨[c], more, rfl, List.cons_ne_nil _ _, .blank blank⟩)
  by_cases alpha : isAlpha c = true
  · obtain ⟨front, rest, rfl, members, stops⟩ := takeWhile_split isAlnum more
    by_cases short : front.length + 1 ≤ maxIdentLength
    · exact .inr (.inl ⟨c :: front, rest, rfl, List.cons_ne_nil _ _,
        .ident ⟨c, front, rfl, alpha, members⟩ short stops⟩)
    · refine .inl ⟨c :: front.take maxIdentLength, front.drop maxIdentLength ++ rest, ?_, ?_⟩
      · rw [List.cons_append, ← List.append_assoc, List.take_append_drop]
      · refine .longIdent
          ⟨c, _, rfl, alpha, fun d member => members d (List.mem_of_mem_take member)⟩ ?_
        rw [List.length_cons, List.length_take]
        omega
  by_cases digit : isDigit c = true
  · obtain ⟨front, rest, rfl, members, stops⟩ := takeWhile_split isDigit more
    have number : ∀ n, IsNumber (c :: front.take n) := fun n =>
      ⟨List.cons_ne_nil _ _, List.forall_mem_cons.mpr
        ⟨digit, fun d member => members d (List.mem_of_mem_take member)⟩⟩
    have whole := number front.length
    rw [List.take_length] at whole
    by_cases short : front.length + 1 ≤ maxNumberLength
    · by_cases letter : ∃ d ∈ rest.head?, isAlpha d = true
      · obtain ⟨d, first, isLetter⟩ := letter
        cases rest with
        | nil => cases first
        | cons e others =>
            cases first
            exact .inl ⟨c :: front ++ [d], others, by simp, .letter whole short isLetter⟩
      · refine .inr (.inl ⟨c :: front, rest, rfl, List.cons_ne_nil _ _,
          .number whole short fun d first => ?_⟩)
        have noLetter : isAlpha d = false := by
          rw [← Bool.not_eq_true]
          exact fun isLetter => letter ⟨d, first, isLetter⟩
        rw [isAlnum, noLetter, stops d first]
        rfl
    · refine .inl ⟨c :: front.take maxNumberLength, front.drop maxNumberLength ++ rest, ?_, ?_⟩
      · rw [List.cons_append, ← List.append_assoc, List.take_append_drop]
      · refine .longNumber (number _) ?_
        rw [List.length_cons, List.length_take]
        omega
  by_cases operator : c ∈ operatorChars
  · exact operator_begins operator more
  · refine .inl ⟨[c], more, rfl, .invalid ((invalid_iff c).mp ?_)⟩
    rw [not_or, Bool.not_eq_true, Bool.not_eq_true] at blank
    rw [Bool.not_eq_true] at alpha digit
    refine ⟨blank.1, blank.2, digit, alpha, ?_⟩
    rw [← Option.not_isSome_iff_eq_none, operatorStart_isSome]
    exact operator

/-- A call of the scanner rejects exactly where the text breaks the lexical rules. -/
theorem spoiled_iff (text : List UInt8) : ∀ dfa, Spoiled (resetMachine dfa) text ↔
    LexicalError text := by
  intro dfa
  constructor
  · induction length : text.length using Nat.strongRecOn generalizing text dfa with
    | ind n ih =>
        intro spoiled
        cases text with
        | nil => exact absurd spoiled (spoiled_nil _)
        | cons c more =>
            rcases text_begins c more with ⟨bad, rest, whole, malformed⟩ |
              ⟨word, rest, whole, nonempty, piece⟩ | unfinished
            · rw [whole]
              exact .here malformed rest
            · rw [whole] at spoiled length ⊢
              obtain ⟨dfa', same⟩ := piece.runs dfa
              have positive := List.length_pos_iff.mpr nonempty
              rw [List.length_append] at length
              exact .behind piece (ih rest.length (by omega) rest dfa' rfl (same.mp spoiled))
            · exact absurd spoiled (unfinished.runs dfa)
  · intro error
    induction error generalizing dfa with
    | here malformed rest => exact malformed.runs dfa rest
    | behind piece _ ih =>
        obtain ⟨dfa', same⟩ := piece.runs dfa
        exact same.mpr (ih dfa')

end Runs

end Pl0
