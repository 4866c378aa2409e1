import Pl0.ScannerRuns

set_option autoImplicit false

namespace Pl0

/-- The text ends where a newline behind it adds no lexeme: between two lexemes, behind a
lone colon, in a comment that is not closed, or behind the reserved word null. -/
def EndsSettled (text : List UInt8) : Prop :=
  ∃ dfa, readText text = .ok dfa ∧
    (dfa.dfaState = .start ∨ dfa.dfaState = .colon ∨ dfa.dfaState = .lcomm ∨
      dfa.dfaState = .comm ∨
      (dfa.dfaState = .alpha ∧ resWord.lookup (cString dfa.curLexeme.buffer) = some .nulsym))

/-- The type of a lexeme that a newline ends. -/
def endType (state : DfaQ) (type : Token) : Token :=
  match state with
  | .leq => .leqsym
  | .geq => .geqsym
  | .neq => .neqsym
  | .becomes => .becomessym
  | _ => type

theorem newline_ends {state : DfaQ} {type : Token} {word : Name} {table : List LexemeEntry}
    {pushed : Dfa} (scanning : Scanning pushed state type (word ++ [10]) table)
    (inside : InLexeme state type word) (open_ : state ≠ .start) (noColon : state ≠ .colon) :
    transition pushed 10 = accept (setType pushed (endType state type)) ∧
      IsLexeme (endType state type) word := by
  have read := scanning.state
  have same : setType pushed type = pushed := by
    rw [← scanning.type]
    rfl
  have plain : ∀ type', IsPlainToken type' → word.length = state.width → (∀ c ∈ word, c ≠ 0) →
      IsLexeme type' word := by
    intro type' plain width nonzero
    refine .inr (.inr ⟨plain, nonzero, ?_⟩)
    rw [width]
    cases state <;> decide
  cases state with
  | start => exact absurd rfl open_
  | colon => exact absurd rfl noColon
  | lcomm | comm | rcomm | accept | reject | final => exact inside.elim
  | digit =>
      refine ⟨?_, .inr (.inl inside)⟩
      unfold transition endType
      rw [read, same]
      rfl
  | alpha =>
      refine ⟨?_, .inl inside⟩
      unfold transition endType
      rw [read, same]
      rfl
  | leq | geq | neq | becomes =>
      refine ⟨?_, plain _ (by simp [IsPlainToken, endType]) inside.2.2 inside.2.1⟩
      unfold transition endType
      rw [read]
  | div | less | lare =>
      refine ⟨?_, plain _ inside.1 inside.2.2 inside.2.1⟩
      unfold transition endType
      rw [read, same]
      rfl
  | plus | minus | mult | eql | lpare | rpape | comma | semi | period =>
      refine ⟨?_, plain _ inside.1 inside.2.2 inside.2.1⟩
      exact (transition_plain rfl read 10).trans (congrArg accept same.symm)

/-- A lexeme that the newline ends goes to the list, unless it is the word null. -/
theorem entryOf_some {type : Token} {word : Name} :
    entryOf type word = none ↔ type = .identsym ∧ resWord.lookup word = some .nulsym := by
  unfold entryOf
  by_cases isIdent : type = .identsym
  · rw [if_pos isIdent, identEntry, and_iff_right isIdent]
    split
    · rename_i null
      exact iff_of_true rfl null
    · rename_i token notNull found
      refine iff_of_false (Option.some_ne_none _) fun null => ?_
      rw [found] at null
      exact notNull (Option.some.inj null)
    · rename_i absent
      refine iff_of_false (Option.some_ne_none _) fun null => ?_
      rw [absent] at null
      cases null
  · rw [if_neg isIdent]
    exact iff_of_false (Option.some_ne_none _) fun both => isIdent both.1

/-- Only an identifier has the type of an identifier when a newline ends it. -/
theorem endType_ident {state : DfaQ} {type : Token} {word : Name}
    (inside : InLexeme state type word)
    (open_ : state ≠ .start) : endType state type = .identsym ↔ state = .alpha := by
  cases state with
  | start => exact absurd rfl open_
  | alpha => exact iff_of_true inside.1 rfl
  | lcomm | comm | rcomm | accept | reject | final => exact inside.elim
  | digit =>
      refine iff_of_false ?_ (by decide)
      rw [endType, inside.1]
      · decide
      all_goals simp
  | leq | geq | neq | becomes => simp [endType]
  | _ => exact iff_of_false inside.1.2.1 (by decide)

theorem append_toList_eq {table : List LexemeEntry} {entry : Option LexemeEntry} :
    table ++ entry.toList = table ↔ entry = none := by
  cases entry <;> simp

/-- A newline that ends a lexeme adds its entry. -/
theorem feed_ends {dfa pushed : Dfa} {type : Token} {word : Name} {accepted : Dfa}
    {table : List LexemeEntry} (push : pushChar dfa 10 = .ok pushed)
    (ends : transition pushed 10 = accept accepted)
    (recognised : Recognised (popChar (accept accepted)) type word table)
    (lexeme : IsLexeme type word) :
    ∃ next, feed dfa 10 = .ok next ∧ next.tokenTable = table ++ (entryOf type word).toList := by
  have ran : turn dfa 10 = .ok (accept accepted) := by
    rw [turn, Except.bind_of_ok push, ends]
    rfl
  obtain ⟨again, -, -, fed, -, same⟩ := feed_back ran rfl recognised.state
  exact ⟨settle again, fed, same.trans (finishLexeme_entry recognised lexeme)⟩

/-- The newline behind a machine between two characters. -/
theorem Pending.newline {dfa : Dfa} (pending : Pending dfa) :
    ∃ next, feed dfa 10 = .ok next ∧ (next.tokenTable = dfa.tokenTable ↔
      dfa.dfaState = .start ∨ dfa.dfaState = .colon ∨ dfa.dfaState = .lcomm ∨
        dfa.dfaState = .comm ∨
        (dfa.dfaState = .alpha ∧
          resWord.lookup (cString dfa.curLexeme.buffer) = some .nulsym)) := by
  obtain ⟨moved, ran, turned, keptAtStart⟩ := pending.turns 10
  have keeps : moved.rewind = false → ∃ next, feed dfa 10 = .ok next ∧
      next.tokenTable = dfa.tokenTable :=
    fun kept => ⟨settle moved, feed_kept ran kept, (turned.settles kept).2⟩
  cases pending with
  | lexeme state type word scanning inside =>
      have fits : word.length + 1 < maxBufferSize :=
        Nat.succ_lt_succ (Nat.lt_succ_of_le inside.short)
      obtain ⟨pushed, push, scanned⟩ := scanning.pushChar fits 10
      have read := scanning.state
      by_cases open_ : state = .start
      · subst open_
        obtain ⟨next, fed, same⟩ := keeps (keptAtStart read)
        exact ⟨next, fed, iff_of_true same (.inl read)⟩
      · by_cases colon : state = .colon
        · subst colon
          have rejected : transition pushed 10 = reject pushed := by
            unfold transition
            rw [scanned.state]
            rfl
          have sameTurn : moved = reject pushed := by
            rw [turn, Except.bind_of_ok push, rejected] at ran
            exact (Except.ok.inj ran).symm
          obtain ⟨next, fed, same⟩ := keeps (by rw [sameTurn]; exact scanned.kept)
          exact ⟨next, fed, iff_of_true same (.inr (.inl read))⟩
        · obtain ⟨ends, lexeme⟩ := newline_ends scanned inside open_ colon
          obtain ⟨next, fed, same⟩ :=
            feed_ends push ends (scanned.setType (endType state type)).recognised lexeme
          refine ⟨next, fed, ?_⟩
          have nonzero : ∀ c ∈ word, state = .alpha → c ≠ 0 := by
            rintro c member rfl
            exact isAlnum_ne_zero (inside.2.1.alnum c member)
          have noComment : state ≠ .lcomm ∧ state ≠ .comm := by
            constructor
            · rintro rfl
              exact inside
            · rintro rfl
              exact inside
          rw [same, append_toList_eq, entryOf_some, endType_ident inside open_, read]
          simp only [open_, colon, noComment, false_or]
          apply and_congr_right
          intro alpha
          rw [scanning.holds.cString (Nat.lt_of_succ_lt fits)
            fun c member => nonzero c member alpha]
  | comment star inside =>
      obtain ⟨pushed, push, held⟩ := inside.moves (c := 10) (by simp)
      have sameTurn : moved = transition pushed 10 := by
        rw [turn, Except.bind_of_ok push] at ran
        exact (Except.ok.inj ran).symm
      obtain ⟨next, fed, same⟩ := keeps (by rw [sameTurn]; exact held.kept)
      refine ⟨next, fed, iff_of_true same ?_⟩
      rw [inside.state]
      cases star
      · exact .inr (.inr (.inl rfl))
      · exact .inr (.inr (.inr (.inl rfl)))
  | closed closed =>
      obtain ⟨pushed, accepted, push, ends, recognised⟩ := closed.ends 10
      obtain ⟨next, fed, same⟩ := feed_ends push ends recognised
        (.inr (.inr ⟨⟨by decide, by decide, by decide⟩, by simp, by simp⟩))
      refine ⟨next, fed, ?_⟩
      rw [same, append_toList_eq, entryOf_some, closed.state]
      simp

/-- The end of the file loses nothing exactly when the text ends settled. -/
theorem end_of_file_iff (text : List UInt8) {fuel : Nat} (enough : 2 * text.length + 5 ≤ fuel) :
    scannerRun fuel text = scannerRun fuel (text ++ [10]) ↔ EndsSettled text := by
  obtain ⟨dfa, read, pending, ran⟩ := @scannerRun_readText text fuel (by omega)
  obtain ⟨dfa', read', pending', ran'⟩ := @scannerRun_readText (text ++ [10]) fuel
    (by rw [List.length_append, List.length_singleton]; omega)
  obtain ⟨next, fed, same⟩ := pending.newline
  have whole : readText (text ++ [10]) = .ok next := by
    unfold readText at read ⊢
    rw [List.foldlM_append, Except.bind_of_ok read, List.foldlM_cons, Except.bind_of_ok fed]
    rfl
  have sameEnd := Except.ok.inj (read'.symm.trans whole)
  subst sameEnd
  rw [ran, ran']
  constructor
  · intro equal
    injection equal with equal
    injection equal with equal
    exact ⟨dfa, read, same.mp equal.symm⟩
  · rintro ⟨dfa'', read'', settled⟩
    have sameText := Except.ok.inj (read.symm.trans read'')
    subst sameText
    rw [same.mpr settled]

/-- The text `x` and a newline. -/
theorem end_of_file_iff_newline :
    scannerRun 9 [120, 10] = scannerRun 9 [120, 10, 10] ↔ EndsSettled [120, 10] :=
  end_of_file_iff [120, 10] (by decide)

/-- The identifier of the text `x` is lost where no newline follows it. -/
theorem end_of_file_loses : ¬ ∀ (text : List UInt8) (fuel : Nat), 2 * text.length + 5 ≤ fuel →
    scannerRun fuel text = scannerRun fuel (text ++ [10]) := by
  intro always
  have lost : scannerRun 7 [120] = .ok (some []) := by rfl
  have found : scannerRun 7 [120, 10] = .ok (some [⟨.identsym, [120], true⟩]) := by rfl
  have same := always [120] 7 (by decide)
  rw [List.singleton_append, lost, found] at same
  cases same

end Pl0
