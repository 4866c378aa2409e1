import Pl0.ScannerTurns

set_option autoImplicit false

namespace Pl0

/- The bytes of the lexeme buffer that the scanner writes, and what is copied out of it. -/

/-- The stores of `getNextLexeme` for the character that it has read. -/
def storeWrites (dfa : Dfa) : List Int :=
  [dfa.curLexeme.indexBuffer, dfa.curLexeme.indexBuffer + 1]

/-- The stores of `transition`. -/
def transitionWrites (dfa : Dfa) : List Int :=
  match dfa.dfaState with
  | .rcomm => [0]
  | _ => []

/-- The store of `getNextLexeme` for a character that it gives back. -/
def popWrites (dfa : Dfa) : List Int :=
  if dfa.rewind then [dfa.curLexeme.indexBuffer - 1] else []

/-- The stores of `resetMachine`. -/
def resetWrites : List Int :=
  (List.range maxBufferSize).map Int.ofNat ++ [0]

/-- The indices of the buffer that a turn writes. -/
def ScanTurn.writes (turn : ScanTurn) : List Int :=
  storeWrites turn.found.dfa ++ transitionWrites turn.entered.dfa ++ popWrites turn.moved

/-- The indices of the buffer that a call of `getNextLexeme` writes. -/
def ScanCall.writes (call : ScanCall) : List Int :=
  resetWrites ++ call.turns.flatMap ScanTurn.writes

theorem storeChar_frame (dfa : Dfa) (c : UInt8) {i : Nat} (apart : (i : Int) ∉ storeWrites dfa) :
    (storeChar dfa c).curLexeme.buffer i = dfa.curLexeme.buffer i := by
  simp only [storeWrites, List.mem_cons, List.not_mem_nil, or_false, not_or] at apart
  change Function.update (Function.update _ _ _) _ _ i = _
  rw [Function.update_of_ne (by omega), Function.update_of_ne (by omega)]

theorem transition_frame (dfa : Dfa) (c : UInt8) {i : Nat}
    (apart : (i : Int) ∉ transitionWrites dfa) :
    (transition dfa c).curLexeme.buffer i = dfa.curLexeme.buffer i := by
  unfold transitionWrites at apart
  unfold transition
  cases state : dfa.dfaState with
  | rcomm =>
      rw [state] at apart
      simp only [List.mem_singleton] at apart
      change Function.update _ _ _ i = _
      rw [Function.update_of_ne (by omega)]
      rfl
  | start =>
      dsimp only
      split_ifs
      · rfl
      · rfl
      · rfl
      · cases operatorStart c <;> rfl
  | digit | alpha | div | lcomm | comm | less | lare | colon =>
      dsimp only
      split_ifs <;> rfl
  | _ => rfl

theorem popChar_frame (dfa : Dfa) {i : Nat} (apart : i ≠ dfa.curLexeme.indexBuffer - 1) :
    (popChar dfa).curLexeme.buffer i = dfa.curLexeme.buffer i :=
  Function.update_of_ne apart 0 dfa.curLexeme.buffer

/-- The character behind a lexeme still counts in the index when it is given back. -/
theorem transition_index {dfa : Dfa} {c : UInt8} (kept : dfa.rewind = false)
    (back : (transition dfa c).rewind = true) :
    (transition dfa c).curLexeme.indexBuffer = dfa.curLexeme.indexBuffer := by
  revert back
  unfold transition
  cases dfa.dfaState with
  | start =>
      dsimp only
      split_ifs
      · exact fun _ => rfl
      · exact fun _ => rfl
      · exact fun _ => rfl
      · cases operatorStart c <;> exact fun _ => rfl
  | comm | lcomm =>
      dsimp only
      split_ifs
      all_goals
        intro back
        exact absurd (kept.symm.trans back) Bool.false_ne_true
  | digit | alpha | div | less | lare | colon =>
      dsimp only
      split_ifs <;> exact fun _ => rfl
  | _ => exact fun _ => rfl

theorem ScanTurn.moved_index {turn : ScanTurn} (pending : Pending turn.found.dfa)
    (back : turn.moved.rewind = true) :
    turn.moved.curLexeme.indexBuffer = turn.found.dfa.curLexeme.indexBuffer + 1 :=
  transition_index pending.kept back

/-- An index of the buffer. -/
def InBuffer (index : Int) : Prop := 0 ≤ index ∧ index ≤ maxBufferSize - 1

theorem turn_writes {turn : ScanTurn} (pending : Pending turn.found.dfa) :
    ∀ index ∈ turn.writes, InBuffer index := by
  have fits := pending.turnOf.fits
  intro index member
  unfold InBuffer
  simp only [ScanTurn.writes, List.mem_append] at member
  rcases member with (stored | moved) | popped
  · simp only [storeWrites, List.mem_cons, List.not_mem_nil, or_false] at stored
    omega
  · unfold transitionWrites at moved
    split at moved
    · rw [List.mem_singleton] at moved
      rw [moved]
      decide
    · cases moved
  · unfold popWrites at popped
    split at popped
    · rename_i back
      rw [List.mem_singleton, turn.moved_index pending back] at popped
      omega
    · cases popped

theorem resetWrites_inBuffer : ∀ index ∈ resetWrites, InBuffer index := by
  unfold InBuffer
  decide

theorem call_writes {call : ScanCall} (pending : ∀ turn ∈ call.turns, Pending turn.found.dfa) :
    ∀ index ∈ call.writes, InBuffer index := by
  intro index member
  rcases List.mem_append.mp member with reset | written
  · exact resetWrites_inBuffer index reset
  · obtain ⟨turn, among, wrote⟩ := List.mem_flatMap.mp written
    exact turn_writes (pending turn among) index wrote

/-- What `putLexeme` copies: a terminated string, no longer than its type allows. -/
structure Copied (lexeme : CurLexeme) : Prop where
  terminated : ∃ i < maxBufferSize, lexeme.buffer i = 0
  ident : lexeme.type = .identsym → (cString lexeme.buffer).length ≤ maxIdentLength
  number : lexeme.type = .numbersym →
    (cString lexeme.buffer).length ≤ maxNumberLength ∧
      ∀ c ∈ cString lexeme.buffer, isDigit c = true

theorem labelLexeme_buffer (dfa : Dfa) :
    (labelLexeme dfa).curLexeme.buffer = dfa.curLexeme.buffer := by
  unfold labelLexeme
  rw [updateReservedWords_eq]
  dsimp only
  split_ifs <;> rfl

/-- The look-up of reserved words makes no identifier and no number. -/
theorem labelLexeme_type {dfa : Dfa} {type : Token} (is : (labelLexeme dfa).curLexeme.type = type)
    (named : type = .identsym ∨ type = .numbersym) : dfa.curLexeme.type = type := by
  unfold labelLexeme at is
  rw [updateReservedWords_eq] at is
  by_cases ident : dfa.curLexeme.type = .identsym
  · rw [if_pos ident] at is
    have found : (resWord.lookup (cString dfa.curLexeme.buffer)).getD
      dfa.curLexeme.type = type := by
      dsimp only at is
      split_ifs at is <;> exact is
    cases lookup : resWord.lookup (cString dfa.curLexeme.buffer) with
    | none =>
        rw [lookup] at found
        exact found
    | some token =>
        rw [lookup, Option.getD_some] at found
        obtain ⟨notIdent, notNumber⟩ := resWord_reserved lookup
        rw [found] at notIdent notNumber
        exact absurd named (by simp [notIdent, notNumber])
  · rw [if_neg ident] at is
    dsimp only at is
    split_ifs at is <;> exact is

/-- The lexeme that a call puts into the list. -/
theorem call_copied {call : ScanCall} (paused : Paused call.last.dfa) {dfa : Dfa}
    (put : call.put = some dfa) : Copied dfa.curLexeme := by
  unfold ScanCall.put at put
  split at put
  · rename_i ends
    obtain ⟨state, typed⟩ := ends
    obtain rfl := Option.some.inj put
    cases paused with
    | pending pending => exact absurd state pending.running.1
    | rejected halted rejected =>
        rw [rejected] at state
        cases state
    | skipped halted accepted type =>
        have bare : labelLexeme call.last.dfa = call.last.dfa := by
          simp [labelLexeme, type]
        rw [bare] at typed
        exact absurd type typed
    | accepted type word table halted recognised lexeme =>
        have spelled := recognised.spelled lexeme
        have buffer := labelLexeme_buffer call.last.dfa
        refine ⟨⟨word.length, lexeme.fits, ?_⟩, fun ident => ?_, fun number => ?_⟩
        · rw [buffer, recognised.holds word.length (Nat.le_refl _), List.getD_eq_getElem?_getD,
            List.getElem?_eq_none (Nat.le_refl _)]
          rfl
        · have isIdent := recognised.type.symm.trans (labelLexeme_type ident (.inl rfl))
          rw [buffer, spelled]
          rcases lexeme with ⟨-, -, short⟩ | ⟨number, -⟩ | ⟨plain, -⟩
          · exact short
          · rw [number] at isIdent
            cases isIdent
          · exact absurd isIdent plain.2.1
        · have isNumber := recognised.type.symm.trans (labelLexeme_type number (.inr rfl))
          rw [buffer, spelled]
          rcases lexeme with ⟨ident, -⟩ | ⟨-, digits, short⟩ | ⟨plain, -⟩
          · rw [ident] at isNumber
            cases isNumber
          · exact ⟨short, digits.2⟩
          · exact absurd isNumber plain.2.2
  · cases put

/-- A call of `getToken` in front of entries of the scanner stores within its fields. -/
theorem TokenReader.getToken_stores : ∀ (fuel : Nat) {tokenTable : List LexemeEntry}
    {this : TokenReader}, (∀ entry ∈ tokenTable, IsEntry entry) → Unread this tokenTable →
      ∃ answer, this.getToken fuel = .ok answer ∧ ∀ next, answer = some next →
        ∃ rest, Unread next rest ∧ rest <:+ tokenTable := by
  intro fuel
  induction fuel with
  | zero => exact fun _ _ => ⟨none, rfl, by simp⟩
  | succ fuel ih =>
      intro tokenTable this entries unread
      cases tokenTable with
      | nil =>
          obtain ⟨next, called, served⟩ := getToken_eof fuel unread
          refine ⟨some next, called, fun found same => ?_⟩
          obtain rfl := Option.some.inj same
          cases served with
          | lexeme entry rest unread suffix same delivers => cases same
          | nul none unread token => exact ⟨[], unread, List.suffix_rfl⟩
      | cons entry rest =>
          obtain ⟨next, behind, -, turned⟩ :=
            getToken_entry fuel unread (entries entry List.mem_cons_self)
          rw [turned]
          split
          · obtain ⟨answer, called, left⟩ :=
              ih (fun e member => entries e (List.mem_cons_of_mem _ member)) behind
            refine ⟨answer, called, fun found same => ?_⟩
            obtain ⟨later, unread, suffix⟩ := left found same
            exact ⟨later, unread, suffix.trans (List.suffix_cons entry rest)⟩
          · refine ⟨some next, rfl, fun found same => ?_⟩
            obtain rfl := Option.some.inj same
            exact ⟨rest, behind, List.suffix_cons entry rest⟩

theorem TokenReader.getTokens_stores (fuel : Nat) : ∀ (calls : Nat)
    {tokenTable : List LexemeEntry} {this : TokenReader},
      (∀ entry ∈ tokenTable, IsEntry entry) → Unread this tokenTable →
        ∃ answer, this.getTokens fuel calls = .ok answer := by
  intro calls
  induction calls with
  | zero => exact fun _ _ => ⟨_, rfl⟩
  | succ calls ih =>
      intro tokenTable this entries unread
      obtain ⟨answer, called, left⟩ := getToken_stores fuel entries unread
      rw [getTokens, Except.bind_of_ok called]
      cases answer with
      | none => exact ⟨none, rfl⟩
      | some next =>
          obtain ⟨rest, behind, suffix⟩ := left next rfl
          exact ih (fun entry member => entries entry (suffix.subset member)) behind

/-- In an empty token file the first call reads nothing and finds the end. -/
theorem TokenReader.readToken_empty (cToken : Int) (cTokenVal : TokenVal) :
    ∃ next, (opened [] cToken cTokenVal).readToken = .ok next ∧ Unread next [] := by
  let this : TokenReader := ⟨⟨[], true⟩, cToken, cTokenVal⟩
  have coded : (opened [] cToken cTokenVal).readCode = .ok this := rfl
  have numbered : (if this.Is .numbersym then this.readNumeric else pure this) = .ok this := by
    split <;> rfl
  refine ⟨this, ?_, rfl⟩
  unfold readToken
  rw [Except.bind_of_ok coded]
  dsimp only
  split
  · exact numbered
  · exact numbered

theorem TokenReader.getToken_opened (fuel : Nat) (cToken : Int) (cTokenVal : TokenVal) :
    ∃ answer, (opened [] cToken cTokenVal).getToken fuel = .ok answer ∧
      ∀ next, answer = some next → Unread next [] := by
  cases fuel with
  | zero => exact ⟨none, rfl, by simp⟩
  | succ fuel =>
      obtain ⟨next, read, unread⟩ := readToken_empty cToken cTokenVal
      have open_ : ¬ (opened [] cToken cTokenVal).tokenFile.eof = true := Bool.false_ne_true
      rw [getToken, if_neg open_, Except.bind_of_ok read]
      split
      · obtain ⟨answer, called, left⟩ := getToken_stores fuel (by simp) unread
        refine ⟨answer, called, fun found same => ?_⟩
        obtain ⟨rest, behind, suffix⟩ := left found same
        rw [List.suffix_nil.mp suffix] at behind
        exact behind
      · refine ⟨some next, rfl, fun found same => ?_⟩
        obtain rfl := Option.some.inj same
        exact unread

/-- The fields of the current token hold whatever `getToken` reads in the file of a list
that the scanner built. -/
theorem TokenReader.opened_stores {tokenTable : List LexemeEntry}
    (entries : ∀ entry ∈ tokenTable, IsEntry entry) (fuel calls : Nat) (cToken : Int)
    (cTokenVal : TokenVal) :
    ∃ answer, (opened (outputLexme tokenTable) cToken cTokenVal).getTokens fuel calls =
      .ok answer := by
  cases tokenTable with
  | cons entry rest => exact getTokens_stores fuel calls entries rfl
  | nil =>
      cases calls with
      | zero => exact ⟨_, rfl⟩
      | succ calls =>
          obtain ⟨answer, called, left⟩ := getToken_opened fuel cToken cTokenVal
          rw [getTokens, show outputLexme [] = [] from rfl, Except.bind_of_ok called]
          cases answer with
          | none => exact ⟨none, rfl⟩
          | some next => exact getTokens_stores fuel calls entries (left next rfl)

/-- The scan kept to its buffers: it wrote inside the lexeme buffer, what it copied out of it
were terminated strings no longer than their type allows, and the names of its list fit the
field that `getToken` reads them into. -/
structure BuffersKept (calls : List ScanCall) (tokenTable : List LexemeEntry) : Prop where
  writes : ∀ call ∈ calls, ∀ index ∈ call.writes, InBuffer index
  copies : ∀ call ∈ calls, ∀ dfa, call.put = some dfa → Copied dfa.curLexeme
  idents : ∀ entry ∈ tokenTable, entry.type = .identsym → entry.buffer.length ≤ maxIdentLength
  numbers : ∀ entry ∈ tokenTable, entry.type = .numbersym →
    entry.buffer.length ≤ maxNumberLength ∧ ∀ c ∈ entry.buffer, isDigit c = true
  field : ∀ turns reads cToken cTokenVal,
    (TokenReader.opened (outputLexme tokenTable) cToken cTokenVal).getTokens turns reads ≠
      .error .outOfBounds

/-- Whatever the text is, the scanner keeps to its buffers. -/
theorem lexeme_buffer_bounds (text : List UInt8) {fuel : Nat} (enough : text.length + 1 ≤ fuel) :
    ∃ calls last, scannerTrace fuel text = some (calls, last) ∧
      BuffersKept calls last.dfa.tokenTable := by
  obtain ⟨calls, last, traced, scanned, -⟩ := scannerTrace_returns text enough
  have paused := scannerTrace_paused traced
  have entries := scannerRun_entries scanned
  refine ⟨calls, last, traced, fun call member => call_writes (paused call member).1,
    fun call member dfa put => call_copied (paused call member).2 put, ?_, ?_, ?_⟩
  · intro entry member ident
    cases entries entry member with
    | ident type printed word short => exact short
    | number type printed word short =>
        rw [type] at ident
        cases ident
    | plain notIdent notNumber bare => exact absurd ident notIdent
  · intro entry member number
    cases entries entry member with
    | ident type printed word short =>
        rw [type] at number
        cases number
    | number type printed word short => exact ⟨short, word.2⟩
    | plain notIdent notNumber bare => exact absurd number notNumber
  · intro turns reads cToken cTokenVal
    obtain ⟨answer, read⟩ := TokenReader.opened_stores entries turns reads cToken cTokenVal
    rw [read]
    exact fun fault => by cases fault

/-- A name with twelve letters, one too many. -/
theorem lexeme_buffer_bounds_tooLong : ∃ calls last,
    scannerTrace 13 (List.replicate 12 97) = some (calls, last) ∧
      BuffersKept calls last.dfa.tokenTable :=
  lexeme_buffer_bounds (List.replicate 12 97) (by decide)

end Pl0
