import Mathlib.Data.Nat.Digits.Defs
import Pl0.ParseState
import Pl0.ScannerRuns

set_option autoImplicit false

namespace Pl0

/- The token file between the scanner and the parser: `outputLexme` prints the lexeme list
into it, and `getToken` reads it back with `fscanf`. -/

/-- What `"%d"` prints for a number that is not negative. -/
def printDecimal (value : Nat) : Name :=
  if value = 0 then [48] else (Nat.digits 10 value).reverse.map fun digit =>
    UInt8.ofNat (48 + digit)

def outputEntry (entry : LexemeEntry) : List UInt8 :=
  if entry.printable then printDecimal entry.type.toNat ++ [32] ++ entry.buffer ++ [32]
  else printDecimal entry.type.toNat ++ [32]

/-- The text `outputLexme` writes. -/
def outputLexme (tokenTable : List LexemeEntry) : List UInt8 :=
  tokenTable.flatMap outputEntry

/-- A text file under `fscanf`: what is left of it, and the flag that `feof` reads. -/
structure TextFile where
  rest : List UInt8
  eof : Bool
  deriving DecidableEq, Repr

/-- Read characters as long as they belong to a class. The character behind them is given
back; the end of the file sets the flag. -/
def TextFile.takeClass (file : TextFile) (belongs : UInt8 → Bool) : Name × TextFile :=
  (file.rest.takeWhile belongs,
    { rest := file.rest.dropWhile belongs,
      eof := file.eof || (file.rest.dropWhile belongs).isEmpty })

/-- The white space of a format, which matches any amount of it. -/
def TextFile.skipSpace (file : TextFile) : TextFile :=
  (file.takeClass isSpace).2

/-- The value of the digits that `%d` has read. -/
def digitsValue (digits : Name) : Nat :=
  digits.foldl (fun value c => 10 * value + (c.toNat - 48)) 0

/-- The sign that `%d` accepts. -/
def TextFile.takeSign (file : TextFile) : Int × TextFile :=
  match file.rest with
  | 43 :: rest => (1, { file with rest := rest })
  | 45 :: rest => (-1, { file with rest := rest })
  | _ => (1, file)

/-- `fscanf(file, "%d ", ..)`; `none` when nothing is stored. A number that is no `int` is
undefined behaviour. -/
def scanfInt (file : TextFile) : Except Fault (Option Int × TextFile) :=
  let (sign, file) := file.skipSpace.takeSign
  let (digits, file) := file.takeClass isDigit
  if digits = [] then .ok (none, file)
  else if InInt (sign * digitsValue digits) then
    .ok (some (sign * digitsValue digits), file.skipSpace)
  else .error .overflow

/-- `fscanf(file, "%s ", ..)` into the array of the current token. -/
def scanfString (file : TextFile) : Except Fault (Option Name × TextFile) :=
  let (word, file) := file.skipSpace.takeClass fun c => !isSpace c
  if word = [] then .ok (none, file)
  else if word.length < maxIdentLength + 1 then .ok (some word, file.skipSpace)
  else .error .outOfBounds

/-- The union of the current token, with the member that was stored last. -/
inductive TokenVal
  | numeric (value : Int)
  | string (word : Name)
  deriving DecidableEq, Repr

/-- The part of `struct Parse` that `getToken` works on. -/
structure TokenReader where
  tokenFile : TextFile
  cToken : Int
  cTokenVal : TokenVal
  deriving DecidableEq, Repr

namespace TokenReader

def Is (this : TokenReader) (token : Token) : Prop := this.cToken = token.toNat

instance (this : TokenReader) (token : Token) : Decidable (this.Is token) :=
  inferInstanceAs (Decidable (this.cToken = token.toNat))

def readCode (this : TokenReader) : Except Fault TokenReader := do
  let (code, tokenFile) ← scanfInt this.tokenFile
  return { this with tokenFile := tokenFile, cToken := code.getD this.cToken }

def readString (this : TokenReader) : Except Fault TokenReader := do
  let (word, tokenFile) ← scanfString this.tokenFile
  return { this with tokenFile := tokenFile, cTokenVal := (word.map .string).getD this.cTokenVal }

def readNumeric (this : TokenReader) : Except Fault TokenReader := do
  let (value, tokenFile) ← scanfInt this.tokenFile
  return { this with tokenFile := tokenFile, cTokenVal := (value.map .numeric).getD this.cTokenVal }

/-- The reads of `getToken`: the code of the token, and what is printed behind it. -/
def readToken (this : TokenReader) : Except Fault TokenReader := do
  let this ← this.readCode
  let this ← if this.Is .identsym then this.readString else pure this
  if this.Is .numbersym then this.readNumeric else pure this

/-- `getToken` on the text of the token file; `none` when it still passes over comments
after `fuel` calls of itself. -/
def getToken : Nat → TokenReader → Except Fault (Option TokenReader)
  | 0, _ => .ok none
  | fuel + 1, this =>
      if this.tokenFile.eof then .ok (some { this with cToken := Token.nulsym.toNat })
      else do
        let this ← this.readToken
        if this.Is .commentsym then getToken fuel this else return some this

/-- The reader after so many calls of `getToken`. -/
def getTokens (fuel : Nat) : Nat → TokenReader → Except Fault (Option TokenReader)
  | 0, this => .ok (some this)
  | calls + 1, this => do
      match ← this.getToken fuel with
      | none => return none
      | some this => getTokens fuel calls this

/-- The token file as the driver opens it, with whatever `struct Parse` holds. -/
def opened (text : List UInt8) (cToken : Int) (cTokenVal : TokenVal) : TokenReader :=
  { tokenFile := { rest := text, eof := false }, cToken := cToken, cTokenVal := cTokenVal }

end TokenReader

/-- The decimal value of a number. -/
def decimalValue (word : Name) : Nat :=
  Nat.ofDigits 10 (word.reverse.map fun c => c.toNat - 48)

/-- The lexemes of a list without its comments. -/
def lexemes (tokenTable : List LexemeEntry) : List LexemeEntry :=
  tokenTable.filter fun entry => entry.type ≠ .commentsym

/-- The current token is this lexeme. -/
structure Delivers (this : TokenReader) (entry : LexemeEntry) : Prop where
  token : this.Is entry.type
  spelling : entry.type = .identsym → this.cTokenVal = .string entry.buffer
  value : entry.type = .numbersym → this.cTokenVal = .numeric (decimalValue entry.buffer)

/-- An entry of the scanner: what is printed with it is a name or a number. -/
inductive IsEntry (entry : LexemeEntry) : Prop
  | ident (type : entry.type = .identsym) (printed : entry.printable = true)
      (word : IsIdent entry.buffer) (short : entry.buffer.length ≤ maxIdentLength)
  | number (type : entry.type = .numbersym) (printed : entry.printable = true)
      (word : IsNumber entry.buffer) (short : entry.buffer.length ≤ maxNumberLength)
  | plain (notIdent : entry.type ≠ .identsym) (notNumber : entry.type ≠ .numbersym)
      (bare : entry.printable = false)

theorem digitsValue_eq (word : Name) : digitsValue word = decimalValue word := by
  unfold digitsValue decimalValue
  rw [List.foldl_eq_foldr_reverse, Nat.ofDigits_eq_foldr, List.foldr_map]
  simp only [Nat.cast_id, Nat.add_comm]

theorem isDigit_digit {digit : Nat} (small : digit < 10) :
    isDigit (UInt8.ofNat (48 + digit)) = true := by
  revert digit
  decide

theorem digit_value {digit : Nat} (small : digit < 10) :
    (UInt8.ofNat (48 + digit)).toNat - 48 = digit := by
  revert digit
  decide

theorem printDecimal_digits (value : Nat) :
    printDecimal value ≠ [] ∧ ∀ c ∈ printDecimal value, isDigit c = true := by
  unfold printDecimal
  split
  · exact ⟨List.cons_ne_nil _ _, by simp; rfl⟩
  · rename_i positive
    constructor
    · simpa [Nat.digits_eq_nil_iff_eq_zero] using positive
    · intro c member
      obtain ⟨digit, of, rfl⟩ := List.mem_map.mp member
      exact isDigit_digit (Nat.digits_lt_base (by decide) (List.mem_reverse.mp of))

/-- `%d` reads what `%d` prints. -/
theorem digitsValue_printDecimal (value : Nat) : digitsValue (printDecimal value) = value := by
  rw [digitsValue_eq]
  unfold decimalValue printDecimal
  split
  · rename_i zero
    rw [zero]
    rfl
  · rw [← List.map_reverse, List.reverse_reverse, List.map_map]
    have same : (Nat.digits 10 value).map
        ((fun c => c.toNat - 48) ∘ fun digit => UInt8.ofNat (48 + digit)) =
          Nat.digits 10 value := by
      conv_rhs => rw [← List.map_id (Nat.digits 10 value)]
      apply List.map_congr_left
      intro digit member
      exact digit_value (Nat.digits_lt_base (by decide) member)
    rw [same, Nat.ofDigits_digits]

theorem isDigit_not_space {c : UInt8} (digit : isDigit c = true) : isSpace c = false :=
  (isDigit_not_blank digit).1

theorem isDigit_not_sign {c : UInt8} (digit : isDigit c = true) : c ≠ 43 ∧ c ≠ 45 := by
  constructor
  · rintro rfl
    cases digit
  · rintro rfl
    cases digit

theorem takeClass_word {belongs : UInt8 → Bool} {word : Name} {sep : UInt8} {more : List UInt8}
    (inside : ∀ c ∈ word, belongs c = true) (stops : belongs sep = false) :
    TextFile.takeClass ⟨word ++ sep :: more, false⟩ belongs = (word, ⟨sep :: more, false⟩) := by
  have stop : ¬ belongs sep = true := by
    rw [stops]
    exact Bool.false_ne_true
  unfold TextFile.takeClass
  rw [List.takeWhile_append_of_pos inside, List.dropWhile_append_of_pos inside,
    List.takeWhile_cons_of_neg stop, List.dropWhile_cons_of_neg stop, List.append_nil]
  rfl

theorem skipSpace_blank (more : List UInt8) (eof : Bool) :
    TextFile.skipSpace ⟨32 :: more, eof⟩ = TextFile.skipSpace ⟨more, eof⟩ := by
  rfl

theorem skipSpace_word {first : UInt8} (more : List UInt8) (word : isSpace first = false) :
    TextFile.skipSpace ⟨first :: more, false⟩ = ⟨first :: more, false⟩ := by
  have stop : ¬ isSpace first = true := by
    rw [word]
    exact Bool.false_ne_true
  unfold TextFile.skipSpace TextFile.takeClass
  rw [List.dropWhile_cons_of_neg stop]
  rfl

theorem takeSign_digit {first : UInt8} (more : List UInt8) (eof : Bool)
    (digit : isDigit first = true) :
    TextFile.takeSign ⟨first :: more, eof⟩ = (1, ⟨first :: more, eof⟩) := by
  obtain ⟨noPlus, noMinus⟩ := isDigit_not_sign digit
  unfold TextFile.takeSign
  split
  · rename_i whole
    exact absurd (List.cons.inj whole).1 noPlus
  · rename_i whole
    exact absurd (List.cons.inj whole).1 noMinus
  · rfl

/-- A number with a blank behind it. -/
theorem scanfInt_word {digits : Name} (number : IsNumber digits) (more : List UInt8)
    (small : (digitsValue digits : Int) ≤ intMax) :
    scanfInt ⟨digits ++ 32 :: more, false⟩ =
      .ok (some (digitsValue digits), TextFile.skipSpace ⟨more, false⟩) := by
  obtain ⟨nonempty, digit⟩ := number
  have inInt : InInt (digitsValue digits) :=
    ⟨Int.le_trans (by decide) (Int.natCast_nonneg _), small⟩
  obtain ⟨first, others, rfl⟩ := List.exists_cons_of_ne_nil nonempty
  have firstDigit := digit first List.mem_cons_self
  unfold scanfInt
  rw [List.cons_append, skipSpace_word _ (isDigit_not_space firstDigit)]
  simp only [takeSign_digit _ _ firstDigit]
  rw [← List.cons_append, takeClass_word digit (by rfl)]
  simp only [if_neg nonempty, Int.one_mul, if_pos inInt, skipSpace_blank]

/-- A name with a blank behind it. -/
theorem scanfString_word {word : Name} (ident : IsIdent word)
    (short : word.length ≤ maxIdentLength) (more : List UInt8) :
    scanfString ⟨word ++ 32 :: more, false⟩ =
      .ok (some word, TextFile.skipSpace ⟨more, false⟩) := by
  have inside : ∀ c ∈ word, (!isSpace c) = true := by
    intro c member
    rw [isAlnum_not_space (ident.alnum c member)]
    rfl
  obtain ⟨first, others, rfl, alpha, -⟩ := ident
  unfold scanfString
  rw [List.cons_append, skipSpace_word _ (isAlpha_not_blank alpha).1, ← List.cons_append,
    takeClass_word inside (by rfl)]
  simp only [if_neg (List.cons_ne_nil first others), if_pos (Nat.lt_succ_of_le short),
    skipSpace_blank]

theorem printDecimal_isNumber (value : Nat) : IsNumber (printDecimal value) :=
  printDecimal_digits value

theorem outputLexme_cons (entry : LexemeEntry) (rest : List LexemeEntry) :
    outputLexme (entry :: rest) = outputEntry entry ++ outputLexme rest :=
  List.flatMap_cons

/-- What is printed for an entry begins with the code of its token. -/
theorem outputEntry_code (entry : LexemeEntry) : ∃ more, outputEntry entry =
    printDecimal entry.type.toNat ++ 32 :: more ∧
      more = if entry.printable then entry.buffer ++ [32] else [] := by
  refine ⟨_, ?_, rfl⟩
  unfold outputEntry
  split
  · simp only [List.append_assoc, List.cons_append, List.nil_append]
  · rfl

/-- The white space behind an entry ends where the next one begins; behind the last entry
it is the end of the file. -/
theorem skipSpace_outputLexme (tokenTable : List LexemeEntry) :
    TextFile.skipSpace ⟨outputLexme tokenTable, false⟩ =
      ⟨outputLexme tokenTable, tokenTable.isEmpty⟩ := by
  cases tokenTable with
  | nil => rfl
  | cons entry rest =>
      obtain ⟨more, spelled, -⟩ := outputEntry_code entry
      obtain ⟨nonempty, digit⟩ := printDecimal_digits entry.type.toNat
      obtain ⟨first, others, code⟩ := List.exists_cons_of_ne_nil nonempty
      rw [outputLexme_cons, spelled, code, List.cons_append, List.cons_append]
      exact skipSpace_word _
        (isDigit_not_space (digit first (by rw [code]; exact List.mem_cons_self)))

theorem token_small (token : Token) : (token.toNat : Int) ≤ intMax := by
  cases token <;> decide

theorem decimalValue_lt {word : Name} (number : IsNumber word)
    (short : word.length ≤ maxNumberLength) : decimalValue word < 10 ^ maxNumberLength := by
  have digit : ∀ d ∈ word.reverse.map fun c => c.toNat - 48, d < 10 := by
    intro d member
    obtain ⟨c, of, rfl⟩ := List.mem_map.mp member
    have isDigit := number.2 c (List.mem_reverse.mp of)
    simp only [Pl0.isDigit, UInt8.le_iff_toNat_le, UInt8.toNat_ofNat, decide_eq_true_eq] at isDigit
    omega
  have bound := Nat.ofDigits_lt_base_pow_length (by decide) digit
  rw [List.length_map, List.length_reverse] at bound
  exact Nat.lt_of_lt_of_le bound (Nat.pow_le_pow_right (by decide) short)

theorem decimalValue_small {word : Name} (number : IsNumber word)
    (short : word.length ≤ maxNumberLength) : (decimalValue word : Int) ≤ intMax := by
  have bound : decimalValue word < 10 ^ 6 := decimalValue_lt number short
  unfold intMax
  omega

/-- The reader is in front of these lexemes, or at the end of the file behind the last. -/
def Unread (this : TokenReader) (tokenTable : List LexemeEntry) : Prop :=
  this.tokenFile = ⟨outputLexme tokenTable, tokenTable.isEmpty⟩

theorem TokenReader.readCode_token {this : TokenReader} {token : Token} {more : List UInt8}
    (text : this.tokenFile = ⟨printDecimal token.toNat ++ 32 :: more, false⟩) :
    this.readCode = .ok { this with
      tokenFile := TextFile.skipSpace ⟨more, false⟩, cToken := token.toNat } := by
  have value := digitsValue_printDecimal token.toNat
  have scanned := scanfInt_word (printDecimal_isNumber token.toNat) more
    (by rw [value]; exact token_small token)
  unfold readCode
  rw [text, Except.bind_of_ok scanned, value]
  rfl

theorem TokenReader.readString_word {this : TokenReader} {word : Name} {more : List UInt8}
    (ident : IsIdent word) (short : word.length ≤ maxIdentLength)
    (text : this.tokenFile = ⟨word ++ 32 :: more, false⟩) :
    this.readString = .ok { this with
      tokenFile := TextFile.skipSpace ⟨more, false⟩, cTokenVal := .string word } := by
  unfold readString
  rw [text, Except.bind_of_ok (scanfString_word ident short more)]
  rfl

theorem TokenReader.readNumeric_word {this : TokenReader} {word : Name} {more : List UInt8}
    (number : IsNumber word) (short : word.length ≤ maxNumberLength)
    (text : this.tokenFile = ⟨word ++ 32 :: more, false⟩) :
    this.readNumeric = .ok { this with
      tokenFile := TextFile.skipSpace ⟨more, false⟩
      cTokenVal := .numeric (decimalValue word) } := by
  have value := digitsValue_eq word
  have scanned := scanfInt_word number more
    (by rw [value]; exact decimalValue_small number short)
  unfold readNumeric
  rw [text, Except.bind_of_ok scanned, value]
  rfl

theorem TokenReader.is_iff {this : TokenReader} {type token : Token}
    (read : this.cToken = type.toNat) : this.Is token ↔ type = token := by
  unfold Is
  rw [read, Int.natCast_inj]
  exact Token.toNat_injective.eq_iff

theorem TokenReader.readToken_entry {this : TokenReader} {entry : LexemeEntry}
    {rest : List LexemeEntry} (unread : Unread this (entry :: rest)) (is : IsEntry entry) :
    ∃ next, this.readToken = .ok next ∧ Unread next rest ∧ Delivers next entry := by
  obtain ⟨more, spelled, shape⟩ := outputEntry_code entry
  have text : this.tokenFile =
      ⟨printDecimal entry.type.toNat ++ 32 :: (more ++ outputLexme rest), false⟩ := by
    rw [unread, outputLexme_cons, spelled, List.append_assoc, List.cons_append]
    rfl
  obtain ⟨coded, read, file, code⟩ : ∃ coded, this.readCode = .ok coded ∧
      coded.tokenFile = TextFile.skipSpace ⟨more ++ outputLexme rest, false⟩ ∧
      coded.cToken = entry.type.toNat := ⟨_, readCode_token text, rfl, rfl⟩
  unfold readToken
  rw [Except.bind_of_ok read]
  cases is with
  | ident type printed word short =>
      have behind : coded.tokenFile = ⟨entry.buffer ++ 32 :: outputLexme rest, false⟩ := by
        obtain ⟨first, others, spelling, alpha, -⟩ := id word
        rw [file, shape, if_pos printed, spelling, List.append_assoc, List.singleton_append]
        exact skipSpace_word _ (isAlpha_not_blank alpha).1
      rw [if_pos ((is_iff code).mpr type),
        Except.bind_of_ok (readString_word word short behind)]
      dsimp only
      rw [if_neg]
      · refine ⟨_, rfl, skipSpace_outputLexme rest, ⟨code, fun _ => rfl, fun number => ?_⟩⟩
        rw [type] at number
        cases number
      · intro isNumber
        have same : coded.Is .numbersym := isNumber
        rw [is_iff code, type] at same
        cases same
  | number type printed word short =>
      have behind : coded.tokenFile = ⟨entry.buffer ++ 32 :: outputLexme rest, false⟩ := by
        obtain ⟨first, others, spelling⟩ := List.exists_cons_of_ne_nil word.1
        rw [file, shape, if_pos printed, spelling, List.append_assoc, List.singleton_append]
        exact skipSpace_word _
          (isDigit_not_space (word.2 first (by rw [spelling]; exact List.mem_cons_self)))
      have noName : ¬ coded.Is .identsym := by
        rw [is_iff code, type]
        decide
      rw [if_neg noName, Except.bind_of_ok (show pure coded = Except.ok coded from rfl)]
      dsimp only
      rw [if_pos ((is_iff code).mpr type)]
      refine ⟨_, readNumeric_word word short behind, skipSpace_outputLexme rest,
        ⟨code, fun ident => ?_, fun _ => rfl⟩⟩
      rw [type] at ident
      cases ident
  | plain notIdent notNumber bare =>
      rw [if_neg fun ident => notIdent ((is_iff code).mp ident),
        Except.bind_of_ok (show pure coded = Except.ok coded from rfl)]
      dsimp only
      rw [if_neg fun number => notNumber ((is_iff code).mp number)]
      refine ⟨coded, rfl, ?_, ⟨code, fun ident => absurd ident notIdent,
        fun number => absurd number notNumber⟩⟩
      unfold Unread
      rw [file, shape, if_neg (by rw [bare]; exact Bool.false_ne_true), List.nil_append]
      exact skipSpace_outputLexme rest

/-- The answer of one call of `getToken` in front of these lexemes. -/
inductive Served (next : TokenReader) (tokenTable : List LexemeEntry) : Prop
  | lexeme (entry : LexemeEntry) (rest : List LexemeEntry) (unread : Unread next rest)
      (suffix : rest <:+ tokenTable) (same : lexemes tokenTable = entry :: lexemes rest)
      (delivers : Delivers next entry)
  | nul (none : lexemes tokenTable = []) (unread : Unread next []) (token : next.Is .nulsym)

theorem Served.comment {next : TokenReader} {entry : LexemeEntry} {rest : List LexemeEntry}
    (served : Served next rest) (comment : entry.type = .commentsym) :
    Served next (entry :: rest) := by
  have without : lexemes (entry :: rest) = lexemes rest :=
    List.filter_cons_of_neg (by simp [comment])
  cases served with
  | lexeme first later unread suffix same delivers =>
      exact .lexeme first later unread (suffix.trans (List.suffix_cons entry rest))
        (without.trans same) delivers
  | nul none unread token => exact .nul (without.trans none) unread token

theorem TokenReader.getToken_eof {this : TokenReader} (fuel : Nat) (unread : Unread this []) :
    ∃ next, this.getToken (fuel + 1) = .ok (some next) ∧ Served next [] := by
  have atEnd : this.tokenFile.eof = true := by
    rw [unread]
    rfl
  refine ⟨{ this with cToken := Token.nulsym.toNat }, ?_, .nul rfl unread rfl⟩
  rw [getToken, if_pos atEnd]

/-- One turn of `getToken` in front of an entry. -/
theorem TokenReader.getToken_entry {this : TokenReader} {entry : LexemeEntry}
    {rest : List LexemeEntry} (fuel : Nat) (unread : Unread this (entry :: rest))
    (is : IsEntry entry) : ∃ next, Unread next rest ∧ Delivers next entry ∧
      this.getToken (fuel + 1) =
        if entry.type = .commentsym then next.getToken fuel else .ok (some next) := by
  obtain ⟨next, read, behind, delivers⟩ := readToken_entry unread is
  have open_ : ¬ this.tokenFile.eof = true := by
    rw [unread]
    exact Bool.false_ne_true
  refine ⟨next, behind, delivers, ?_⟩
  rw [getToken, if_neg open_, Except.bind_of_ok read]
  by_cases comment : entry.type = .commentsym
  · rw [if_pos comment, if_pos ((is_iff delivers.token).mpr comment)]
  · rw [if_neg comment, if_neg fun here => comment ((is_iff delivers.token).mp here)]
    rfl

/-- One call of `getToken`, by recursion over the comments in front of the lexeme. -/
theorem TokenReader.getToken_serves {tokenTable : List LexemeEntry}
    (entries : ∀ entry ∈ tokenTable, IsEntry entry) :
    ∀ {this : TokenReader} (fuel : Nat), Unread this tokenTable → tokenTable.length + 1 ≤ fuel →
      ∃ next, this.getToken fuel = .ok (some next) ∧ Served next tokenTable := by
  induction tokenTable with
  | nil =>
      intro this fuel unread enough
      obtain ⟨fuel, rfl⟩ : ∃ less, fuel = less + 1 := ⟨fuel - 1, by omega⟩
      exact getToken_eof fuel unread
  | cons entry rest ih =>
      intro this fuel unread enough
      rw [List.length_cons] at enough
      obtain ⟨fuel, rfl⟩ : ∃ less, fuel = less + 1 := ⟨fuel - 1, by omega⟩
      obtain ⟨next, behind, delivers, turned⟩ :=
        getToken_entry fuel unread (entries entry List.mem_cons_self)
      rw [turned]
      by_cases comment : entry.type = .commentsym
      · obtain ⟨last, called, served⟩ :=
          ih (fun e member => entries e (List.mem_cons_of_mem _ member)) fuel behind (by omega)
        rw [if_pos comment]
        exact ⟨last, called, served.comment comment⟩
      · rw [if_neg comment]
        refine ⟨next, rfl, .lexeme entry rest behind (List.suffix_cons entry rest) ?_ delivers⟩
        exact List.filter_cons_of_pos (by simp [comment])

/-- The current token after a call, when these lexemes were to come. -/
def Answers (next : TokenReader) : Option LexemeEntry → Prop
  | some entry => Delivers next entry
  | none => next.Is .nulsym

/-- The calls of `getToken` deliver the lexemes one by one, and then `nulsym`. -/
theorem TokenReader.getTokens_answers {fuel : Nat} (calls : Nat) :
    ∀ {tokenTable : List LexemeEntry} {this : TokenReader},
      (∀ entry ∈ tokenTable, IsEntry entry) → Unread this tokenTable →
        tokenTable.length + 1 ≤ fuel →
          ∃ next, this.getTokens fuel (calls + 1) = .ok (some next) ∧
            Answers next (lexemes tokenTable)[calls]? := by
  induction calls with
  | zero =>
      intro tokenTable this entries unread enough
      obtain ⟨next, called, served⟩ := getToken_serves entries fuel unread enough
      refine ⟨next, by rw [getTokens, Except.bind_of_ok called]; rfl, ?_⟩
      cases served with
      | lexeme entry rest unread suffix same delivers =>
          rw [same]
          exact delivers
      | nul none unread token =>
          rw [none]
          exact token
  | succ calls ih =>
      intro tokenTable this entries unread enough
      obtain ⟨next, called, served⟩ := getToken_serves entries fuel unread enough
      rw [getTokens, Except.bind_of_ok called]
      cases served with
      | lexeme entry rest unread suffix same delivers =>
          obtain ⟨last, calledOn, answers⟩ := ih
            (fun entry member => entries entry (suffix.subset member)) unread
            (Nat.le_trans (Nat.succ_le_succ suffix.length_le) enough)
          refine ⟨last, calledOn, ?_⟩
          rw [same, List.getElem?_cons_succ]
          exact answers
      | nul none unread token =>
          obtain ⟨last, calledOn, answers⟩ := ih (by simp) unread
            (Nat.le_trans (Nat.succ_le_succ (Nat.zero_le _)) enough)
          refine ⟨last, calledOn, ?_⟩
          rw [none]
          exact answers

/-- The token that the parser makes of a lexeme. -/
def tokenOf (entry : LexemeEntry) : CurrentToken :=
  if entry.type = .identsym then .ident entry.buffer
  else if entry.type = .numbersym then .number (decimalValue entry.buffer)
  else .word entry.type

theorem tokenOf_cToken (entry : LexemeEntry) : (tokenOf entry).cToken = entry.type := by
  unfold tokenOf
  split
  · rename_i ident
    exact ident.symm
  · split
    · rename_i number
      exact number.symm
    · rfl

/-- The reader holds this token. -/
structure ReadAs (reader : TokenReader) (token : CurrentToken) : Prop where
  code : reader.Is token.cToken
  spelling : token.cToken = .identsym → reader.cTokenVal = .string token.string
  value : token.cToken = .numbersym → reader.cTokenVal = .numeric token.numeric

/-- The reader and the parser's state stand in front of the same lexemes, with the same
current token. -/
structure Agrees (tokenTable : List LexemeEntry) (reader : TokenReader) (s : ParseState) :
    Prop where
  unread : Unread reader tokenTable
  tokens : s.tokenFile = tokenTable.map tokenOf
  feof : s.feof = tokenTable.isEmpty
  token : ReadAs reader s.curToken

theorem readAs_nul {reader : TokenReader} {token : CurrentToken} (nul : token.cToken = .nulsym)
    (code : reader.Is .nulsym) : ReadAs reader token := by
  refine ⟨by rw [nul]; exact code, fun ident => ?_, fun number => ?_⟩
  · rw [nul] at ident
    cases ident
  · rw [nul] at number
    cases number

theorem Delivers.readAs {reader : TokenReader} {entry : LexemeEntry}
    (delivers : Delivers reader entry) : ReadAs reader (tokenOf entry) := by
  constructor
  · rw [tokenOf_cToken]
    exact delivers.token
  · rw [tokenOf_cToken]
    intro ident
    rw [delivers.spelling ident, tokenOf, if_pos ident]
    rfl
  · rw [tokenOf_cToken]
    intro number
    have notIdent : entry.type ≠ .identsym := by
      rw [number]
      decide
    rw [delivers.value number, tokenOf, if_neg notIdent, if_pos number]
    rfl

/-- Reading the file passes over the same comments as reading the list of its tokens. -/
theorem TokenReader.getToken_scans {rest : List LexemeEntry} :
    ∀ {entry : LexemeEntry} {this : TokenReader} {cur : CurrentToken} {fuel : Nat},
      (∀ e ∈ entry :: rest, IsEntry e) → Unread this (entry :: rest) → rest.length + 2 ≤ fuel →
        ∃ next left, this.getToken fuel = .ok (some next) ∧ left <:+ entry :: rest ∧
          Unread next left ∧
          (scanToken ((entry :: rest).map tokenOf) cur).2 = left.map tokenOf ∧
          ReadAs next (scanToken ((entry :: rest).map tokenOf) cur).1 := by
  induction rest with
  | nil =>
      intro entry this cur fuel entries unread enough
      rw [List.length_nil] at enough
      obtain ⟨fuel, rfl⟩ : ∃ less, fuel = less + 2 := ⟨fuel - 2, by omega⟩
      obtain ⟨next, behind, delivers, turned⟩ :=
        getToken_entry (fuel + 1) unread (entries entry List.mem_cons_self)
      rw [turned, List.map_cons, List.map_nil, scanToken, tokenOf_cToken]
      by_cases comment : entry.type = .commentsym
      · obtain ⟨last, called, served⟩ := getToken_eof fuel behind
        simp only [if_pos comment, if_true]
        cases served with
        | lexeme entry rest unread suffix same delivers => cases same
        | nul none unread token =>
            exact ⟨last, [], called, List.nil_suffix, unread, rfl, readAs_nul rfl token⟩
      · simp only [if_neg comment]
        exact ⟨next, [], rfl, List.nil_suffix, behind, rfl, delivers.readAs⟩
  | cons later rest ih =>
      intro entry this cur fuel entries unread enough
      rw [List.length_cons] at enough
      obtain ⟨fuel, rfl⟩ : ∃ less, fuel = less + 1 := ⟨fuel - 1, by omega⟩
      obtain ⟨next, behind, delivers, turned⟩ :=
        getToken_entry fuel unread (entries entry List.mem_cons_self)
      rw [turned, List.map_cons, scanToken, tokenOf_cToken]
      by_cases comment : entry.type = .commentsym
      · obtain ⟨last, left, called, suffix, unread, remaining, token⟩ :=
          @ih later next (tokenOf entry) fuel
            (fun e member => entries e (List.mem_cons_of_mem _ member)) behind (by omega)
        rw [if_pos comment, if_pos comment, if_neg (by simp)]
        exact ⟨last, left, called, suffix.trans (List.suffix_cons _ _), unread, remaining, token⟩
      · rw [if_neg comment, if_neg comment]
        exact ⟨next, later :: rest, rfl, List.suffix_cons _ _, behind, rfl, delivers.readAs⟩

/-- Reading the file is reading the list of its tokens. -/
theorem TokenReader.getToken_agrees {tokenTable : List LexemeEntry}
    (entries : ∀ entry ∈ tokenTable, IsEntry entry) {this : TokenReader} {s : ParseState}
    (agrees : Agrees tokenTable this s) {fuel : Nat} (enough : tokenTable.length + 1 ≤ fuel) :
    ∃ next rest s', this.getToken fuel = .ok (some next) ∧ rest <:+ tokenTable ∧
      Pl0.getToken s = .ok () s' ∧ Agrees rest next s' := by
  cases tokenTable with
  | nil =>
      obtain ⟨fuel, rfl⟩ : ∃ less, fuel = less + 1 := ⟨fuel - 1, by omega⟩
      obtain ⟨next, called, served⟩ := getToken_eof fuel agrees.unread
      have atEnd : s.feof = true := agrees.feof
      cases served with
      | lexeme entry rest unread suffix same delivers => cases same
      | nul none unread token =>
          have stepped : Pl0.getToken s = .ok ()
              { s with curToken := { s.curToken with cToken := .nulsym } } := by
            unfold Pl0.getToken
            rw [StateExcept.modify_eq_ok, if_pos atEnd]
          exact ⟨next, [], _, called, List.suffix_rfl, stepped, unread, agrees.tokens,
            agrees.feof, readAs_nul rfl token⟩
  | cons entry rest =>
      have open_ : ¬ s.feof = true := by
        rw [agrees.feof]
        exact Bool.false_ne_true
      obtain ⟨next, left, called, suffix, unread, remaining, token⟩ :=
        @getToken_scans rest entry this s.curToken fuel entries agrees.unread enough
      rw [← agrees.tokens] at remaining token
      have stepped : Pl0.getToken s = .ok () { s with
          curToken := (scanToken s.tokenFile s.curToken).1
          tokenFile := (scanToken s.tokenFile s.curToken).2
          feof := (scanToken s.tokenFile s.curToken).2.isEmpty } := by
        unfold Pl0.getToken
        rw [StateExcept.modify_eq_ok, if_neg open_]
      refine ⟨next, left, _, called, suffix, stepped, unread, remaining, ?_, token⟩
      show (scanToken s.tokenFile s.curToken).2.isEmpty = left.isEmpty
      rw [remaining, List.isEmpty_map]

/-- What the scanner puts into its list for a lexeme. -/
theorem entryOf_isEntry {type : Token} {word : Name} (lexeme : IsLexeme type word)
    {entry : LexemeEntry} (member : entryOf type word = some entry) : IsEntry entry := by
  unfold entryOf at member
  rcases lexeme with ⟨rfl, ident, short⟩ | ⟨rfl, number, short⟩ | ⟨plain, -, -⟩
  · rw [if_pos rfl, identEntry] at member
    split at member
    · cases member
    · rename_i token notNull found
      obtain rfl := Option.some.inj member
      exact .plain (resWord_reserved found).1 (resWord_reserved found).2 rfl
    · obtain rfl := Option.some.inj member
      exact .ident rfl rfl ident short
  · rw [if_neg (by decide)] at member
    obtain rfl := Option.some.inj member
    exact .number rfl rfl number short
  · rw [if_neg plain.2.1] at member
    obtain rfl := Option.some.inj member
    exact .plain plain.2.1 plain.2.2 (decide_eq_false plain.2.2)

/-- What holds of the entry of every lexeme. -/
def EachEntry (P : LexemeEntry → Prop) : Prop :=
  ∀ {type : Token} {word : Name}, IsLexeme type word →
    ∀ {entry : LexemeEntry}, entryOf type word = some entry → P entry

theorem feed_meets {P : LexemeEntry → Prop} (each : EachEntry P) {dfa : Dfa}
    (pending : Pending dfa) (c : UInt8) (entries : ∀ entry ∈ dfa.tokenTable, P entry) :
    ∃ next, feed dfa c = .ok next ∧ Pending next ∧ ∀ entry ∈ next.tokenTable, P entry := by
  obtain ⟨next, fed, settled, same | ⟨type, word, lexeme, same⟩⟩ := pending.feeds c
  · refine ⟨next, fed, settled, ?_⟩
    rw [same]
    exact entries
  · refine ⟨next, fed, settled, ?_⟩
    rw [same]
    intro entry member
    rcases List.mem_append.mp member with before | added
    · exact entries entry before
    · exact each lexeme (Option.mem_toList.mp added)

theorem readText_meets {P : LexemeEntry → Prop} (each : EachEntry P) (text : List UInt8) :
    ∀ {dfa : Dfa}, Pending dfa → (∀ entry ∈ dfa.tokenTable, P entry) →
      ∃ fed, text.foldlM feed dfa = .ok fed ∧ ∀ entry ∈ fed.tokenTable, P entry := by
  induction text with
  | nil => exact fun pending entries => ⟨_, rfl, entries⟩
  | cons c more ih =>
      intro dfa pending entries
      obtain ⟨next, fed, settled, entries⟩ := feed_meets each pending c entries
      rw [List.foldlM_cons, Except.bind_of_ok fed]
      exact ih settled entries

/-- What holds of the entry of every lexeme holds of every list of the scanner. -/
theorem scannerRun_meets {P : LexemeEntry → Prop} (each : EachEntry P) {fuel : Nat}
    {text : List UInt8} {tokenTable : List LexemeEntry}
    (scanned : scannerRun fuel text = .ok (some tokenTable)) : ∀ entry ∈ tokenTable, P entry := by
  obtain ⟨dfa, read, -, rfl⟩ := readText_of_scannerRun scanned
  obtain ⟨fed, same, entries⟩ := readText_meets each text (pending_reset dfaInit) (by
    intro entry member
    cases member)
  rw [Except.ok.inj (read.symm.trans same)]
  exact entries

/-- Every list of the scanner holds names, numbers and bare tokens. -/
theorem scannerRun_entries {fuel : Nat} {text : List UInt8} {tokenTable : List LexemeEntry}
    (scanned : scannerRun fuel text = .ok (some tokenTable)) :
    ∀ entry ∈ tokenTable, IsEntry entry :=
  scannerRun_meets entryOf_isEntry scanned

/-- The calls of `getToken` on the file of a list the scanner built deliver the lexemes of
the list without its comments, and then `nulsym`. -/
theorem token_file_round_trip {fuel turns : Nat} {text : List UInt8}
    {tokenTable : List LexemeEntry} (scanned : scannerRun turns text = .ok (some tokenTable))
    (nonempty : tokenTable ≠ []) (cToken : Int) (cTokenVal : TokenVal)
    (enough : tokenTable.length + 1 ≤ fuel) (calls : Nat) :
    ∃ next, (TokenReader.opened (outputLexme tokenTable) cToken cTokenVal).getTokens fuel
        (calls + 1) = .ok (some next) ∧ Answers next (lexemes tokenTable)[calls]? := by
  refine TokenReader.getTokens_answers calls (scannerRun_entries scanned) ?_ enough
  unfold Unread
  rw [List.isEmpty_eq_false_iff.mpr nonempty]
  rfl

/-- The text `x 12 `, read to its end and beyond. -/
theorem token_file_round_trip_words : ∃ next,
    (TokenReader.opened (outputLexme [⟨.identsym, [120], true⟩, ⟨.numbersym, [49, 50], true⟩])
      0 (.numeric 0)).getTokens 3 2 = .ok (some next) ∧ Answers next
        (lexemes [⟨.identsym, [120], true⟩, ⟨.numbersym, [49, 50], true⟩])[1]? :=
  @token_file_round_trip 3 20 [120, 32, 49, 50, 32]
    [⟨.identsym, [120], true⟩, ⟨.numbersym, [49, 50], true⟩] (by rfl) (by decide) 0 (.numeric 0)
    (by decide) 1

end Pl0
