import Mathlib.Data.Nat.Digits.Lemmas
import Pl0.TokenFile
import Pl0.Tokenization

set_option autoImplicit false

namespace Pl0

open LongestMatch

/- Texts that are put together from words so that the scanner cuts them into the same
words again. -/

theorem Lexical.digit_first {c : UInt8} {more : List UInt8} (lexical : Lexical (c :: more))
    (digit : isDigit c = true) : IsNumber (c :: more) := by
  cases lexical with
  | blank is =>
      obtain ⟨d, whole, blank⟩ := is
      injection whole with same
      subst same
      simp [isDigit_not_blank digit] at blank
  | comment is =>
      obtain ⟨body, whole, -⟩ := is
      injection whole with same
      subst same
      cases digit
  | ident is =>
      obtain ⟨first, others, whole, alpha, -⟩ := is
      injection whole with same
      subst same
      rw [isAlpha_not_digit alpha] at digit
      cases digit
  | number is => exact is
  | operator token is =>
      unfold operatorToken at is
      split at is
      all_goals
        rename_i whole
        first
        | (injection whole with same
           subst same
           cases digit)
        | cases is

/-- The operators of two characters end with an equals or a greater sign. -/
theorem operatorToken_shape {word : List UInt8} {token : Token}
    (is : operatorToken word = some token) :
    (∃ c, word = [c]) ∨ ∃ c d, word = [c, d] ∧ (d = 61 ∨ d = 62) := by
  unfold operatorToken at is
  split at is
  all_goals first
    | exact .inl ⟨_, rfl⟩
    | exact .inr ⟨_, _, rfl, by decide⟩
    | cases is

/-- A word that begins like an operator is one, or a comment. -/
theorem Lexical.operator_first {word longer : List UInt8} {token : Token}
    (operator : operatorToken word = some token) (lexical : Lexical longer)
    (starts : longer.head? = word.head?) :
    (∃ token, operatorToken longer = some token) ∨ IsComment longer := by
  have checked : word.head?.any
      (fun c => !isSpace c && !isCntrl c && !isAlpha c && !isDigit c) = true := by
    unfold operatorToken at operator
    split at operator
    all_goals first | rfl | cases operator
  rw [← starts] at checked
  cases lexical with
  | blank is =>
      obtain ⟨c, rfl, blank⟩ := is
      rcases blank with space | cntrl
      · simp [space] at checked
      · simp [cntrl] at checked
  | comment is => exact .inr is
  | ident is =>
      obtain ⟨first, others, rfl, alpha, -⟩ := is
      simp [alpha] at checked
  | number is =>
      cases longer with
      | nil => exact absurd rfl is.1
      | cons c more =>
          have digit := is.2 c List.mem_cons_self
          simp [digit] at checked
  | operator token is => exact .inl ⟨token, is⟩

/-- A character that no word but a comment goes on with. -/
structure Soft (c : UInt8) : Prop where
  alnum : isAlnum c = false
  star : c ≠ 42
  equals : c ≠ 61
  greater : c ≠ 62

/-- The words that a program is printed with: blanks, names, numbers and operators. -/
inductive Piece (word : List UInt8) : Prop
  | blank (is : IsBlank word)
  | ident (is : IsIdent word) (short : word.length ≤ maxIdentLength)
  | number (is : IsNumber word) (short : word.length ≤ maxNumberLength)
  | operator (token : Token) (is : operatorToken word = some token)

theorem Piece.lexical {word : List UInt8} (piece : Piece word) : Lexical word := by
  cases piece with
  | blank is => exact .blank is
  | ident is short => exact .ident is
  | number is short => exact .number is
  | operator token is => exact .operator token is

theorem Piece.nonempty {word : List UInt8} (piece : Piece word) : word ≠ [] := by
  rintro rfl
  cases piece with
  | blank is =>
      obtain ⟨c, whole, -⟩ := is
      cases whole
  | ident is short =>
      obtain ⟨first, more, whole, -⟩ := is
      cases whole
  | number is short => exact is.1 rfl
  | operator token is => cases is

/-- An operator does not go on with a soft character, nor with a comment. -/
theorem operator_ends {word more : List UInt8} {token : Token} {c : UInt8}
    (operator : operatorToken word = some token) (soft : Soft c) :
    ¬ Lexical (word ++ c :: more) := by
  intro lexical
  rcases operatorToken_shape operator with ⟨d, rfl⟩ | ⟨d, e, rfl, ending⟩
  · rcases lexical.operator_first operator rfl with ⟨other, longer⟩ | ⟨body, whole, -⟩
    · rcases operatorToken_shape longer with ⟨_, whole⟩ | ⟨_, _, whole, equals | greater⟩
      · cases whole
      · cases whole
        exact soft.equals equals
      · cases whole
        exact soft.greater greater
    · injection whole with _ rest
      injection rest with star
      exact soft.star star
  · rcases lexical.operator_first operator rfl with ⟨other, longer⟩ | ⟨body, whole, -⟩
    · rcases operatorToken_shape longer with ⟨_, whole⟩ | ⟨_, _, whole, -⟩
      · cases whole
      · cases whole
    · injection whole with _ rest
      injection rest with star
      rw [star] at ending
      exact absurd ending (by decide)

/-- A word ends in front of a soft character. -/
theorem Piece.ends {word : List UInt8} (piece : Piece word) {c : UInt8} (soft : Soft c)
    (more : List UInt8) : ¬ Lexical (word ++ c :: more) := by
  intro lexical
  obtain ⟨first, others, rfl⟩ := List.exists_cons_of_ne_nil piece.nonempty
  have member : c ∈ first :: others ++ c :: more := by simp
  cases piece with
  | blank is =>
      obtain ⟨d, whole, blank⟩ := is
      cases whole
      cases lexical.blank_first blank
  | ident is short =>
      obtain ⟨d, tail, whole, alpha, -⟩ := is
      cases whole
      have alnum := (lexical.alpha_first alpha).alnum c member
      rw [soft.alnum] at alnum
      cases alnum
  | number is short =>
      have digit := (lexical.digit_first (is.2 first List.mem_cons_self)).2 c member
      have alnum := soft.alnum
      rw [isAlnum, digit, Bool.or_true] at alnum
      cases alnum
  | operator token is => exact operator_ends is soft lexical

/-- What separates words of any kind: a blank or a comma. -/
inductive Divides (word : List UInt8) : Prop
  | blank (is : IsBlank word)
  | comma (is : word = [44])

theorem Divides.piece {word : List UInt8} (divides : Divides word) : Piece word := by
  cases divides with
  | blank is => exact .blank is
  | comma is =>
      subst is
      exact .operator .commasym rfl

theorem Divides.ends {word : List UInt8} (divides : Divides word) (c : UInt8)
    (more : List UInt8) : ¬ Lexical (word ++ c :: more) := by
  intro lexical
  cases divides with
  | blank is =>
      obtain ⟨d, rfl, blank⟩ := is
      cases lexical.blank_first blank
  | comma is =>
      subst is
      have comma : operatorToken [44] = some .commasym := rfl
      rcases lexical.operator_first comma rfl with ⟨other, longer⟩ | ⟨body, whole, -⟩
      · simp [operatorToken] at longer
      · cases whole

/-- Words that the scanner keeps apart: between two of them is a blank, a comma or the soft
beginning of the second one. -/
def Chained : List (List UInt8) → Prop
  | [] => True
  | word :: words =>
      Piece word ∧ (∀ c ∈ words.flatten.head?, Divides word ∨ Soft c) ∧ Chained words

theorem Chained.append {first second : List (List UInt8)} (before : Chained first)
    (behind : Chained second) (soft : ∀ c ∈ second.flatten.head?, Soft c) :
    Chained (first ++ second) := by
  induction first with
  | nil => exact behind
  | cons word words ih =>
      obtain ⟨piece, apart, others⟩ := before
      refine ⟨piece, ?_, ih others⟩
      intro c here
      change c ∈ (words ++ second).flatten.head? at here
      rw [List.flatten_append, List.head?_append, Option.mem_def, Option.or_eq_some_iff] at here
      rcases here with inside | ⟨-, next⟩
      · exact apart c inside
      · exact .inr (soft c next)

theorem Chained.piece {words : List (List UInt8)} (chained : Chained words) :
    ∀ word ∈ words, Piece word := by
  induction words with
  | nil => exact fun _ none => nomatch none
  | cons word words ih =>
      intro other member
      rcases List.mem_cons.mp member with rfl | later
      · exact chained.1
      · exact ih chained.2.2 other later

/-- The words of a chain are the longest ones. -/
theorem Chained.tokenizes {words : List (List UInt8)} (chained : Chained words) :
    Tokenizes Lexical words.flatten words := by
  induction words with
  | nil => exact .nil
  | cons word words ih =>
      obtain ⟨piece, apart, others⟩ := chained
      refine .cons ?_ (ih others)
      refine longest_of_ends piece.lexical piece.nonempty fun c here more => ?_
      rcases apart c here with divides | soft
      · exact divides.ends c more
      · exact piece.ends soft more

theorem number_not_ident {word : List UInt8} (number : IsNumber word) : ¬ IsIdent word := by
  rintro ⟨first, more, rfl, alpha, -⟩
  have digit := number.2 first List.mem_cons_self
  rw [isAlpha_not_digit alpha] at digit
  cases digit

theorem operator_not_alnum {word : List UInt8} {token : Token}
    (operator : operatorToken word = some token) : ¬ IsIdent word ∧ ¬ IsNumber word := by
  have checked : word.any (fun c => !isAlnum c) = true := by
    unfold operatorToken at operator
    split at operator
    all_goals first | rfl | cases operator
  obtain ⟨c, member, other⟩ := List.any_eq_true.mp checked
  rw [Bool.not_eq_true'] at other
  constructor
  · intro ident
    rw [ident.alnum c member] at other
    cases other
  · intro number
    rw [isAlnum, number.2 c member, Bool.or_true] at other
    cases other

theorem soft_not_alpha {c : UInt8} (soft : Soft c) : isAlpha c = false := by
  have alnum := soft.alnum
  rw [isAlnum, Bool.or_eq_false_iff] at alnum
  exact alnum.1

theorem Chained.wellSeparated {words : List (List UInt8)} (chained : Chained words) :
    WellSeparated words := by
  induction words with
  | nil => trivial
  | cons word words ih =>
      obtain ⟨piece, apart, others⟩ := chained
      have softNext : ¬ Divides word → ∀ c ∈ words.flatten.head?, Soft c := fun hard c here =>
        (apart c here).resolve_left hard
      refine ⟨?_, ?_, ?_, ih others⟩
      · intro ident
        cases piece with
        | blank is =>
            obtain ⟨c, rfl, -⟩ := is
            exact Nat.le_add_left 1 10
        | ident is short => exact short
        | number is short => exact absurd ident (number_not_ident is)
        | operator token is => exact absurd ident (operator_not_alnum is).1
      · intro number
        obtain ⟨first, tail, rfl⟩ := List.exists_cons_of_ne_nil number.1
        have digit := number.2 first List.mem_cons_self
        have hard : ¬ Divides (first :: tail) := by
          rintro (⟨c, whole, blank⟩ | whole)
          · cases whole
            simp [isDigit_not_blank digit] at blank
          · cases whole
            cases digit
        refine ⟨?_, fun c here => soft_not_alpha (softNext hard c here)⟩
        cases piece with
        | blank is => exact absurd (.blank is) hard
        | ident is short => exact absurd is (number_not_ident number)
        | number is short => exact short
        | operator token is => exact absurd number (operator_not_alnum is).2
      · rintro rfl star
        have hard : ¬ Divides [47] := by
          rintro (⟨c, whole, blank⟩ | whole)
          · cases whole
            exact absurd blank (by decide)
          · cases whole
        exact (softNext hard 42 star).star rfl

/-- What the parser sees of a word. -/
def wordTokens (word : List UInt8) : List CurrentToken :=
  (lexemeOf word).toList.map tokenOf

/-- The text is a chain of words that make these tokens, and may stand behind any word. -/
def Cut (text : List UInt8) (tokens : List CurrentToken) : Prop :=
  ∃ words, words.flatten = text ∧ Chained words ∧ (∀ c ∈ text.head?, Soft c) ∧
    words.flatMap wordTokens = tokens

theorem cut_nil : Cut [] [] :=
  ⟨[], rfl, trivial, fun _ none => (nomatch none), rfl⟩

theorem Cut.append {first second : List UInt8} {tokens more : List CurrentToken}
    (before : Cut first tokens) (behind : Cut second more) :
    Cut (first ++ second) (tokens ++ more) := by
  obtain ⟨words, rfl, chained, soft, rfl⟩ := before
  obtain ⟨others, rfl, chained', soft', rfl⟩ := behind
  refine ⟨words ++ others, List.flatten_append, chained.append chained' soft', ?_,
    List.flatMap_append⟩
  intro c here
  rw [List.head?_append, Option.mem_def, Option.or_eq_some_iff] at here
  rcases here with inside | ⟨-, next⟩
  · exact soft c inside
  · exact soft' c next

/-- A word with a soft beginning. -/
theorem cut_word {word : List UInt8} (piece : Piece word) (soft : ∀ c ∈ word.head?, Soft c) :
    Cut word (wordTokens word) := by
  refine ⟨[word], List.flatten_singleton, ⟨piece, ?_, trivial⟩, soft, List.flatMap_singleton _ _⟩
  intro c none
  cases none

theorem blank_soft {c : UInt8} (blank : isSpace c = true ∨ isCntrl c = true) : Soft c := by
  constructor
  · cases alnum : isAlnum c with
    | false => rfl
    | true =>
        rcases Bool.or_eq_true_iff.mp alnum with alpha | digit
        · simp [isAlpha_not_blank alpha] at blank
        · simp [isDigit_not_blank digit] at blank
  all_goals
    rintro rfl
    exact absurd blank (by decide)

theorem divides_soft {c : UInt8} (divides : Divides [c]) : Soft c := by
  cases divides with
  | blank is =>
      obtain ⟨d, whole, blank⟩ := is
      cases whole
      exact blank_soft blank
  | comma is =>
      cases is
      exact ⟨rfl, by decide, by decide, by decide⟩

/-- A word behind a blank or a comma. -/
theorem cut_behind {c : UInt8} {word : List UInt8} (divides : Divides [c]) (piece : Piece word) :
    Cut (c :: word) (wordTokens [c] ++ wordTokens word) := by
  refine ⟨[[c], word], ?_, ⟨divides.piece, fun _ _ => .inl divides, piece, ?_, trivial⟩, ?_, ?_⟩
  · simp
  · intro _ none
    cases none
  · intro d here
    cases here
    exact divides_soft divides
  · simp

theorem isBlank_space : IsBlank [32] := ⟨32, rfl, .inl rfl⟩

theorem isBlank_newline : IsBlank [10] := ⟨10, rfl, .inl rfl⟩

theorem cut_space : Cut [32] [] :=
  cut_word (.blank isBlank_space) fun _ here => by
    cases here
    exact blank_soft (.inl rfl)

theorem cut_newline : Cut [10] [] :=
  cut_word (.blank isBlank_newline) fun _ here => by
    cases here
    exact blank_soft (.inl rfl)

/-- A word behind a space. -/
theorem cut_spaced {word : List UInt8} (piece : Piece word) :
    Cut (32 :: word) (wordTokens word) :=
  cut_behind (.blank isBlank_space) piece

/-- A reserved word but null. -/
theorem piece_keyword {word : List UInt8} {token : Token} (found : resWord.lookup word = some token)
    (named : token ≠ .nulsym) : Piece word ∧ wordTokens word = [.word token] := by
  have spelled : ∀ entry ∈ resWord, (entry.1.head?.any isAlpha && entry.1.all isAlnum &&
      decide (entry.1.length ≤ maxIdentLength)) = true := by
    decide
  obtain ⟨before, after, whole, -⟩ := List.lookup_eq_some_iff.mp found
  have member : (word, token) ∈ resWord := by
    rw [whole]
    simp
  have here := spelled _ member
  rw [Bool.and_eq_true, Bool.and_eq_true, decide_eq_true_eq] at here
  obtain ⟨⟨alpha, alnum⟩, short⟩ := here
  cases word with
  | nil => cases alpha
  | cons first more =>
      replace alpha : isAlpha first = true := alpha
      have members := List.all_eq_true.mp alnum
      refine ⟨.ident ⟨first, more, rfl, alpha, fun c is => members c (List.mem_cons_of_mem _ is)⟩
        short, ?_⟩
      obtain ⟨notIdent, notNumber⟩ := resWord_reserved found
      have entry : identEntry (first :: more) = some ⟨token, first :: more, false⟩ := by
        unfold identEntry
        rw [found]
        cases token <;> first | rfl | exact absurd rfl named
      rw [wordTokens, lexemeOf, if_pos alpha, entry]
      simp only [Option.toList_some, List.map_cons, List.map_nil, tokenOf, if_neg notIdent,
        if_neg notNumber]

theorem piece_operator {word : List UInt8} {token : Token}
    (operator : operatorToken word = some token) :
    Piece word ∧ wordTokens word = [.word token] := by
  refine ⟨.operator token operator, ?_⟩
  unfold operatorToken at operator
  split at operator
  all_goals first
    | (cases operator
       rfl)
    | cases operator

/-- A name that the scanner gives back as it is. -/
structure Spellable (name : Name) : Prop where
  ident : IsIdent name
  short : name.length ≤ maxIdentLength
  free : resWord.lookup name = none

theorem Spellable.piece {name : Name} (spellable : Spellable name) :
    Piece name ∧ wordTokens name = [.ident name] := by
  refine ⟨.ident spellable.ident spellable.short, ?_⟩
  obtain ⟨first, more, rfl, alpha, -⟩ := spellable.ident
  rw [wordTokens, lexemeOf, if_pos alpha, identEntry, spellable.free]
  rfl

theorem printDecimal_piece {value : Nat} (small : value < 10 ^ maxNumberLength) :
    Piece (printDecimal value) ∧ wordTokens (printDecimal value) = [.number value] := by
  have number := printDecimal_isNumber value
  have short : (printDecimal value).length ≤ maxNumberLength := by
    unfold printDecimal
    split
    · decide
    · rw [List.length_map, List.length_reverse]
      exact (Nat.digits_length_le_iff (by decide) value).mpr small
  refine ⟨.number number short, ?_⟩
  obtain ⟨first, more, same⟩ := List.exists_cons_of_ne_nil number.1
  have digit := number.2 first (by rw [same]; exact List.mem_cons_self)
  have notAlpha : ¬ isAlpha first = true := by
    intro alpha
    rw [isAlpha_not_digit alpha] at digit
    cases digit
  have back : decimalValue (first :: more) = value := by
    rw [← same, ← digitsValue_eq]
    exact digitsValue_printDecimal value
  rw [same, wordTokens, lexemeOf, if_neg notAlpha, if_pos digit]
  simp [tokenOf, back]

/-- The scanner finds the tokens of a text that ends with a newline. -/
theorem Cut.scanned {text : List UInt8} {tokens : List CurrentToken} (cut : Cut text tokens)
    (ends : text.getLast? = some 10) {fuel : Nat} (enough : text.length + 2 ≤ fuel) :
    ∃ tokenTable, scannerRun fuel text = .ok (some tokenTable) ∧
      tokenTable.map tokenOf = tokens := by
  obtain ⟨words, rfl, chained, -, rfl⟩ := cut
  refine ⟨words.filterMap lexemeOf,
    scannerRun_words ends rfl chained.tokenizes chained.wellSeparated enough, ?_⟩
  rw [List.filterMap_eq_flatMap_toList, List.map_flatMap]
  rfl

end Pl0
