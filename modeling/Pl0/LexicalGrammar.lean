import Pl0.Dfa
import Pl0.LongestMatch

set_option autoImplicit false

namespace Pl0

def IsBlank (word : List UInt8) : Prop :=
  ∃ c, word = [c] ∧ (isSpace c = true ∨ isCntrl c = true)

/-- A comment ends at the first star and slash behind its opening. -/
def IsComment (word : List UInt8) : Prop :=
  ∃ body, word = 47 :: 42 :: (body ++ [42, 47]) ∧ ¬ [42, 47] <:+: body ++ [42]

def IsIdent (word : List UInt8) : Prop :=
  ∃ first more, word = first :: more ∧ isAlpha first = true ∧ ∀ c ∈ more, isAlnum c = true

def IsNumber (word : List UInt8) : Prop :=
  word ≠ [] ∧ ∀ c ∈ word, isDigit c = true

/-- The operators and separators of the language. -/
def operatorToken : List UInt8 → Option Token
  | [43] => some .plussym
  | [45] => some .minussym
  | [42] => some .multsym
  | [47] => some .slashsym
  | [61] => some .eqlsym
  | [60] => some .lessym
  | [62] => some .gtrsym
  | [40] => some .lparentsym
  | [41] => some .rparentsym
  | [44] => some .commasym
  | [59] => some .semicolonsym
  | [46] => some .periodsym
  | [60, 61] => some .leqsym
  | [60, 62] => some .neqsym
  | [62, 61] => some .geqsym
  | [58, 61] => some .becomessym
  | _ => none

/-- The lexical language of PL/0. -/
inductive Lexical (word : List UInt8) : Prop
  | blank (is : IsBlank word)
  | comment (is : IsComment word)
  | ident (is : IsIdent word)
  | number (is : IsNumber word)
  | operator (token : Token) (is : operatorToken word = some token)

/-- The entry of an identifier; a reserved word has its own token, and null no entry. -/
def identEntry (word : Name) : Option LexemeEntry :=
  match resWord.lookup word with
  | some .nulsym => none
  | some token => some ⟨token, word, false⟩
  | none => some ⟨.identsym, word, true⟩

/-- The entry of a word of the lexical language. -/
def lexemeOf : List UInt8 → Option LexemeEntry
  | [] => none
  | first :: more =>
      let word := first :: more
      if isAlpha first then identEntry word
      else if isDigit first then some ⟨.numbersym, word, true⟩
      else
        match operatorToken word with
        | some token => some ⟨token, word, false⟩
        | none => if first = 47 then some ⟨.commentsym, [], false⟩ else none

/-- Identifiers have at most 11 characters, numbers at most 6 digits and no letter
behind them, and a slash with a star behind it opens a comment that is closed. -/
def WellSeparated : List (List UInt8) → Prop
  | [] => True
  | word :: words =>
      (IsIdent word → word.length ≤ maxIdentLength) ∧
      (IsNumber word → word.length ≤ maxNumberLength ∧
        ∀ c ∈ words.flatten.head?, isAlpha c = false) ∧
      (word = [47] → words.flatten.head? ≠ some 42) ∧ WellSeparated words

theorem isAlpha_not_digit {c : UInt8} (alpha : isAlpha c = true) : isDigit c = false := by
  simp only [isAlpha, isDigit, UInt8.le_iff_toNat_le, UInt8.toNat_ofNat, decide_eq_true_eq,
    decide_eq_false_iff_not] at alpha ⊢
  omega

theorem isAlpha_not_blank {c : UInt8} (alpha : isAlpha c = true) :
    isSpace c = false ∧ isCntrl c = false := by
  simp only [isAlpha, isSpace, isCntrl, UInt8.le_iff_toNat_le, UInt8.lt_iff_toNat_lt,
    ← UInt8.toNat_inj, UInt8.toNat_ofNat, decide_eq_true_eq, decide_eq_false_iff_not] at alpha ⊢
  omega

theorem isDigit_not_blank {c : UInt8} (digit : isDigit c = true) :
    isSpace c = false ∧ isCntrl c = false := by
  simp only [isDigit, isSpace, isCntrl, UInt8.le_iff_toNat_le, UInt8.lt_iff_toNat_lt,
    ← UInt8.toNat_inj, UInt8.toNat_ofNat, decide_eq_true_eq, decide_eq_false_iff_not] at digit ⊢
  omega

theorem isAlnum_ne_zero {c : UInt8} (alnum : isAlnum c = true) : c ≠ 0 := by
  rintro rfl
  cases alnum

theorem isAlnum_not_space {c : UInt8} (alnum : isAlnum c = true) : isSpace c = false := by
  rcases Bool.or_eq_true_iff.mp alnum with alpha | digit
  · exact (isAlpha_not_blank alpha).1
  · exact (isDigit_not_blank digit).1

theorem IsIdent.alnum {word : List UInt8} (ident : IsIdent word) : ∀ c ∈ word,
    isAlnum c = true := by
  obtain ⟨first, more, rfl, alpha, members⟩ := ident
  intro c member
  rcases List.mem_cons.mp member with rfl | later
  · exact Bool.or_eq_true_iff.mpr (Or.inl alpha)
  · exact members c later

theorem operatorToken_printable {word : List UInt8} {token : Token}
    (is : operatorToken word = some token) :
    ∀ c ∈ word, isSpace c = false ∧ isCntrl c = false := by
  have checked : word.all (fun c => !isSpace c && !isCntrl c) = true := by
    unfold operatorToken at is
    split at is
    all_goals first | rfl | cases is
  intro c member
  have printable := List.all_eq_true.mp checked c member
  simpa using printable

/-- A word that is not blank does not end with white space. -/
theorem Lexical.last_not_space {word : List UInt8} (lexical : Lexical word)
    (notBlank : ¬ IsBlank word) {c : UInt8} (last : word.getLast? = some c) :
    isSpace c = false := by
  have member : c ∈ word := List.mem_of_getLast? last
  cases lexical with
  | blank is => exact absurd is notBlank
  | comment is =>
      obtain ⟨body, rfl, -⟩ := is
      have ending : c = 47 := by
        rw [show 47 :: 42 :: (body ++ [42, 47]) = (47 :: 42 :: (body ++ [42])) ++ [47] by simp,
          List.getLast?_concat] at last
        exact (Option.some.inj last).symm
      rw [ending]
      rfl
  | ident is => exact isAlnum_not_space (is.alnum c member)
  | number is => exact (isDigit_not_blank (is.2 c member)).1
  | operator token is => exact (operatorToken_printable is c member).1

theorem Lexical.blank_first {c : UInt8} {more : List UInt8} (lexical : Lexical (c :: more))
    (blank : isSpace c = true ∨ isCntrl c = true) : c :: more = [c] := by
  cases lexical with
  | blank is =>
      obtain ⟨d, whole, -⟩ := is
      injection whole with same rest
      rw [rest]
  | comment is =>
      obtain ⟨body, whole, -⟩ := is
      injection whole with same
      subst same
      exact absurd blank (by decide)
  | ident is =>
      obtain ⟨first, others, whole, alpha, -⟩ := is
      injection whole with same
      subst same
      simp [isAlpha_not_blank alpha] at blank
  | number is =>
      have digit := is.2 c List.mem_cons_self
      simp [isDigit_not_blank digit] at blank
  | operator token is =>
      have apart := operatorToken_printable is c List.mem_cons_self
      simp [apart] at blank

theorem Lexical.alpha_first {c : UInt8} {more : List UInt8} (lexical : Lexical (c :: more))
    (alpha : isAlpha c = true) : IsIdent (c :: more) := by
  cases lexical with
  | blank is =>
      obtain ⟨d, whole, blank⟩ := is
      injection whole with same
      subst same
      simp [isAlpha_not_blank alpha] at blank
  | comment is =>
      obtain ⟨body, whole, -⟩ := is
      injection whole with same
      subst same
      cases alpha
  | ident is => exact is
  | number is =>
      have digit := is.2 c List.mem_cons_self
      rw [isAlpha_not_digit alpha] at digit
      cases digit
  | operator token is =>
      unfold operatorToken at is
      split at is
      all_goals
        rename_i whole
        first
        | (injection whole with same
           subst same
           cases alpha)
        | cases is

end Pl0
