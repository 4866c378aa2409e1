import Pl0.ParseRuns
import Pl0.SyntaxTree

set_option autoImplicit false

namespace Pl0

open StateExcept

/-- The tokens of a file that the parser sees: comments are passed over. -/
def seen (file : List CurrentToken) : List CurrentToken :=
  file.filter fun token => token.cToken ≠ .commentsym

/-- The code of the first token of a text, or of the end of the file. -/
def headToken : List CurrentToken → Token
  | [] => .nulsym
  | token :: _ => token.cToken

/-- The current token, and the tokens that the parser has still to read. -/
structure Ahead (s : ParseState) (tokens : List CurrentToken) : Prop where
  feof : s.feof = s.tokenFile.isEmpty
  current : match tokens with
    | [] => s.curToken.cToken = .nulsym ∧ seen s.tokenFile = []
    | token :: rest => s.curToken.normal = token ∧ (seen s.tokenFile).map CurrentToken.normal = rest

theorem Ahead.cToken {s : ParseState} {tokens : List CurrentToken} (ahead : Ahead s tokens) :
    s.curToken.cToken = headToken tokens := by
  cases tokens with
  | nil => exact ahead.current.1
  | cons token rest =>
      rw [← s.curToken.normal_cToken, ahead.current.1]
      rfl

theorem Ahead.string {s : ParseState} {name : Name} {rest : List CurrentToken}
    (ahead : Ahead s (.ident name :: rest)) : s.curToken.string = name := by
  have code : s.curToken.cToken = .identsym := ahead.cToken
  have whole := ahead.current.1
  rw [CurrentToken.normal, if_pos code] at whole
  exact congrArg CurrentToken.string whole

theorem Ahead.numeric {s : ParseState} {value : Int} {rest : List CurrentToken}
    (ahead : Ahead s (.number value :: rest)) : s.curToken.numeric = value := by
  have code : s.curToken.cToken = .numbersym := ahead.cToken
  have noName : s.curToken.cToken ≠ .identsym := by
    rw [code]
    decide
  have whole := ahead.current.1
  rw [CurrentToken.normal, if_neg noName, if_pos code] at whole
  exact congrArg CurrentToken.numeric whole

theorem seen_cons_comment {token : CurrentToken} {file : List CurrentToken}
    (comment : token.cToken = .commentsym) : seen (token :: file) = seen file := by
  unfold seen
  rw [List.filter_cons_of_neg]
  simp [comment]

theorem seen_cons_other {token : CurrentToken} {file : List CurrentToken}
    (other : token.cToken ≠ .commentsym) : seen (token :: file) = token :: seen file := by
  unfold seen
  rw [List.filter_cons_of_pos]
  simp [other]

/-- A read takes the next token that is no comment, or the last comment as the end. -/
theorem scanToken_seen {file : List CurrentToken} (cur : CurrentToken) (some : file ≠ []) :
    (∃ rest, seen file = (scanToken file cur).1 :: rest ∧ seen (scanToken file cur).2 = rest) ∨
      (seen file = [] ∧ (scanToken file cur).1.cToken = .nulsym ∧ (scanToken file cur).2 = []) := by
  induction file generalizing cur with
  | nil => exact absurd rfl some
  | cons token rest ih =>
      rw [scanToken]
      by_cases comment : token.cToken = .commentsym
      · rw [if_pos comment, seen_cons_comment comment]
        by_cases last : rest = []
        · rw [if_pos last, last]
          exact .inr ⟨rfl, rfl, rfl⟩
        · rw [if_neg last]
          exact ih token last
      · rw [if_neg comment, seen_cons_other comment]
        exact .inl ⟨seen rest, rfl, rfl⟩

/-- The read of a token file: from the start of the file, or behind a token of it. -/
theorem getToken_coming {s s' : ParseState} (coherent : s.feof = s.tokenFile.isEmpty)
    (read : getToken s = .ok () s') : Ahead s' ((seen s.tokenFile).map CurrentToken.normal) := by
  have next := modify_eq_ok.mp read
  subst next
  cases empty : s.tokenFile with
  | nil =>
      have atEnd : s.feof = true := by rw [coherent, empty]; rfl
      rw [if_pos atEnd]
      exact ⟨atEnd, rfl, rfl⟩
  | cons token file =>
      have inside : ¬ s.feof = true := by
        rw [coherent, empty]
        simp
      rw [if_neg inside, ← empty]
      have some : s.tokenFile ≠ [] := by
        rw [empty]
        simp
      rcases scanToken_seen s.curToken some with ⟨rest, here, behind⟩ | ⟨none, ends, behind⟩
      · rw [here]
        refine ⟨rfl, rfl, ?_⟩
        rw [behind]
      · rw [none]
        refine ⟨rfl, ends, ?_⟩
        show seen (scanToken s.tokenFile s.curToken).2 = []
        rw [behind]
        rfl

theorem getToken_ahead {s s' : ParseState} {tokens : List CurrentToken} (ahead : Ahead s tokens)
    (read : getToken s = .ok () s') : Ahead s' tokens.tail := by
  have coming := getToken_coming ahead.feof read
  cases tokens with
  | nil =>
      rw [ahead.current.2] at coming
      exact coming
  | cons token rest =>
      rw [ahead.current.2] at coming
      exact coming

end Pl0
