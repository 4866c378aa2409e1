import Pl0.LexicalErrors
import Pl0.TokenFile

set_option autoImplicit false

namespace Pl0

/-- `scanner_run` on a file: its return value, and the lexeme list it leaves. A file that
cannot be opened has no text. -/
def scannerReturn (fuel : Nat) (text : Option (List UInt8)) :
    Except Fault (Option (Int × List LexemeEntry)) :=
  match text with
  | none => .ok (some (-1, []))
  | some text => do
      let tokenTable ← scannerRun fuel text
      return tokenTable.map fun tokenTable => (0, tokenTable)

/-- How `driver_run` goes on behind the scanner: it returns, or it writes the lexeme list to the
token file and runs the parser on it. -/
inductive AfterScanner
  | returns
  | parses (tokens : List CurrentToken)
  deriving DecidableEq, Repr

/-- `driver_run` up to its call of the parser. -/
def driverRun (fuel : Nat) (text : Option (List UInt8)) :
    Except Fault (Option AfterScanner) := do
  match ← scannerReturn fuel text with
  | none => return none
  | some (ret, tokenTable) =>
      if ret ≠ 0 then return some .returns
      else return some (.parses (tokenTable.map tokenOf))

/-- A call of `getNextLexeme` that rejects makes the scanner fail, and the driver return
behind it. -/
def ErrorsStop (fuel : Nat) (text : List UInt8) : Prop :=
  ∀ calls ret tokenTable, textCalls fuel text = .ok (some calls) → Rejects calls →
    scannerReturn fuel (some text) = .ok (some (ret, tokenTable)) →
      ret ≠ 0 ∧ driverRun fuel (some text) = .ok (some .returns)

/-- Whatever the text, the scanner returns 0, and the parser runs on the lexemes that are left. -/
theorem scanner_run_zero (text : List UInt8) {fuel : Nat} (enough : 2 * text.length + 3 ≤ fuel) :
    ∃ tokenTable, scannerReturn fuel (some text) = .ok (some (0, tokenTable)) ∧
      driverRun fuel (some text) = .ok (some (.parses (tokenTable.map tokenOf))) := by
  obtain ⟨dfa, -, -, ran⟩ := scannerRun_readText text enough
  have returned : scannerReturn fuel (some text) = .ok (some (0, dfa.tokenTable)) :=
    Except.bind_of_ok ran _
  exact ⟨dfa.tokenTable, returned, Except.bind_of_ok returned _⟩

theorem rejects_iff (text : List UInt8) {fuel : Nat} (enough : 2 * text.length + 3 ≤ fuel) :
    ∃ calls, textCalls fuel text = .ok (some calls) ∧ (Rejects calls ↔ LexicalError text) := by
  obtain ⟨calls, called, rejects⟩ := textCalls_rejects text enough
  exact ⟨calls, called, rejects.trans (spoiled_iff text dfaInit)⟩

/-- Lexical errors stop the compilation exactly of the texts that have none. -/
theorem lexical_errors_stop_iff (text : List UInt8) {fuel : Nat}
    (enough : 2 * text.length + 3 ≤ fuel) : ErrorsStop fuel text ↔ ¬ LexicalError text := by
  obtain ⟨calls, called, rejects⟩ := rejects_iff text enough
  constructor
  · intro stops error
    obtain ⟨tokenTable, returned, -⟩ := scanner_run_zero text enough
    exact (stops calls 0 tokenTable called (rejects.mpr error) returned).1 rfl
  · intro clean calls' ret tokenTable called' rejects'
    obtain rfl := Option.some.inj (Except.ok.inj (called.symm.trans called'))
    exact absurd (rejects.mp rejects') clean

/-- The text `x#` and a newline: its second character begins no lexeme. -/
def strayCharacter : List UInt8 :=
  [120, 35, 10]

theorem strayCharacter_error : LexicalError strayCharacter := by
  have name : WordAt [120] [35, 10] :=
    .ident ⟨120, [], rfl, rfl, by simp⟩ (by decide) (by simp; decide)
  have stray : Malformed [35] := .invalid ((invalid_iff 35).mp ⟨rfl, rfl, rfl, rfl, rfl⟩)
  exact .behind name (.here stray [10])

theorem lexical_errors_stop_iff_strayCharacter :
    (∃ calls, textCalls 9 strayCharacter = .ok (some calls) ∧ Rejects calls) ∧
      (ErrorsStop 9 strayCharacter ↔ ¬ LexicalError strayCharacter) := by
  obtain ⟨calls, called, rejects⟩ := @rejects_iff strayCharacter 9 (by decide)
  exact ⟨⟨calls, called, rejects.mpr strayCharacter_error⟩,
    lexical_errors_stop_iff strayCharacter (by decide)⟩

/-- The stray character is dropped, and the parser runs on the name in front of it. -/
theorem lexical_error_parsed : ¬ ∀ (text : List UInt8) (fuel : Nat), 2 * text.length + 3 ≤ fuel →
    ErrorsStop fuel text := by
  intro always
  have stops := always strayCharacter 9 (by decide)
  obtain ⟨calls, called, rejects⟩ := @rejects_iff strayCharacter 9 (by decide)
  obtain ⟨tokenTable, returned, -⟩ := @scanner_run_zero strayCharacter 9 (by decide)
  exact (stops calls 0 tokenTable called (rejects.mpr strayCharacter_error) returned).1 rfl

end Pl0
