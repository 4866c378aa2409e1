import Pl0.CompiledFile
import Pl0.SeenTokens
import Pl0.UnparseRoundTrip

set_option autoImplicit false

namespace Pl0

open StateExcept

/-- The parses returned the same node, or left the parser in the same way, with the same code and
the same reports. -/
abbrev SameParse (x y : EStateM.Result Stop ParseState BlockNode) : Prop :=
  EndAlike (fun s t => s.gen = t.gen ∧ s.reports = t.reports) x y

/-- Two token files with the same tokens in front of the parser. -/
theorem parse_alike (fuel : Nat) {file file' : List CurrentToken}
    (same : coming file = coming file') : SameParse (parse fuel file) (parse fuel file') := by
  obtain ⟨s, enters, ahead, gen, silent⟩ := parse_enters fuel file
  obtain ⟨t, enters', ahead', gen', silent'⟩ := parse_enters fuel file'
  have view : SameView s t :=
    ⟨gen.trans gen'.symm, silent.trans silent'.symm, _, same ▸ ahead, ahead'⟩
  rw [enters, enters']
  exact (respects_mainParse fuel s t view).mono fun _ _ view => ⟨view.gen, view.reports⟩

theorem seen_tokenOf (tokenTable : List LexemeEntry) :
    seen (tokenTable.map tokenOf) = (lexemes tokenTable).map tokenOf := by
  unfold seen lexemes
  rw [List.filter_map]
  congr 1
  apply List.filter_congr
  intro entry _
  simp only [Function.comp_apply, tokenOf_cToken]

section Texts

variable {scanTurns scanTurns' : Nat} {text text' : List UInt8}
  {tokenTable tokenTable' : List LexemeEntry}

/-- Comments are nothing to the compiler: texts with the same lexemes but for the comments are
parsed alike, down to the errors and the reports of them, and run alike. -/
theorem comments_ignored (scanned : scannerRun scanTurns text = .ok (some tokenTable))
    (scanned' : scannerRun scanTurns' text' = .ok (some tokenTable'))
    (some_ : tokenTable ≠ []) (some_' : tokenTable' ≠ [])
    (same : lexemes tokenTable = lexemes tokenTable') (parseTurns : Nat) :
    SameParse (parse parseTurns (tokenTable.map tokenOf))
        (parse parseTurns (tokenTable'.map tokenOf)) ∧
      ∀ vmTurns input, driverMachine scanTurns parseTurns vmTurns (some text) input =
        driverMachine scanTurns' parseTurns vmTurns (some text') input := by
  have ahead : coming (tokenTable.map tokenOf) = coming (tokenTable'.map tokenOf) := by
    rw [coming_some (mt List.map_eq_nil_iff.mp some_),
      coming_some (mt List.map_eq_nil_iff.mp some_'), seen_tokenOf, seen_tokenOf, same]
  have alike := parse_alike parseTurns ahead
  refine ⟨alike, fun vmTurns input => ?_⟩
  have returned : scannerReturn scanTurns (some text) = .ok (some (0, tokenTable)) :=
    Except.bind_of_ok scanned _
  have returned' : scannerReturn scanTurns' (some text') = .ok (some (0, tokenTable')) :=
    Except.bind_of_ok scanned' _
  unfold driverMachine
  rw [Except.bind_of_ok returned, Except.bind_of_ok returned']
  simp only [ne_eq, not_true_eq_false, if_false]
  cases left : parse parseTurns (tokenTable.map tokenOf) with
  | ok block s =>
      cases right : parse parseTurns (tokenTable'.map tokenOf) with
      | ok block' t =>
          rw [left, right] at alike
          dsimp only
          rw [show s.gen = t.gen from alike.2.1]
      | error stop t =>
          rw [left, right] at alike
          exact alike.elim
  | error stop s =>
      cases right : parse parseTurns (tokenTable'.map tokenOf) with
      | ok block' t =>
          rw [left, right] at alike
          exact alike.elim
      | error stop' t => rfl

end Texts

/-- `var x;/* a */begin;x:=1/**/end.` and a newline -/
def commented : List UInt8 :=
  [118, 97, 114, 32, 120, 59, 47, 42, 32, 97, 32, 42, 47, 98, 101, 103, 105, 110, 59, 120, 58, 61,
    49, 47, 42, 42, 47, 101, 110, 100, 46, 10]

def commentedTable : List LexemeEntry :=
  [⟨.varsym, [118, 97, 114], false⟩, ⟨.identsym, [120], true⟩, ⟨.semicolonsym, [59], false⟩,
    ⟨.commentsym, [], false⟩, ⟨.beginsym, [98, 101, 103, 105, 110], false⟩,
    ⟨.semicolonsym, [59], false⟩, ⟨.identsym, [120], true⟩, ⟨.becomessym, [58, 61], false⟩,
    ⟨.numbersym, [49], true⟩, ⟨.commentsym, [], false⟩, ⟨.endsym, [101, 110, 100], false⟩,
    ⟨.periodsym, [46], false⟩]

/-- Without its comments it is the text `oneLine`. -/
theorem comments_ignored_commented : SameParse (parse 50 (commentedTable.map tokenOf))
      (parse 50 ((lexemes commentedTable).map tokenOf)) ∧
    ∀ vmTurns input, driverMachine 60 50 vmTurns (some commented) input =
      driverMachine 40 50 vmTurns (some oneLine) input := by
  have scanned : scannerRun 60 commented = .ok (some commentedTable) := by decide +kernel
  have plain : scannerRun 40 oneLine = .ok (some (lexemes commentedTable)) := by decide +kernel
  exact comments_ignored scanned plain (by decide) (by decide) (by decide) 50

end Pl0
