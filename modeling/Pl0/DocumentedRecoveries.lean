import Pl0.SilentAcceptance

set_option autoImplicit false

namespace Pl0

open MarkedText StateExcept

/-- A sentence has one period, its last token. -/
theorem sentence_upToPeriod {text : List CurrentToken} (sentence : Sentence .program text) :
    upToPeriod text = text := by
  obtain ⟨t, grammatical, spells⟩ := sentence_iff.mp sentence
  unfold Spells BlockTree.program at spells
  rw [List.map_append] at spells
  obtain ⟨before, behind, rfl, same, tail⟩ := List.map_eq_append_iff.mp spells
  obtain ⟨period, rest, rfl, isPeriod, none⟩ := List.map_eq_cons_iff.mp tail
  obtain rfl := List.map_eq_nil_iff.mp none
  refine upToPeriod_append (fun token member here => ?_) ?_
  · have inside : token.normal ∈ t.frontier.map Prod.fst := by
      rw [← same]
      exact List.mem_map.mpr ⟨token, member, rfl⟩
    obtain ⟨pair, member', is⟩ := List.mem_map.mp inside
    refine (t.bracketed grammatical).inside pair member' ?_
    rw [is, token.normal_cToken]
    exact here
  · rw [← period.normal_cToken, isPeriod]
    rfl

/-- The parse of a sentence, where it says nothing, reads all of it. -/
theorem sentence_read {fuel : Nat} {file : List CurrentToken} {block : BlockNode} {s : ParseState}
    (sentence : Sentence .program (seen file)) (accepted : parse fuel file = .ok block s)
    (silent : s.reports = []) : ∃ t, Reading (seen file) t ∧ t.Suited mainGen ∧
      t.Bodies StatementNode.Readable ∧ block = (t.build mainGen).1 ∧
      s.gen = (t.build mainGen).2.finishMain ((t.build mainGen).1.varDecl.length + 4) := by
  obtain ⟨t, more, taken, built⟩ := parse_taken accepted silent
  obtain ⟨text, period, rest, parts, isPeriod, kept, -, upTo⟩ := taken.tokens
  have whole : seen file = text ++ [period] := (sentence_upToPeriod sentence).symm.trans upTo
  have code : period.cToken = .periodsym := by
    rw [← period.normal_cToken, isPeriod]
    rfl
  obtain ⟨t', grammatical', spells'⟩ := sentence_iff.mp sentence
  have balanced := spells_balanced grammatical' spells'
  rw [whole, balanced_period code, ← normal_balanced,
    loose_exact (t.bracketed taken.grammatical) kept]
    at balanced
  refine ⟨t, ⟨taken.grammatical, ?_⟩, taken.suited, taken.readable, built, taken.gen⟩
  unfold Spells BlockTree.program
  rw [whole, List.map_append, List.map_append, balanced]
  simp only [List.map_cons, List.map_nil, isPeriod]

/-- A text with any number of slips is parsed to the nodes and the globals of the program. -/
theorem slips_parse {t : BlockTree} (grammatical : t.Grammatical) (suited : t.Suited mainGen)
    (readable : t.Bodies StatementNode.Readable) {file : List CurrentToken}
    (slips : Rewrites (Kept True) t.program ((seen file).map CurrentToken.normal) []) {fuel : Nat}
    (enough : 4 * file.length + 13 ≤ fuel) : ∃ s, parse fuel file = .ok (t.build mainGen).1 s ∧
      s.gen = (t.build mainGen).2.finishMain ((t.build mainGen).1.varDecl.length + 4) := by
  have result := @parse_reads True (fun _ => True) (fun _ _ _ _ => trivial) trivial t grammatical
    suited readable file slips fuel
  cases run : parse fuel file with
  | error stop s =>
      rw [run] at result
      have outOfFuel : stop = .fuel := result
      subst outOfFuel
      exact absurd run (parse_fuel enough s)
  | ok block s =>
      rw [run] at result
      obtain ⟨rfl, -, gen⟩ := result
      exact ⟨s, rfl, gen⟩

/-- A sentence that is accepted without a report, and a text that differs from it by one of
the slips that the parser recovers from: the parse of the text gives the same tree and the
same globals, the code sets among them. -/
theorem slip_recovered {fuel : Nat} {file : List CurrentToken} {block : BlockNode} {s : ParseState}
    (sentence : Sentence .program (seen file)) (accepted : parse fuel file = .ok block s)
    (silent : s.reports = []) : Reading (seen file) block.tree ∧ ∀ file' : List CurrentToken,
      Edited Slip block.tree.program ((seen file').map CurrentToken.normal) →
        ∀ fuel', 4 * file'.length + 13 ≤ fuel' →
          ∃ s', parse fuel' file' = .ok block s' ∧ s'.gen = s.gen := by
  obtain ⟨t, reading, suited, readable, rfl, gen⟩ := sentence_read sentence accepted silent
  rw [BlockTree.build_tree, gen]
  refine ⟨reading, fun file' edited fuel' enough => ?_⟩
  have slip : Edited (Kept True) t.program ((seen file').map CurrentToken.normal) :=
    edited.mono fun _ _ _ _ slip => .inr ⟨trivial, slip⟩
  exact slips_parse reading.1 suited readable (slip.rewrites fun _ _ _ => .inl rfl) enough

/-- `var x; begin x := 1 end.` -/
def assigningTree : BlockTree :=
  .mk [] [[120]] .nil
    (.begin (.cons (.assign [120] (.cons .unset (.cons .nulsym (.digit 1) .nil) .nil))
    .nil))

def assigning : List CurrentToken := assigningTree.program.map Prod.fst

/-- `var x; begin x = 1 end.` -/
def comparing : List CurrentToken :=
  [.word .varsym, .ident [120], .word .semicolonsym, .word .beginsym, .ident [120], .word .eqlsym,
    .number 1, .word .endsym, .word .periodsym]

theorem assigning_accepted : ∃ block s, parse 30 assigning = .ok block s ∧ s.reports = [] ∧
    block.tree = assigningTree := by
  have looked : returned? (fun block s => (s.reports, block.tree)) (parse 30 assigning) =
      some ([], assigningTree) := by
    rfl
  obtain ⟨block, s, accepted, found⟩ := returned?_eq_some.mp looked
  obtain ⟨silent, tree⟩ := Prod.mk.inj found
  exact ⟨block, s, accepted, silent, tree⟩

theorem slip_recovered_assigning : ∃ block s s', parse 30 assigning = .ok block s ∧
    s.reports = [] ∧ parse 60 comparing = .ok block s' ∧ s'.gen = s.gen := by
  obtain ⟨block, s, accepted, silent, tree⟩ := assigning_accepted
  have sentence : Sentence .program (seen assigning) :=
    sentence_iff.mpr
      ⟨assigningTree, ⟨trivial, ⟨.inl ⟨rfl, rfl⟩, ⟨rfl, trivial, rfl⟩, rfl⟩, rfl⟩, rfl⟩
  have edited : Edited Slip block.tree.program ((seen comparing).map CurrentToken.normal) := by
    rw [tree]
    exact ⟨assigningTree.program.take 5, .word .becomessym, .becomes, assigningTree.program.drop 6,
      [.word .eqlsym], rfl, rfl, rfl⟩
  obtain ⟨s', again, same⟩ :=
    (slip_recovered sentence accepted silent).2 comparing edited 60 (by decide)
  exact ⟨block, s, s', accepted, silent, again, same⟩

end Pl0
