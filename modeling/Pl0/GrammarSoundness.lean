import Pl0.BlockSoundness
import Pl0.GrammarCompleteness

set_option autoImplicit false

namespace Pl0

open MarkedText StateExcept

/-- A program has been read from `tokens` without a word, up to a period; `more` is left. -/
structure ProgramTaken (t : BlockTree) (tokens more : List CurrentToken)
    (s : ParseState) : Prop where
  text : ∃ text, tokens = text ++ .word .periodsym :: more ∧
    Rewrites Loose t.frontier text (.word .periodsym :: more)
  left : (seen s.tokenFile).map CurrentToken.normal = more
  grammatical : t.Grammatical
  suited : t.Suited mainGen
  readable : t.Bodies StatementNode.Readable
  gen : s.gen = (t.build mainGen).2.finishMain ((t.build mainGen).1.varDecl.length + 4)

theorem expectPeriod_silent {s s' : ParseState} {u : Unit} (ran : expectPeriod s = .ok u s')
    (silent : s'.said ≤ s.said) : s' = s ∧ s.curToken.cToken = .periodsym := by
  rw [expectPeriod, get_bind_eq_ok] at ran
  split at ran
  · rename_i is
    exact ⟨(pure_eq_ok.mp ran).2.symm, is⟩
  · split at ran
    · have more := report_said ran
      omega
    · exact (failWith_ne_ok.mp ran).elim

theorem mainParse_taken {fuel : Nat} {block : BlockNode} {s s' : ParseState}
    {tokens : List CurrentToken} (ran : mainParse fuel s = .ok block s') (silent : s'.said ≤ s.said)
    (ahead : Ahead s tokens) (gen : s.gen = mainGen) :
    ∃ t more, ProgramTaken t tokens more s' ∧ block = (t.build mainGen).1 := by
  simp only [mainParse, bind_eq_ok, pure_eq_ok, modifyGen_eq_ok] at ran
  obtain ⟨node, s1, parsed, _, s2, expected, _, s3, rfl, _, s4, rfl, rfl, rfl⟩ := ran
  have grows1 := (advances_blockParse _ _ _).said parsed
  change s2.said ≤ s.said at silent
  have grows2 : s1.said ≤ s2.said := by
    rw [expectPeriod, get_bind_eq_ok] at expected
    split at expected
    · rw [(pure_eq_ok.mp expected).2]
    · split at expected
      · have more := report_said expected
        omega
      · exact (failWith_ne_ok.mp expected).elim
  obtain ⟨rfl, isPeriod⟩ := expectPeriod_silent expected (by omega)
  obtain ⟨t, spec, rfl⟩ := blockParse_taken _ _ parsed (by omega) ahead (by decide)
  obtain ⟨text, rest, rfl, kept, behind⟩ := spec.taken
  obtain ⟨more, rfl⟩ := behind.word isPeriod (by decide)
  have suited := spec.suited
  have built := spec.gen
  rw [gen] at suited built ⊢
  refine ⟨t, more,
    ⟨⟨text, rfl, kept⟩, behind.current.2, spec.grammatical, suited, spec.readable, ?_⟩, rfl⟩
  show s2.gen.finishMain _ = _
  rw [built]

/-- What a parse that says nothing has read, and what it has made of it. -/
theorem parse_taken {fuel : Nat} {file : List CurrentToken} {block : BlockNode} {s : ParseState}
    (ran : parse fuel file = .ok block s) (silent : s.reports = []) :
    ∃ t more, ProgramTaken t ((seen file).map CurrentToken.normal) more s ∧
      block = (t.build mainGen).1 := by
  obtain ⟨start, enters, ahead, gen, -⟩ := parse_enters fuel file
  rw [enters] at ran
  have quiet : s.said ≤ start.said := by
    unfold ParseState.said
    rw [silent]
    exact Nat.zero_le _
  obtain ⟨t, more, taken, built⟩ := mainParse_taken ran quiet ahead gen
  refine ⟨t, more, ?_, built⟩
  by_cases empty : file = []
  · -- there is no period in what an empty file gives
    subst empty
    obtain ⟨text, whole, -⟩ := taken.text
    have inside : CurrentToken.word .periodsym ∈ coming [] := by
      rw [whole]
      simp
    exact absurd inside (by decide)
  · rw [coming_some empty] at taken
    exact taken

end Pl0
