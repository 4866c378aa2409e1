import Pl0.Compile
import Pl0.LegalTree
import Pl0.ParserTermination
import Pl0.TokenStream

set_option autoImplicit false

namespace Pl0

open MarkedText StateExcept

/-- How much has been reported. -/
def ParseState.said (s : ParseState) : Nat := s.reports.length

theorem Advances.said {α : Type} {enough : Prop} {x : ParseM α} {s s' : ParseState} {a : α}
    (advances : Advances enough True x s) (ran : x s = .ok a s') : s.said ≤ s'.said := by
  have grows := advances.reports
  rw [ran] at grows
  exact grows.length_le

theorem Advancing.said {α : Type} {x : ParseM α} {s s' : ParseState} {a : α}
    (advancing : Advancing x) (ran : x s = .ok a s') : s.said ≤ s'.said :=
  Advances.said (advancing True True s) ran

/-- A report is heard. -/
theorem report_said {r : Report} {s s' : ParseState} {u : Unit} (ran : report r s = .ok u s') :
    s'.said = s.said + 1 := by
  rw [← modify_eq_ok.mp ran]
  exact List.length_append

/-- The tokens as the parser takes them when it says nothing: a closing parenthesis may be
missing. -/
def Loose : Permits CurrentToken Mark :=
  fun mark token alt _ => alt = [token] ∨ mark = .closeParen ∧ alt = []

/-- From `tokens` the text of a frontier has been taken. -/
def Taken (frontier : List Marked) (tokens : List CurrentToken) (s : ParseState) : Prop :=
  ∃ text rest, tokens = text ++ rest ∧ Rewrites Loose frontier text rest ∧ Ahead s rest

section Taken

variable {s s' : ParseState} {tokens rest : List CurrentToken} {frontier more : List Marked}
  {token : CurrentToken} {mark : Mark}

theorem Ahead.some (ahead : Ahead s tokens) (some : s.curToken.cToken ≠ .nulsym) :
    ∃ rest, tokens = s.curToken.normal :: rest := by
  cases tokens with
  | nil => exact absurd ahead.current.1 some
  | cons token rest => exact ⟨rest, by rw [ahead.current.1]⟩

theorem Ahead.word (ahead : Ahead s tokens) {code : Token} (is : s.curToken.cToken = code)
    (plainWord : code ≠ .nulsym ∧ code ≠ .identsym ∧ code ≠ .numbersym) :
    ∃ rest, tokens = .word code :: rest := by
  subst is
  obtain ⟨rest, rfl⟩ := ahead.some plainWord.1
  refine ⟨rest, ?_⟩
  rw [CurrentToken.normal, if_neg plainWord.2.1, if_neg plainWord.2.2]

theorem Ahead.name (ahead : Ahead s tokens) (is : s.curToken.cToken = .identsym) :
    ∃ rest, tokens = .ident s.curToken.string :: rest := by
  obtain ⟨rest, rfl⟩ := ahead.some (by rw [is]; decide)
  refine ⟨rest, ?_⟩
  rw [CurrentToken.normal, if_pos is]

theorem Ahead.value (ahead : Ahead s tokens) (is : s.curToken.cToken = .numbersym) :
    ∃ rest, tokens = .number s.curToken.numeric :: rest := by
  obtain ⟨rest, rfl⟩ := ahead.some (by rw [is]; decide)
  refine ⟨rest, ?_⟩
  rw [CurrentToken.normal, if_neg (by rw [is]; decide), if_pos is]

theorem Ahead.step {u : Unit} (ahead : Ahead s (token :: rest)) (read : getToken s = .ok u s') :
    Ahead s' rest ∧ s'.gen = s.gen ∧ s'.said = s.said := by
  obtain ⟨gen, reports⟩ := getToken_kept read
  exact ⟨getToken_ahead ahead read, gen, congrArg List.length reports⟩

theorem Ahead.of_gen (ahead : Ahead s tokens) (g : GenState) : Ahead { s with gen := g } tokens :=
  ⟨ahead.feof, ahead.current⟩

theorem Taken.of_gen (taken : Taken frontier tokens s) (g : GenState) :
    Taken frontier tokens { s with gen := g } := by
  obtain ⟨text, rest, rfl, kept, ahead⟩ := taken
  exact ⟨text, rest, rfl, kept, ahead.of_gen g⟩

theorem taken_none (ahead : Ahead s tokens) : Taken [] tokens s :=
  ⟨[], tokens, rfl, .nil _, ahead⟩

theorem Taken.cons (taken : Taken frontier rest s) (token : CurrentToken) (mark : Mark) :
    Taken ((token, mark) :: frontier) (token :: rest) s := by
  obtain ⟨after, last, rfl, kept, ahead⟩ := taken
  exact ⟨token :: after, last, rfl, rewrites_cons.mpr ⟨[token], after, rfl, .inl rfl, kept⟩, ahead⟩

/-- What is taken behind the text of another frontier. -/
theorem Taken.after {text : List CurrentToken} (taken : Taken more rest s)
    (kept : Rewrites Loose frontier text rest) : Taken (frontier ++ more) (text ++ rest) s := by
  obtain ⟨after, last, rfl, kept', ahead⟩ := taken
  refine ⟨text ++ after, last, (List.append_assoc _ _ _).symm, ?_, ahead⟩
  exact rewrites_append.mpr ⟨text, after, rfl, kept, kept'⟩

/-- A test that says nothing has found the token in its first set. -/
theorem test_silent {fuel errorType : Nat} {s1 s2 : Symset} {u : Unit}
    (ran : test fuel s1 s2 errorType s = .ok u s') (silent : s'.said ≤ s.said) :
    s' = s ∧ inset s.curToken.cToken s1 = true := by
  rw [test, get_bind_eq_ok] at ran
  split at ran
  · rename_i inside
    obtain ⟨-, rfl⟩ := pure_eq_ok.mp ran
    exact ⟨rfl, inside⟩
  · obtain ⟨_, t1, reported, ran⟩ := bind_eq_ok.mp ran
    obtain ⟨_, t2, reported', looped⟩ := bind_eq_ok.mp ran
    have heard := report_said reported
    have heard' := report_said reported'
    have grows := (advances_skipLoop (uniteset s1 s2) fuel t2).said looped
    omega

theorem expectToken_taken {code : Token} {errorType : Nat} {u : Unit}
    (plainWord : code ≠ .nulsym ∧ code ≠ .identsym ∧ code ≠ .numbersym)
    (ran : expectToken code errorType s = .ok u s') (ahead : Ahead s tokens) :
    ∃ rest, tokens = .word code :: rest ∧ Ahead s' rest ∧ s'.gen = s.gen ∧ s'.said = s.said := by
  rw [expectToken, get_bind_eq_ok] at ran
  split at ran
  · rename_i is
    obtain ⟨rest, rfl⟩ := ahead.word is plainWord
    obtain ⟨ahead', gen, said⟩ := ahead.step ran
    exact ⟨rest, rfl, ahead', gen, said⟩
  · exact (failWith_ne_ok.mp ran).elim

theorem sign_isWord {code : Token} (isSign : code = .plussym ∨ code = .minussym) :
    code ≠ .nulsym ∧ code ≠ .identsym ∧ code ≠ .numbersym := by
  rcases isSign with rfl | rfl <;> decide

/-- A closing parenthesis, or nothing in its place. -/
theorem closeParen_taken {fuel : Nat} {fsys : Symset} {u : Unit}
    (ran : closeParen fuel fsys s = .ok u s') (silent : s'.said ≤ s.said) (ahead : Ahead s tokens) :
    Taken [(.word .rparentsym, .closeParen)] tokens s' := by
  rw [closeParen, get_bind_eq_ok] at ran
  split at ran
  · rename_i is
    obtain ⟨rest, rfl⟩ := ahead.word is (by decide)
    exact (taken_none (ahead.step ran).1).cons _ _
  · obtain ⟨rfl, -⟩ := test_silent ran silent
    exact ⟨[], tokens, rfl, rewrites_cons.mpr ⟨[], [], rfl, .inr ⟨rfl, rfl⟩, .nil _⟩, ahead⟩

theorem leadingSign_taken {op : Token} (ran : leadingSign s = .ok op s') (ahead : Ahead s tokens) :
    ((op = .unset ∧ Taken [] tokens s') ∨
      ((op = .plussym ∨ op = .minussym) ∧ Taken [plain op] tokens s')) ∧
      s'.gen = s.gen ∧ s'.said = s.said := by
  rw [leadingSign, get_bind_eq_ok] at ran
  split at ran
  · rename_i isSign
    obtain ⟨_, s1, read, ran⟩ := bind_eq_ok.mp ran
    obtain ⟨rfl, rfl⟩ := pure_eq_ok.mp ran
    obtain ⟨rest, rfl⟩ := ahead.word rfl (sign_isWord isSign)
    obtain ⟨ahead', gen, said⟩ := ahead.step read
    exact ⟨.inr ⟨isSign, (taken_none ahead').cons _ _⟩, gen, said⟩
  · obtain ⟨rfl, rfl⟩ := pure_eq_ok.mp ran
    exact ⟨.inl ⟨rfl, taken_none ahead⟩, rfl, rfl⟩

theorem identFactor_taken {f : FactorNode} (is : s.curToken.cToken = .identsym)
    (ran : identFactor s = .ok f s') (ahead : Ahead s tokens) :
    Taken f.frontier tokens s' ∧ f.Grammatical ∧ f.Suited s.gen.lookup := by
  rw [identFactor, get_bind_eq_ok] at ran
  simp only [bind_eq_ok, pure_eq_ok, modifyGen_eq_ok] at ran
  obtain ⟨_, s1, rfl, _, s2, loaded, _, s3, read, rfl, rfl⟩ := ran
  obtain ⟨rest, rfl⟩ := ahead.name is
  obtain ⟨found, known, noProc⟩ := (loadFactor_runs loaded).2
  have loadedAhead : Ahead s2 (.ident s.curToken.string :: rest) := by
    rw [known] at loaded
    unfold loadFactor at loaded
    cases kind : found.kind with
    | varS =>
        simp only [kind] at loaded
        rw [← modifyGen_eq_ok.mp loaded]
        exact ⟨ahead.feof, ahead.current⟩
    | constS =>
        simp only [kind] at loaded
        rw [← modifyGen_eq_ok.mp loaded]
        exact ⟨ahead.feof, ahead.current⟩
    | procS => exact absurd kind noProc
  refine ⟨(taken_none (loadedAhead.step read).1).cons _ _, trivial, ?_⟩
  exact ⟨found, known, noProc⟩

theorem numberFactor_taken {f : FactorNode} (is : s.curToken.cToken = .numbersym)
    (ran : numberFactor s = .ok f s') (ahead : Ahead s tokens) :
    Taken f.frontier tokens s' ∧ f.Grammatical ∧ f.Suited s.gen.lookup := by
  rw [numberFactor, get_bind_eq_ok] at ran
  split at ran
  · exact (failWith_ne_ok.mp ran).elim
  · rename_i small
    simp only [bind_eq_ok, pure_eq_ok, modifyGen_eq_ok] at ran
    obtain ⟨_, s1, rfl, _, s2, read, rfl, rfl⟩ := ran
    obtain ⟨rest, rfl⟩ := ahead.value is
    have noted := ahead.of_gen (s.gen.literal s.curToken.numeric)
    exact ⟨(taken_none (noted.step read).1).cons _ _, trivial, Int.not_lt.mp small⟩

end Taken

/- What is parsed without a word is grammatical and suits the names it finds. The induction
is on the fuel, which goes down at every call. -/
mutual
theorem expressionParse_taken : ∀ (fuel : Nat) (fsys : Symset) {s s' : ParseState} {e : TermExp}
    {tokens : List CurrentToken}, expressionParse fuel fsys s = .ok e s' → s'.said ≤ s.said →
    Ahead s tokens →
    Taken (e.frontier true) tokens s' ∧ e.Grammatical true ∧ e.Suited s.gen.lookup
  | 0, _, _, _, _, _, ran, _, _ => by
      exact absurd ran (by simp only [expressionParse, throw_ne_ok, not_false_eq_true])
  | fuel + 1, fsys, s, s', e, tokens, ran, silent, ahead => by
      simp only [expressionParse, bind_eq_ok, pure_eq_ok] at ran
      obtain ⟨preop, s1, signed, term, s2, parsed, rest, s3, looped, rfl, rfl⟩ := ran
      have grows1 := (advances_termParse _ _ _ _).said parsed
      have grows2 := (advances_expressionLoop _ _ _).said looped
      obtain ⟨sign, gen, said⟩ := leadingSign_taken signed ahead
      have known : s2.gen.lookup = s1.gen.lookup := by
        rw [termParse_runs _ _ _ parsed]
        exact (genFactors_emits term (some preop) s1.gen).lookup
      rcases sign with ⟨rfl, text, middle, rfl, kept, ahead1⟩ |
        ⟨isSign, text, middle, rfl, kept, ahead1⟩
      · obtain ⟨⟨first, later, rfl, keptTerm, ahead2⟩, proper, suited⟩ :=
          termParse_taken _ _ _ parsed (by omega) ahead1
        obtain ⟨taken, others, suitedMore⟩ := expressionLoop_taken _ _ looped (by omega) ahead2
        rw [known, gen] at suitedMore
        rw [gen] at suited
        rw [rewrites_nil.mp kept]
        exact ⟨taken.after keptTerm, ⟨.inl ⟨rfl, rfl⟩, proper, others⟩, suited, suitedMore⟩
      · obtain ⟨⟨first, later, rfl, keptTerm, ahead2⟩, proper, suited⟩ :=
          termParse_taken _ _ _ parsed (by omega) ahead1
        obtain ⟨taken, others, suitedMore⟩ := expressionLoop_taken _ _ looped (by omega) ahead2
        rw [known, gen] at suitedMore
        rw [gen] at suited
        have signIsOp : preop ≠ .unset := by
          rcases isSign with rfl | rfl <;> decide
        refine ⟨?_, ⟨.inr isSign, proper, others⟩, suited, suitedMore⟩
        rw [TermExp.frontier, if_pos rfl, if_neg signIsOp]
        exact (taken.after keptTerm).after kept

theorem expressionLoop_taken : ∀ (fuel : Nat) (set : Symset) {s s' : ParseState} {e : TermExp}
    {tokens : List CurrentToken}, expressionLoop fuel set s = .ok e s' → s'.said ≤ s.said →
    Ahead s tokens →
    Taken (e.frontier false) tokens s' ∧ e.Grammatical false ∧ e.Suited s.gen.lookup
  | 0, _, _, _, _, _, ran, _, _ => by
      exact absurd ran (by simp only [expressionLoop, throw_ne_ok, not_false_eq_true])
  | fuel + 1, set, s, s', e, tokens, ran, silent, ahead => by
      rw [expressionLoop, get_bind_eq_ok] at ran
      split at ran
      · rename_i isSign
        simp only [bind_eq_ok, pure_eq_ok, modifyGen_eq_ok] at ran
        obtain ⟨_, s1, read, term, s2, parsed, _, s3, rfl, rest, s4, looped, rfl, rfl⟩ := ran
        have grows1 := (advances_termParse _ _ _ _).said parsed
        have grows2 := (advances_expressionLoop _ _ _).said looped
        change s2.said ≤ _ at grows2
        obtain ⟨more, rfl⟩ := ahead.word rfl (sign_isWord isSign)
        obtain ⟨ahead1, gen, said⟩ := ahead.step read
        obtain ⟨⟨first, later, rfl, keptTerm, ahead2⟩, proper, suited⟩ :=
          termParse_taken _ _ _ parsed (by omega) ahead1
        obtain ⟨taken, others, suitedMore⟩ :=
          expressionLoop_taken _ _ looped (by show s4.said ≤ s2.said; omega) (ahead2.of_gen _)
        have known : (s2.gen.calculate s.curToken.cToken).lookup = s1.gen.lookup := by
          show s2.gen.lookup = s1.gen.lookup
          rw [termParse_runs _ _ _ parsed]
          exact (genFactors_emits term (some .unset) s1.gen).lookup
        rw [known, gen] at suitedMore
        rw [gen] at suited
        exact ⟨(taken.after keptTerm).cons _ _, ⟨.inr isSign, proper, others⟩, suited, suitedMore⟩
      · obtain ⟨rfl, rfl⟩ := pure_eq_ok.mp ran
        exact ⟨taken_none ahead, rfl, trivial⟩

theorem termParse_taken : ∀ (fuel : Nat) (preop : Token) (fsys : Symset) {s s' : ParseState}
    {e : FactorExp} {tokens : List CurrentToken}, termParse fuel preop fsys s = .ok e s' →
    s'.said ≤ s.said → Ahead s tokens →
    Taken (e.frontier true) tokens s' ∧ e.Grammatical true ∧ e.Suited s.gen.lookup
  | 0, _, _, _, _, _, _, ran, _, _ => by
      exact absurd ran (by simp only [termParse, throw_ne_ok, not_false_eq_true])
  | fuel + 1, preop, fsys, s, s', e, tokens, ran, silent, ahead => by
      simp only [termParse, bind_eq_ok, pure_eq_ok, modifyGen_eq_ok] at ran
      obtain ⟨factor, s1, parsed, _, s2, rfl, rest, s3, looped, rfl, rfl⟩ := ran
      have grows1 := (advances_factorParse _ _ _).said parsed
      have grows2 := (advances_termLoop _ _ _).said looped
      change s1.said ≤ _ at grows2
      obtain ⟨⟨first, later, rfl, keptFactor, ahead1⟩, proper, suited⟩ :=
        factorParse_taken _ _ parsed (by omega) ahead
      obtain ⟨taken, others, suitedMore⟩ :=
        termLoop_taken _ _ looped (by show s3.said ≤ s1.said; omega) (ahead1.of_gen _)
      have known : (s1.gen.negate preop).lookup = s.gen.lookup := by
        rw [factorParse_runs _ _ parsed]
        exact ((genFactor_emits factor s.gen).trans (emitted_negate _ preop)).lookup
      rw [known] at suitedMore
      exact ⟨taken.after keptFactor, ⟨rfl, proper, others⟩, suited, suitedMore⟩

theorem termLoop_taken : ∀ (fuel : Nat) (set : Symset) {s s' : ParseState} {e : FactorExp}
    {tokens : List CurrentToken}, termLoop fuel set s = .ok e s' → s'.said ≤ s.said →
    Ahead s tokens →
    Taken (e.frontier false) tokens s' ∧ e.Grammatical false ∧ e.Suited s.gen.lookup
  | 0, _, _, _, _, _, ran, _, _ => by
      exact absurd ran (by simp only [termLoop, throw_ne_ok, not_false_eq_true])
  | fuel + 1, set, s, s', e, tokens, ran, silent, ahead => by
      rw [termLoop, get_bind_eq_ok] at ran
      split at ran
      · rename_i isOp
        simp only [bind_eq_ok, pure_eq_ok, modifyGen_eq_ok] at ran
        obtain ⟨_, s1, read, factor, s2, parsed, _, s3, rfl, rest, s4, looped, rfl, rfl⟩ := ran
        have grows1 := (advances_factorParse _ _ _).said parsed
        have grows2 := (advances_termLoop _ _ _).said looped
        change s2.said ≤ _ at grows2
        have isWord : s.curToken.cToken ≠ .nulsym ∧ s.curToken.cToken ≠ .identsym ∧
            s.curToken.cToken ≠ .numbersym := by
          rcases isOp with is | is <;> rw [is] <;> decide
        obtain ⟨more, rfl⟩ := ahead.word rfl isWord
        obtain ⟨ahead1, gen, said⟩ := ahead.step read
        obtain ⟨⟨first, later, rfl, keptFactor, ahead2⟩, proper, suited⟩ :=
          factorParse_taken _ _ parsed (by omega) ahead1
        obtain ⟨taken, others, suitedMore⟩ :=
          termLoop_taken _ _ looped (by show s4.said ≤ s2.said; omega) (ahead2.of_gen _)
        have known : (s2.gen.calculate s.curToken.cToken).lookup = s1.gen.lookup := by
          show s2.gen.lookup = s1.gen.lookup
          rw [factorParse_runs _ _ parsed]
          exact (genFactor_emits factor s1.gen).lookup
        rw [known, gen] at suitedMore
        rw [gen] at suited
        exact ⟨(taken.after keptFactor).cons _ _, ⟨isOp, proper, others⟩, suited, suitedMore⟩
      · obtain ⟨rfl, rfl⟩ := pure_eq_ok.mp ran
        exact ⟨taken_none ahead, rfl, trivial⟩

theorem factorParse_taken : ∀ (fuel : Nat) (fsys : Symset) {s s' : ParseState} {f : FactorNode}
    {tokens : List CurrentToken}, factorParse fuel fsys s = .ok f s' → s'.said ≤ s.said →
    Ahead s tokens → Taken f.frontier tokens s' ∧ f.Grammatical ∧ f.Suited s.gen.lookup
  | 0, _, _, _, _, _, ran, _, _ => by
      exact absurd ran (by simp only [factorParse, throw_ne_ok, not_false_eq_true])
  | fuel + 1, fsys, s, s', f, tokens, ran, silent, ahead => by
      simp only [factorParse, bind_eq_ok] at ran
      obtain ⟨_, s1, tested, this, s2, got, ran⟩ := ran
      obtain ⟨rfl, rfl⟩ := get_eq_ok.mp got
      generalize kind : s1.curToken.cToken = token at ran
      have quietTest : s1.said ≤ s.said := by
        refine le_trans ?_ silent
        split at ran
        · exact advancing_identFactor.said ran
        · exact advancing_numberFactor.said ran
        · simp only [bind_eq_ok, pure_eq_ok] at ran
          obtain ⟨_, s2, read, e, s3, parsed, _, s4, closed, rfl, rfl⟩ := ran
          exact le_trans (advancing_getToken.said read)
            (le_trans ((advances_expressionParse _ _ _).said parsed)
              ((advances_closeParen _ _ _).said closed))
        · simp only [bind_eq_ok, failWith_ne_ok, and_false, exists_false] at ran
      obtain ⟨rfl, -⟩ := test_silent tested quietTest
      split at ran
      · exact identFactor_taken kind ran ahead
      · exact numberFactor_taken kind ran ahead
      · simp only [bind_eq_ok, pure_eq_ok] at ran
        obtain ⟨_, s2, read, e, s3, parsed, _, s4, closed, rfl, rfl⟩ := ran
        have grows1 := (advances_expressionParse _ _ _).said parsed
        have grows2 := (advances_closeParen _ _ _).said closed
        obtain ⟨more, rfl⟩ := ahead.word kind (by decide)
        obtain ⟨ahead1, gen, said⟩ := ahead.step read
        obtain ⟨⟨inner, later, rfl, kept, ahead2⟩, proper, suited⟩ :=
          expressionParse_taken _ _ parsed (by omega) ahead1
        rw [gen] at suited
        have close := closeParen_taken closed (by omega) ahead2
        exact ⟨(close.after kept).cons _ _, proper, suited⟩
      · simp only [bind_eq_ok, failWith_ne_ok, and_false, exists_false] at ran
end

end Pl0
