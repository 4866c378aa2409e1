import Pl0.ExpressionSoundness
import Pl0.ParsedTrees

set_option autoImplicit false

namespace Pl0

open MarkedText StateExcept

section Statements

variable {s s' : ParseState} {tokens : List CurrentToken}

theorem relOp_taken {op : Token} (ran : relOp s = .ok op s') :
    s' = s ∧ IsRelOp op ∧ s.curToken.cToken = op := by
  rw [relOp, get_bind_eq_ok] at ran
  split at ran
  · rename_i isRel
    obtain ⟨rfl, rfl⟩ := pure_eq_ok.mp ran
    exact ⟨rfl, isRel, rfl⟩
  · exact (failWith_ne_ok.mp ran).elim

theorem IsRelOp.isWord {op : Token} (isRel : IsRelOp op) :
    op ≠ .nulsym ∧ op ≠ .identsym ∧ op ≠ .numbersym := by
  rcases isRel with rfl | rfl | rfl | rfl | rfl | rfl <;> decide

theorem conditionParse_taken {fuel : Nat} {fsys : Symset} {c : ConditionNode}
    (ran : conditionParse fuel fsys s = .ok c s') (silent : s'.said ≤ s.said)
    (ahead : Ahead s tokens) :
    Taken c.frontier tokens s' ∧ c.Grammatical ∧ c.Suited s.gen.lookup := by
  rw [conditionParse, get_bind_eq_ok] at ran
  split at ran
  · rename_i isOdd
    simp only [bind_eq_ok, pure_eq_ok, modifyGen_eq_ok] at ran
    obtain ⟨_, s1, read, right, s2, parsed, _, s3, rfl, rfl, rfl⟩ := ran
    change s2.said ≤ s.said at silent
    obtain ⟨rest, rfl⟩ := ahead.word isOdd (by decide)
    obtain ⟨ahead1, gen, said⟩ := ahead.step read
    obtain ⟨taken, proper, suited⟩ := expressionParse_taken _ _ parsed (by omega) ahead1
    rw [gen] at suited
    exact ⟨(taken.of_gen _).cons _ _, proper, suited⟩
  · simp only [bind_eq_ok, pure_eq_ok, modifyGen_eq_ok] at ran
    obtain ⟨left, s1, parsedLeft, op, s2, relation, _, s3, read, right, s4, parsedRight, _, s5, rfl,
      rfl, rfl⟩ := ran
    change s4.said ≤ s.said at silent
    obtain ⟨rfl, isRel, is⟩ := relOp_taken relation
    have grows1 := (advances_expressionParse _ _ _).said parsedLeft
    have grows2 := advancing_getToken.said read
    have grows3 := (advances_expressionParse _ _ _).said parsedRight
    obtain ⟨⟨text, middle, rfl, keptLeft, ahead1⟩, properL, suitedL⟩ :=
      expressionParse_taken _ _ parsedLeft (by omega) ahead
    obtain ⟨rest, rfl⟩ := ahead1.word is isRel.isWord
    obtain ⟨ahead2, gen, said⟩ := ahead1.step read
    obtain ⟨taken, properR, suitedR⟩ := expressionParse_taken _ _ parsedRight (by omega) ahead2
    rw [gen, expressionParse_runs _ _ parsedLeft,
      (genExpression_emits left s.gen).lookup] at suitedR
    exact ⟨((taken.of_gen _).cons (.word op) .plain).after keptLeft, ⟨isRel, properL, properR⟩,
      suitedL, suitedR⟩

/-- A statement that was read without a word. -/
structure StatementTaken (node : StatementNode) (fsys : Symset) (tokens : List CurrentToken)
    (s s' : ParseState) : Prop where
  taken : Taken node.frontier tokens s'
  grammatical : node.Grammatical
  suited : node.Suited s.gen.lookup
  closed : node.ThenBranches StatementNode.Closed
  behindOpen : node.endsOpen = true → s'.curToken.cToken ≠ .elsesym
  behindEmpty : node.endsEmpty = true → inset s'.curToken.cToken fsys = true
  some : inset s.curToken.cToken statbegsys = true → node.isEmpty = false

theorem checkAssigned_silent {sym : Option Symbol} {u : Unit} (ran : checkAssigned sym s = .ok u s')
    (silent : s'.said ≤ s.said) : s' = s ∧ Suits .assign sym := by
  unfold checkAssigned at ran
  cases sym with
  | none =>
      have heard := report_said ran
      omega
  | some found =>
      dsimp only at ran
      split at ran
      · have heard := report_said ran
        omega
      · rename_i isVar
        obtain ⟨-, rfl⟩ := pure_eq_ok.mp ran
        exact ⟨rfl, found, rfl, not_not.mp isVar⟩

theorem expectBecomes_taken {u : Unit} (ran : expectBecomes s = .ok u s')
    (silent : s'.said ≤ s.said)
    (ahead : Ahead s tokens) : ∃ rest, tokens = .word .becomessym :: rest ∧ Ahead s' rest ∧
      s'.gen = s.gen ∧ s'.said = s.said := by
  rw [expectBecomes, get_bind_eq_ok] at ran
  split at ran
  · rename_i is
    obtain ⟨rest, rfl⟩ := ahead.word is (by decide)
    obtain ⟨ahead', gen, said⟩ := ahead.step ran
    exact ⟨rest, rfl, ahead', gen, said⟩
  · split at ran
    · obtain ⟨_, s1, reported, read⟩ := bind_eq_ok.mp ran
      have heard := report_said reported
      have grows := advancing_getToken.said read
      omega
    · exact (failWith_ne_ok.mp ran).elim

theorem storeSymbol_kept {sym : Option Symbol} {u : Unit} (ran : storeSymbol sym s = .ok u s') :
    ∃ g, s' = { s with gen := g } := by
  unfold storeSymbol at ran
  cases sym with
  | none => exact (throw_ne_ok.mp ran).elim
  | some found => exact ⟨_, (modifyGen_eq_ok.mp ran).symm⟩

theorem assignParse_taken {fuel : Nat} {fsys : Symset} {node : StatementNode}
    (is : s.curToken.cToken = .identsym) (ran : assignParse fuel fsys s = .ok node s')
    (silent : s'.said ≤ s.said) (ahead : Ahead s tokens) :
    StatementTaken node fsys tokens s s' := by
  rw [assignParse, get_bind_eq_ok] at ran
  simp only [bind_eq_ok, pure_eq_ok, modifyGen_eq_ok] at ran
  obtain ⟨_, s1, rfl, _, s2, checked, _, s3, read, _, s4, expected, e, s5, parsed, _, s6, stored,
    rfl, rfl⟩ := ran
  obtain ⟨g, rfl⟩ := storeSymbol_kept stored
  change s5.said ≤ s.said at silent
  have grows1 := (advancing_checkAssigned _).said checked
  change s.said ≤ s2.said at grows1
  have grows2 := advancing_getToken.said read
  have grows3 := advancing_expectBecomes.said expected
  have grows4 := (advances_expressionParse _ _ _).said parsed
  obtain ⟨rfl, suits⟩ := checkAssigned_silent checked (by show s2.said ≤ s.said; omega)
  obtain ⟨rest, rfl⟩ := ahead.name is
  obtain ⟨ahead1, gen1, said1⟩ := (ahead.of_gen (s.gen.use .assign s.curToken.string)).step read
  obtain ⟨rest1, rfl, ahead2, gen2, said2⟩ := expectBecomes_taken expected (by omega) ahead1
  obtain ⟨value, proper, suited⟩ := expressionParse_taken _ _ parsed (by omega) ahead2
  rw [gen2, gen1] at suited
  exact {
    taken := ((value.of_gen g).cons _ _).cons _ _
    grammatical := proper
    suited := ⟨suits, suited⟩
    closed := trivial
    behindOpen := fun never => by cases never
    behindEmpty := fun never => by cases never
    some := fun _ => rfl }

/-- The statements that are a keyword and a name. -/
theorem nameStatement_taken {errorType : Nat} {construct : Construct} {keyword : Token}
    {known : Option Symbol → ParseM Unit} {node : Name → StatementNode} {result : StatementNode}
    (suits : ∀ {sym t t' u}, known sym t = .ok u t' → Suits construct sym ∧
      ∃ g, t' = { t with gen := g })
    (plainWord : keyword ≠ .nulsym ∧ keyword ≠ .identsym ∧ keyword ≠ .numbersym)
    (is : s.curToken.cToken = keyword)
    (ran : nameStatement errorType construct known node s = .ok result s')
      (ahead : Ahead s tokens) :
    ∃ name, result = node name ∧ Taken [plain keyword, nameToken name] tokens s' ∧
      Suits construct (s.gen.lookup name) := by
  simp only [nameStatement, bind_eq_ok, pure_eq_ok, modifyGen_eq_ok] at ran
  obtain ⟨_, s1, read, name, s2, expected, this, s3, got, _, s4, rfl, _, s5, acted, _, s6, read',
    rfl, rfl⟩ := ran
  obtain ⟨rfl, isName, rfl⟩ := expectIdent_eq_ok expected
  obtain ⟨rfl, rfl⟩ := get_eq_ok.mp got
  obtain ⟨found, g, rfl⟩ := suits acted
  obtain ⟨rest, rfl⟩ := ahead.word is plainWord
  obtain ⟨ahead1, gen, -⟩ := ahead.step read
  obtain ⟨rest1, rfl⟩ := ahead1.name isName
  obtain ⟨ahead2, -, -⟩ := (ahead1.of_gen g).step read'
  rw [gen] at found
  exact ⟨_, rfl, ((taken_none ahead2).cons _ _).cons _ _, found⟩

theorem nameStatement_statementTaken {fsys : Symset} {keyword : Token}
    {node : StatementNode} {name : Name}
    (taken : Taken [plain keyword, nameToken name] tokens s')
    (shape : node.frontier = [plain keyword, nameToken name]) (suited : node.Suited s.gen.lookup)
    (proper : node.Grammatical) (closed : node.ThenBranches StatementNode.Closed)
    (notOpen : node.endsOpen = false) (notEmpty : node.endsEmpty = false)
    (some : node.isEmpty = false) :
    StatementTaken node fsys tokens s s' where
  taken := shape ▸ taken
  grammatical := proper
  suited := suited
  closed := closed
  behindOpen := fun opened => by rw [notOpen] at opened; cases opened
  behindEmpty := fun ends => by rw [notEmpty] at ends; cases ends
  some := fun _ => some

theorem recordStatement_kept {body : Bool} {x : ParseM StatementNode} {node : StatementNode}
    (ran : recordStatement body x s = .ok node s') :
    ∃ t, x s = .ok node t ∧ s' = { t with gen := s.gen.recorded body node t.gen } := by
  rw [recordStatement, get_bind_eq_ok] at ran
  simp only [bind_eq_ok, pure_eq_ok, modifyGen_eq_ok] at ran
  obtain ⟨_, t, parsed, _, s2, rfl, rfl, rfl⟩ := ran
  exact ⟨t, parsed, rfl⟩

theorem separator_taken {u : Unit} (ran : separator s = .ok u s') (silent : s'.said ≤ s.said)
    (ahead : Ahead s tokens) : ∃ rest, tokens = .word .semicolonsym :: rest ∧ Ahead s' rest ∧
      s'.gen = s.gen ∧ s'.said = s.said := by
  rw [separator, get_bind_eq_ok] at ran
  split at ran
  · rename_i is
    obtain ⟨rest, rfl⟩ := ahead.word is (by decide)
    obtain ⟨ahead', gen, said⟩ := ahead.step ran
    exact ⟨rest, rfl, ahead', gen, said⟩
  · obtain ⟨_, s1, reported, reported'⟩ := bind_eq_ok.mp ran
    have heard := report_said reported
    have heard' := report_said reported'
    omega

theorem finishIf_kept {j2 : Int} {u : Unit} (ran : finishIf j2 s = .ok u s') :
    ∃ g, s' = { s with gen := g } := by
  simp only [finishIf, bind_eq_ok, modifyGen_eq_ok] at ran
  obtain ⟨_, s1, rfl, rfl⟩ := ran
  exact ⟨_, rfl⟩

end Statements

theorem statementParse_said {fuel : Nat} {fsys : Symset} {s s' : ParseState} {node : StatementNode}
    (ran : statementParse fuel fsys s = .ok node s') : s.said ≤ s'.said :=
  (advances_statementParse fuel fsys s).toAdvances.said ran

mutual
theorem statementParse_taken : ∀ (fuel : Nat) (fsys : Symset) {s s' : ParseState}
    {node : StatementNode} {tokens : List CurrentToken}, statementParse fuel fsys s = .ok node s' →
    s'.said ≤ s.said → Ahead s tokens → inset .elsesym fsys = false →
    StatementTaken node fsys tokens s s'
  | 0, _, _, _, _, _, ran, _, _, _ => by
      exact absurd ran (by simp only [statementParse, throw_ne_ok, not_false_eq_true])
  | fuel + 1, fsys, s, s', node, tokens, ran, silent, ahead, noElse => by
      rw [statementParse, get_bind_eq_ok] at ran
      generalize kind : s.curToken.cToken = token at ran
      split at ran
      · exact assignParse_taken kind ran silent ahead
      · obtain ⟨name, rfl, taken, suits⟩ :=
          nameStatement_taken callKnown_suits (by decide) kind ran ahead
        exact nameStatement_statementTaken taken rfl suits trivial trivial rfl rfl rfl
      · simp only [bind_eq_ok, pure_eq_ok, modifyGen_eq_ok] at ran
        obtain ⟨_, s1, read, first, s2, recorded, rest, s3, looped, _, s4, expected, _, s5, rfl,
          rfl, rfl⟩ := ran
        change s4.said ≤ s.said at silent
        obtain ⟨t, parsed, rfl⟩ := recordStatement_kept recorded
        have grows1 := statementParse_said parsed
        have grows2 := (advances_beginLoop _ _ _).said looped
        change t.said ≤ s3.said at grows2
        have grows3 := (advancing_expectToken _ _).said expected
        have wider : inset .elsesym
          (uniteset (createset [.semicolonsym, .endsym]) fsys) = false := by
          rw [inset_uniteset, noElse]
          decide
        obtain ⟨more, rfl⟩ := ahead.word kind (by decide)
        obtain ⟨ahead1, gen, said⟩ := ahead.step read
        have one := statementParse_taken _ _ parsed (by omega) ahead1 wider
        obtain ⟨text, middle, rfl, kept, ahead2⟩ := one.taken
        obtain ⟨taken, others, suited, closed⟩ :=
          beginLoop_taken _ _ looped (by show s3.said ≤ t.said; omega) (ahead2.of_gen _) wider
        obtain ⟨text', last, rfl, kept', ahead3⟩ := taken first.endsEmpty
        obtain ⟨after, rfl, ahead4, -, -⟩ := expectToken_taken (by decide) expected ahead3
        have known : (s1.gen.recorded false first t.gen).lookup = s.gen.lookup := by
          show t.gen.lookup = s.gen.lookup
          rw [statementParse_runs _ _ parsed, genStatement_lookup, gen]
        have firstSuited := one.suited
        rw [gen] at firstSuited
        rw [known] at suited
        refine ⟨?_, ⟨one.grammatical, others⟩, ⟨firstSuited, suited⟩, ⟨one.closed, closed⟩,
          fun never => (by cases never), fun never => (by cases never), fun _ => rfl⟩
        have ends : Taken [plain .endsym] (.word .endsym :: after)
          { s4 with gen := s4.gen.finishBegin } :=
          ((taken_none ahead4).of_gen _).cons _ _
        have list := (ends.after kept').after kept
        rw [← List.append_assoc] at list
        exact list.cons _ _
      · simp only [bind_eq_ok, modifyGen_eq_ok] at ran
        obtain ⟨_, s1, read, cond, s2, tested, _, s3, expected, j1, s4, got, _, s5, rfl, ifsts, s6,
          recorded, j2, s7, got', _, s8, rfl, _, s9, rfl, this, s10, got'', ran⟩ := ran
        obtain ⟨rfl, rfl⟩ := get_eq_ok.mp got
        obtain ⟨rfl, rfl⟩ := get_eq_ok.mp got'
        obtain ⟨rfl, rfl⟩ := get_eq_ok.mp got''
        obtain ⟨t, parsed, rfl⟩ := recordStatement_kept recorded
        have grows1 := (advances_conditionParse _ _ _).said tested
        have grows2 := (advancing_expectToken _ _).said expected
        have grows3 := statementParse_said parsed
        change s3.said ≤ t.said at grows3
        obtain ⟨more, rfl⟩ := ahead.word kind (by decide)
        obtain ⟨ahead1, gen, said⟩ := ahead.step read
        split at ran
        · rename_i isElse
          change t.curToken.cToken = .elsesym at isElse
          simp only [bind_eq_ok, pure_eq_ok] at ran
          obtain ⟨_, s11, read', elsests, s12, recorded', _, s13, finished, rfl, rfl⟩ := ran
          obtain ⟨t', parsed', rfl⟩ := recordStatement_kept recorded'
          obtain ⟨g, rfl⟩ := finishIf_kept finished
          change t'.said ≤ s.said at silent
          have grows4 := advancing_getToken.said read'
          change t.said ≤ s11.said at grows4
          have grows5 := statementParse_said parsed'
          obtain ⟨⟨text, middle, rfl, kept, ahead2⟩, proper, suited⟩ :=
            conditionParse_taken tested (by omega) ahead1
          obtain ⟨after, rfl, ahead3, gen3, said3⟩ := expectToken_taken (by decide) expected ahead2
          have branch := statementParse_taken _ _ parsed (by show t.said ≤ s3.said; omega)
            (ahead3.of_gen _) noElse
          obtain ⟨text', middle', rfl, kept', ahead4⟩ := branch.taken
          obtain ⟨after', rfl⟩ := ahead4.word isElse (by decide)
          obtain ⟨ahead5, gen5, said5⟩ := Ahead.step (ahead4.of_gen _) read'
          have other := statementParse_taken _ _ parsed' (by omega) ahead5 noElse
          have known : s3.gen.conditionalJump.lookup = s.gen.lookup := by
            show s3.gen.lookup = s.gen.lookup
            rw [gen3, conditionParse_runs tested, (genCondition_emits cond s1.gen).lookup, gen]
          have known' : s11.gen.lookup = s.gen.lookup := by
            rw [gen5]
            show t.gen.lookup = s.gen.lookup
            rw [statementParse_runs _ _ parsed, genStatement_lookup]
            exact known
          have suitedIf := branch.suited
          have suitedElse := other.suited
          rw [gen] at suited
          change ifsts.Suited s3.gen.conditionalJump.lookup at suitedIf
          rw [known] at suitedIf
          rw [known'] at suitedElse
          have notEmpty : ifsts.endsEmpty = false := by
            refine Bool.eq_false_iff.mpr fun ends => ?_
            have inside := branch.behindEmpty ends
            rw [isElse, noElse] at inside
            cases inside
          have notOpen : ifsts.endsOpen = false :=
            Bool.eq_false_iff.mpr fun opened => branch.behindOpen opened isElse
          refine ⟨?_, ⟨proper, branch.grammatical, other.grammatical⟩,
            ⟨suited, suitedIf, suitedElse⟩, ⟨⟨notEmpty, notOpen⟩, branch.closed, other.closed⟩,
            other.behindOpen, other.behindEmpty, fun _ => rfl⟩
          have last := (other.taken.of_gen g).cons (.word .elsesym) .plain
          exact (((last.after kept').cons (.word .thensym) .plain).after kept).cons _ _
        · rename_i notElse
          change t.curToken.cToken ≠ .elsesym at notElse
          simp only [bind_eq_ok, pure_eq_ok] at ran
          obtain ⟨_, s11, finished, rfl, rfl⟩ := ran
          obtain ⟨g, rfl⟩ := finishIf_kept finished
          change t.said ≤ s.said at silent
          obtain ⟨⟨text, middle, rfl, kept, ahead2⟩, proper, suited⟩ :=
            conditionParse_taken tested (by omega) ahead1
          obtain ⟨after, rfl, ahead3, gen3, said3⟩ := expectToken_taken (by decide) expected ahead2
          have branch := statementParse_taken _ _ parsed (by show t.said ≤ s3.said; omega)
            (ahead3.of_gen _) noElse
          have known : s3.gen.conditionalJump.lookup = s.gen.lookup := by
            show s3.gen.lookup = s.gen.lookup
            rw [gen3, conditionParse_runs tested, (genCondition_emits cond s1.gen).lookup, gen]
          have suitedIf := branch.suited
          rw [gen] at suited
          change ifsts.Suited s3.gen.conditionalJump.lookup at suitedIf
          rw [known] at suitedIf
          refine ⟨?_, ⟨proper, branch.grammatical⟩, ⟨suited, suitedIf⟩, branch.closed,
            fun _ => notElse, branch.behindEmpty, fun _ => rfl⟩
          exact (((branch.taken.of_gen g).cons (.word .thensym) .plain).after kept).cons _ _
      · simp only [bind_eq_ok, pure_eq_ok, modifyGen_eq_ok] at ran
        obtain ⟨_, s1, read, c, s2, got, cond, s3, tested, _, s4, expected, j1, s5, got', _, s6,
          rfl, sts, s7, recorded, j2, s8, got'', _, s9, rfl, _, s10, rfl, _, s11, rfl, _, s12, rfl,
          rfl, rfl⟩ := ran
        obtain ⟨rfl, rfl⟩ := get_eq_ok.mp got
        obtain ⟨rfl, rfl⟩ := get_eq_ok.mp got'
        obtain ⟨rfl, rfl⟩ := get_eq_ok.mp got''
        obtain ⟨t, parsed, rfl⟩ := recordStatement_kept recorded
        change t.said ≤ s.said at silent
        have grows1 := (advances_conditionParse _ _ _).said tested
        have grows2 := (advancing_expectToken _ _).said expected
        have grows3 := statementParse_said parsed
        change s4.said ≤ t.said at grows3
        obtain ⟨more, rfl⟩ := ahead.word kind (by decide)
        obtain ⟨ahead1, gen, said⟩ := ahead.step read
        obtain ⟨⟨text, middle, rfl, kept, ahead2⟩, proper, suited⟩ :=
          conditionParse_taken tested (by omega) ahead1
        obtain ⟨after, rfl, ahead3, gen3, said3⟩ := expectToken_taken (by decide) expected ahead2
        have body := statementParse_taken _ _ parsed (by show t.said ≤ s4.said; omega)
          (ahead3.of_gen _) noElse
        have known : s4.gen.conditionalJump.lookup = s.gen.lookup := by
          show s4.gen.lookup = s.gen.lookup
          rw [gen3, conditionParse_runs tested, (genCondition_emits cond s1.gen).lookup, gen]
        have suitedBody := body.suited
        rw [gen] at suited
        change sts.Suited s4.gen.conditionalJump.lookup at suitedBody
        rw [known] at suitedBody
        refine ⟨?_, ⟨proper, body.grammatical⟩, ⟨suited, suitedBody⟩, body.closed, body.behindOpen,
          body.behindEmpty, fun _ => rfl⟩
        exact (((body.taken.of_gen _).cons (.word .dosym) .plain).after kept).cons _ _
      · obtain ⟨name, rfl, taken, suits⟩ :=
          nameStatement_taken readKnown_suits (by decide) kind ran ahead
        exact nameStatement_statementTaken taken rfl suits trivial trivial rfl rfl rfl
      · obtain ⟨name, rfl, taken, suits⟩ :=
          nameStatement_taken writeKnown_suits (by decide) kind ran ahead
        exact nameStatement_statementTaken taken rfl suits trivial trivial rfl rfl rfl
      · rename_i notIdent notCall notBegin notIf notWhile notRead notWrite
        simp only [bind_eq_ok, pure_eq_ok] at ran
        obtain ⟨_, s1, tested, rfl, rfl⟩ := ran
        obtain ⟨rfl, inside⟩ := test_silent tested silent
        refine ⟨taken_none ahead, trivial, trivial, trivial, fun never => (by cases never),
          fun _ => inside, fun begins => ?_⟩
        rw [kind] at begins
        exfalso
        revert begins
        cases token <;> first | decide | (intro _; contradiction)

theorem beginLoop_taken : ∀ (fuel : Nat) (set : Symset) {s s' : ParseState} {list : StatementList}
    {tokens : List CurrentToken}, beginLoop fuel set s = .ok list s' → s'.said ≤ s.said →
    Ahead s tokens → inset .elsesym set = false →
    (∀ ends, Taken (list.frontierAfter ends) tokens s') ∧ list.Grammatical false ∧
      list.Suited s.gen.lookup ∧ list.ThenBranches StatementNode.Closed
  | 0, _, _, _, _, _, ran, _, _, _ => by
      exact absurd ran (by simp only [beginLoop, throw_ne_ok, not_false_eq_true])
  | fuel + 1, set, s, s', list, tokens, ran, silent, ahead, noElse => by
      rw [beginLoop, get_bind_eq_ok] at ran
      split at ran
      · simp only [bind_eq_ok, pure_eq_ok] at ran
        obtain ⟨_, s1, separated, sts, s2, recorded, rest, s3, looped, rfl, rfl⟩ := ran
        obtain ⟨t, parsed, rfl⟩ := recordStatement_kept recorded
        have grows := advancing_separator.said separated
        have grows1 := statementParse_said parsed
        have grows2 := (advances_beginLoop _ _ _).said looped
        change t.said ≤ s3.said at grows2
        obtain ⟨more, rfl, ahead1, gen, said⟩ := separator_taken separated (by omega) ahead
        have one := statementParse_taken _ _ parsed (by omega) ahead1 noElse
        obtain ⟨text, middle, rfl, kept, ahead2⟩ := one.taken
        obtain ⟨taken, others, suited, closed⟩ :=
          beginLoop_taken _ _ looped (by show s3.said ≤ t.said; omega) (ahead2.of_gen _) noElse
        have known : (s1.gen.recorded false sts t.gen).lookup = s.gen.lookup := by
          show t.gen.lookup = s.gen.lookup
          rw [statementParse_runs _ _ parsed, genStatement_lookup, gen]
        have firstSuited := one.suited
        rw [gen] at firstSuited
        rw [known] at suited
        refine ⟨fun ends => ?_, ⟨one.grammatical, others⟩, ⟨firstSuited, suited⟩,
          one.closed, closed⟩
        exact ((taken sts.endsEmpty).after kept).cons _ _
      · obtain ⟨rfl, rfl⟩ := pure_eq_ok.mp ran
        exact ⟨fun _ => taken_none ahead, rfl, trivial, trivial⟩
end

end Pl0
