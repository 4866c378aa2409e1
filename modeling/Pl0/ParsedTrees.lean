import Pl0.Compile
import Pl0.LegalTree

set_option autoImplicit false

namespace Pl0

open StateExcept

/- What the statement parser makes sure of, whether it reports anything or not: the tree is one
of the grammar, and `find` knows its names. An assignment to a name of another kind goes
through with a report. -/
mutual
def StatementNode.Known (find : Name → Option Symbol) : StatementNode → Prop
  | .empty => True
  | .assign name e => (∃ symbol, find name = some symbol) ∧ e.Suited find
  | .begin list => list.Known find
  | .ifS cond ifsts => cond.Suited find ∧ ifsts.Known find
  | .ifElse cond ifsts elsests => cond.Suited find ∧ ifsts.Known find ∧ elsests.Known find
  | .while cond sts => cond.Suited find ∧ sts.Known find
  | .read name => Suits .read (find name)
  | .write name => Suits .write (find name)
  | .call name => Suits .call (find name)

def StatementList.Known (find : Name → Option Symbol) : StatementList → Prop
  | .nil => True
  | .cons sts next => sts.Known find ∧ next.Known find
end

section Expressions

variable {s s' : ParseState}

theorem identFactor_suited {f : FactorNode} (ran : identFactor s = .ok f s') :
    f.Grammatical ∧ f.Suited s.gen.lookup := by
  rw [identFactor, get_bind_eq_ok] at ran
  simp only [bind_eq_ok, pure_eq_ok, modifyGen_eq_ok] at ran
  obtain ⟨_, s1, rfl, _, s2, loaded, _, s3, read, rfl, rfl⟩ := ran
  obtain ⟨-, found, known, kind⟩ := loadFactor_runs loaded
  exact ⟨trivial, found, known, kind⟩

theorem numberFactor_suited {f : FactorNode} (ran : numberFactor s = .ok f s') :
    f.Grammatical ∧ f.Suited s.gen.lookup := by
  rw [numberFactor, get_bind_eq_ok] at ran
  split at ran
  · exact (failWith_ne_ok.mp ran).elim
  · rename_i small
    simp only [bind_eq_ok, pure_eq_ok] at ran
    obtain ⟨_, s1, emitted, _, s2, read, rfl, rfl⟩ := ran
    exact ⟨trivial, Int.not_lt.mp small⟩

theorem leadingSign_eq_ok {token : Token} (ran : leadingSign s = .ok token s') :
    token = .unset ∨ token = .plussym ∨ token = .minussym := by
  rw [leadingSign, get_bind_eq_ok] at ran
  split at ran
  · rename_i signed
    simp only [bind_eq_ok, pure_eq_ok] at ran
    obtain ⟨_, s1, read, rfl, rfl⟩ := ran
    exact .inr signed
  · obtain ⟨rfl, rfl⟩ := pure_eq_ok.mp ran
    exact .inl rfl

/- The names are looked up before and behind the code of an operand in the same table. -/
mutual
theorem expressionParse_suited : ∀ (fuel : Nat) (fsys : Symset) {s s' : ParseState} {e : TermExp},
    expressionParse fuel fsys s = .ok e s' → e.Grammatical true ∧ e.Suited s.gen.lookup
  | 0, _, _, _, _, ran => by
      exact absurd ran (by simp only [expressionParse, throw_ne_ok, not_false_eq_true])
  | fuel + 1, fsys, s, s', e, ran => by
      simp only [expressionParse, bind_eq_ok, pure_eq_ok] at ran
      obtain ⟨preop, s1, signed, term, s2, parsed, rest, s3, looped, rfl, rfl⟩ := ran
      have sign := leadingSign_eq_ok signed
      obtain ⟨termTree, termNames⟩ := termParse_suited _ _ _ parsed
      obtain ⟨restTree, restNames⟩ := expressionLoop_suited _ _ looped
      rw [termParse_runs _ _ _ parsed, (genFactors_emits _ _ _).lookup] at restNames
      rw [leadingSign_gen _ _ _ signed] at termNames restNames
      exact ⟨⟨sign.imp_left fun unsigned => ⟨rfl, unsigned⟩, termTree, restTree⟩,
        termNames, restNames⟩

theorem expressionLoop_suited : ∀ (fuel : Nat) (set : Symset) {s s' : ParseState} {e : TermExp},
    expressionLoop fuel set s = .ok e s' → e.Grammatical false ∧ e.Suited s.gen.lookup
  | 0, _, _, _, _, ran => by
      exact absurd ran (by simp only [expressionLoop, throw_ne_ok, not_false_eq_true])
  | fuel + 1, set, s, s', e, ran => by
      rw [expressionLoop, get_bind_eq_ok] at ran
      split at ran
      · rename_i operator
        simp only [bind_eq_ok, pure_eq_ok, modifyGen_eq_ok] at ran
        obtain ⟨_, s1, read, term, s2, parsed, _, s3, rfl, rest, s4, looped, rfl, rfl⟩ := ran
        obtain ⟨termTree, termNames⟩ := termParse_suited _ _ _ parsed
        obtain ⟨restTree, restNames⟩ := expressionLoop_suited _ _ looped
        have known : (s2.gen.calculate s.curToken.cToken).lookup = s1.gen.lookup := by
          change s2.gen.lookup = _
          rw [termParse_runs _ _ _ parsed, (genFactors_emits _ _ _).lookup]
        rw [known] at restNames
        rw [getToken_gen _ _ _ read] at termNames restNames
        exact ⟨⟨.inr operator, termTree, restTree⟩, termNames, restNames⟩
      · obtain ⟨rfl, rfl⟩ := pure_eq_ok.mp ran
        exact ⟨rfl, trivial⟩

theorem termParse_suited : ∀ (fuel : Nat) (preop : Token) (fsys : Symset) {s s' : ParseState}
    {e : FactorExp}, termParse fuel preop fsys s = .ok e s' →
      e.Grammatical true ∧ e.Suited s.gen.lookup
  | 0, _, _, _, _, _, ran => by
      exact absurd ran (by simp only [termParse, throw_ne_ok, not_false_eq_true])
  | fuel + 1, preop, fsys, s, s', e, ran => by
      simp only [termParse, bind_eq_ok, pure_eq_ok, modifyGen_eq_ok] at ran
      obtain ⟨factor, s1, parsed, _, s2, rfl, rest, s3, looped, rfl, rfl⟩ := ran
      obtain ⟨factorTree, factorNames⟩ := factorParse_suited _ _ parsed
      obtain ⟨restTree, restNames⟩ := termLoop_suited _ _ looped
      have known : (s1.gen.negate preop).lookup = s.gen.lookup := by
        rw [(emitted_negate _ _).lookup, factorParse_runs _ _ parsed, (genFactor_emits _ _).lookup]
      rw [known] at restNames
      exact ⟨⟨rfl, factorTree, restTree⟩, factorNames, restNames⟩

theorem termLoop_suited : ∀ (fuel : Nat) (set : Symset) {s s' : ParseState} {e : FactorExp},
    termLoop fuel set s = .ok e s' → e.Grammatical false ∧ e.Suited s.gen.lookup
  | 0, _, _, _, _, ran => by
      exact absurd ran (by simp only [termLoop, throw_ne_ok, not_false_eq_true])
  | fuel + 1, set, s, s', e, ran => by
      rw [termLoop, get_bind_eq_ok] at ran
      split at ran
      · rename_i operator
        simp only [bind_eq_ok, pure_eq_ok, modifyGen_eq_ok] at ran
        obtain ⟨_, s1, read, factor, s2, parsed, _, s3, rfl, rest, s4, looped, rfl, rfl⟩ := ran
        obtain ⟨factorTree, factorNames⟩ := factorParse_suited _ _ parsed
        obtain ⟨restTree, restNames⟩ := termLoop_suited _ _ looped
        have known : (s2.gen.calculate s.curToken.cToken).lookup = s1.gen.lookup := by
          change s2.gen.lookup = _
          rw [factorParse_runs _ _ parsed, (genFactor_emits _ _).lookup]
        rw [known] at restNames
        rw [getToken_gen _ _ _ read] at factorNames restNames
        exact ⟨⟨operator, factorTree, restTree⟩, factorNames, restNames⟩
      · obtain ⟨rfl, rfl⟩ := pure_eq_ok.mp ran
        exact ⟨rfl, trivial⟩

theorem factorParse_suited : ∀ (fuel : Nat) (fsys : Symset) {s s' : ParseState} {f : FactorNode},
    factorParse fuel fsys s = .ok f s' → f.Grammatical ∧ f.Suited s.gen.lookup
  | 0, _, _, _, _, ran => by
      exact absurd ran (by simp only [factorParse, throw_ne_ok, not_false_eq_true])
  | fuel + 1, fsys, s, s', f, ran => by
      simp only [factorParse, bind_eq_ok] at ran
      obtain ⟨_, s1, tested, this, s2, got, ran⟩ := ran
      obtain ⟨rfl, rfl⟩ := get_eq_ok.mp got
      have same := test_gen _ _ _ _ _ _ _ tested
      generalize kind : s1.curToken.cToken = token at ran
      rw [← same]
      split at ran
      · exact identFactor_suited ran
      · exact numberFactor_suited ran
      · simp only [bind_eq_ok, pure_eq_ok] at ran
        obtain ⟨_, s2, read, e, s3, parsed, _, s4, closed, rfl, rfl⟩ := ran
        have inner := expressionParse_suited _ _ parsed
        rw [getToken_gen _ _ _ read] at inner
        exact inner
      · simp only [bind_eq_ok, failWith_ne_ok, and_false, exists_false] at ran
end

end Expressions

section Statements

variable {s s' : ParseState}

theorem relOp_eq_ok {token : Token} (ran : relOp s = .ok token s') : IsRelOp token := by
  rw [relOp, get_bind_eq_ok] at ran
  split at ran
  · rename_i relation
    obtain ⟨rfl, -⟩ := pure_eq_ok.mp ran
    exact relation
  · exact (failWith_ne_ok.mp ran).elim

theorem conditionParse_suited {fuel : Nat} {fsys : Symset} {c : ConditionNode}
    (ran : conditionParse fuel fsys s = .ok c s') : c.Grammatical ∧ c.Suited s.gen.lookup := by
  rw [conditionParse, get_bind_eq_ok] at ran
  split at ran
  · simp only [bind_eq_ok, pure_eq_ok, modifyGen_eq_ok] at ran
    obtain ⟨_, s1, read, right, s2, parsed, _, s3, rfl, rfl, rfl⟩ := ran
    have inner := expressionParse_suited _ _ parsed
    rw [getToken_gen _ _ _ read] at inner
    exact inner
  · simp only [bind_eq_ok, pure_eq_ok, modifyGen_eq_ok] at ran
    obtain ⟨left, s1, parsedLeft, op, s2, relation, _, s3, read, right, s4, parsedRight, _, s5, rfl,
      rfl, rfl⟩ := ran
    obtain ⟨leftTree, leftNames⟩ := expressionParse_suited _ _ parsedLeft
    obtain ⟨rightTree, rightNames⟩ := expressionParse_suited _ _ parsedRight
    rw [getToken_gen _ _ _ read, relOp_gen _ _ _ relation, expressionParse_runs _ _ parsedLeft,
      (genExpression_emits _ _).lookup] at rightNames
    exact ⟨⟨relOp_eq_ok relation, leftTree, rightTree⟩, leftNames, rightNames⟩

theorem assignParse_known {fuel : Nat} {fsys : Symset} {node : StatementNode}
    (ran : assignParse fuel fsys s = .ok node s') : node.Grammatical ∧ node.Known s.gen.lookup := by
  rw [assignParse, get_bind_eq_ok] at ran
  simp only [bind_eq_ok, pure_eq_ok, modifyGen_eq_ok] at ran
  obtain ⟨_, s1, rfl, _, s2, checked, _, s3, read, _, s4, expected, e, s5, parsed, _, s6, stored,
    rfl, rfl⟩ := ran
  obtain ⟨tree, names⟩ := expressionParse_suited _ _ parsed
  rw [expectBecomes_gen _ _ _ expected, getToken_gen _ _ _ read,
    checkAssigned_gen _ _ _ _ checked] at names
  exact ⟨tree, (storeSymbol_runs stored).2, names⟩

/-- The symbol of a statement that is a keyword and a name is one that its check lets pass. -/
theorem nameStatement_known {errorType : Nat} {construct : Construct}
    {known : Option Symbol → ParseM Unit} {node : Name → StatementNode} {result : StatementNode}
    (knows : ∀ sym t t' u, known sym t = .ok u t' → Suits construct sym ∧
      ∃ g, t' = { t with gen := g })
    (ran : nameStatement errorType construct known node s = .ok result s') :
    ∃ name, result = node name ∧ Suits construct (s.gen.lookup name) := by
  simp only [nameStatement, bind_eq_ok, pure_eq_ok, modifyGen_eq_ok] at ran
  obtain ⟨_, s1, read, name, s2, expected, this, s3, got, _, s4, rfl, _, s5, acted, _, s6, read',
    rfl, rfl⟩ := ran
  obtain ⟨rfl, -, -⟩ := expectIdent_eq_ok expected
  obtain ⟨rfl, rfl⟩ := get_eq_ok.mp got
  obtain ⟨suits, -⟩ := knows _ _ _ _ acted
  rw [getToken_gen _ _ _ read] at suits
  exact ⟨name, rfl, suits⟩

theorem callKnown_suits {sym : Option Symbol} {u : Unit} (ran : callKnown sym s = .ok u s') :
    Suits .call sym ∧ ∃ g, s' = { s with gen := g } := by
  cases sym with
  | none => exact (failWith_ne_ok.mp ran).elim
  | some found =>
      simp only [callKnown] at ran
      split at ran
      · exact (failWith_ne_ok.mp ran).elim
      · rename_i isProc
        exact ⟨⟨found, rfl, not_not.mp isProc⟩, _, (modifyGen_eq_ok.mp ran).symm⟩

theorem readKnown_suits {sym : Option Symbol} {u : Unit} (ran : readKnown sym s = .ok u s') :
    Suits .read sym ∧ ∃ g, s' = { s with gen := g } := by
  cases sym with
  | none => exact (failWith_ne_ok.mp ran).elim
  | some found =>
      simp only [readKnown] at ran
      split at ran
      · exact (failWith_ne_ok.mp ran).elim
      · rename_i isVar
        exact ⟨⟨found, rfl, not_not.mp isVar⟩, _, (modifyGen_eq_ok.mp ran).symm⟩

theorem writeKnown_suits {sym : Option Symbol} {u : Unit} (ran : writeKnown sym s = .ok u s') :
    Suits .write sym ∧ ∃ g, s' = { s with gen := g } := by
  cases sym with
  | none => exact (failWith_ne_ok.mp ran).elim
  | some found =>
      simp only [writeKnown] at ran
      split at ran
      · rename_i isData
        refine ⟨⟨found, rfl, ?_⟩, _, (modifyGen_eq_ok.mp ran).symm⟩
        show found.kind ≠ .procS
        rcases isData with isVar | isConst
        · rw [isVar]
          decide
        · rw [isConst]
          decide
      · exact (failWith_ne_ok.mp ran).elim

/-- The state in which the branch of an if or the body of a loop is read knows the same names. -/
theorem lookup_conditionalJump {g tested : GenState} {cond : ConditionNode}
    (runs : tested = genCondition cond g) : tested.conditionalJump.lookup = g.lookup := by
  rw [runs]
  exact (genCondition_emits cond g).lookup

mutual
theorem statementParse_known : ∀ (fuel : Nat) (fsys : Symset) {s s' : ParseState}
    {node : StatementNode}, statementParse fuel fsys s = .ok node s' →
      node.Grammatical ∧ node.Known s.gen.lookup
  | 0, _, _, _, _, ran => by
      exact absurd ran (by simp only [statementParse, throw_ne_ok, not_false_eq_true])
  | fuel + 1, fsys, s, s', node, ran => by
      rw [statementParse, get_bind_eq_ok] at ran
      generalize kind : s.curToken.cToken = token at ran
      split at ran
      · exact assignParse_known ran
      · obtain ⟨name, rfl, suits⟩ := nameStatement_known (fun _ _ _ _ => callKnown_suits) ran
        exact ⟨trivial, suits⟩
      · simp only [bind_eq_ok, pure_eq_ok, modifyGen_eq_ok] at ran
        obtain ⟨_, s1, read, first, s2, recorded, rest, s3, looped, _, s4, expected, _, s5, rfl,
          rfl, rfl⟩ := ran
        obtain ⟨t, parsed, same⟩ := recordStatement_runs recorded
        obtain ⟨firstTree, firstNames⟩ := statementParse_known _ _ parsed
        obtain ⟨restTree, restNames⟩ := beginLoop_known _ _ looped
        have known : s2.gen.lookup = s1.gen.lookup := by
          rw [same]
          change t.gen.lookup = _
          rw [statementParse_runs _ _ parsed, genStatement_lookup]
        rw [known] at restNames
        rw [getToken_gen _ _ _ read] at firstNames restNames
        exact ⟨⟨firstTree, restTree⟩, firstNames, restNames⟩
      · simp only [bind_eq_ok, modifyGen_eq_ok] at ran
        obtain ⟨_, s1, read, cond, s2, tested, _, s3, expected, j1, s4, got, _, s5, rfl, ifsts, s6,
          recorded, j2, s7, got', _, s8, rfl, _, s9, rfl, this, s10, got'', ran⟩ := ran
        obtain ⟨rfl, rfl⟩ := get_eq_ok.mp got
        obtain ⟨rfl, rfl⟩ := get_eq_ok.mp got'
        obtain ⟨rfl, rfl⟩ := get_eq_ok.mp got''
        obtain ⟨t, parsed, same⟩ := recordStatement_runs recorded
        have test : s3.gen = genCondition cond s.gen := by
          rw [expectToken_gen _ _ _ _ _ expected, conditionParse_runs tested,
            getToken_gen _ _ _ read]
        have condition := conditionParse_suited tested
        rw [getToken_gen _ _ _ read] at condition
        have branch := statementParse_known _ _ parsed
        have inside := lookup_conditionalJump test
        rw [inside] at branch
        split at ran
        · simp only [bind_eq_ok, pure_eq_ok] at ran
          obtain ⟨_, s11, read', elsests, s12, recorded', _, s13, finished, rfl, rfl⟩ := ran
          obtain ⟨t', parsed', same'⟩ := recordStatement_runs recorded'
          have other := statementParse_known _ _ parsed'
          have behind : s11.gen.lookup = s.gen.lookup := by
            rw [getToken_gen _ _ _ read', same]
            change t.gen.lookup = _
            rw [statementParse_runs _ _ parsed, genStatement_lookup]
            exact inside
          rw [behind] at other
          exact ⟨⟨condition.1, branch.1, other.1⟩, condition.2, branch.2, other.2⟩
        · simp only [bind_eq_ok, pure_eq_ok] at ran
          obtain ⟨_, s11, finished, rfl, rfl⟩ := ran
          exact ⟨⟨condition.1, branch.1⟩, condition.2, branch.2⟩
      · simp only [bind_eq_ok, pure_eq_ok, modifyGen_eq_ok] at ran
        obtain ⟨_, s1, read, c, s2, got, cond, s3, tested, _, s4, expected, j1, s5, got', _, s6,
          rfl, sts, s7, recorded, j2, s8, got'', _, s9, rfl, _, s10, rfl, _, s11, rfl, _, s12, rfl,
          rfl, rfl⟩ := ran
        obtain ⟨rfl, rfl⟩ := get_eq_ok.mp got
        obtain ⟨rfl, rfl⟩ := get_eq_ok.mp got'
        obtain ⟨rfl, rfl⟩ := get_eq_ok.mp got''
        obtain ⟨t, parsed, same⟩ := recordStatement_runs recorded
        have test : s4.gen = genCondition cond s.gen := by
          rw [expectToken_gen _ _ _ _ _ expected, conditionParse_runs tested,
            getToken_gen _ _ _ read]
        have condition := conditionParse_suited tested
        rw [getToken_gen _ _ _ read] at condition
        have body := statementParse_known _ _ parsed
        rw [lookup_conditionalJump test] at body
        exact ⟨⟨condition.1, body.1⟩, condition.2, body.2⟩
      · obtain ⟨name, rfl, suits⟩ := nameStatement_known (fun _ _ _ _ => readKnown_suits) ran
        exact ⟨trivial, suits⟩
      · obtain ⟨name, rfl, suits⟩ := nameStatement_known (fun _ _ _ _ => writeKnown_suits) ran
        exact ⟨trivial, suits⟩
      · simp only [bind_eq_ok, pure_eq_ok] at ran
        obtain ⟨_, s1, tested, rfl, rfl⟩ := ran
        exact ⟨trivial, trivial⟩

theorem beginLoop_known : ∀ (fuel : Nat) (set : Symset) {s s' : ParseState} {list : StatementList},
    beginLoop fuel set s = .ok list s' → list.Grammatical false ∧ list.Known s.gen.lookup
  | 0, _, _, _, _, ran => by
      exact absurd ran (by simp only [beginLoop, throw_ne_ok, not_false_eq_true])
  | fuel + 1, set, s, s', list, ran => by
      rw [beginLoop, get_bind_eq_ok] at ran
      split at ran
      · simp only [bind_eq_ok, pure_eq_ok] at ran
        obtain ⟨_, s1, separated, sts, s2, recorded, rest, s3, looped, rfl, rfl⟩ := ran
        obtain ⟨t, parsed, same⟩ := recordStatement_runs recorded
        obtain ⟨firstTree, firstNames⟩ := statementParse_known _ _ parsed
        obtain ⟨restTree, restNames⟩ := beginLoop_known _ _ looped
        have known : s2.gen.lookup = s1.gen.lookup := by
          rw [same]
          change t.gen.lookup = _
          rw [statementParse_runs _ _ parsed, genStatement_lookup]
        rw [known] at restNames
        rw [separator_gen _ _ _ separated] at firstNames restNames
        exact ⟨⟨firstTree, restTree⟩, firstNames, restNames⟩
      · obtain ⟨rfl, rfl⟩ := pure_eq_ok.mp ran
        exact ⟨rfl, trivial⟩
end

/-- A statement part that the parser has read in the state `g`. -/
def Complete (g : GenState) (statement : StatementNode) : Prop :=
  statement.Grammatical ∧ statement.Known g.lookup

theorem statements_complete : StatementsMeet Complete :=
  fun fuel fsys _ _ _ ran => statementParse_known fuel fsys ran

end Statements

end Pl0
