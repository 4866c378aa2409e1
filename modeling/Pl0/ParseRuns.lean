import Pl0.GenReplay
import Pl0.StateExcept

set_option autoImplicit false

namespace Pl0

open StateExcept

/-- A computation that, when it returns, has left the globals alone. -/
def KeepsGen {α : Type} (x : ParseM α) : Prop :=
  ∀ s a s', x s = .ok a s' → s'.gen = s.gen

theorem modifyGen_eq_ok {f : GenState → GenState} {s s' : ParseState} {u : Unit} :
    modifyGen f s = .ok u s' ↔ { s with gen := f s.gen } = s' :=
  modify_eq_ok

theorem get_bind {α : Type} (f : ParseState → ParseM α) (s : ParseState) :
    ((get : ParseM ParseState) >>= f) s = f s s := rfl

theorem get_bind_eq_ok {α : Type} {f : ParseState → ParseM α} {s s' : ParseState} {a : α} :
    ((get : ParseM ParseState) >>= f) s = .ok a s' ↔ f s s = .ok a s' := by
  rw [get_bind]

theorem failWith_ne_ok {α : Type} {errorType : Nat} {s s' : ParseState} {a : α} :
    (failWith errorType : ParseM α) s = .ok a s' ↔ False := by
  unfold failWith
  simp only [bind_eq_ok, throw_ne_ok, and_false, exists_false]

theorem getToken_gen : KeepsGen getToken := by
  intro s u s' ran
  rw [← modify_eq_ok.mp ran]
  split <;> rfl

theorem report_gen (r : Report) : KeepsGen (report r) := by
  intro s u s' ran
  rw [← modify_eq_ok.mp ran]

theorem skipLoop_gen (set : Symset) (fuel : Nat) : KeepsGen (skipLoop set fuel) := by
  induction fuel with
  | zero =>
      intro s u s' ran
      exact absurd ran (by simp only [skipLoop, throw_ne_ok, not_false_eq_true])
  | succ fuel ih =>
      intro s u s' ran
      rw [skipLoop, get_bind_eq_ok] at ran
      split at ran
      · obtain ⟨-, rfl⟩ := pure_eq_ok.mp ran
        rfl
      · simp only [bind_eq_ok] at ran
        obtain ⟨_, s1, reported, _, s2, read, looped⟩ := ran
        rw [ih _ _ _ looped, getToken_gen _ _ _ read, report_gen _ _ _ _ reported]

theorem test_gen (fuel : Nat) (s1 s2 : Symset) (errorType : Nat) :
    KeepsGen (test fuel s1 s2 errorType) := by
  intro s u s' ran
  rw [test, get_bind_eq_ok] at ran
  split at ran
  · obtain ⟨-, rfl⟩ := pure_eq_ok.mp ran
    rfl
  · simp only [bind_eq_ok] at ran
    obtain ⟨_, t1, reported, _, t2, reported', looped⟩ := ran
    rw [skipLoop_gen _ _ _ _ _ looped, report_gen _ _ _ _ reported', report_gen _ _ _ _ reported]

theorem expectToken_gen (token : Token) (errorType : Nat) :
    KeepsGen (expectToken token errorType) := by
  intro s u s' ran
  rw [expectToken, get_bind_eq_ok] at ran
  split at ran
  · exact getToken_gen _ _ _ ran
  · exact (failWith_ne_ok.mp ran).elim

theorem expectIdent_eq_ok {errorType : Nat} {s s' : ParseState} {name : Name}
    (ran : expectIdent errorType s = .ok name s') :
    s' = s ∧ s.curToken.cToken = .identsym ∧ name = s.curToken.string := by
  rw [expectIdent, get_bind_eq_ok] at ran
  split at ran
  · rename_i isIdent
    obtain ⟨same, rfl⟩ := pure_eq_ok.mp ran
    exact ⟨rfl, isIdent, same.symm⟩
  · exact (failWith_ne_ok.mp ran).elim

theorem leadingSign_gen : KeepsGen leadingSign := by
  intro s token s' ran
  rw [leadingSign, get_bind_eq_ok] at ran
  split at ran
  · simp only [bind_eq_ok, pure_eq_ok] at ran
    obtain ⟨_, s1, read, -, rfl⟩ := ran
    exact getToken_gen _ _ _ read
  · obtain ⟨-, rfl⟩ := pure_eq_ok.mp ran
    rfl

theorem closeParen_gen (fuel : Nat) (fsys : Symset) : KeepsGen (closeParen fuel fsys) := by
  intro s u s' ran
  rw [closeParen, get_bind_eq_ok] at ran
  split at ran
  · exact getToken_gen _ _ _ ran
  · exact test_gen _ _ _ _ _ _ _ ran

theorem relOp_gen : KeepsGen relOp := by
  intro s token s' ran
  rw [relOp, get_bind_eq_ok] at ran
  split at ran
  · obtain ⟨-, rfl⟩ := pure_eq_ok.mp ran
    rfl
  · exact (failWith_ne_ok.mp ran).elim

theorem loadFactor_runs {sym : Option Symbol} {s s' : ParseState} {u : Unit}
    (ran : loadFactor sym s = .ok u s') :
    s'.gen = s.gen.loadKnown sym ∧ ∃ found, sym = some found ∧ found.kind ≠ .procS := by
  unfold loadFactor at ran
  cases sym with
  | none => exact (failWith_ne_ok.mp ran).elim
  | some found =>
      cases kind : found.kind with
      | varS =>
          simp only [kind] at ran
          rw [← modifyGen_eq_ok.mp ran]
          exact ⟨by simp only [GenState.loadKnown, kind], found, rfl, by simp [kind]⟩
      | constS =>
          simp only [kind] at ran
          rw [← modifyGen_eq_ok.mp ran]
          exact ⟨by simp only [GenState.loadKnown, kind], found, rfl, by simp [kind]⟩
      | procS =>
          simp only [kind] at ran
          exact (failWith_ne_ok.mp ran).elim

theorem identFactor_runs {s s' : ParseState} {node : FactorNode}
    (ran : identFactor s = .ok node s') : s'.gen = genFactor node s.gen := by
  rw [identFactor, get_bind_eq_ok] at ran
  simp only [bind_eq_ok, pure_eq_ok, modifyGen_eq_ok] at ran
  obtain ⟨_, s1, rfl, _, s2, loaded, _, s3, read, rfl, rfl⟩ := ran
  rw [getToken_gen _ _ _ read, (loadFactor_runs loaded).1]
  rfl

theorem numberFactor_runs {s s' : ParseState} {node : FactorNode}
    (ran : numberFactor s = .ok node s') : s'.gen = genFactor node s.gen := by
  rw [numberFactor, get_bind_eq_ok] at ran
  split at ran
  · exact (failWith_ne_ok.mp ran).elim
  · simp only [bind_eq_ok, pure_eq_ok, modifyGen_eq_ok] at ran
    obtain ⟨_, s1, rfl, _, s2, read, rfl, rfl⟩ := ran
    rw [getToken_gen _ _ _ read]
    rfl

/- The fuel goes down by one at every call, and each equation follows the body of
its function. -/
mutual
theorem expressionParse_runs : ∀ (fuel : Nat) (fsys : Symset) {s s' : ParseState} {e : TermExp},
    expressionParse fuel fsys s = .ok e s' → s'.gen = genExpression e s.gen
  | 0, _, _, _, _, ran => by
      exact absurd ran (by simp only [expressionParse, throw_ne_ok, not_false_eq_true])
  | fuel + 1, fsys, s, s', e, ran => by
      simp only [expressionParse, bind_eq_ok, pure_eq_ok] at ran
      obtain ⟨preop, s1, signed, term, s2, parsed, rest, s3, looped, rfl, rfl⟩ := ran
      rw [expressionLoop_runs _ _ looped, termParse_runs _ _ _ parsed, leadingSign_gen _ _ _ signed]
      rfl

theorem expressionLoop_runs : ∀ (fuel : Nat) (set : Symset) {s s' : ParseState} {e : TermExp},
    expressionLoop fuel set s = .ok e s' → s'.gen = genTerms e false s.gen
  | 0, _, _, _, _, ran => by
      exact absurd ran (by simp only [expressionLoop, throw_ne_ok, not_false_eq_true])
  | fuel + 1, set, s, s', e, ran => by
      rw [expressionLoop, get_bind_eq_ok] at ran
      split at ran
      · simp only [bind_eq_ok, pure_eq_ok, modifyGen_eq_ok] at ran
        obtain ⟨_, s1, read, term, s2, parsed, _, s3, rfl, rest, s4, looped, rfl, rfl⟩ := ran
        rw [expressionLoop_runs _ _ looped, termParse_runs _ _ _ parsed, getToken_gen _ _ _ read]
        rfl
      · obtain ⟨rfl, rfl⟩ := pure_eq_ok.mp ran
        rfl

theorem termParse_runs : ∀ (fuel : Nat) (preop : Token) (fsys : Symset) {s s' : ParseState}
    {e : FactorExp}, termParse fuel preop fsys s = .ok e s' →
      s'.gen = genFactors e (some preop) s.gen
  | 0, _, _, _, _, _, ran => by
      exact absurd ran (by simp only [termParse, throw_ne_ok, not_false_eq_true])
  | fuel + 1, preop, fsys, s, s', e, ran => by
      simp only [termParse, bind_eq_ok, pure_eq_ok, modifyGen_eq_ok] at ran
      obtain ⟨factor, s1, parsed, _, s2, rfl, rest, s3, looped, rfl, rfl⟩ := ran
      rw [termLoop_runs _ _ looped, factorParse_runs _ _ parsed]
      rfl

theorem termLoop_runs : ∀ (fuel : Nat) (set : Symset) {s s' : ParseState} {e : FactorExp},
    termLoop fuel set s = .ok e s' → s'.gen = genFactors e none s.gen
  | 0, _, _, _, _, ran => by
      exact absurd ran (by simp only [termLoop, throw_ne_ok, not_false_eq_true])
  | fuel + 1, set, s, s', e, ran => by
      rw [termLoop, get_bind_eq_ok] at ran
      split at ran
      · simp only [bind_eq_ok, pure_eq_ok, modifyGen_eq_ok] at ran
        obtain ⟨_, s1, read, factor, s2, parsed, _, s3, rfl, rest, s4, looped, rfl, rfl⟩ := ran
        rw [termLoop_runs _ _ looped, factorParse_runs _ _ parsed, getToken_gen _ _ _ read]
        rfl
      · obtain ⟨rfl, rfl⟩ := pure_eq_ok.mp ran
        rfl

theorem factorParse_runs : ∀ (fuel : Nat) (fsys : Symset) {s s' : ParseState} {f : FactorNode},
    factorParse fuel fsys s = .ok f s' → s'.gen = genFactor f s.gen
  | 0, _, _, _, _, ran => by
      exact absurd ran (by simp only [factorParse, throw_ne_ok, not_false_eq_true])
  | fuel + 1, fsys, s, s', f, ran => by
      simp only [factorParse, bind_eq_ok] at ran
      obtain ⟨_, s1, tested, this, s2, got, ran⟩ := ran
      obtain ⟨rfl, rfl⟩ := get_eq_ok.mp got
      have same := test_gen _ _ _ _ _ _ _ tested
      generalize kind : s1.curToken.cToken = token at ran
      split at ran
      · rw [identFactor_runs ran, same]
      · rw [numberFactor_runs ran, same]
      · simp only [bind_eq_ok, pure_eq_ok] at ran
        obtain ⟨_, s2, read, e, s3, parsed, _, s4, closed, rfl, rfl⟩ := ran
        rw [closeParen_gen _ _ _ _ _ closed, expressionParse_runs _ _ parsed,
          getToken_gen _ _ _ read, same]
        rfl
      · simp only [bind_eq_ok, failWith_ne_ok, and_false, exists_false] at ran
end

theorem conditionParse_runs {fuel : Nat} {fsys : Symset} {s s' : ParseState} {c : ConditionNode}
    (ran : conditionParse fuel fsys s = .ok c s') : s'.gen = genCondition c s.gen := by
  rw [conditionParse, get_bind_eq_ok] at ran
  split at ran
  · simp only [bind_eq_ok, pure_eq_ok, modifyGen_eq_ok] at ran
    obtain ⟨_, s1, read, right, s2, parsed, _, s3, rfl, rfl, rfl⟩ := ran
    rw [expressionParse_runs _ _ parsed, getToken_gen _ _ _ read]
    rfl
  · simp only [bind_eq_ok, pure_eq_ok, modifyGen_eq_ok] at ran
    obtain ⟨left, s1, parsedLeft, op, s2, relation, _, s3, read, right, s4, parsedRight, _, s5, rfl,
      rfl, rfl⟩ := ran
    rw [expressionParse_runs _ _ parsedRight, getToken_gen _ _ _ read, relOp_gen _ _ _ relation,
      expressionParse_runs _ _ parsedLeft]
    rfl

theorem checkAssigned_gen (sym : Option Symbol) : KeepsGen (checkAssigned sym) := by
  intro s u s' ran
  unfold checkAssigned at ran
  cases sym with
  | none => exact report_gen _ _ _ _ ran
  | some sym =>
      dsimp only at ran
      split at ran
      · exact report_gen _ _ _ _ ran
      · obtain ⟨-, rfl⟩ := pure_eq_ok.mp ran
        rfl

theorem expectBecomes_gen : KeepsGen expectBecomes := by
  intro s u s' ran
  rw [expectBecomes, get_bind_eq_ok] at ran
  split at ran
  · exact getToken_gen _ _ _ ran
  · split at ran
    · obtain ⟨_, s1, reported, read⟩ := bind_eq_ok.mp ran
      rw [getToken_gen _ _ _ read, report_gen _ _ _ _ reported]
    · exact (failWith_ne_ok.mp ran).elim

theorem storeSymbol_runs {sym : Option Symbol} {s s' : ParseState} {u : Unit}
    (ran : storeSymbol sym s = .ok u s') :
    s'.gen = s.gen.storeKnown sym ∧ ∃ found, sym = some found := by
  unfold storeSymbol at ran
  cases sym with
  | none => exact (throw_ne_ok.mp ran).elim
  | some found =>
      rw [← modifyGen_eq_ok.mp ran]
      exact ⟨rfl, found, rfl⟩

theorem assignParse_runs {fuel : Nat} {fsys : Symset} {s s' : ParseState} {node : StatementNode}
    (ran : assignParse fuel fsys s = .ok node s') : s'.gen = genStatement node s.gen := by
  rw [assignParse, get_bind_eq_ok] at ran
  simp only [bind_eq_ok, pure_eq_ok, modifyGen_eq_ok] at ran
  obtain ⟨_, s1, rfl, _, s2, checked, _, s3, read, _, s4, expected, e, s5, parsed, _, s6, stored,
    rfl, rfl⟩ := ran
  rw [(storeSymbol_runs stored).1, expressionParse_runs _ _ parsed,
    expectBecomes_gen _ _ _ expected, getToken_gen _ _ _ read, checkAssigned_gen _ _ _ _ checked]
  rfl

/-- The three statements that are a keyword and a name share their run. -/
theorem nameStatement_runs {errorType : Nat} {construct : Construct}
    {known : Option Symbol → ParseM Unit} {node : Name → StatementNode}
    {act : GenState → Symbol → GenState} {s s' : ParseState} {result : StatementNode}
    (knows : ∀ sym t t' u, known sym t = .ok u t' → t'.gen = t.gen.nameKnown act sym)
    (ran : nameStatement errorType construct known node s = .ok result s') :
    ∃ name, result = node name ∧
      s'.gen = (s.gen.use construct name).nameKnown act (s.gen.lookup name) := by
  simp only [nameStatement, bind_eq_ok, pure_eq_ok, modifyGen_eq_ok] at ran
  obtain ⟨_, s1, read, name, s2, expected, this, s3, got, _, s4, rfl, _, s5, acted, _, s6, read',
    rfl, rfl⟩ := ran
  obtain ⟨rfl, -, -⟩ := expectIdent_eq_ok expected
  obtain ⟨rfl, rfl⟩ := get_eq_ok.mp got
  refine ⟨name, rfl, ?_⟩
  rw [getToken_gen _ _ _ read', knows _ _ _ _ acted, getToken_gen _ _ _ read]

theorem callKnown_runs {sym : Option Symbol} {s s' : ParseState} {u : Unit}
    (ran : callKnown sym s = .ok u s') : s'.gen = s.gen.nameKnown GenState.callSymbol sym := by
  cases sym with
  | none => exact (failWith_ne_ok.mp ran).elim
  | some found =>
      simp only [callKnown] at ran
      split at ran
      · exact (failWith_ne_ok.mp ran).elim
      · rw [← modifyGen_eq_ok.mp ran]
        rfl

theorem readKnown_runs {sym : Option Symbol} {s s' : ParseState} {u : Unit}
    (ran : readKnown sym s = .ok u s') : s'.gen = s.gen.nameKnown GenState.readSymbol sym := by
  cases sym with
  | none => exact (failWith_ne_ok.mp ran).elim
  | some found =>
      simp only [readKnown] at ran
      split at ran
      · exact (failWith_ne_ok.mp ran).elim
      · rw [← modifyGen_eq_ok.mp ran]
        rfl

theorem writeKnown_runs {sym : Option Symbol} {s s' : ParseState} {u : Unit}
    (ran : writeKnown sym s = .ok u s') : s'.gen = s.gen.nameKnown GenState.writeSymbol sym := by
  cases sym with
  | none => exact (failWith_ne_ok.mp ran).elim
  | some found =>
      simp only [writeKnown] at ran
      split at ran
      · rw [← modifyGen_eq_ok.mp ran]
        rfl
      · exact (failWith_ne_ok.mp ran).elim

theorem callParse_runs {s s' : ParseState} {node : StatementNode}
    (ran : callParse s = .ok node s') : s'.gen = genStatement node s.gen := by
  obtain ⟨name, rfl, same⟩ := nameStatement_runs (fun _ _ _ _ => callKnown_runs) ran
  exact same

theorem readParse_runs {s s' : ParseState} {node : StatementNode}
    (ran : readParse s = .ok node s') : s'.gen = genStatement node s.gen := by
  obtain ⟨name, rfl, same⟩ := nameStatement_runs (fun _ _ _ _ => readKnown_runs) ran
  exact same

theorem writeParse_runs {s s' : ParseState} {node : StatementNode}
    (ran : writeParse s = .ok node s') : s'.gen = genStatement node s.gen := by
  obtain ⟨name, rfl, same⟩ := nameStatement_runs (fun _ _ _ _ => writeKnown_runs) ran
  exact same

theorem recordStatement_runs {body : Bool} {x : ParseM StatementNode} {s s' : ParseState}
    {node : StatementNode} (ran : recordStatement body x s = .ok node s') :
    ∃ t, x s = .ok node t ∧ s'.gen = s.gen.recorded body node t.gen := by
  rw [recordStatement, get_bind_eq_ok] at ran
  simp only [bind_eq_ok, pure_eq_ok, modifyGen_eq_ok] at ran
  obtain ⟨_, t, parsed, _, s2, rfl, rfl, rfl⟩ := ran
  exact ⟨t, parsed, rfl⟩

theorem separator_gen : KeepsGen separator := by
  intro s u s' ran
  rw [separator, get_bind_eq_ok] at ran
  split at ran
  · exact getToken_gen _ _ _ ran
  · obtain ⟨_, s1, reported, reported'⟩ := bind_eq_ok.mp ran
    rw [report_gen _ _ _ _ reported', report_gen _ _ _ _ reported]

theorem finishIf_runs {j2 : Int} {s s' : ParseState} {u : Unit}
    (ran : finishIf j2 s = .ok u s') : s'.gen = s.gen.endIf j2 := by
  simp only [finishIf, bind_eq_ok, modifyGen_eq_ok] at ran
  obtain ⟨_, s1, rfl, rfl⟩ := ran
  rfl

mutual
theorem statementParse_runs : ∀ (fuel : Nat) (fsys : Symset) {s s' : ParseState}
    {node : StatementNode}, statementParse fuel fsys s = .ok node s' →
      s'.gen = genStatement node s.gen
  | 0, _, _, _, _, ran => by
      exact absurd ran (by simp only [statementParse, throw_ne_ok, not_false_eq_true])
  | fuel + 1, fsys, s, s', node, ran => by
      rw [statementParse, get_bind_eq_ok] at ran
      generalize kind : s.curToken.cToken = token at ran
      split at ran
      · exact assignParse_runs ran
      · exact callParse_runs ran
      · simp only [bind_eq_ok, pure_eq_ok, modifyGen_eq_ok] at ran
        obtain ⟨_, s1, read, first, s2, recorded, rest, s3, looped, _, s4, expected, _, s5, rfl,
          rfl, rfl⟩ := ran
        obtain ⟨t, parsed, same⟩ := recordStatement_runs recorded
        rw [expectToken_gen _ _ _ _ _ expected, beginLoop_runs _ _ looped, same,
          statementParse_runs _ _ parsed, getToken_gen _ _ _ read]
        rfl
      · simp only [bind_eq_ok, modifyGen_eq_ok] at ran
        obtain ⟨_, s1, read, cond, s2, tested, _, s3, expected, j1, s4, got, _, s5, rfl, ifsts, s6,
          recorded, j2, s7, got', _, s8, rfl, _, s9, rfl, this, s10, got'', ran⟩ := ran
        obtain ⟨rfl, rfl⟩ := get_eq_ok.mp got
        obtain ⟨rfl, rfl⟩ := get_eq_ok.mp got'
        obtain ⟨rfl, rfl⟩ := get_eq_ok.mp got''
        obtain ⟨t, parsed, same⟩ := recordStatement_runs recorded
        have test : s3.gen = genCondition cond s.gen := by
          rw [expectToken_gen _ _ _ _ _ expected, conditionParse_runs tested,
            getToken_gen _ _ _ read]
        have branch := statementParse_runs _ _ parsed
        split at ran
        · simp only [bind_eq_ok, pure_eq_ok] at ran
          obtain ⟨_, s11, read', elsests, s12, recorded', _, s13, finished, rfl, rfl⟩ := ran
          obtain ⟨t', parsed', same'⟩ := recordStatement_runs recorded'
          have other := statementParse_runs _ _ parsed'
          rw [finishIf_runs finished, same', other, getToken_gen _ _ _ read', same, branch, test]
          rfl
        · simp only [bind_eq_ok, pure_eq_ok] at ran
          obtain ⟨_, s11, finished, rfl, rfl⟩ := ran
          rw [finishIf_runs finished, same, branch, test]
          rfl
      · simp only [bind_eq_ok, pure_eq_ok, modifyGen_eq_ok] at ran
        obtain ⟨_, s1, read, c, s2, got, cond, s3, tested, _, s4, expected, j1, s5, got', _, s6,
          rfl, sts, s7, recorded, j2, s8, got'', _, s9, rfl, _, s10, rfl, _, s11, rfl, _, s12, rfl,
          rfl, rfl⟩ := ran
        obtain ⟨rfl, rfl⟩ := get_eq_ok.mp got
        obtain ⟨rfl, rfl⟩ := get_eq_ok.mp got'
        obtain ⟨rfl, rfl⟩ := get_eq_ok.mp got''
        obtain ⟨t, parsed, same⟩ := recordStatement_runs recorded
        have start := getToken_gen _ _ _ read
        have test : s4.gen = genCondition cond s.gen := by
          rw [expectToken_gen _ _ _ _ _ expected, conditionParse_runs tested, start]
        rw [same, statementParse_runs _ _ parsed, test, start]
        rfl
      · exact readParse_runs ran
      · exact writeParse_runs ran
      · simp only [bind_eq_ok, pure_eq_ok] at ran
        obtain ⟨_, s1, tested, rfl, rfl⟩ := ran
        exact test_gen _ _ _ _ _ _ _ tested

theorem beginLoop_runs : ∀ (fuel : Nat) (set : Symset) {s s' : ParseState} {list : StatementList},
    beginLoop fuel set s = .ok list s' → s'.gen = genStatements list s.gen
  | 0, _, _, _, _, ran => by
      exact absurd ran (by simp only [beginLoop, throw_ne_ok, not_false_eq_true])
  | fuel + 1, set, s, s', list, ran => by
      rw [beginLoop, get_bind_eq_ok] at ran
      split at ran
      · simp only [bind_eq_ok, pure_eq_ok] at ran
        obtain ⟨_, s1, separated, sts, s2, recorded, rest, s3, looped, rfl, rfl⟩ := ran
        obtain ⟨t, parsed, same⟩ := recordStatement_runs recorded
        rw [beginLoop_runs _ _ looped, same, statementParse_runs _ _ parsed,
          separator_gen _ _ _ separated]
        rfl
      · obtain ⟨rfl, rfl⟩ := pure_eq_ok.mp ran
        rfl
end

theorem readOffset_eq_ok {s s' : ParseState} {offset : Int}
    (ran : readOffset s = .ok offset s') :
    s' = s ∧ (0 ≤ s.gen.globalLevel ∧ s.gen.globalLevel < maxLexiLevels) ∧
      offset = s.gen.offsetArray s.gen.globalLevel := by
  rw [readOffset, get_bind_eq_ok] at ran
  split at ran
  · rename_i inside
    obtain ⟨same, rfl⟩ := pure_eq_ok.mp ran
    exact ⟨rfl, inside, same.symm⟩
  · exact (throw_ne_ok.mp ran).elim

theorem linkNode_kept {first tail : Bool} {u : Unit} {s s' : ParseState}
    (linked : linkNode first tail s = .ok u s') : s' = s := by
  unfold linkNode at linked
  split at linked
  · exact (pure_eq_ok.mp linked).2.symm
  · exact (throw_ne_ok.mp linked).elim

theorem linkNode_gen (first tail : Bool) : KeepsGen (linkNode first tail) := by
  intro s u s' ran
  rw [linkNode_kept ran]

theorem expectEql_eq_ok {s s' : ParseState} {u : Unit} (ran : expectEql s = .ok u s') : s' = s := by
  rw [expectEql, get_bind_eq_ok] at ran
  split at ran
  · obtain ⟨-, rfl⟩ := pure_eq_ok.mp ran
    rfl
  · split at ran
    · exact (failWith_ne_ok.mp ran).elim
    · exact (failWith_ne_ok.mp ran).elim

theorem constValue_eq_ok {s s' : ParseState} {value : Int}
    (ran : constValue s = .ok value s') : s' = s ∧ value ≤ maxNumber := by
  rw [constValue, get_bind_eq_ok] at ran
  split at ran
  · split at ran
    · exact (failWith_ne_ok.mp ran).elim
    · rename_i small
      obtain ⟨rfl, rfl⟩ := pure_eq_ok.mp ran
      exact ⟨rfl, Int.not_lt.mp small⟩
  · exact (failWith_ne_ok.mp ran).elim

section Declarations

variable {P : GenState → StatementNode → Prop}

theorem constItem_runs {s s' : ParseState} {node : ConstDeclNode}
    (ran : constItem s = .ok node s') (d : Declarations) :
    DeclaresWith P s.gen d s'.gen { d with constDecl := d.constDecl ++ [node] } := by
  simp only [constItem, bind_eq_ok, pure_eq_ok, modifyGen_eq_ok] at ran
  obtain ⟨_, s1, read, name, s2, expected, _, s3, read', _, s4, equals, _, s5, read'', value, s6,
    valued, addr, s7, offset, this, s8, got, _, s9, rfl, _, s10, read3, rfl, rfl⟩ := ran
  obtain ⟨rfl, -, -⟩ := expectIdent_eq_ok expected
  obtain rfl := expectEql_eq_ok equals
  obtain ⟨rfl, small⟩ := constValue_eq_ok valued
  obtain ⟨rfl, inside, rfl⟩ := readOffset_eq_ok offset
  obtain ⟨rfl, rfl⟩ := get_eq_ok.mp got
  have start : s7.gen = s.gen := by
    rw [getToken_gen _ _ _ read'', getToken_gen _ _ _ read', getToken_gen _ _ _ read]
  rw [getToken_gen _ _ _ read3]
  rw [start] at inside ⊢
  exact .const name value small inside (.done _ _)

theorem varItem_runs {s s' : ParseState} {node : VarDeclNode}
    (ran : varItem s = .ok node s') (d : Declarations) :
    DeclaresWith P s.gen d s'.gen { d with varDecl := d.varDecl ++ [node] } := by
  simp only [varItem, bind_eq_ok, pure_eq_ok, modifyGen_eq_ok] at ran
  obtain ⟨_, s1, read, name, s2, expected, addr, s3, offset, this, s4, got, _, s5, rfl, _, s6,
    read', rfl, rfl⟩ := ran
  obtain ⟨rfl, -, -⟩ := expectIdent_eq_ok expected
  obtain ⟨rfl, inside, rfl⟩ := readOffset_eq_ok offset
  obtain ⟨rfl, rfl⟩ := get_eq_ok.mp got
  have start := getToken_gen _ _ _ read
  rw [getToken_gen _ _ _ read']
  rw [start] at inside ⊢
  exact .var name inside (.done _ _)

/-- The items of a section are declared one after the other. -/
theorem sectionLoop_runs {α : Type} {item : ParseM α} (place : List α → Declarations)
    (declares : ∀ {s s' : ParseState} {node : α}, item s = .ok node s' → ∀ nodes,
      DeclaresWith P s.gen (place nodes) s'.gen (place (nodes ++ [node])))
    {fuel : Nat} {nodes nodes' : List α} {tail : Bool} {s s' : ParseState}
    (ran : sectionLoop item fuel nodes tail s = .ok nodes' s') :
    DeclaresWith P s.gen (place nodes) s'.gen (place nodes') := by
  induction fuel generalizing nodes tail s with
  | zero => exact absurd ran (by simp only [sectionLoop, throw_ne_ok, not_false_eq_true])
  | succ fuel ih =>
      simp only [sectionLoop, bind_eq_ok] at ran
      obtain ⟨_, s1, linked, node, s2, parsed, this, s3, got, ran⟩ := ran
      obtain ⟨rfl, rfl⟩ := get_eq_ok.mp got
      have first := declares parsed nodes
      rw [linkNode_gen _ _ _ _ _ linked] at first
      split at ran
      · exact first.trans (ih ran)
      · simp only [bind_eq_ok, pure_eq_ok] at ran
        obtain ⟨_, s4, expected, rfl, rfl⟩ := ran
        rw [expectToken_gen _ _ _ _ _ expected]
        exact first

theorem constSection_runs {fuel : Nat} {nodes nodes' : List ConstDeclNode} {s s' : ParseState}
    (ran : constSection fuel nodes s = .ok nodes' s') (varDecl : List VarDeclNode)
    (procDef : ProdefList) :
    DeclaresWith P s.gen ⟨nodes, varDecl, procDef⟩ s'.gen ⟨nodes', varDecl, procDef⟩ := by
  rw [constSection, get_bind_eq_ok] at ran
  split at ran
  · exact sectionLoop_runs (fun nodes => ⟨nodes, varDecl, procDef⟩)
      (fun parsed nodes => constItem_runs parsed ⟨nodes, varDecl, procDef⟩) ran
  · obtain ⟨rfl, rfl⟩ := pure_eq_ok.mp ran
    exact .done _ _

theorem varSection_runs {fuel : Nat} {nodes nodes' : List VarDeclNode} {s s' : ParseState}
    (ran : varSection fuel nodes s = .ok nodes' s') (constDecl : List ConstDeclNode)
    (procDef : ProdefList) :
    DeclaresWith P s.gen ⟨constDecl, nodes, procDef⟩ s'.gen ⟨constDecl, nodes', procDef⟩ := by
  rw [varSection, get_bind_eq_ok] at ran
  split at ran
  · exact sectionLoop_runs (fun nodes => ⟨constDecl, nodes, procDef⟩)
      (fun parsed nodes => varItem_runs parsed ⟨constDecl, nodes, procDef⟩) ran
  · obtain ⟨rfl, rfl⟩ := pure_eq_ok.mp ran
    exact .done _ _

end Declarations

/-- The globals with another current procedure. -/
def GenState.inProcedure (g : GenState) (set : Int) : GenState :=
  { g with currentProcedure := set }

theorem makeProc_inProcedure (g : GenState) (set : Int) (name : Name) :
    (g.inProcedure set).makeProc name = g.makeProc name := by
  unfold GenState.makeProc GenState.getFreeSet
  dsimp only [GenState.inProcedure]
  cases (List.range maxCodeSets).find? fun i => !g.inUse i <;> rfl

theorem makeProc_procedureCount (g : GenState) (name : Name) :
    (g.makeProc name).procedureCount = g.procedureCount + 1 := by
  unfold GenState.makeProc GenState.getFreeSet
  dsimp only
  cases (List.range maxCodeSets).find? fun i => !g.inUse i <;> rfl

theorem makeProc_code (g : GenState) (name : Name) : (g.makeProc name).code = g.code := by
  unfold GenState.makeProc GenState.getFreeSet
  dsimp only
  cases (List.range maxCodeSets).find? fun i => !g.inUse i <;> rfl

theorem makeProc_globalLevel (g : GenState) (name : Name) :
    (g.makeProc name).globalLevel = g.globalLevel := by
  unfold GenState.makeProc GenState.getFreeSet
  dsimp only
  cases (List.range maxCodeSets).find? fun i => !g.inUse i <;> rfl

/-- The procedures are declared with the parent as the current procedure; in
between, `currentProcedure` names the last procedure's set. -/
def ParseRuns (P : GenState → StatementNode → Prop) (old : Int) (s : ParseState) (d : Declarations)
    (s' : ParseState) (d' : Declarations) : Prop :=
  DeclaresWith P (s.gen.inProcedure old) d (s'.gen.inProcedure old) d'

/-- The statement parser, when it returns, has seen to `P` in the state it started in. -/
def StatementsMeet (P : GenState → StatementNode → Prop) : Prop :=
  ∀ (fuel : Nat) (fsys : Symset) (s s' : ParseState) (node : StatementNode),
    statementParse fuel fsys s = .ok node s' → P s.gen node

section Blocks

variable {P : GenState → StatementNode → Prop}

/- What the statement parser sees to, holds of the statement part of every block. -/
mutual
theorem blockParse_runsWith (meets : StatementsMeet P) : ∀ (fuel : Nat) (fsys : Symset)
    {s s' : ParseState} {block : BlockNode}, blockParse fuel fsys s = .ok block s' →
    BlockRunsWith P s.gen block s'.gen
  | 0, _, _, _, _, ran => by
      exact absurd ran (by simp only [blockParse, throw_ne_ok, not_false_eq_true])
  | fuel + 1, fsys, s, s', block, ran => by
      simp only [blockParse, bind_eq_ok, pure_eq_ok] at ran
      obtain ⟨⟨constDecl, varDecl, procDef⟩, s1, declared, statement, s2, recorded, _, s3, tested,
        rfl, rfl⟩ := ran
      obtain ⟨t, parsed, same⟩ := recordStatement_runs recorded
      refine ⟨s1.gen, ⟨constDecl, varDecl, procDef⟩, ?_, rfl, meets _ _ _ _ _ parsed, ?_⟩
      · exact declarationLoop_runs meets _ _ declared
      · rw [test_gen _ _ _ _ _ _ _ tested, same, statementParse_runs _ _ parsed]
        rfl

theorem declarationLoop_runs (meets : StatementsMeet P) : ∀ (fuel : Nat) (fsys : Symset)
    {s s' : ParseState} {c c' : List ConstDeclNode} {v v' : List VarDeclNode} {p p' : ProdefList},
    declarationLoop fuel fsys c v p s = .ok (c', v', p') s' →
      DeclaresWith P s.gen ⟨c, v, p⟩ s'.gen ⟨c', v', p'⟩
  | 0, _, _, _, _, _, _, _, _, _, ran => by
      exact absurd ran (by simp only [declarationLoop, throw_ne_ok, not_false_eq_true])
  | fuel + 1, fsys, s, s', c, c', v, v', p, p', ran => by
      simp only [declarationLoop, bind_eq_ok, modifyGen_eq_ok] at ran
      obtain ⟨c1, s1, consts, v1, s2, vars, this, s3, got, p1, s4, procs, _, s5, rfl, _, s6, tested,
        this', s7, got', ran⟩ := ran
      obtain ⟨rfl, rfl⟩ := get_eq_ok.mp got
      obtain ⟨rfl, rfl⟩ := get_eq_ok.mp got'
      have start : DeclaresWith P s.gen ⟨c, v, p⟩ s2.gen ⟨c1, v1, p⟩ :=
        (constSection_runs consts v p).trans (varSection_runs vars c1 p)
      have procedures := procedureLoop_runs meets _ _ _ procs c1 v1
      have kept := test_gen _ _ _ _ _ _ _ tested
      have step : DeclaresWith P s.gen ⟨c, v, p⟩ s6.gen ⟨c1, v1, p1⟩ := by
        rw [kept]
        exact start.trans procedures
      split at ran
      · exact step.trans (declarationLoop_runs meets _ _ ran)
      · obtain ⟨same, rfl⟩ := pure_eq_ok.mp ran
        cases same
        exact step

theorem procedureLoop_runs (meets : StatementsMeet P) : ∀ (fuel : Nat) (fsys : Symset) (old : Int)
    {s s' : ParseState} {p p' : ProdefList} {tail : Bool},
      procedureLoop fuel fsys old p tail s = .ok p' s' →
      ∀ c v, ParseRuns P old s ⟨c, v, p⟩ s' ⟨c, v, p'⟩
  | 0, _, _, _, _, _, _, _, ran => by
      exact absurd ran (by simp only [procedureLoop, throw_ne_ok, not_false_eq_true])
  | fuel + 1, fsys, old, s, s', p, p', tail, ran => by
      intro c v
      rw [procedureLoop, get_bind_eq_ok] at ran
      split at ran
      · simp only [bind_eq_ok, modifyGen_eq_ok] at ran
        obtain ⟨_, s1, linked, _, s2, read, name, s3, expected, _, s4, rfl, made, s5, got, _, s6,
          read', _, s7, expected', _, s8, rfl, body, s9, parsed, _, s10, rfl, _, s11, expected3, _,
          s12, tested, _, s13, rfl, ran⟩ := ran
        obtain ⟨rfl, -, -⟩ := expectIdent_eq_ok expected
        obtain ⟨rfl, rfl⟩ := get_eq_ok.mp got
        have rest := procedureLoop_runs meets _ _ _ ran c v
        have start : s3.gen = s.gen := by
          rw [getToken_gen _ _ _ read, linkNode_gen _ _ _ _ _ linked]
        have entered : s7.gen = s.gen.makeProc name := by
          rw [expectToken_gen _ _ _ _ _ expected', getToken_gen _ _ _ read', start]
        have left : s12.gen = s9.gen.closeBlock := by
          rw [test_gen _ _ _ _ _ _ _ tested, expectToken_gen _ _ _ _ _ expected3]
        obtain ⟨declared, inner, nested, shape, met, bodyGen⟩ :=
          blockParse_runsWith meets _ _ parsed
        rw [entered] at nested
        unfold ParseRuns at rest ⊢
        rw [left, bodyGen] at rest
        have fromOld : DeclaresWith P ((s.gen.inProcedure old).makeProc name).openBlock
          .none declared
            inner := by
          rw [makeProc_inProcedure]
          exact nested
        refine .proc name body.statement fromOld met ?_
        have space : body.varDecl.length = inner.varDecl.length := by
          rw [shape]
          rfl
        have node : inner.block body.statement = body := shape.symm
        rw [node]
        have level := makeProc_globalLevel s.gen name
        have count := makeProc_procedureCount s.gen name
        rw [start, level, count, space] at rest
        exact rest
      · obtain ⟨rfl, rfl⟩ := pure_eq_ok.mp ran
        exact .done _ _
end

end Blocks

theorem blockParse_runs (fuel : Nat) (fsys : Symset) {s s' : ParseState} {block : BlockNode}
    (ran : blockParse fuel fsys s = .ok block s') : BlockRuns s.gen block s'.gen :=
  (blockParse_runsWith (P := fun _ _ => True) (fun _ _ _ _ _ _ => trivial) fuel fsys ran).runs

theorem expectPeriod_gen : KeepsGen expectPeriod := by
  intro s u s' ran
  rw [expectPeriod, get_bind_eq_ok] at ran
  split at ran
  · obtain ⟨-, rfl⟩ := pure_eq_ok.mp ran
    rfl
  · split at ran
    · exact report_gen _ _ _ _ ran
    · exact (failWith_ne_ok.mp ran).elim

/-- The globals with which `programParse` enters the main block. -/
def mainGen : GenState :=
  let offsets := initGen.setOffsets
  { offsets.getFreeSet.2 with currentProcedure := offsets.getFreeSet.1 }

/-- The globals after the main block. -/
def GenState.finishMain (g : GenState) (space : Int) : GenState :=
  (g.reserveSpace space).halt

/-- What a successful parse of a program does. -/
theorem parse_runsWith {P : GenState → StatementNode → Prop}
    (meets : StatementsMeet P) {fuel : Nat} {tokens : List CurrentToken} {block : BlockNode}
    {s : ParseState} (ran : parse fuel tokens = .ok block s) :
    ∃ g, BlockRunsWith P mainGen block g ∧ s.gen = g.finishMain (block.varDecl.length + 4) := by
  simp only [parse, programParse, bind_eq_ok, pure_eq_ok, modifyGen_eq_ok] at ran
  obtain ⟨_, s1, rfl, _, s2, read, _, s3, rfl, block', s4, parsed, _, s5, period, _, s6, rfl, _, s7,
    rfl, rfl, rfl⟩ := ran
  have runs := blockParse_runsWith meets _ _ parsed
  have start := getToken_gen _ _ _ read
  rw [start] at runs
  refine ⟨s4.gen, runs, ?_⟩
  rw [expectPeriod_gen _ _ _ period]
  rfl

theorem parse_runs {fuel : Nat} {tokens : List CurrentToken} {block : BlockNode} {s : ParseState}
    (ran : parse fuel tokens = .ok block s) :
    ∃ g, BlockRuns mainGen block g ∧ s.gen = g.finishMain (block.varDecl.length + 4) := by
  obtain ⟨g, runs, last⟩ := parse_runsWith (P := fun _ _ => True) (fun _ _ _ _ _ _ => trivial) ran
  exact ⟨g, runs.runs, last⟩

end Pl0
