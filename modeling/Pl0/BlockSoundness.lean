import Pl0.StatementSoundness

set_option autoImplicit false

namespace Pl0

open MarkedText StateExcept

section Sections

variable {α β : Type} {s s' : ParseState} {tokens rest : List CurrentToken}

/-- An item of a declaration, with its keyword or its comma in front. -/
def ItemTaken (item : ParseM α) (frontier : β → List Marked) (make : GenState → β → GenState)
    (node : GenState → β → α) (fine : β → Prop) : Prop :=
  ∀ (s s' : ParseState) (a : α) (keyword : CurrentToken) (rest : List CurrentToken),
    item s = .ok a s' → Ahead s (keyword :: rest) → ∃ b, Taken (frontier b) rest s' ∧ fine b ∧
      s.gen.LevelInside ∧ a = node s.gen b ∧ s'.gen = make s.gen b

theorem constItem_taken : ItemTaken constItem constFrontier GenState.makeItem GenState.constNode
    fun const => const.2 ≤ maxNumber := by
  intro s s' a keyword rest ran ahead
  simp only [constItem, bind_eq_ok, pure_eq_ok, modifyGen_eq_ok] at ran
  obtain ⟨_, s1, read, name, s2, expected, _, s3, read', _, s4, equals, _, s5, read'', value, s6,
    valued, addr, s7, offset, this, s8, got, _, s9, rfl, _, s10, read3, rfl, rfl⟩ := ran
  obtain ⟨rfl, isName, rfl⟩ := expectIdent_eq_ok expected
  obtain ⟨ahead1, gen1, -⟩ := ahead.step read
  obtain ⟨more, rfl⟩ := ahead1.name isName
  obtain ⟨ahead2, gen2, -⟩ := ahead1.step read'
  have isEql : s3.curToken.cToken = .eqlsym := by
    rw [expectEql, get_bind_eq_ok] at equals
    split at equals
    · assumption
    · split at equals <;> exact (failWith_ne_ok.mp equals).elim
  obtain rfl := expectEql_eq_ok equals
  obtain ⟨more', rfl⟩ := ahead2.word isEql (by decide)
  obtain ⟨ahead3, gen3, -⟩ := ahead2.step read''
  have isNumber : s5.curToken.cToken = .numbersym ∧ value = s5.curToken.numeric := by
    rw [constValue, get_bind_eq_ok] at valued
    split at valued
    · rename_i is
      split at valued
      · exact (failWith_ne_ok.mp valued).elim
      · exact ⟨is, (pure_eq_ok.mp valued).1.symm⟩
    · exact (failWith_ne_ok.mp valued).elim
  obtain ⟨rfl, small⟩ := constValue_eq_ok valued
  obtain ⟨rfl, inside, rfl⟩ := readOffset_eq_ok offset
  obtain ⟨rfl, rfl⟩ := get_eq_ok.mp got
  obtain ⟨more'', rfl⟩ := ahead3.value isNumber.1
  obtain ⟨ahead4, gen4, -⟩ := (ahead3.of_gen _).step read3
  have start : s7.gen = s.gen := gen3.trans (gen2.trans gen1)
  refine ⟨(s2.curToken.string, value), ?_, small, ?_, ?_, ?_⟩
  · rw [isNumber.2]
    exact (((taken_none ahead4).cons _ _).cons _ _).cons _ _
  · rw [start] at inside
    exact inside
  · rw [start]
    rfl
  · rw [gen4, start]
    rfl

theorem varItem_taken : ItemTaken varItem varFrontier GenState.makeVar GenState.varNode
    fun _ => True := by
  intro s s' a keyword rest ran ahead
  simp only [varItem, bind_eq_ok, pure_eq_ok, modifyGen_eq_ok] at ran
  obtain ⟨_, s1, read, name, s2, expected, addr, s3, offset, this, s4, got, _, s5, rfl, _, s6,
    read', rfl, rfl⟩ := ran
  obtain ⟨rfl, isName, rfl⟩ := expectIdent_eq_ok expected
  obtain ⟨rfl, inside, rfl⟩ := readOffset_eq_ok offset
  obtain ⟨rfl, rfl⟩ := get_eq_ok.mp got
  obtain ⟨ahead1, gen1, -⟩ := ahead.step read
  obtain ⟨more, rfl⟩ := ahead1.name isName
  obtain ⟨ahead2, gen2, -⟩ := (ahead1.of_gen _).step read'
  refine ⟨_, (taken_none ahead2).cons _ _, trivial, ?_, ?_, ?_⟩
  · rw [gen1] at inside
    exact inside
  · rw [gen1]
    rfl
  · rw [gen2, gen1]

theorem sectionLoop_taken {item : ParseM α} {frontier : β → List Marked}
    {make : GenState → β → GenState} {node : GenState → β → α} {fine : β → Prop}
    (takes : ItemTaken item frontier make node fine) {fuel : Nat}
    {nodes nodes' : List α} {tail : Bool}
    {keyword : CurrentToken} (ran : sectionLoop item fuel nodes tail s = .ok nodes' s')
    (ahead : Ahead s (keyword :: rest)) :
    ∃ b items, Taken (frontier b ++ itemsFrontier frontier items) rest s' ∧
      (∀ c ∈ b :: items, fine c) ∧ s.gen.LevelInside ∧
      nodes' = nodes ++ itemNodes make node s.gen (b :: items) ∧
      s'.gen = afterItems make s.gen (b :: items) := by
  induction fuel generalizing nodes tail s keyword rest with
  | zero => exact absurd ran (by simp only [sectionLoop, throw_ne_ok, not_false_eq_true])
  | succ fuel ih =>
      simp only [sectionLoop, bind_eq_ok] at ran
      obtain ⟨_, s1, linked, a, s2, parsed, this, s3, got, ran⟩ := ran
      obtain ⟨rfl, rfl⟩ := get_eq_ok.mp got
      obtain rfl := linkNode_kept linked
      obtain ⟨b, ⟨text, more, rfl, kept, ahead1⟩, fineB, inside, rfl, gen⟩ :=
        takes _ _ _ _ _ parsed ahead
      split at ran
      · rename_i isComma
        obtain ⟨more', rfl⟩ := ahead1.word isComma (by decide)
        obtain ⟨c, items, taken, fines, -, rfl, gen'⟩ := ih ran ahead1
        refine ⟨b, c :: items, (taken.cons _ _).after kept, List.forall_mem_cons.mpr ⟨fineB, fines⟩,
          inside, ?_, ?_⟩
        · rw [gen, List.append_assoc]
          rfl
        · rw [gen', gen]
          rfl
      · simp only [bind_eq_ok, pure_eq_ok] at ran
        obtain ⟨_, s4, expected, rfl, rfl⟩ := ran
        obtain ⟨more', rfl, ahead2, gen', -⟩ := expectToken_taken (by decide) expected ahead1
        refine ⟨b, [], ((taken_none ahead2).cons _ _).after kept,
          List.forall_mem_cons.mpr ⟨fineB, by simp⟩, inside, rfl, ?_⟩
        rw [gen', gen]
        rfl

theorem section_taken {item : ParseM α} {frontier : β → List Marked}
    {make : GenState → β → GenState} {node : GenState → β → α} {fine : β → Prop}
    (takes : ItemTaken item frontier make node fine) {keyword : Token} {fuel : Nat} {nodes : List α}
    (plainWord : keyword ≠ .nulsym ∧ keyword ≠ .identsym ∧ keyword ≠ .numbersym)
    (ran : (if s.curToken.cToken = keyword then sectionLoop item fuel [] false else pure []) s =
      .ok nodes s') (ahead : Ahead s tokens) :
    ∃ items, Taken (sectionFrontier keyword frontier items) tokens s' ∧ (∀ c ∈ items, fine c) ∧
      (items ≠ [] → s.gen.LevelInside) ∧ nodes = itemNodes make node s.gen items ∧
      s'.gen = afterItems make s.gen items := by
  split at ran
  · rename_i is
    obtain ⟨rest, rfl⟩ := ahead.word is plainWord
    obtain ⟨b, items, taken, fines, inside, rfl, gen⟩ := sectionLoop_taken takes ran ahead
    exact ⟨b :: items, taken.cons _ _, fines, fun _ => inside, rfl, gen⟩
  · obtain ⟨rfl, rfl⟩ := pure_eq_ok.mp ran
    exact ⟨[], taken_none ahead, by simp, fun none => absurd rfl none, rfl, rfl⟩

end Sections

theorem noElse_front {fsys : Symset} (noElse : inset .elsesym fsys = false) {tokens : List Token}
    (other : .elsesym ∉ tokens) : inset .elsesym (uniteset (createset tokens) fsys) = false := by
  simp [noElse, other]

/-- The procedures of a block, read without a word behind those of `old`. -/
structure ProceduresTaken (procs : ProcTrees) (tokens : List CurrentToken) (old : Int)
    (s s' : ParseState) : Prop where
  taken : Taken procs.frontier tokens s'
  grammatical : procs.Grammatical
  suited : procs.Suited old s.gen
  readable : procs.Bodies StatementNode.Readable
  gen : s'.gen = (procs.build old s.gen).2

/-- The declarations of a block, read without a word. -/
structure DeclarationsTaken (consts : List (Name × Int)) (vars : List Name) (procs : ProcTrees)
    (tokens : List CurrentToken) (s s' : ParseState) : Prop where
  taken : Taken (sectionFrontier .constsym constFrontier consts ++
    (sectionFrontier .varsym varFrontier vars ++ procs.frontier)) tokens s'
  small : ∀ const ∈ consts, const.2 ≤ maxNumber
  inside : consts ≠ [] ∨ vars ≠ [] → s.gen.LevelInside
  grammatical : procs.Grammatical
  suited : procs.Suited (s.gen.declared consts vars).currentProcedure (s.gen.declared consts vars)
  readable : procs.Bodies StatementNode.Readable
  gen : s'.gen = (procs.build (s.gen.declared consts vars).currentProcedure
    (s.gen.declared consts vars)).2.inProcedure (s.gen.declared consts vars).currentProcedure
  begins : inset s'.curToken.cToken statbegsys = true

/-- The nodes of the declarations of a block. -/
def declarationNodes (g : GenState) (consts : List (Name × Int)) (vars : List Name)
    (procs : ProcTrees) :
    List ConstDeclNode × List VarDeclNode × ProdefList :=
  (itemNodes GenState.makeItem GenState.constNode g consts,
    itemNodes GenState.makeVar GenState.varNode (afterItems GenState.makeItem g consts) vars,
    (procs.build (g.declared consts vars).currentProcedure (g.declared consts vars)).1)

structure BlockTaken (t : BlockTree) (tokens : List CurrentToken) (s s' : ParseState) : Prop where
  taken : Taken t.frontier tokens s'
  grammatical : t.Grammatical
  suited : t.Suited s.gen
  readable : t.Bodies StatementNode.Readable
  gen : s'.gen = (t.build s.gen).2

mutual
theorem blockParse_taken : ∀ (fuel : Nat) (fsys : Symset) {s s' : ParseState} {block : BlockNode}
    {tokens : List CurrentToken}, blockParse fuel fsys s = .ok block s' → s'.said ≤ s.said →
    Ahead s tokens → inset .elsesym fsys = false →
    ∃ t, BlockTaken t tokens s s' ∧ block = (t.build s.gen).1
  | 0, _, _, _, _, _, ran, _, _, _ => by
      exact absurd ran (by simp only [blockParse, throw_ne_ok, not_false_eq_true])
  | fuel + 1, fsys, s, s', block, tokens, ran, silent, ahead, noElse => by
      simp only [blockParse, bind_eq_ok, pure_eq_ok] at ran
      obtain ⟨nodes, s1, declared, statement, s2, recorded, _, s3, tested, rfl, rfl⟩ := ran
      obtain ⟨t, parsed, rfl⟩ := recordStatement_kept recorded
      have grows1 := (advances_declarationLoop _ _ _ _ _ _).said declared
      have grows2 := statementParse_said parsed
      have grows3 := (advances_test _ _ _ _ _).said tested
      change t.said ≤ s3.said at grows3
      obtain ⟨rfl, -⟩ := test_silent tested (by show s3.said ≤ t.said; omega)
      change t.said ≤ s.said at silent
      have wider :=
        noElse_front noElse (show Token.elsesym ∉ [Token.semicolonsym, .endsym] by decide)
      obtain ⟨consts, vars, procs, spec, rfl⟩ :=
        declarationLoop_taken _ _ declared (by omega) ahead noElse
      obtain ⟨text, middle, rfl, kept, ahead1⟩ := spec.taken
      have body := statementParse_taken _ _ parsed (by omega) ahead1 wider
      have bodySuited := body.suited
      rw [spec.gen] at bodySuited
      refine ⟨.mk consts vars procs statement, ⟨?_, ⟨spec.grammatical, body.grammatical⟩,
        ⟨spec.small, spec.inside, spec.suited, bodySuited⟩,
        ⟨spec.readable, body.some spec.begins, body.closed⟩, ?_⟩, rfl⟩
      · have whole := (body.taken.of_gen (s1.gen.recorded true statement t.gen)).after kept
        simp only [List.append_assoc] at whole
        exact whole
      · show s1.gen.recorded true statement t.gen = _
        rw [statementParse_runs _ _ parsed, spec.gen]
        rfl

theorem declarationLoop_taken : ∀ (fuel : Nat) (fsys : Symset) {s s' : ParseState}
    {nodes : List ConstDeclNode × List VarDeclNode × ProdefList} {tokens : List CurrentToken},
    declarationLoop fuel fsys [] [] .nil s = .ok nodes s' → s'.said ≤ s.said →
    Ahead s tokens → inset .elsesym fsys = false →
    ∃ consts vars procs, DeclarationsTaken consts vars procs tokens s s' ∧
      nodes = declarationNodes s.gen consts vars procs
  | 0, _, _, _, _, _, ran, _, _, _ => by
      exact absurd ran (by simp only [declarationLoop, throw_ne_ok, not_false_eq_true])
  | fuel + 1, fsys, s, s', nodes, tokens, ran, silent, ahead, noElse => by
      simp only [declarationLoop, bind_eq_ok, modifyGen_eq_ok] at ran
      obtain ⟨c1, s1, constsRan, v1, s2, varsRan, this, s3, got, p1, s4, procsRan, _, s5, rfl, _,
        s6, tested, this', s7, got', ran⟩ := ran
      obtain ⟨rfl, rfl⟩ := get_eq_ok.mp got
      obtain ⟨rfl, rfl⟩ := get_eq_ok.mp got'
      have grows1 := (consumes_constSection _ _ _).toAdvances.said constsRan
      have grows2 := (consumes_varSection _ _ _).toAdvances.said varsRan
      have grows3 := (advances_procedureLoop _ _ _ _ _ _).toAdvances.said procsRan
      have grows4 := (advances_test _ _ _ _ _).said tested
      change s4.said ≤ s6.said at grows4
      -- a test that says nothing has found a statement, and the loop ends
      have last : s6.said ≤ s'.said := by
        split at ran
        · exact (advances_declarationLoop _ _ _ _ _ _).said ran
        · exact (advancing_pure _).said ran
      obtain ⟨rfl, begins⟩ := test_silent tested (by show s6.said ≤ s4.said; omega)
      have begins : inset s4.curToken.cToken statbegsys = true := by
        change inset s4.curToken.cToken (uniteset statbegsys (createset [.identsym])) =
          true at begins
        rw [inset_uniteset, Bool.or_eq_true] at begins
        rcases begins with inside | isName
        · exact inside
        · rw [inset_createset, decide_eq_true_eq, List.mem_singleton] at isName
          rw [isName]
          decide
      have noDeclaration : ¬ inset s4.curToken.cToken declbegsys = true := by
        generalize s4.curToken.cToken = token at begins
        revert begins
        cases token <;> decide
      rw [if_neg noDeclaration] at ran
      obtain ⟨rfl, rfl⟩ := pure_eq_ok.mp ran
      rw [constSection, get_bind_eq_ok] at constsRan
      rw [varSection, get_bind_eq_ok] at varsRan
      obtain ⟨consts, ⟨text, middle, rfl, kept, ahead1⟩, small, insideConsts, rfl, gen1⟩ :=
        section_taken constItem_taken (by decide) constsRan ahead
      obtain ⟨vars, ⟨text', middle', rfl, kept', ahead2⟩, -, insideVars, rfl, gen2⟩ :=
        section_taken varItem_taken (by decide) varsRan ahead1
      obtain ⟨procs, spec, rfl⟩ := procedureLoop_taken _ _ _ procsRan (by omega) ahead2 noElse
      have declared : s2.gen = s.gen.declared consts vars := by
        rw [gen2, gen1]
        rfl
      have level : s1.gen.globalLevel = s.gen.globalLevel := by
        rw [gen1]
        exact @afterItems_level _ GenState.makeItem (fun _ _ => rfl) s.gen consts
      refine ⟨consts, vars, procs,
        ⟨?_, small, ?_, spec.grammatical, ?_, spec.readable, ?_, begins⟩, ?_⟩
      · exact ((spec.taken.of_gen _).after kept').after kept
      · rintro (some | some)
        · exact insideConsts some
        · have inside := insideVars some
          unfold GenState.LevelInside at inside ⊢
          rw [level] at inside
          exact inside
      · rw [← declared]
        exact spec.suited
      · rw [← declared, ← spec.gen]
        rfl
      · rw [declared, gen1]
        rfl

theorem procedureLoop_taken : ∀ (fuel : Nat) (fsys : Symset) (old : Int) {s s' : ParseState}
    {p p' : ProdefList} {tail : Bool} {tokens : List CurrentToken},
    procedureLoop fuel fsys old p tail s = .ok p' s' → s'.said ≤ s.said → Ahead s tokens →
    inset .elsesym fsys = false →
    ∃ procs, ProceduresTaken procs tokens old s s' ∧ p' = p.append (procs.build old s.gen).1
  | 0, _, _, _, _, _, _, _, _, ran, _, _, _ => by
      exact absurd ran (by simp only [procedureLoop, throw_ne_ok, not_false_eq_true])
  | fuel + 1, fsys, old, s, s', p, p', tail, tokens, ran, silent, ahead, noElse => by
      rw [procedureLoop, get_bind_eq_ok] at ran
      split at ran
      · rename_i isProc
        simp only [bind_eq_ok, modifyGen_eq_ok] at ran
        obtain ⟨_, s1, linked, _, s2, read, name, s3, expected, _, s4, rfl, made, s5, got, _, s6,
          read', _, s7, expected', _, s8, rfl, body, s9, parsed, _, s10, rfl, _, s11, expected3, _,
          s12, tested, _, s13, rfl, ran⟩ := ran
        obtain rfl := linkNode_kept linked
        obtain ⟨rfl, isName, rfl⟩ := expectIdent_eq_ok expected
        obtain ⟨rfl, rfl⟩ := get_eq_ok.mp got
        obtain ⟨more, rfl⟩ := ahead.word isProc (by decide)
        obtain ⟨ahead1, gen1, said1⟩ := ahead.step read
        obtain ⟨more1, rfl⟩ := ahead1.name isName
        obtain ⟨ahead2, gen2, said2⟩ := (ahead1.of_gen _).step read'
        obtain ⟨more2, rfl, ahead3, gen3, said3⟩ := expectToken_taken (by decide) expected' ahead2
        have wider := noElse_front noElse (show Token.elsesym ∉ [Token.semicolonsym] by decide)
        have grows1 := (advances_blockParse _ _ _).said parsed
        have grows2 := (advancing_expectToken _ _).said expected3
        have grows3 := (advances_test _ _ _ _ _).said tested
        have grows4 := (advances_procedureLoop _ _ _ _ _ _).toAdvances.said ran
        change s7.said ≤ s9.said at grows1
        change s9.said ≤ s11.said at grows2
        change s12.said ≤ s'.said at grows4
        change s6.said = s3.said at said2
        obtain ⟨t, spec, rfl⟩ := blockParse_taken _ _ parsed (by show s9.said ≤ s7.said; omega)
          (ahead3.of_gen _) wider
        obtain ⟨text, middle, rfl, kept, ahead4⟩ := spec.taken
        obtain ⟨more3, rfl, ahead5, gen5, said5⟩ :=
          expectToken_taken (by decide) expected3 (ahead4.of_gen _)
        obtain ⟨rfl, -⟩ := test_silent tested (by omega)
        obtain ⟨procs, others, rfl⟩ :=
          procedureLoop_taken _ _ _ ran (by show s'.said ≤ s12.said; omega) (ahead5.of_gen _) noElse
        have opened : s7.gen.openBlock = (s1.gen.makeProc s3.curToken.string).openBlock := by
          rw [gen3, gen2, gen1]
        have suited : t.Suited s7.gen.openBlock := spec.suited
        have inner : s9.gen = (t.build s7.gen.openBlock).2 := spec.gen
        have closed : s12.gen = s9.gen.closeBlock := gen5
        have suited' : procs.Suited old
            (s12.gen.reserveSpace ((t.build s7.gen.openBlock).1.varDecl.length + 4)) :=
              others.suited
        have behind : s'.gen = (procs.build old
            (s12.gen.reserveSpace ((t.build s7.gen.openBlock).1.varDecl.length + 4))).2 :=
              others.gen
        rw [opened] at suited inner
        rw [opened, closed, inner] at suited' behind
        refine ⟨.cons s3.curToken.string t procs,
          ⟨((((others.taken.cons _ _).after kept).cons _ _).cons _ _).cons _ _,
            ⟨spec.grammatical, others.grammatical⟩, ⟨suited, suited'⟩,
            ⟨spec.readable, others.readable⟩, behind⟩, ?_⟩
        rw [ProdefList.append_node]
        show p.append (.cons _ _ _ _ (t.build s7.gen.openBlock).1 (procs.build old
          (s12.gen.reserveSpace ((t.build s7.gen.openBlock).1.varDecl.length + 4))).1) = _
        rw [opened, closed, inner, gen1]
        rfl
      · obtain ⟨rfl, rfl⟩ := pure_eq_ok.mp ran
        exact ⟨.nil, ⟨taken_none ahead, trivial, trivial, trivial, rfl⟩, p.append_nil.symm⟩
end

end Pl0
