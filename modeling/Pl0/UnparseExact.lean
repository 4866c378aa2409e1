import Pl0.Misreading
import Pl0.UnparseRoundTrip

set_option autoImplicit false

namespace Pl0

open StateExcept

/- A block whose printed text is not read as the block. A procedure that is read as another one
stays in the list of the block, and a list of procedures is taken up only once. -/

theorem ProdefList.append_filled (procDef : ProdefList) {ident : Name} {lexical addr paraProc : Int}
    {body : BlockNode} {next : ProdefList} :
    (procDef.append (.cons ident lexical addr paraProc body next)).isNil = false := by
  cases procDef <;> rfl

theorem ProdefList.dropEmpty_append : ∀ first second : ProdefList,
    (first.append second).dropEmpty = first.dropEmpty.append second.dropEmpty
  | .nil, _ => rfl
  | .cons ident lexical addr paraProc body next, second => by
      rw [ProdefList.append, ProdefList.dropEmpty, ProdefList.dropEmpty, ProdefList.append,
        next.dropEmpty_append]

theorem ProdefList.dropEmpty_cancel : ∀ (procDef : ProdefList) {first second : ProdefList},
    (procDef.append first).dropEmpty = (procDef.append second).dropEmpty →
      first.dropEmpty = second.dropEmpty
  | .nil, _, _, same => same
  | .cons _ _ _ _ _ next, _, _, same => next.dropEmpty_cancel (ProdefList.cons.inj same).2.2.2.2.2

/-- A node behind the others may have another block that differs in empty statements only. -/
theorem ProdefList.dropEmpty_node (procDef : ProdefList) {more : ProdefList} {ident : Name}
    {lexical addr paraProc : Int} {body body' : BlockNode}
    (same : body'.dropEmpty = body.dropEmpty) :
    ((procDef.append (.cons ident lexical addr paraProc body' .nil)).append more).dropEmpty =
      (procDef.append (.cons ident lexical addr paraProc body more)).dropEmpty := by
  rw [ProdefList.append_node, ProdefList.dropEmpty_append, ProdefList.dropEmpty_append,
    ProdefList.dropEmpty, ProdefList.dropEmpty, same]

section Blocks

variable {fuel : Nat} {fsys : Symset} {old : Int} {procDef : ProdefList} {tail : Bool}

/-- The procedures are linked behind those that are there. -/
theorem procedureLoop_appends : ∀ (fuel : Nat) (procDef : ProdefList) (tail : Bool),
    Yields (procedureLoop fuel fsys old procDef tail) fun more => ∃ next, more = procDef.append next
  | 0, _, _ => yields_throw
  | fuel + 1, procDef, tail => by
      refine .bind fun this => .ite ?_ (yields_pure ⟨.nil, procDef.append_nil.symm⟩)
      refine .bind fun _ => .bind fun _ => .bind fun name => .bind fun _ => .bind fun made =>
        .bind fun _ => .bind fun _ => .bind fun _ => .bind fun body => .bind fun _ => .bind fun _ =>
          .bind fun _ => .bind fun _ => ?_
      refine (procedureLoop_appends fuel _ true).mono ?_
      rintro more ⟨next, linked⟩
      exact ⟨_, linked.trans (ProdefList.append_assoc _ _ _)⟩

/-- Procedures behind those of an earlier section are not linked. -/
theorem procedureLoop_keeps (some : procDef.isNil = false) :
    Yields (procedureLoop fuel fsys old procDef false) (· = procDef) := by
  cases fuel with
  | zero => exact yields_throw
  | succ fuel =>
      refine .bind fun this => .ite ?_ (yields_pure rfl)
      have unlinked : Yields (linkNode procDef.isNil false) fun _ => False := by
        rw [some]
        exact yields_throw
      exact unlinked.then fun _ impossible => impossible.elim

theorem declarationLoop_keeps (some : procDef.isNil = false) :
    ∀ (fuel : Nat) (constDecl : List ConstDeclNode) (varDecl : List VarDeclNode),
      Yields (declarationLoop fuel fsys constDecl varDecl procDef) (·.2.2 = procDef)
  | 0, _, _ => yields_throw
  | fuel + 1, _, _ => by
      refine .bind fun constDecl => .bind fun varDecl => .bind fun this => ?_
      refine (procedureLoop_keeps some).then fun procDef' same => ?_
      rw [same]
      refine .bind fun _ => .bind fun _ => .bind fun _ => .ite ?_ (yields_pure rfl)
      exact declarationLoop_keeps some fuel constDecl varDecl

/-- Where the procedures go wrong, the declarations do. -/
theorem declarationLoop_misreads {consts : List (Name × Int)} {vars : List Name} {g : GenState}
    {tokens : List CurrentToken} {procDef : ProdefList}
    (small : ∀ const ∈ consts, const.2 ≤ maxNumber)
    (inside : consts ≠ [] ∨ vars ≠ [] → g.LevelInside)
    (other : headToken tokens ≠ .varsym ∧ headToken tokens ≠ .constsym)
    (procs : ∀ fuel, Misreads
      (procedureLoop fuel fsys (g.declared consts vars).currentProcedure .nil false) tokens
      (g.declared consts vars) fun found => found.isNil = false ∧ found.dropEmpty ≠ procDef) :
    Misreads (declarationLoop fuel fsys [] [] .nil)
      ((sectionFrontier .constsym constFrontier consts).map Prod.fst ++
        ((sectionFrontier .varsym varFrontier vars).map Prod.fst ++ tokens)) g
      fun found => found.2.2.dropEmpty ≠ procDef := by
  cases fuel with
  | zero => exact misreads_throw
  | succ fuel =>
      obtain ⟨constsRead, varsRead⟩ := sections_read small inside (kept_same _ _) (kept_same _ _)
        other fuel
      apply constsRead.misreads
      apply varsRead.misreads
      apply Misreads.get
      intro t stands
      rw [stands.gen]
      apply (procs fuel).bind
      rintro found ⟨some, differs⟩
      refine .bind fun _ => .bind fun _ => .bind fun _ => .ite ?_ (yields_pure differs)
      refine (declarationLoop_keeps some fuel _ _).mono fun all kept => ?_
      rw [kept]
      exact differs

mutual
theorem blockParse_misreads : ∀ (t : BlockTree) (inner : Bool) {fuel : Nat} {fsys : Symset}
    {g g' : GenState} {rest : List CurrentToken}, t.Grammatical → Retraced g g' → t.Suited g →
    t.Bodies StatementNode.Readable → Guards (uniteset (createset [.semicolonsym, .endsym]) fsys) →
    inset .semicolonsym fsys = inner → ¬ t.Reprintable inner →
    Misreads (blockParse fuel fsys) (t.printed ++ rest) g' fun block =>
      block.dropEmpty ≠ (t.build g).1.dropEmpty
  | _, _, 0, _, _, _, _, _, _, _, _, _, _, _ => misreads_throw
  | .mk consts vars procs statement, inner, fuel + 1, fsys, g, g', rest, grammatical, retraced,
      suited, readable, guards, same, mistake => by
      have printed : (BlockTree.mk consts vars procs statement).printed ++ rest =
          (sectionFrontier .constsym constFrontier consts).map Prod.fst ++
            ((sectionFrontier .varsym varFrontier vars).map Prod.fst ++
              (procs.printed ++ (statement.printed ++ rest))) := by
        rw [BlockTree.printed]
        simp only [List.append_assoc]
      have begins : inset (headToken (statement.printed ++ rest)) statbegsys = true :=
        printed_head readable.2.1 rest
      have other := procedures_other (procedures_head procs (statement.printed ++ rest)) begins
      obtain ⟨small, inside, procsSuited, statementSuited⟩ := suited
      have declared := retraced.declared consts vars
      have current := declared.currentProcedure
      rw [← current] at procsSuited statementSuited
      have inside' := fun some => retraced.levelInside (inside some)
      have procsSuited' := procs.reread_suited _ declared procsSuited
      have behind :=
        (procs.reread_build (g'.declared consts vars).currentProcedure declared).2
      rw [printed]
      by_cases right : procs.Reprintable inner
      · have wrong : ¬ statement.Reprintable := fun read => mistake ⟨right, read⟩
        have stops : inset (headToken (statement.printed ++ rest))
            (uniteset (uniteset statbegsys (createset [.identsym])) declbegsys) = true := by
          rw [inset_uniteset, inset_uniteset, begins]
          rfl
        apply (declarationLoop_reads small inside' (kept_same _ _) (kept_same _ _) other
          (fun _ => procedureLoop_rereads lenient_any procs inner grammatical.1 procsSuited'
            readable.1 right guards same rfl begins)
          (fun fuel _ => readsTo_test_semicolon lenient_any (by decide) stops
            (leftover_semicolon procs inner) fuel 7) begins fuel).misreads
        apply ((statementParse_misreads statement grammatical.2
          (behind.lookup.symm ▸ statementSuited) readable.2.2 guards (.inl wrong)).record true).bind
        rintro node ⟨-, differs⟩
        refine .bind fun _ => yields_pure fun same => differs ?_
        exact (BlockNode.mk.inj same).2.2.2
      · apply (declarationLoop_misreads small inside' other fun fuel =>
          procedureLoop_misreads procs inner grammatical.1 declared procsSuited readable.1 guards
            same rfl begins right).bind
        intro found differs
        refine .bind fun _ => .bind fun _ => yields_pure fun same => differs ?_
        have procedures := (BlockNode.mk.inj same).2.2.1
        rw [← current] at procedures
        exact procedures

theorem procedureLoop_misreads : ∀ (procs : ProcTrees) (inner : Bool) {fuel : Nat} {fsys : Symset}
    {old : Int} {procDef : ProdefList} {tail : Bool} {g g' : GenState} {rest : List CurrentToken},
    procs.Grammatical → Retraced g g' → procs.Suited old g → procs.Bodies StatementNode.Readable →
    Guards (uniteset (createset [.semicolonsym, .endsym]) fsys) →
    inset .semicolonsym fsys = inner → (procDef.isNil || tail) = true →
    inset (headToken rest) statbegsys = true → ¬ procs.Reprintable inner →
    Misreads (procedureLoop fuel fsys old procDef tail) (procs.printed ++ rest) g' fun found =>
      found.isNil = false ∧ found.dropEmpty ≠ (procDef.append (procs.build old g).1).dropEmpty
  | .nil, _, _, _, _, _, _, _, _, _, _, _, _, _, _, _, _, _, mistake => absurd trivial mistake
  | _, _, 0, _, _, _, _, _, _, _, _, _, _, _, _, _, _, _, _ => misreads_throw
  | .cons ident body next, inner, fuel + 1, fsys, old, procDef, tail, g, g', rest, grammatical,
      retraced, suited, readable, guards, same, linked, begins, mistake => by
      have printed : (ProcTrees.cons ident body next).printed ++ rest =
          .word .procsym :: .ident ident :: .word .semicolonsym ::
            (body.printed ++ .word .semicolonsym :: (next.printed ++ rest)) := by
        simp only [ProcTrees.printed, List.cons_append, List.append_assoc]
      rw [printed]
      apply Misreads.get
      intro t stands
      rw [if_pos (show t.curToken.cToken = .procsym from stands.ahead.cToken)]
      apply (readsTo_linkNode linked).misreads
      apply Misreads.read
      apply (readsTo_expectIdent ident 4).misreads
      apply Misreads.generate
      apply Misreads.get
      intro made stands'
      rw [stands'.gen]
      apply Misreads.read
      apply (readsTo_expectToken .semicolonsym 6).misreads
      apply Misreads.generate
      have opened := (retraced.makeProc ident).openBlock
      by_cases right : body.Reprintable true
      · have follows : BlockFollows True (uniteset (createset [.semicolonsym]) fsys)
            (.word .semicolonsym :: (next.printed ++ rest)) :=
          ⟨.inl rfl, .inl (semicolon_inside fsys)⟩
        obtain ⟨sameBody, inside⟩ := body.reread_build opened
        have closed := inside.closeProc
          ((body.build (g.makeProc ident).openBlock).1.varDecl.length + 4)
        apply (blockParse_rereads lenient_any body true grammatical.1
          (body.reread_suited opened suited.1) readable.1 right guards.procedure
          (semicolon_inside fsys) follows fun fuel _ => bodyTest_reads _ fuel).misreads
        apply Misreads.generate
        apply (readsTo_expectToken .semicolonsym 6).misreads
        apply (procedureTest_reads lenient_any same (procedures_next next begins) _ fuel).misreads
        apply Misreads.generate
        obtain ⟨level, count⟩ := (retraced.makeProc ident).numbers
        rw [level, count, varDecl_of_dropEmpty sameBody]
        by_cases stuck : (inner && body.statement.endsSemicolon) = true
        · -- the second semicolon ends the loop, with procedures still to come
          rw [stuck]
          have stops : headToken (semicolonIf true ++ (next.printed ++ rest)) ≠ .procsym :=
            show Token.semicolonsym ≠ .procsym by decide
          refine (procedureLoop_ends stops fuel).returns_wrong
            ⟨procDef.append_filled, fun same => ?_⟩
          cases next with
          | nil => exact mistake ⟨right, fun _ _ => rfl, trivial⟩
          | cons ident' body' next =>
              rw [← ProdefList.append_nil (procDef.append _),
                procDef.dropEmpty_node sameBody] at same
              have procedures := (ProdefList.cons.inj (procDef.dropEmpty_cancel same)).2.2.2.2.2
              cases procedures
        · rw [Bool.eq_false_iff.mpr stuck]
          have wrong : ¬ next.Reprintable inner := by
            refine fun read => mistake ⟨right, fun isInner ends => ?_, read⟩
            exact absurd (Bool.and_eq_true_iff.mpr ⟨isInner, ends⟩) stuck
          refine (procedureLoop_misreads next inner grammatical.2 closed suited.2 readable.2 guards
            same (Bool.or_true _) begins wrong).mono ?_
          rintro found ⟨some, differs⟩
          refine ⟨some, fun same => differs (same.trans ?_)⟩
          exact (procDef.dropEmpty_node sameBody).symm
      · apply (blockParse_misreads body true grammatical.1 opened suited.1 readable.1
          guards.procedure (semicolon_inside fsys) right).bind
        intro node differs
        refine .bind fun _ => .bind fun _ => .bind fun _ => .bind fun _ => ?_
        refine (procedureLoop_appends fuel _ true).mono ?_
        rintro found ⟨more, rfl⟩
        rw [ProdefList.append_node]
        refine ⟨procDef.append_filled, fun same => differs ?_⟩
        exact (ProdefList.cons.inj (procDef.dropEmpty_cancel same)).2.2.2.2.1
end

end Blocks

/-- What the parser makes of the printed tokens of a program is another program. -/
theorem parse_misreads {t : BlockTree} (grammatical : t.Grammatical) (suited : t.Suited mainGen)
    (readable : t.Bodies StatementNode.Readable) (mistake : ¬ t.Reprintable false)
    {file : List CurrentToken}
    (tokens : (seen file).map CurrentToken.normal = t.printed ++ [.word .periodsym]) {fuel : Nat}
    {block : BlockNode} {s : ParseState} (parsed : parse fuel file = .ok block s) :
    block.dropEmpty ≠ (t.build mainGen).1.dropEmpty := by
  have body : Misreads (mainParse fuel) (t.printed ++ [.word .periodsym]) mainGen fun block =>
      block.dropEmpty ≠ (t.build mainGen).1.dropEmpty := by
    apply (blockParse_misreads t false grammatical (.refl mainGen) suited readable main_guards
      semicolon_outside mistake).bind
    exact fun block differs => .bind fun _ => .bind fun _ => .bind fun _ => yields_pure differs
  obtain ⟨s1, start, stands⟩ := parse_stands tokens fuel
  rw [start] at parsed
  exact Triple.ok body stands parsed

/-- The printed text of the block is scanned, and the parser makes the same block of it, empty
statements of a list apart. -/
def RoundTrip (block : BlockNode) : Prop :=
  ∀ turns, (programUnParse block).length + 2 ≤ turns →
    ∃ again, scannerRun turns (programUnParse block) = .ok (some again) ∧
      ∀ fuel, 4 * again.length + 13 ≤ fuel →
        ∃ block' s', parse fuel (again.map tokenOf) = .ok block' s' ∧
          block'.dropEmpty = block.dropEmpty

/-- An accepted program is printed as it was read if and only if no odd condition stands in
it, no then branch in front of an else is printed with a semicolon at its end, no statement of
a list that ends with an empty branch or loop body is printed in front of another one, and no
procedure of a procedure is printed with two semicolons in front of another one. -/
theorem roundTrip_iff {turns fuel : Nat} {text : List UInt8} {tokenTable : List LexemeEntry}
    {block : BlockNode} {s : ParseState}
    (scanned : scannerRun turns text = .ok (some tokenTable))
    (sentence : Sentence .program (seen (tokenTable.map tokenOf)))
    (accepted : parse fuel (tokenTable.map tokenOf) = .ok block s) (silent : s.reports = []) :
    RoundTrip block ↔ block.tree.Reprintable false := by
  obtain ⟨grammatical, suited, readable, built, -, printed⟩ :=
    accepted_printed scanned sentence accepted silent
  constructor
  · intro roundTrip
    by_contra mistake
    obtain ⟨again, rescanned, parsed⟩ := roundTrip _ (Nat.le_refl _)
    obtain ⟨again', rescanned', -, tokens⟩ := printed (Nat.le_refl _)
    rw [rescanned] at rescanned'
    cases rescanned'
    obtain ⟨block', s', reparsed, same⟩ := parsed _ (Nat.le_refl _)
    exact parse_misreads grammatical suited readable mistake tokens reparsed (built ▸ same)
  · intro reprintable turns enough
    obtain ⟨again, rescanned, -, tokens⟩ := printed enough
    refine ⟨again, rescanned, fun fuel left => ?_⟩
    have left' : 4 * (again.map tokenOf).length + 13 ≤ fuel := by rwa [List.length_map]
    have same := Retraced.refl mainGen
    obtain ⟨s', parsed, -⟩ := parse_rereads grammatical (block.tree.reread_suited same suited)
      readable reprintable tokens left'
    have sameBlock := (block.tree.reread_build same).1
    rw [← built] at sameBlock
    exact ⟨_, s', parsed, sameBlock⟩

/-- `var x;if x=1 then x:=1 else x:=2.` and a newline -/
def twoBranches : List UInt8 :=
  [118, 97, 114, 32, 120, 59, 105, 102, 32, 120, 61, 49, 32, 116, 104, 101, 110, 32, 120, 58, 61,
    49, 32, 101, 108, 115, 101, 32, 120, 58, 61, 50, 46, 10]

def twoBranchesTree : BlockTree :=
  .mk [] [[120]] .nil (.ifElse
    (.relOp .eqlsym (.cons .unset (.cons .nulsym (.ident [120]) .nil) .nil)
      (.cons .unset (.cons .nulsym (.digit 1) .nil) .nil))
    (.assign [120] (.cons .unset (.cons .nulsym (.digit 1) .nil) .nil))
    (.assign [120] (.cons .unset (.cons .nulsym (.digit 2) .nil) .nil)))

theorem twoBranches_scanned : ∃ tokenTable, scannerRun 40 twoBranches = .ok (some tokenTable) ∧
    tokenTable.map tokenOf = twoBranchesTree.program.map Prod.fst := by
  refine ⟨[⟨.varsym, [118, 97, 114], false⟩, ⟨.identsym, [120], true⟩,
    ⟨.semicolonsym, [59], false⟩, ⟨.ifsym, [105, 102], false⟩, ⟨.identsym, [120], true⟩,
    ⟨.eqlsym, [61], false⟩, ⟨.numbersym, [49], true⟩, ⟨.thensym, [116, 104, 101, 110], false⟩,
    ⟨.identsym, [120], true⟩, ⟨.becomessym, [58, 61], false⟩, ⟨.numbersym, [49], true⟩,
    ⟨.elsesym, [101, 108, 115, 101], false⟩, ⟨.identsym, [120], true⟩,
    ⟨.becomessym, [58, 61], false⟩, ⟨.numbersym, [50], true⟩, ⟨.periodsym, [46], false⟩], ?_, rfl⟩
  decide +kernel

theorem twoBranches_accepted : ∃ tokenTable s, scannerRun 40 twoBranches = .ok (some tokenTable) ∧
    Sentence .program (seen (tokenTable.map tokenOf)) ∧
      parse 80 (tokenTable.map tokenOf) = .ok (twoBranchesTree.build mainGen).1 s ∧
        s.reports = [] := by
  obtain ⟨tokenTable, scanned, tokens⟩ := twoBranches_scanned
  have looked : returned? (fun block s => (s.reports, block))
      (parse 80 (twoBranchesTree.program.map Prod.fst)) =
        some ([], (twoBranchesTree.build mainGen).1) := by
    rfl
  obtain ⟨block, s, accepted, found⟩ := returned?_eq_some.mp looked
  obtain ⟨silent, rfl⟩ := Prod.mk.inj found
  refine ⟨tokenTable, s, scanned, ?_, by rw [tokens, accepted], silent⟩
  rw [tokens]
  refine sentence_iff.mpr ⟨twoBranchesTree, ⟨trivial, ?_⟩, rfl⟩
  exact ⟨⟨.inl rfl, ⟨.inl ⟨rfl, rfl⟩, ⟨rfl, trivial, rfl⟩, rfl⟩, .inl ⟨rfl, rfl⟩,
    ⟨rfl, trivial, rfl⟩, rfl⟩,
    ⟨.inl ⟨rfl, rfl⟩, ⟨rfl, trivial, rfl⟩, rfl⟩, .inl ⟨rfl, rfl⟩, ⟨rfl, trivial, rfl⟩, rfl⟩

/-- The tokens of the printed text, with the semicolon in front of the else. -/
theorem twoBranches_printed : ∃ again,
    scannerRun 80 (programUnParse (twoBranchesTree.build mainGen).1) = .ok (some again) ∧
      again.map tokenOf = twoBranchesTree.printed ++ [.word .periodsym] := by
  refine ⟨[⟨.varsym, [118, 97, 114], false⟩, ⟨.identsym, [120], true⟩,
    ⟨.semicolonsym, [59], false⟩, ⟨.ifsym, [105, 102], false⟩, ⟨.identsym, [120], true⟩,
    ⟨.eqlsym, [61], false⟩, ⟨.numbersym, [49], true⟩, ⟨.thensym, [116, 104, 101, 110], false⟩,
    ⟨.identsym, [120], true⟩, ⟨.becomessym, [58, 61], false⟩, ⟨.numbersym, [49], true⟩,
    ⟨.semicolonsym, [59], false⟩, ⟨.elsesym, [101, 108, 115, 101], false⟩,
    ⟨.identsym, [120], true⟩, ⟨.becomessym, [58, 61], false⟩, ⟨.numbersym, [50], true⟩,
    ⟨.semicolonsym, [59], false⟩, ⟨.periodsym, [46], false⟩], ?_, rfl⟩
  decide +kernel

/-- The parser does not return for the text with a semicolon in front of the else. -/
theorem twoBranches_no_roundTrip : ∃ tokenTable block s,
    scannerRun 40 twoBranches = .ok (some tokenTable) ∧
      Sentence .program (seen (tokenTable.map tokenOf)) ∧
        parse 80 (tokenTable.map tokenOf) = .ok block s ∧ s.reports = [] ∧ ¬ RoundTrip block := by
  obtain ⟨tokenTable, s, scanned, sentence, accepted, silent⟩ := twoBranches_accepted
  refine ⟨tokenTable, _, s, scanned, sentence, accepted, silent, fun roundTrip => ?_⟩
  obtain ⟨again, rescanned, parsed⟩ := roundTrip 80 (by decide +kernel)
  obtain ⟨again', rescanned', tokens⟩ := twoBranches_printed
  rw [rescanned] at rescanned'
  cases rescanned'
  have length : again.length = 18 := by
    rw [← List.length_map (f := tokenOf), tokens]
    rfl
  obtain ⟨block', s', reparsed, -⟩ := parsed 85 (by omega)
  have stopped : returned? (fun _ _ => ()) (parse 85 (again.map tokenOf)) = none := by
    rw [tokens]
    rfl
  rw [reparsed] at stopped
  cases stopped

theorem roundTrip_iff_twoBranches : (∃ block, RoundTrip block ∧ block.tree = oneLineTree) ∧
    ∃ block, ¬ RoundTrip block ∧ block.tree = twoBranchesTree := by
  constructor
  · obtain ⟨tokenTable, block, s, scanned, sentence, accepted, silent, tree⟩ := oneLine_accepted
    refine ⟨block, (roundTrip_iff scanned sentence accepted silent).mpr ?_, tree⟩
    rw [tree]
    refine ⟨trivial, StatementList.Reprintable.behindEmpty ⟨fun _ ends => ?_, trivial, trivial⟩⟩
    cases ends
  · obtain ⟨tokenTable, s, scanned, sentence, accepted, silent⟩ := twoBranches_accepted
    refine ⟨_, fun roundTrip => ?_, twoBranchesTree.build_tree mainGen⟩
    have reprintable := (roundTrip_iff scanned sentence accepted silent).mp roundTrip
    cases reprintable.2.2.1

end Pl0
