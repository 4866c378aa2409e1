import Pl0.ExpressionReading

set_option autoImplicit false

namespace Pl0

open MarkedText

/-- What may come behind a statement that is parsed with the follow set `fsys`. -/
structure Follows (slips : Prop) (s : StatementNode) (fsys : Symset) (rest : List CurrentToken) :
    Prop where
  calm : headToken rest ∉ operators
  noElse : s.endsOpen = true → headToken rest ≠ .elsesym
  behindEmpty : s.endsEmpty = true → inset (headToken rest) statbegsys = false ∧
    (inset (headToken rest) fsys = true ∨ slips ∧ headToken rest = .nulsym)

/-- The first token of a statement. -/
theorem StatementNode.frontier_head (s : StatementNode) (some : s.isEmpty = false) :
    ∃ token marked, s.frontier = (token, .plain) :: marked ∧ inset token.cToken statbegsys := by
  cases s with
  | empty => cases some
  | assign name e => exact ⟨.ident name, _, rfl, show inset .identsym statbegsys = true by decide⟩
  | begin list => exact ⟨.word .beginsym, _, rfl, by decide⟩
  | ifS cond ifsts => exact ⟨.word .ifsym, _, rfl, by decide⟩
  | ifElse cond ifsts elsests => exact ⟨.word .ifsym, _, rfl, by decide⟩
  | «while» cond sts => exact ⟨.word .whilesym, _, rfl, by decide⟩
  | read name => exact ⟨.word .readsym, _, rfl, by decide⟩
  | write name => exact ⟨.word .writesym, _, rfl, by decide⟩
  | call name => exact ⟨.word .callsym, _, rfl, by decide⟩

/-- A statement does not begin like an operator, nor with an else. -/
theorem begins_calm {token : Token} (begins : inset token statbegsys) :
    token ∉ operators ∧ token ≠ .elsesym := by
  revert begins
  cases token <;> decide

section Statements

variable {slips : Prop} {allowed : List Report → Prop} {rest : List CurrentToken}

theorem kept_separator {droppable : Bool} {marked : List Marked} {text : List CurrentToken}
    (kept : Rewrites (Kept slips)
      ((.word .semicolonsym, .separator droppable) :: marked) text rest) :
    ∃ later, Rewrites (Kept slips) marked later rest ∧
      (text = .word .semicolonsym :: later ∨ slips ∧ droppable = true ∧ text = later) := by
  obtain ⟨alt, later, rfl, rfl | ⟨slip, drops, rfl⟩, others⟩ := rewrites_cons.mp kept
  · exact ⟨later, others, .inl rfl⟩
  · exact ⟨later, others, .inr ⟨slip, drops, rfl⟩⟩

/-- The first token of a text that keeps a statement. -/
theorem kept_head {s : StatementNode} {text : List CurrentToken} (more : List CurrentToken)
    (some : s.isEmpty = false) (kept : Rewrites (Kept slips) s.frontier text rest) :
    inset (headToken (text ++ more)) statbegsys = true := by
  obtain ⟨token, marked, starts, begins⟩ := s.frontier_head some
  rw [starts] at kept
  obtain ⟨later, rfl, -⟩ := kept_plain kept
  exact begins

/-- Behind a statement of a list comes a semicolon, the end, or, where the semicolon was
dropped, another statement. -/
theorem StatementList.head_after {list : StatementList} {ends : Bool} {text : List CurrentToken}
    (kept : Rewrites (Kept slips) (list.frontierAfter ends) text (.word .endsym :: rest)) :
    headToken (text ++ .word .endsym :: rest) ∈ [.semicolonsym, .endsym] ∨
      (ends = false ∧ inset (headToken (text ++ .word .endsym :: rest)) statbegsys = true) := by
  cases list with
  | nil =>
      rw [rewrites_nil.mp kept]
      exact .inl (show Token.endsym ∈ [Token.semicolonsym, .endsym] by decide)
  | cons sts next =>
      obtain ⟨later, others, rfl | ⟨-, drops, rfl⟩⟩ := kept_separator kept
      · exact .inl (show Token.semicolonsym ∈ [Token.semicolonsym, .endsym] by decide)
      · rw [Bool.and_eq_true, Bool.not_eq_true', Bool.not_eq_true'] at drops
        obtain ⟨first, more, rfl, keptFirst, -⟩ := rewrites_append.mp others
        rw [List.append_assoc]
        exact .inr ⟨drops.1, kept_head _ drops.2 keptFirst⟩

/-- A statement of a list is followed as it must be. -/
theorem follows_in_list {list : StatementList} {s : StatementNode} {fsys : Symset}
    {text : List CurrentToken}
    (kept : Rewrites (Kept slips) (list.frontierAfter s.endsEmpty) text (.word .endsym :: rest)) :
    Follows slips s (uniteset (createset [.semicolonsym, .endsym]) fsys)
      (text ++ .word .endsym :: rest) := by
  rcases list.head_after kept with closes | ⟨notEmpty, begins⟩
  · simp only [List.mem_cons, List.not_mem_nil, or_false] at closes
    constructor
    · rcases closes with next | next <;> rw [next] <;> decide
    · intro _
      rcases closes with next | next <;> rw [next] <;> decide
    · intro _
      rcases closes with next | next <;> rw [next] <;> simp <;> decide
  · obtain ⟨calm, noElse⟩ := begins_calm begins
    refine ⟨calm, fun _ => noElse, fun ends => ?_⟩
    rw [notEmpty] at ends
    cases ends

theorem readsTo_separator {g : GenState} :
    ReadsTo allowed separator (.word .semicolonsym :: rest) g () rest g := by
  apply ReadsTo.get
  intro t stands
  rw [if_pos (show t.curToken.cToken = .semicolonsym from stands.ahead.cToken)]
  exact readsTo_getToken

/-- The parser puts up with a missing semicolon in front of a statement. -/
theorem readsTo_noSeparator (lenient : Lenient allowed) {g : GenState}
    (begins : inset (headToken rest) statbegsys = true) :
    ReadsTo allowed separator rest g () rest g := by
  apply ReadsTo.get
  intro t stands
  have other : t.curToken.cToken ≠ .semicolonsym := by
    rw [stands.ahead.cToken]
    intro semicolon
    rw [semicolon] at begins
    exact absurd begins (by decide)
  rw [if_neg other]
  apply (readsTo_report lenient _).bind
  exact readsTo_report lenient _

theorem emptyStatement_reads (lenient : slips → Lenient allowed) {fsys : Symset} {g : GenState}
    (fuel : Nat) (follows : Follows slips .empty fsys rest) :
    ReadsTo allowed (statementParse (fuel + 1) fsys) rest g .empty rest g := by
  obtain ⟨notBegin, ends⟩ := follows.behindEmpty rfl
  have tested : ReadsTo allowed (test fuel fsys phi 19) rest g () rest g := by
    rcases ends with inside | ⟨slip, last⟩
    · exact readsTo_test inside fuel phi 19
    · have skipsNone : ∀ token ∈ ([] : List CurrentToken),
          ¬ inset token.cToken (uniteset fsys phi) ∧ token.cToken ≠ .nulsym := by simp
      exact readsTo_test_skips (lenient slip) skipsNone (.inr last) fuel 19
  apply ReadsTo.get
  intro t stands
  rw [stands.ahead.cToken]
  generalize headToken rest = token at notBegin
  revert notBegin
  cases token
  all_goals
    intro notBegin
    first
      | exact absurd notBegin (by decide)
      | exact tested.bind readsTo_pure

mutual
theorem statementParse_reads (lenient : slips → Lenient allowed) :
    ∀ (s : StatementNode) {fuel : Nat}
    {fsys : Symset} {g : GenState} {text rest : List CurrentToken}, s.Grammatical →
    s.Suited g.lookup → s.ThenBranches StatementNode.Closed → Guards fsys →
    Rewrites (Kept slips) s.frontier text rest → Follows slips s fsys rest →
    ReadsTo allowed (statementParse fuel fsys) (text ++ rest) g s rest (genStatement s g)
  | s, 0, _, _, _, _, _, _, _, _, _, _ => readsTo_fuel
  | .empty, fuel + 1, fsys, g, text, rest, _, _, _, _, kept, follows => by
      rw [rewrites_nil.mp kept]
      exact emptyStatement_reads lenient fuel follows
  | .assign name e, fuel + 1, fsys, g, text, rest, grammatical, suited, _, guards,
      kept, follows => by
      obtain ⟨behind, rfl, -⟩ := kept_plain kept
      apply ReadsTo.get
      intro t stands
      rw [show t.curToken.cToken = .identsym from stands.ahead.cToken]
      exact assignParse_reads lenient name e grammatical suited.1 suited.2 guards kept follows.calm
  | .begin list, fuel + 1, fsys, g, text, rest, grammatical, suited, closed, guards,
      kept, follows => by
      obtain ⟨behind, rfl, keptBody⟩ := kept_plain kept
      apply ReadsTo.get
      intro t stands
      rw [show t.curToken.cToken = .beginsym from stands.ahead.cToken]
      cases list with
      | nil => cases grammatical
      | cons sts next =>
          rw [StatementList.frontier, List.append_assoc] at keptBody
          obtain ⟨first, others, rfl, keptFirst, keptOthers⟩ := rewrites_append.mp keptBody
          obtain ⟨more, last, rfl, keptMore, keptEnd⟩ := rewrites_append.mp keptOthers
          obtain ⟨none, rfl, nothing⟩ := kept_plain keptEnd
          rw [rewrites_nil] at nothing
          subst nothing
          simp only [List.append_assoc, List.cons_append, List.nil_append] at keptFirst keptMore ⊢
          have wider := guards.front [.semicolonsym, .endsym] (by decide)
          apply ReadsTo.read
          apply (readsTo_recordStatement false
            (statementParse_reads lenient sts grammatical.1 suited.1
            closed.1 wider keptFirst (follows_in_list keptMore))).bind
          have known : (g.recorded false sts (genStatement sts g)).lookup = g.lookup :=
            genStatement_lookup sts g
          apply (beginLoop_reads lenient next grammatical.2 (known ▸ suited.2) closed.2 wider
            keptMore).bind
          apply (readsTo_expectToken .endsym 26).bind
          apply ReadsTo.generate
          exact readsTo_pure
  | .ifS cond ifsts, fuel + 1, fsys, g, text, rest, grammatical, suited, closed, guards, kept,
      follows => by
      obtain ⟨behind, rfl, keptBehind⟩ := kept_plain kept
      apply ReadsTo.get
      intro t stands
      rw [show t.curToken.cToken = .ifsym from stands.ahead.cToken]
      obtain ⟨test, taken, rfl, keptTest, keptTaken⟩ := rewrites_append.mp keptBehind
      obtain ⟨branch, rfl, keptBranch⟩ := kept_plain keptTaken
      rw [List.cons_append, List.append_assoc, List.cons_append]
      have wider := guards.front [.thensym, .dosym] (by decide)
      apply ReadsTo.read
      apply (conditionParse_reads lenient cond grammatical.1 suited.1 wider keptTest
        (show Token.thensym ∉ operators by decide)).bind
      apply (readsTo_expectToken .thensym 16).bind
      apply ReadsTo.get
      intro j1 stands1
      rw [stands1.gen]
      apply ReadsTo.generate
      have known : (genCondition cond g).conditionalJump.lookup = g.lookup :=
        (genCondition_emits cond g).lookup
      have branchFollows : Follows slips ifsts fsys rest :=
        ⟨follows.calm, fun _ => follows.noElse rfl, follows.behindEmpty⟩
      apply (readsTo_recordStatement false (statementParse_reads lenient ifsts grammatical.2
        (known ▸ suited.2) closed guards keptBranch branchFollows)).bind
      apply ReadsTo.get
      intro j2 stands2
      rw [stands2.gen]
      apply ReadsTo.generate
      apply ReadsTo.generate
      apply ReadsTo.get
      intro u stands3
      rw [stands3.ahead.cToken, if_neg (follows.noElse rfl)]
      apply (ReadsTo.generate readsTo_modifyGen).bind
      exact readsTo_pure
  | .ifElse cond ifsts elsests, fuel + 1, fsys, g, text, rest, grammatical, suited, closed, guards,
      kept, follows => by
      obtain ⟨behind, rfl, keptBehind⟩ := kept_plain kept
      apply ReadsTo.get
      intro t stands
      rw [show t.curToken.cToken = .ifsym from stands.ahead.cToken]
      obtain ⟨test, taken, rfl, keptTest, keptTaken⟩ := rewrites_append.mp keptBehind
      obtain ⟨branches, rfl, keptBranches⟩ := kept_plain keptTaken
      obtain ⟨branch, others, rfl, keptBranch, keptOthers⟩ := rewrites_append.mp keptBranches
      obtain ⟨other, rfl, keptOther⟩ := kept_plain keptOthers
      simp only [List.cons_append, List.append_assoc] at keptBranch keptTest ⊢
      have wider := guards.front [.thensym, .dosym] (by decide)
      apply ReadsTo.read
      apply (conditionParse_reads lenient cond grammatical.1 suited.1 wider keptTest
        (show Token.thensym ∉ operators by decide)).bind
      apply (readsTo_expectToken .thensym 16).bind
      apply ReadsTo.get
      intro j1 stands1
      rw [stands1.gen]
      apply ReadsTo.generate
      have known : (genCondition cond g).conditionalJump.lookup = g.lookup :=
        (genCondition_emits cond g).lookup
      obtain ⟨⟨notEmpty, notOpen⟩, closedIf, closedElse⟩ := closed
      have branchFollows : Follows slips ifsts fsys (.word .elsesym :: (other ++ rest)) := by
        refine ⟨show Token.elsesym ∉ operators by decide, fun opened => ?_, fun ends => ?_⟩
        · rw [notOpen] at opened
          cases opened
        · rw [notEmpty] at ends
          cases ends
      apply (readsTo_recordStatement false (statementParse_reads lenient ifsts grammatical.2.1
        (known ▸ suited.2.1) closedIf guards keptBranch branchFollows)).bind
      apply ReadsTo.get
      intro j2 stands2
      rw [stands2.gen]
      apply ReadsTo.generate
      apply ReadsTo.generate
      apply ReadsTo.get
      intro u stands3
      rw [if_pos (show u.curToken.cToken = .elsesym from stands3.ahead.cToken)]
      apply ReadsTo.read
      have known' : (genStatement ifsts (genCondition cond g).conditionalJump).lookup = g.lookup :=
        (genStatement_lookup ifsts _).trans known
      have otherFollows : Follows slips elsests fsys rest :=
        ⟨follows.calm, follows.noElse, follows.behindEmpty⟩
      have otherSuited : elsests.Suited (((genCondition cond g).conditionalJump.recorded false ifsts
          (genStatement ifsts (genCondition cond g).conditionalJump)).leaveBranch
            (genCondition cond g).codeLength).lookup := by
        show elsests.Suited (genStatement ifsts (genCondition cond g).conditionalJump).lookup
        rw [known']
        exact suited.2.2
      apply (readsTo_recordStatement false (statementParse_reads lenient elsests grammatical.2.2
        otherSuited closedElse guards keptOther otherFollows)).bind
      apply (ReadsTo.generate readsTo_modifyGen).bind
      exact readsTo_pure
  | .while cond sts, fuel + 1, fsys, g, text, rest, grammatical, suited, closed, guards, kept,
      follows => by
      obtain ⟨behind, rfl, keptBehind⟩ := kept_plain kept
      apply ReadsTo.get
      intro t stands
      rw [show t.curToken.cToken = .whilesym from stands.ahead.cToken]
      obtain ⟨test, taken, rfl, keptTest, keptTaken⟩ := rewrites_append.mp keptBehind
      obtain ⟨body, rfl, keptBody⟩ := kept_plain keptTaken
      rw [List.cons_append, List.append_assoc, List.cons_append]
      have wider := guards.front [.dosym] (by decide)
      apply ReadsTo.read
      apply ReadsTo.get
      intro c stands0
      rw [stands0.gen]
      apply (conditionParse_reads lenient cond grammatical.1 suited.1 wider keptTest
        (show Token.dosym ∉ operators by decide)).bind
      apply (readsTo_expectToken .dosym 18).bind
      apply ReadsTo.get
      intro j1 stands1
      rw [stands1.gen]
      apply ReadsTo.generate
      have known : (genCondition cond g).conditionalJump.lookup = g.lookup :=
        (genCondition_emits cond g).lookup
      have bodyFollows : Follows slips sts fsys rest :=
        ⟨follows.calm, follows.noElse, follows.behindEmpty⟩
      apply (readsTo_recordStatement false (statementParse_reads lenient sts grammatical.2
        (known ▸ suited.2) closed guards keptBody bodyFollows)).bind
      apply ReadsTo.get
      intro j2 stands2
      rw [stands2.gen]
      apply ReadsTo.generate
      apply ReadsTo.generate
      apply ReadsTo.generate
      apply ReadsTo.generate
      exact readsTo_pure
  | .read name, fuel + 1, fsys, g, text, rest, _, suited, _, _, kept, _ => by
      obtain ⟨behind, rfl, -⟩ := kept_plain kept
      apply ReadsTo.get
      intro t stands
      rw [show t.curToken.cToken = .readsym from stands.ahead.cToken]
      refine nameStatement_reads GenState.readSymbol name ?_ suited kept
      rintro symbol ⟨found, same, kind⟩
      cases same
      exact if_neg (fun other => other kind)
  | .write name, fuel + 1, fsys, g, text, rest, _, suited, _, _, kept, _ => by
      obtain ⟨behind, rfl, -⟩ := kept_plain kept
      apply ReadsTo.get
      intro t stands
      rw [show t.curToken.cToken = .writesym from stands.ahead.cToken]
      refine nameStatement_reads GenState.writeSymbol name ?_ suited kept
      rintro symbol ⟨found, same, kind⟩
      cases same
      refine if_pos ?_
      have noProc : symbol.kind ≠ .procS := kind
      cases same : symbol.kind with
      | varS => exact .inl rfl
      | constS => exact .inr rfl
      | procS => exact absurd same noProc
  | .call name, fuel + 1, fsys, g, text, rest, _, suited, _, _, kept, _ => by
      obtain ⟨behind, rfl, -⟩ := kept_plain kept
      apply ReadsTo.get
      intro t stands
      rw [show t.curToken.cToken = .callsym from stands.ahead.cToken]
      refine nameStatement_reads GenState.callSymbol name ?_ suited kept
      rintro symbol ⟨found, same, kind⟩
      cases same
      exact if_neg (fun other => other kind)

theorem beginLoop_reads (lenient : slips → Lenient allowed) : ∀ (list : StatementList) {fuel : Nat}
    {fsys : Symset} {g : GenState} {ends : Bool} {text rest : List CurrentToken},
    list.Grammatical false → list.Suited g.lookup → list.ThenBranches StatementNode.Closed →
    Guards (uniteset (createset [.semicolonsym, .endsym]) fsys) →
    Rewrites (Kept slips) (list.frontierAfter ends) text (.word .endsym :: rest) →
    ReadsTo allowed (beginLoop fuel (uniteset (createset [.semicolonsym, .endsym]) fsys))
      (text ++ .word .endsym :: rest) g list (.word .endsym :: rest) (genStatements list g)
  | list, 0, _, _, _, _, _, _, _, _, _, _ => readsTo_fuel
  | .nil, fuel + 1, fsys, g, ends, text, rest, _, _, _, _, kept => by
      rw [rewrites_nil.mp kept]
      apply ReadsTo.get
      intro t stands
      rw [show t.curToken.cToken = .endsym from stands.ahead.cToken, if_neg (by decide)]
      exact readsTo_pure
  | .cons sts next, fuel + 1, fsys, g, ends, text, rest, grammatical, suited, closed,
      guards, kept => by
      obtain ⟨later, others, dropped⟩ := kept_separator kept
      obtain ⟨first, more, rfl, keptFirst, keptMore⟩ := rewrites_append.mp others
      have starts : ∀ t, Stands allowed (text ++ .word .endsym :: rest) g t →
          (t.curToken.cToken = .semicolonsym ∨ inset t.curToken.cToken statbegsys = true) ∧
            ReadsTo allowed separator (text ++ .word .endsym :: rest) g ()
              ((first ++ more) ++ .word .endsym :: rest) g := by
        intro t stands
        rcases dropped with rfl | ⟨slip, drops, rfl⟩
        · exact ⟨.inl stands.ahead.cToken, readsTo_separator⟩
        · rw [Bool.and_eq_true, Bool.not_eq_true', Bool.not_eq_true'] at drops
          have begins := kept_head (more ++ .word .endsym :: rest) drops.2 keptFirst
          rw [← List.append_assoc] at begins
          exact ⟨.inr (by rw [stands.ahead.cToken]; exact begins),
            readsTo_noSeparator (lenient slip) begins⟩
      apply ReadsTo.get
      intro t stands
      obtain ⟨goesOn, reads⟩ := starts t stands
      rw [if_pos goesOn]
      apply reads.bind
      rw [List.append_assoc]
      apply (readsTo_recordStatement false (statementParse_reads lenient sts grammatical.1 suited.1
        closed.1 guards keptFirst (follows_in_list keptMore))).bind
      have known : (g.recorded false sts (genStatement sts g)).lookup = g.lookup :=
        genStatement_lookup sts g
      apply (beginLoop_reads lenient next grammatical.2
        (known ▸ suited.2) closed.2 guards keptMore).bind
      exact readsTo_pure
end

end Statements

end Pl0
