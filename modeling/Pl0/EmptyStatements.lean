import Pl0.ParserCalls
import Pl0.GrammarCompleteness

set_option autoImplicit false

namespace Pl0

open StateExcept

/-- The positions of statements that the parse of a token file reaches, each with what
parses a statement there. A body begins where the declarations end. -/
inductive StatementAt (start : Nat) (file : List CurrentToken) :
    Position → ParseM StatementNode → ParseState → Prop
  | inner {fuel : Nat} {fsys : Symset} {position : Position} {s : ParseState}
      (reached : Reached start file (.statementParse position fsys) fuel s)
      (inside : position ≠ .blockBody) :
      StatementAt start file position (recordStatement false (statementParse fuel fsys)) s
  | body {fuel bodyFuel : Nat} {fsys : Symset} {oldProcedure : Int}
      {constDecl : List ConstDeclNode} {varDecl : List VarDeclNode} {procDef : ProdefList}
      {s : ParseState}
      (reached : Reached start file
        (.bodyParse bodyFuel fsys oldProcedure constDecl varDecl procDef) fuel s) :
      StatementAt start file .blockBody
        (bodyParse bodyFuel fuel fsys oldProcedure constDecl varDecl procDef) s

/-- The computation comes back without a report and at the token it began with. -/
def PassesQuietly {α : Type} (x : ParseM α) (s : ParseState) : Prop :=
  ∃ a s', x s = .ok a s' ∧ s'.reports = s.reports ∧ s'.curToken = s.curToken ∧
    s'.tokenFile = s.tokenFile ∧ s'.feof = s.feof

/-- The tokens that follow a statement in the grammar. -/
def followers : List Token := [.semicolonsym, .endsym, .elsesym, .periodsym]

section Sets

variable {fsys : Symset}

/-- The set is one that `blockParse` can be called with: it has the period, and no `else`. -/
structure BlockSet (fsys : Symset) : Prop where
  period : inset .periodsym fsys = true
  noElse : inset .elsesym fsys = false

/-- Of what follows a statement, the set lacks the `else` only. -/
def StatementSet (fsys : Symset) : Prop :=
  ∀ token ∈ followers, inset token fsys = true ↔ token ≠ .elsesym

theorem blockSet_program :
    BlockSet (uniteset (createset [.periodsym]) (uniteset declbegsys statbegsys)) := by
  constructor <;> decide

theorem BlockSet.procedure (block : BlockSet fsys) :
    BlockSet (uniteset (createset [.semicolonsym]) fsys) :=
  ⟨by simp [block.period], by simp [block.noElse]⟩

theorem BlockSet.statement (block : BlockSet fsys) :
    StatementSet (uniteset (createset [.semicolonsym, .endsym]) fsys) := by
  intro token follows
  rcases (by simpa [followers] using follows : token = .semicolonsym ∨ token = .endsym ∨
    token = .elsesym ∨ token = .periodsym) with rfl | rfl | rfl | rfl
  · simp
  · simp
  · simp [block.noElse]
  · simp [block.period]

theorem StatementSet.items (statement : StatementSet fsys) :
    StatementSet (uniteset (createset [.semicolonsym, .endsym]) fsys) :=
  BlockSet.statement
    ⟨(statement .periodsym (by decide)).mpr (by decide), Bool.eq_false_iff.mpr fun has =>
      (statement .elsesym (by decide)).mp has rfl⟩

/-- The call has a set of its kind. -/
def Call.Suited : Call → Prop
  | .blockParse fsys => BlockSet fsys
  | .declarationLoop _ fsys _ _ _ => BlockSet fsys
  | .procedureLoop fsys _ _ _ => BlockSet fsys
  | .bodyParse _ fsys _ _ _ _ => BlockSet fsys
  | .statementParse _ fsys => StatementSet fsys
  | .beginLoop set => StatementSet set

theorem Reached.suited {start fuel : Nat} {file : List CurrentToken} {call : Call}
    {s : ParseState} (reached : Reached start file call fuel s) : call.Suited := by
  induction reached with
  | program => exact blockSet_program
  | declarations _ ih => exact ih
  | statement _ _ ih => exact BlockSet.statement ih
  | procedures _ _ _ ih => exact ih
  | body _ _ _ _ ih => exact ih
  | again _ _ _ ih => exact ih
  | block _ _ _ _ ih => exact BlockSet.procedure ih
  | procedure _ _ _ _ _ _ ih => exact ih
  | first _ _ _ ih => exact StatementSet.items ih
  | list _ _ _ _ ih => exact StatementSet.items ih
  | item _ _ _ ih => exact ih
  | items _ _ _ _ ih => exact ih
  | thenBranch _ _ _ ih => exact ih
  | elseBranch _ _ _ _ _ _ ih => exact ih
  | loopBody _ _ _ ih => exact ih

end Sets

section Stops

variable {fuel : Nat} {s s1 s2 t : ParseState} {e : Stop}

/-- What the rest of the declarations returns is what those of the block return. -/
def DeclaresFor (start : Nat) (file : List CurrentToken) (bodyFuel : Nat) (fsys : Symset)
    (rest : ParseM (List ConstDeclNode × List VarDeclNode × ProdefList)) (s : ParseState) : Prop :=
  ∃ s0, Reached start file (.blockParse fsys) (bodyFuel + 1) s0 ∧ ∀ decls t,
    rest s = .ok decls t → declarationLoop bodyFuel fsys [] [] .nil s0 = .ok decls t

/-- `DeclaresFor`, for the calls that are part of the declarations of a block. -/
def CallDeclares (start : Nat) (file : List CurrentToken) (call : Call) (fuel : Nat)
    (s : ParseState) : Prop :=
  match call with
  | .declarationLoop bodyFuel fsys constDecl varDecl procDef => DeclaresFor start file bodyFuel fsys
      (declarationLoop fuel fsys constDecl varDecl procDef) s
  | .bodyParse bodyFuel fsys oldProcedure constDecl varDecl procDef =>
      DeclaresFor start file bodyFuel fsys
        (declarationRest fuel fsys oldProcedure constDecl varDecl procDef) s
  | _ => True

theorem Reached.declares {start : Nat} {file : List CurrentToken} {call : Call}
    (reached : Reached start file call fuel s) : CallDeclares start file call fuel s := by
  induction reached with
  | @declarations fuel fsys s block _ => exact ⟨s, block, fun _ _ declared => declared⟩
  | body _ constRead varRead procedures ih =>
      obtain ⟨s0, block, declared⟩ := ih
      refine ⟨s0, block, fun decls t rest => declared decls t ?_⟩
      exact (declarationLoop_rest constRead varRead procedures).trans rest
  | again _ tested more ih =>
      obtain ⟨s0, block, declared⟩ := ih
      refine ⟨s0, block, fun decls t rest => declared decls t ?_⟩
      exact (declarationRest_again tested more).trans rest
  | _ => trivial

theorem recordStatement_stopped {x : ParseM StatementNode} {body : Bool}
    (stopped : recordStatement body x s = .error e t) : x s = .error e t := by
  cases run : x s with
  | ok node s1 =>
      obtain ⟨s2, returned⟩ : ∃ s2, recordStatement body x s = .ok node s2 :=
        ⟨_, bind_of_ok run _⟩
      rw [returned] at stopped
      cases stopped
  | error e1 s1 => exact (recordStatement_stops run).symm.trans stopped

/-- What stops at the position of a statement stops the parse. -/
theorem StatementAt.stops {start : Nat} {file : List CurrentToken} {position : Position}
    {parses : ParseM StatementNode} (reached : StatementAt start file position parses s)
    (stopped : parses s = .error e t) : parse start file = .error e t := by
  cases reached with
  | inner reached _ => exact reached.stops (recordStatement_stopped stopped)
  | @body fuel bodyFuel fsys oldProcedure constDecl varDecl procDef _ reached =>
      rw [bodyParse] at stopped
      cases run : declarationRest fuel fsys oldProcedure constDecl varDecl procDef s with
      | error e1 s1 =>
          rw [bind_of_error run] at stopped
          cases stopped
          exact reached.stops run
      | ok decls s1 =>
          rw [bind_of_ok run] at stopped
          obtain ⟨s0, block, declared⟩ := reached.declares
          exact block.stops
            (blockParse_statementStops (declared decls s1 run) (recordStatement_stopped stopped))

end Stops

section Passing

variable {fuel : Nat} {fsys s1 s2 : Symset} {s s' : ParseState} {errorType : Nat}

/-- A test outside of its first set reports. -/
theorem test_reports (outside : inset s.curToken.cToken s1 = false)
    (tested : test fuel s1 s2 errorType s = .ok () s') :
    s.reports ++ [.recovery, .error errorType] <+: s'.reports := by
  rw [test, get_bind_eq_ok, if_neg (by simp [outside])] at tested
  obtain ⟨_, t1, recovery, tested⟩ := bind_eq_ok.mp tested
  obtain ⟨_, t2, error, skipped⟩ := bind_eq_ok.mp tested
  have reported : t2.reports = s.reports ++ [.recovery, .error errorType] := by
    rw [← modify_eq_ok.mp error, ← modify_eq_ok.mp recovery]
    simp
  have skips : Advances _ True (skipLoop (uniteset s1 s2) fuel) t2 := advances_skipLoop _ fuel t2
  have grows := skips.reports
  rw [skipped, reported] at grows
  exact grows

theorem reports_ne {reports reports' : List Report}
    (grows : reports ++ [.recovery, .error errorType] <+: reports') : reports' ≠ reports := by
  rintro rfl
  have less := grows.length_le
  rw [List.length_append] at less
  exact absurd less (by simp)

theorem recordStatement_passes_iff {body : Bool} {x : ParseM StatementNode} :
    PassesQuietly (recordStatement body x) s ↔ PassesQuietly x s := by
  constructor
  · rintro ⟨node, s', returned, kept⟩
    rw [recordStatement, get_bind_eq_ok] at returned
    simp only [bind_eq_ok, modifyGen_eq_ok, pure_eq_ok] at returned
    obtain ⟨node', t, parsed, _, _, rfl, rfl, rfl⟩ := returned
    exact ⟨node', t, parsed, kept⟩
  · rintro ⟨node, t, parsed, kept⟩
    refine ⟨node, _, bind_of_ok parsed _, kept⟩

/-- An empty statement is left to the test of its follow set. -/
theorem statementParse_empty (follows : s.curToken.cToken ∈ followers) :
    statementParse (fuel + 1) fsys s = (test fuel fsys phi 19 >>= fun _ => pure .empty) s := by
  rw [statementParse, get_bind]
  rcases (by simpa [followers] using follows : s.curToken.cToken = .semicolonsym ∨
    s.curToken.cToken = .endsym ∨ s.curToken.cToken = .elsesym ∨
      s.curToken.cToken = .periodsym) with token | token | token | token <;>
    simp only [token]

/-- It is passed quietly exactly when the set has the token behind it. -/
theorem statementParse_passes_iff (follows : s.curToken.cToken ∈ followers) :
    PassesQuietly (statementParse (fuel + 1) fsys) s ↔ inset s.curToken.cToken fsys = true := by
  constructor
  · rintro ⟨node, s', parsed, reports, -⟩
    rw [statementParse_empty follows] at parsed
    obtain ⟨_, t, tested, ended⟩ := bind_eq_ok.mp parsed
    obtain ⟨-, rfl⟩ := pure_eq_ok.mp ended
    by_contra outside
    exact reports_ne (test_reports (Bool.eq_false_iff.mpr outside) tested) reports
  · intro inside
    have tested : test fuel fsys phi 19 s = .ok () s := by
      rw [test, get_bind_eq_ok, if_pos inside]
      rfl
    refine ⟨.empty, s, ?_, rfl, rfl, rfl, rfl⟩
    rw [statementParse_empty follows, bind_of_ok tested]
    rfl

/-- The test in front of the statement of a block has none of the tokens that follow one. -/
theorem declarationEnd_reports {oldProcedure : Int} (follows : s.curToken.cToken ∈ followers)
    (tested : declarationEnd fuel oldProcedure s = .ok () s') :
    s.reports ++ [.recovery, .error 7] <+: s'.reports := by
  obtain ⟨_, t, restored, tested⟩ := bind_eq_ok.mp tested
  have token : t.curToken = s.curToken := by rw [← modifyGen_eq_ok.mp restored]
  have reports : t.reports = s.reports := by rw [← modifyGen_eq_ok.mp restored]
  have outside : ∀ token ∈ followers,
      inset token (uniteset statbegsys (createset [.identsym])) = false := by decide
  rw [← reports]
  rw [← token] at follows
  exact test_reports (outside _ follows) tested

theorem bodyParse_reports {bodyFuel : Nat} {oldProcedure : Int} {constDecl : List ConstDeclNode}
    {varDecl : List VarDeclNode} {procDef : ProdefList} {node : StatementNode}
    (follows : s.curToken.cToken ∈ followers)
    (parsed : bodyParse bodyFuel fuel fsys oldProcedure constDecl varDecl procDef s =
      .ok node s') : s.reports ++ [.recovery, .error 7] <+: s'.reports := by
  obtain ⟨decls, t2, rest, recorded⟩ := bind_eq_ok.mp parsed
  obtain ⟨_, t1, tested, again⟩ := bind_eq_ok.mp rest
  have declared : t1.reports <+: t2.reports := by
    rw [get_bind_eq_ok] at again
    split at again
    · have grows := (advances_declarationLoop fuel fsys constDecl varDecl procDef t1).reports
      rw [again] at grows
      exact grows
    · obtain ⟨-, rfl⟩ := pure_eq_ok.mp again
      exact List.prefix_rfl
  have stated := (advances_recordStatement true (advances_statementParse bodyFuel
    (uniteset (createset [.semicolonsym, .endsym]) fsys) t2).toAdvances).reports
  rw [recorded] at stated
  exact (declarationEnd_reports follows tested).trans (declared.trans stated)

/-- The parser passes an empty statement without a report and without a token skipped
exactly when it is not the statement of a block and no `else` follows it. -/
theorem empty_statement_passes_iff {start : Nat} {file : List CurrentToken} {position : Position}
    {parses : ParseM StatementNode} (enough : 4 * file.length + 13 ≤ start)
    (reached : StatementAt start file position parses s)
    (follows : s.curToken.cToken ∈ followers) :
    PassesQuietly parses s ↔ position ≠ .blockBody ∧ s.curToken.cToken ≠ .elsesym := by
  cases reached with
  | @inner fuel fsys _ _ reached inside =>
      have fuelled : fuel ≠ 0 := by
        rintro rfl
        exact parse_fuel enough s ((StatementAt.inner reached inside).stops rfl)
      obtain ⟨fuel, rfl⟩ := Nat.exists_eq_succ_of_ne_zero fuelled
      have set : StatementSet _ := reached.suited
      rw [recordStatement_passes_iff, statementParse_passes_iff follows, set _ follows]
      exact (and_iff_right inside).symm
  | body reached =>
      refine iff_of_false ?_ fun holds => holds.1 rfl
      rintro ⟨node, s', parsed, reports, -⟩
      exact reports_ne (bodyParse_reports follows parsed) reports

end Passing

/-- `begin; if odd 1 then else end.` -/
def emptiesTree : BlockTree :=
  .mk [] [] .nil (.begin (.cons .empty (.cons (.ifElse
    (.odd (.cons .unset (.cons .nulsym (.digit 1) .nil) .nil)) .empty .empty) .nil)))

def emptiesText : List CurrentToken := emptiesTree.program.map Prod.fst

theorem emptiesText_sentence : Sentence .program (seen emptiesText) := by
  refine sentence_iff.mpr ⟨emptiesTree, ⟨trivial, trivial, ?_, rfl⟩, rfl⟩
  exact ⟨⟨.inl ⟨rfl, rfl⟩, ⟨rfl, trivial, rfl⟩, rfl⟩, trivial, trivial⟩

/-- The set of the statements in its list. -/
def emptiesSet : Symset :=
  uniteset (createset [.semicolonsym, .endsym])
    (uniteset (createset [.semicolonsym, .endsym])
      (uniteset (createset [.periodsym]) (uniteset declbegsys statbegsys)))

/-- Its parse reaches the empty statement of the list, and the one before the `else`. -/
theorem emptiesText_reaches : ∃ s t, s.curToken.cToken = .semicolonsym ∧
    StatementAt 50 emptiesText .item (recordStatement false (statementParse 48 emptiesSet)) s ∧
    t.curToken.cToken = .elsesym ∧ StatementAt 50 emptiesText .thenBranch
      (recordStatement false (statementParse 46 emptiesSet)) t := by
  let set := uniteset (createset [.periodsym]) (uniteset declbegsys statbegsys)
  let s0 := stateOf (programHead (initParse emptiesText))
  let s1 := stateOf (declarationLoop 49 set [] [] .nil s0)
  let s2 := stateOf (getToken s1)
  let s3 := stateOf (recordStatement false (statementParse 48 emptiesSet) s2)
  let s4 := stateOf (separator s3)
  have head : programHead (initParse emptiesText) = .ok () s0 := rfl
  have declared : declarationLoop 49 set [] [] .nil s0 = .ok ([], [], .nil) s1 := rfl
  have begins := Reached.statement (.program head) declared
  have first : recordStatement false (statementParse 48 emptiesSet) s2 = .ok .empty s3 := rfl
  have second := Reached.item (.list begins rfl rfl first) (.inl rfl) rfl
  have looked : returned? (fun _ s => s.curToken.cToken) (ifHead 46 emptiesSet s4) =
      some .elsesym := by
    simp only [s4, s3, s2, s1, s0, set]
    decide +kernel
  obtain ⟨j1, t, opened, token⟩ := returned?_eq_some.mp looked
  exact ⟨s2, t, rfl, .inner (.first begins rfl rfl) (by decide), token,
    .inner (.thenBranch second rfl opened) (by decide)⟩

theorem empty_statement_passes_iff_item : ∃ s, s.curToken.cToken = .semicolonsym ∧
    PassesQuietly (recordStatement false (statementParse 48 emptiesSet)) s := by
  obtain ⟨s, -, token, reached, -⟩ := emptiesText_reaches
  refine ⟨s, token, (empty_statement_passes_iff (by decide) reached ?_).mpr ⟨by decide, ?_⟩⟩
  · rw [token]
    decide
  · rw [token]
    decide

/-- The empty branch before the `else` is reported. -/
theorem empty_branch_reported : ¬ ∀ (start : Nat) (file : List CurrentToken) (position : Position)
    (parses : ParseM StatementNode) (s : ParseState), Sentence .program (seen file) →
      4 * file.length + 13 ≤ start → StatementAt start file position parses s →
        s.curToken.cToken ∈ followers → PassesQuietly parses s := by
  intro claim
  obtain ⟨-, s, -, -, token, reached⟩ := emptiesText_reaches
  have follows : s.curToken.cToken ∈ followers := by
    rw [token]
    decide
  have passes := claim _ _ _ _ _ emptiesText_sentence (by decide) reached follows
  rw [recordStatement_passes_iff, statementParse_passes_iff follows, token] at passes
  exact absurd passes (by decide)

end Pl0
