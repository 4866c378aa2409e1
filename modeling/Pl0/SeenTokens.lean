import Pl0.GrammarCompleteness
import Pl0.StateRelations

set_option autoImplicit false

namespace Pl0

open StateExcept

/- The parser does not see the comments of its token file: where two files are the same but for
their comments, so are its runs. -/

/-- The parsers have done the same, and the same tokens are in front of both. -/
structure SameView (s t : ParseState) : Prop where
  gen : s.gen = t.gen
  reports : s.reports = t.reports
  ahead : ∃ tokens, Ahead s tokens ∧ Ahead t tokens

namespace SameView

variable {s t : ParseState}

theorem cToken (same : SameView s t) : s.curToken.cToken = t.curToken.cToken := by
  obtain ⟨tokens, left, right⟩ := same.ahead
  rw [left.cToken, right.cToken]

theorem normal (same : SameView s t) (some : s.curToken.cToken ≠ .nulsym) :
    s.curToken.normal = t.curToken.normal := by
  obtain ⟨tokens, left, right⟩ := same.ahead
  cases tokens with
  | nil => exact absurd left.current.1 some
  | cons token rest => rw [left.current.1, right.current.1]

/-- The spelling is looked at where the token is a name, ... -/
theorem string (same : SameView s t) (is : s.curToken.cToken = .identsym) :
    s.curToken.string = t.curToken.string := by
  have whole := same.normal (by rw [is]; decide)
  rw [CurrentToken.normal, if_pos is, CurrentToken.normal, if_pos (same.cToken ▸ is)] at whole
  have spelled := congrArg CurrentToken.string whole
  exact spelled

/-- ... and the value where it is a number. -/
theorem numeric (same : SameView s t) (is : s.curToken.cToken = .numbersym) :
    s.curToken.numeric = t.curToken.numeric := by
  have whole := same.normal (by rw [is]; decide)
  have there : t.curToken.cToken = .numbersym := same.cToken ▸ is
  have notIdent : ¬ s.curToken.cToken = .identsym := by
    rw [is]
    decide
  rw [CurrentToken.normal, if_neg notIdent, if_pos is, CurrentToken.normal,
    if_neg (same.cToken ▸ notIdent), if_pos there] at whole
  have counted := congrArg CurrentToken.numeric whole
  exact counted

end SameView

theorem respects_modifyGen (f : GenState → GenState) : Respects SameView (modifyGen f) := by
  refine Respects.modify fun s t same => ?_
  obtain ⟨tokens, left, right⟩ := same.ahead
  exact ⟨congrArg f same.gen, same.reports, tokens, ⟨left.feof, left.current⟩,
    ⟨right.feof, right.current⟩⟩

theorem respects_report (r : Report) : Respects SameView (report r) := by
  refine Respects.modify fun s t same => ?_
  obtain ⟨tokens, left, right⟩ := same.ahead
  exact ⟨same.gen, congrArg (· ++ [r]) same.reports, tokens, ⟨left.feof, left.current⟩,
    ⟨right.feof, right.current⟩⟩

theorem respects_failWith {α : Type} (errorType : Nat) :
    Respects SameView (failWith errorType : ParseM α) :=
  (respects_report _).bind fun _ => .throw _

theorem respects_getToken : Respects SameView getToken := by
  intro s t same
  obtain ⟨tokens, left, right⟩ := same.ahead
  obtain ⟨s', read⟩ : ∃ s', getToken s = .ok () s' := ⟨_, rfl⟩
  obtain ⟨t', read'⟩ : ∃ t', getToken t = .ok () t' := ⟨_, rfl⟩
  obtain ⟨gen, reports⟩ := getToken_kept read
  obtain ⟨gen', reports'⟩ := getToken_kept read'
  rw [read, read']
  exact ⟨rfl, by rw [gen, gen', same.gen], by rw [reports, reports', same.reports], _,
    getToken_ahead left read, getToken_ahead right read'⟩

/-- A look at the code of the current token. -/
theorem respects_look {α : Type} {f : ParseState → ParseM α}
    (same : ∀ s t : ParseState, s.curToken.cToken = t.curToken.cToken → f s = f t)
    (each : ∀ s, Respects SameView (f s)) : Respects SameView (get >>= f) :=
  .get_bind (fun s t view => same s t view.cToken) each

/-- A look at the globals of the code generator. -/
theorem respects_lookGen {α : Type} {f : ParseState → ParseM α}
    (same : ∀ s t : ParseState, s.gen = t.gen → f s = f t)
    (each : ∀ s, Respects SameView (f s)) : Respects SameView (get >>= f) :=
  .get_bind (fun s t view => same s t view.gen) each

theorem respects_skipLoop (set : Symset) (fuel : Nat) : Respects SameView (skipLoop set fuel) := by
  induction fuel with
  | zero => exact .throw _
  | succ fuel ih =>
      refine respects_look (fun s t code => by rw [code]) fun s => ?_
      exact .ite (.pure _)
        ((respects_report _).bind fun _ => respects_getToken.bind fun _ => ih)

theorem respects_test (fuel : Nat) (s1 s2 : Symset) (errorType : Nat) :
    Respects SameView (test fuel s1 s2 errorType) := by
  refine respects_look (fun s t code => by rw [code]) fun s => ?_
  exact .ite (.pure _)
    ((respects_report _).bind fun _ => (respects_report _).bind fun _ => respects_skipLoop _ fuel)

section Expressions

theorem respects_loadFactor (sym : Option Symbol) : Respects SameView (loadFactor sym) := by
  unfold loadFactor
  split
  · exact respects_failWith 11
  · split
    · exact respects_modifyGen _
    · exact respects_modifyGen _
    · exact respects_failWith 21

theorem respects_leadingSign : Respects SameView leadingSign := by
  refine respects_look (fun s t code => by rw [code]) fun s => ?_
  exact .ite (respects_getToken.bind fun _ => .pure _) (.pure _)

theorem respects_closeParen (fuel : Nat) (fsys : Symset) :
    Respects SameView (closeParen fuel fsys) := by
  refine respects_look (fun s t code => by rw [code]) fun s => ?_
  exact .ite respects_getToken (respects_test fuel _ _ 22)

/-- A factor that is a name. -/
theorem identFactor_alike {s t : ParseState} (same : SameView s t)
    (is : s.curToken.cToken = .identsym) :
    EndAlike SameView (identFactor s) (identFactor t) := by
  refine Respects.get_alike same (by rw [same.string is, same.gen]) ?_
  exact (respects_modifyGen _).bind fun _ => (respects_loadFactor _).bind fun _ =>
    respects_getToken.bind fun _ => .pure _

theorem numberFactor_alike {s t : ParseState} (same : SameView s t)
    (is : s.curToken.cToken = .numbersym) :
    EndAlike SameView (numberFactor s) (numberFactor t) := by
  refine Respects.get_alike same (by rw [same.numeric is]) ?_
  exact .ite (respects_failWith 25) ((respects_modifyGen _).bind fun _ =>
    respects_getToken.bind fun _ => .pure _)

theorem respects_expressions (fuel : Nat) :
    (∀ fsys, Respects SameView (expressionParse fuel fsys)) ∧
    (∀ set, Respects SameView (expressionLoop fuel set)) ∧
    (∀ preop fsys, Respects SameView (termParse fuel preop fsys)) ∧
    (∀ set, Respects SameView (termLoop fuel set)) ∧
    (∀ fsys, Respects SameView (factorParse fuel fsys)) := by
  induction fuel with
  | zero => exact ⟨fun _ => .throw _, fun _ => .throw _, fun _ _ => .throw _, fun _ => .throw _,
      fun _ => .throw _⟩
  | succ fuel ih =>
      obtain ⟨expression, terms, term, factors, factor⟩ := ih
      refine ⟨fun fsys => ?_, fun set => ?_, fun preop fsys => ?_, fun set => ?_, fun fsys => ?_⟩
      · exact respects_leadingSign.bind fun _ => (term _ _).bind fun _ =>
          (terms _).bind fun _ => .pure _
      · refine respects_look (fun s t code => by rw [code]) fun s => ?_
        exact .ite (respects_getToken.bind fun _ => (term _ _).bind fun _ =>
          (respects_modifyGen _).bind fun _ => (terms _).bind fun _ => .pure _) (.pure _)
      · exact (factor _).bind fun _ => (respects_modifyGen _).bind fun _ =>
          (factors _).bind fun _ => .pure _
      · refine respects_look (fun s t code => by rw [code]) fun s => ?_
        exact .ite (respects_getToken.bind fun _ => (factor _).bind fun _ =>
          (respects_modifyGen _).bind fun _ => (factors _).bind fun _ => .pure _) (.pure _)
      · refine (respects_test fuel _ _ 24).bind fun _ s t same => ?_
        refine EndAlike.get ?_
        rw [← same.cToken]
        refine EndAlike.chosen fun chosen is => ?_
        split at is <;> subst is
        · rename_i is
          exact identFactor_alike same is
        · rename_i is
          exact numberFactor_alike same is
        · exact (respects_getToken.bind fun _ => (expression _).bind fun _ =>
            (respects_closeParen fuel fsys).bind fun _ => .pure _) s t same
        · exact ((respects_test fuel _ _ 23).bind fun _ => respects_failWith 23) s t same

theorem respects_expression (fuel : Nat) (fsys : Symset) :
    Respects SameView (expressionParse fuel fsys) :=
  (respects_expressions fuel).1 fsys

end Expressions

section Statements

theorem respects_relOp : Respects SameView relOp := by
  refine respects_look (fun s t code => by rw [code]) fun s => ?_
  exact .ite (.pure _) (respects_failWith 20)

theorem respects_condition (fuel : Nat) (fsys : Symset) :
    Respects SameView (conditionParse fuel fsys) := by
  refine respects_look (fun s t code => by rw [code]) fun s => .ite ?_ ?_
  · exact respects_getToken.bind fun _ => (respects_expression fuel _).bind fun _ =>
      (respects_modifyGen _).bind fun _ => .pure _
  · exact (respects_expression fuel _).bind fun _ => respects_relOp.bind fun _ =>
      respects_getToken.bind fun _ => (respects_expression fuel _).bind fun _ =>
        (respects_modifyGen _).bind fun _ => .pure _

theorem respects_expectToken (token : Token) (errorType : Nat) :
    Respects SameView (expectToken token errorType) := by
  refine respects_look (fun s t code => by rw [code]) fun s => ?_
  exact .ite respects_getToken (respects_failWith errorType)

theorem respects_expectIdent (errorType : Nat) : Respects SameView (expectIdent errorType) := by
  refine .get_bind (fun s t same => ?_) fun s => .ite (.pure _) (respects_failWith errorType)
  by_cases is : s.curToken.cToken = .identsym
  · rw [same.string is, same.cToken]
  · rw [if_neg is, if_neg (same.cToken ▸ is)]

theorem respects_checkAssigned (sym : Option Symbol) : Respects SameView (checkAssigned sym) := by
  unfold checkAssigned
  split
  · exact respects_report _
  · exact .ite (respects_report _) (.pure _)

theorem respects_expectBecomes : Respects SameView expectBecomes := by
  refine respects_look (fun s t code => by rw [code]) fun s => .ite respects_getToken ?_
  exact .ite ((respects_report _).bind fun _ => respects_getToken) (respects_failWith 30)

theorem respects_storeSymbol (sym : Option Symbol) : Respects SameView (storeSymbol sym) := by
  unfold storeSymbol
  split
  · exact .throw _
  · exact respects_modifyGen _

/-- A statement that is an assignment. -/
theorem assignParse_alike (fuel : Nat) (fsys : Symset) {s t : ParseState} (same : SameView s t)
    (is : s.curToken.cToken = .identsym) :
    EndAlike SameView (assignParse fuel fsys s) (assignParse fuel fsys t) := by
  refine Respects.get_alike same (by rw [same.string is, same.gen]) ?_
  exact (respects_modifyGen _).bind fun _ => (respects_checkAssigned _).bind fun _ =>
    respects_getToken.bind fun _ => respects_expectBecomes.bind fun _ =>
      (respects_expression fuel _).bind fun _ => (respects_storeSymbol _).bind fun _ => .pure _

theorem respects_nameStatement (errorType : Nat) (construct : Construct)
    {known : Option Symbol → ParseM Unit} (each : ∀ sym, Respects SameView (known sym))
    (node : Name → StatementNode) :
    Respects SameView (nameStatement errorType construct known node) := by
  refine respects_getToken.bind fun _ => (respects_expectIdent errorType).bind fun _ => ?_
  refine respects_lookGen (fun s t gen => by rw [gen]) fun s => ?_
  exact (respects_modifyGen _).bind fun _ => (each _).bind fun _ =>
    respects_getToken.bind fun _ => .pure _

theorem respects_callParse : Respects SameView callParse := by
  refine respects_nameStatement 14 .call (fun sym => ?_) .call
  unfold callKnown
  split
  · exact respects_failWith 11
  · exact .ite (respects_failWith 15) (respects_modifyGen _)

theorem respects_readParse : Respects SameView readParse := by
  refine respects_nameStatement 27 .read (fun sym => ?_) .read
  unfold readKnown
  split
  · exact respects_failWith 11
  · exact .ite (respects_failWith 27) (respects_modifyGen _)

theorem respects_writeParse : Respects SameView writeParse := by
  refine respects_nameStatement 28 .write (fun sym => ?_) .write
  unfold writeKnown
  split
  · exact respects_failWith 11
  · exact .ite (respects_modifyGen _) (respects_failWith 27)

theorem respects_recordStatement (body : Bool) {parse : ParseM StatementNode}
    (respects : Respects SameView parse) : Respects SameView (recordStatement body parse) := by
  refine respects_lookGen (fun s t gen => by rw [gen]) fun s => ?_
  exact respects.bind fun _ => (respects_modifyGen _).bind fun _ => .pure _

theorem respects_separator : Respects SameView separator := by
  refine respects_look (fun s t code => by rw [code]) fun s => .ite respects_getToken ?_
  exact (respects_report _).bind fun _ => respects_report _

theorem respects_finishIf (j2 : Int) : Respects SameView (finishIf j2) :=
  (respects_modifyGen _).bind fun _ => respects_modifyGen _

theorem respects_statements (fuel : Nat) :
    (∀ fsys, Respects SameView (statementParse fuel fsys)) ∧
    (∀ set, Respects SameView (beginLoop fuel set)) := by
  induction fuel with
  | zero => exact ⟨fun _ => .throw _, fun _ => .throw _⟩
  | succ fuel ih =>
      obtain ⟨statement, loop⟩ := ih
      have inner := fun fsys => respects_recordStatement false (statement fsys)
      refine ⟨fun fsys s t same => ?_, fun set => ?_⟩
      · refine EndAlike.get ?_
        rw [← same.cToken]
        refine EndAlike.chosen fun chosen is => ?_
        split at is <;> subst is
        · rename_i is
          exact assignParse_alike fuel fsys same is
        · exact respects_callParse s t same
        · refine (respects_getToken.bind fun _ => ?_) s t same
          exact (inner _).bind fun _ => (loop _).bind fun _ =>
            (respects_expectToken _ _).bind fun _ => (respects_modifyGen _).bind fun _ => .pure _
        · refine (respects_getToken.bind fun _ => (respects_condition fuel _).bind fun _ =>
            (respects_expectToken _ _).bind fun _ => ?_) s t same
          refine respects_lookGen (fun s t gen => by rw [gen]) fun j1 => ?_
          refine (respects_modifyGen _).bind fun _ => (inner _).bind fun _ => ?_
          refine respects_lookGen (fun s t gen => by rw [gen]) fun j2 => ?_
          refine (respects_modifyGen _).bind fun _ => (respects_modifyGen _).bind fun _ => ?_
          refine respects_look (fun s t code => by rw [code]) fun s => .ite ?_ ?_
          · exact respects_getToken.bind fun _ => (inner _).bind fun _ =>
              (respects_finishIf _).bind fun _ => .pure _
          · exact (respects_finishIf _).bind fun _ => .pure _
        · refine (respects_getToken.bind fun _ => ?_) s t same
          refine respects_lookGen (fun s t gen => by rw [gen]) fun c => ?_
          refine (respects_condition fuel _).bind fun _ =>
            (respects_expectToken _ _).bind fun _ => ?_
          refine respects_lookGen (fun s t gen => by rw [gen]) fun j1 => ?_
          refine (respects_modifyGen _).bind fun _ => (inner _).bind fun _ => ?_
          refine respects_lookGen (fun s t gen => by rw [gen]) fun j2 => ?_
          exact (respects_modifyGen _).bind fun _ => (respects_modifyGen _).bind fun _ =>
            (respects_modifyGen _).bind fun _ => (respects_modifyGen _).bind fun _ => .pure _
        · exact respects_readParse s t same
        · exact respects_writeParse s t same
        · exact ((respects_test fuel _ _ 19).bind fun _ => .pure _) s t same
      · refine respects_look (fun s t code => by rw [code]) fun s => .ite ?_ (.pure _)
        exact respects_separator.bind fun _ => (inner _).bind fun _ =>
          (loop _).bind fun _ => .pure _

end Statements

section Blocks

theorem respects_readOffset : Respects SameView readOffset := by
  refine respects_lookGen (fun s t gen => by rw [gen]) fun s => ?_
  exact .ite (.pure _) (.throw _)

theorem respects_linkNode (first tail : Bool) : Respects SameView (linkNode first tail) :=
  .ite (.pure _) (.throw _)

theorem respects_expectEql : Respects SameView expectEql := by
  refine respects_look (fun s t code => by rw [code]) fun s => .ite (.pure _) ?_
  exact .ite (respects_failWith 1) (respects_failWith 3)

theorem respects_constValue : Respects SameView constValue := by
  refine .get_bind (fun s t same => ?_) fun s =>
    .ite (.ite (respects_failWith 25) (.pure _)) (respects_failWith 2)
  by_cases is : s.curToken.cToken = .numbersym
  · rw [same.numeric is, same.cToken]
  · rw [if_neg is, if_neg (same.cToken ▸ is)]

theorem respects_constItem : Respects SameView constItem := by
  refine respects_getToken.bind fun _ => (respects_expectIdent 4).bind fun _ =>
    respects_getToken.bind fun _ => respects_expectEql.bind fun _ =>
      respects_getToken.bind fun _ => respects_constValue.bind fun _ =>
        respects_readOffset.bind fun _ => ?_
  refine respects_lookGen (fun s t gen => by rw [gen]) fun s => ?_
  exact (respects_modifyGen _).bind fun _ => respects_getToken.bind fun _ => .pure _

theorem respects_varItem : Respects SameView varItem := by
  refine respects_getToken.bind fun _ => (respects_expectIdent 4).bind fun _ =>
    respects_readOffset.bind fun _ => ?_
  refine respects_lookGen (fun s t gen => by rw [gen]) fun s => ?_
  exact (respects_modifyGen _).bind fun _ => respects_getToken.bind fun _ => .pure _

theorem respects_sectionLoop {α : Type} {item : ParseM α} (respects : Respects SameView item)
    (fuel : Nat) : ∀ (nodes : List α) (tail : Bool),
      Respects SameView (sectionLoop item fuel nodes tail) := by
  induction fuel with
  | zero => exact fun _ _ => .throw _
  | succ fuel ih =>
      intro nodes tail
      refine (respects_linkNode _ _).bind fun _ => respects.bind fun _ => ?_
      refine respects_look (fun s t code => by rw [code]) fun s => .ite (ih _ _) ?_
      exact (respects_expectToken _ _).bind fun _ => .pure _

theorem respects_constSection (fuel : Nat) (nodes : List ConstDeclNode) :
    Respects SameView (constSection fuel nodes) := by
  refine respects_look (fun s t code => by rw [code]) fun s => ?_
  exact .ite (respects_sectionLoop respects_constItem fuel _ _) (.pure _)

theorem respects_varSection (fuel : Nat) (nodes : List VarDeclNode) :
    Respects SameView (varSection fuel nodes) := by
  refine respects_look (fun s t code => by rw [code]) fun s => ?_
  exact .ite (respects_sectionLoop respects_varItem fuel _ _) (.pure _)

theorem respects_blocks (fuel : Nat) :
    (∀ fsys, Respects SameView (blockParse fuel fsys)) ∧
    (∀ fsys constDecl varDecl procDef,
      Respects SameView (declarationLoop fuel fsys constDecl varDecl procDef)) ∧
    (∀ fsys old procDef tail, Respects SameView (procedureLoop fuel fsys old procDef tail)) := by
  induction fuel with
  | zero => exact ⟨fun _ => .throw _, fun _ _ _ _ => .throw _, fun _ _ _ _ => .throw _⟩
  | succ fuel ih =>
      obtain ⟨block, declarations, procedures⟩ := ih
      refine ⟨fun fsys => ?_, fun fsys constDecl varDecl procDef => ?_,
        fun fsys old procDef tail => ?_⟩
      · exact (declarations _ _ _ _).bind fun _ =>
          (respects_recordStatement true ((respects_statements fuel).1 _)).bind fun _ =>
            (respects_test fuel _ _ 8).bind fun _ => .pure _
      · refine (respects_constSection fuel _).bind fun _ =>
          (respects_varSection fuel _).bind fun _ => ?_
        refine respects_lookGen (fun s t gen => by rw [gen]) fun s => ?_
        refine (procedures _ _ _ _).bind fun _ => (respects_modifyGen _).bind fun _ =>
          (respects_test fuel _ _ 7).bind fun _ => ?_
        refine respects_look (fun s t code => by rw [code]) fun s => ?_
        exact .ite (declarations _ _ _ _) (.pure _)
      · refine respects_look (fun s t code => by rw [code]) fun s => .ite ?_ (.pure _)
        refine (respects_linkNode _ _).bind fun _ => respects_getToken.bind fun _ =>
          (respects_expectIdent 4).bind fun _ => (respects_modifyGen _).bind fun _ => ?_
        refine respects_lookGen (fun s t gen => by rw [gen]) fun s => ?_
        exact respects_getToken.bind fun _ => (respects_expectToken _ _).bind fun _ =>
          (respects_modifyGen _).bind fun _ => (block _).bind fun _ =>
            (respects_modifyGen _).bind fun _ => (respects_expectToken _ _).bind fun _ =>
              (respects_test fuel _ _ 6).bind fun _ => (respects_modifyGen _).bind fun _ =>
                procedures _ _ _ _

theorem respects_expectPeriod : Respects SameView expectPeriod := by
  refine respects_look (fun s t code => by rw [code]) fun s => .ite (.pure _) ?_
  exact .ite (respects_report _) (respects_failWith 9)

theorem respects_mainParse (fuel : Nat) : Respects SameView (mainParse fuel) :=
  ((respects_blocks fuel).1 _).bind fun _ => respects_expectPeriod.bind fun _ =>
    (respects_modifyGen _).bind fun _ => (respects_modifyGen _).bind fun _ => .pure _

end Blocks

end Pl0
