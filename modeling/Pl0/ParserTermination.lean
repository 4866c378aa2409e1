import Pl0.ParseProgress

set_option autoImplicit false

namespace Pl0

open StateExcept

/- One round of each loop and of each recursive function, with the calls that lead to
the next round as an argument. -/

/-- One iteration of the loop of `test`. -/
def skipRound (set : Symset) (again : Symset → ParseM Unit) : ParseM Unit := do
  let this ← get
  if inset this.curToken.cToken set ∨ this.curToken.cToken = .nulsym then return ()
  else do
    report (.skip this.curToken.cToken)
    getToken
    again set

def expressionRound (fuel : Nat) (set : Symset) (again : Symset → ParseM TermExp) :
    ParseM TermExp := do
  let this ← get
  let op := this.curToken.cToken
  if op = .plussym ∨ op = .minussym then do
    getToken
    let term ← termParse fuel .unset set
    modifyGen (·.calculate op)
    let rest ← again set
    return .cons op term rest
  else return .nil

def termRound (fuel : Nat) (set : Symset) (again : Symset → ParseM FactorExp) :
    ParseM FactorExp := do
  let this ← get
  let op := this.curToken.cToken
  if op = .multsym ∨ op = .slashsym then do
    getToken
    let factor ← factorParse fuel set
    modifyGen (·.calculate op)
    let rest ← again set
    return .cons op factor rest
  else return .nil

def factorRound (fuel : Nat) (fsys : Symset) (expression : Symset → ParseM TermExp) :
    ParseM FactorNode := do
  test fuel facbegsys fsys 24
  let this ← get
  match this.curToken.cToken with
  | .identsym => identFactor
  | .numbersym => numberFactor
  | .lparentsym => do
      getToken
      let exp ← expression (uniteset (createset [.rparentsym]) fsys)
      closeParen fuel fsys
      return .exp exp
  | _ => do
      test fuel fsys (createset [.lparentsym]) 23
      failWith 23

def statementRound (fuel : Nat) (fsys : Symset) (statement : Symset → ParseM StatementNode)
    (list : Symset → ParseM StatementList) : ParseM StatementNode := do
  let this ← get
  match this.curToken.cToken with
  | .identsym => assignParse fuel fsys
  | .callsym => callParse
  | .beginsym => do
      let set := uniteset (createset [.semicolonsym, .endsym]) fsys
      getToken
      let first ← recordStatement false (statement set)
      let rest ← list set
      expectToken .endsym 26
      modifyGen (·.finishBegin)
      return .begin (.cons first rest)
  | .ifsym => do
      getToken
      let cond ← conditionParse fuel (uniteset (createset [.thensym, .dosym]) fsys)
      expectToken .thensym 16
      let j1 ← get
      modifyGen (·.conditionalJump)
      let ifsts ← recordStatement false (statement fsys)
      let j2 ← get
      modifyGen (·.jump)
      modifyGen fun g => g.patch j1.gen.codeLength g.codeLength
      let this ← get
      if this.curToken.cToken = .elsesym then do
        getToken
        let elsests ← recordStatement false (statement fsys)
        finishIf j2.gen.codeLength
        return .ifElse cond ifsts elsests
      else do
        finishIf j2.gen.codeLength
        return .ifS cond ifsts
  | .whilesym => do
      getToken
      let c ← get
      let cond ← conditionParse fuel (uniteset (createset [.dosym]) fsys)
      expectToken .dosym 18
      let j1 ← get
      modifyGen (·.conditionalJump)
      let sts ← recordStatement false (statement fsys)
      let j2 ← get
      modifyGen (·.jump)
      modifyGen fun g => g.patch j1.gen.codeLength g.codeLength
      modifyGen (·.patch j2.gen.codeLength c.gen.codeLength)
      modifyGen (·.addRegister (-1))
      return .while cond sts
  | .readsym => readParse
  | .writesym => writeParse
  | _ => do
      test fuel fsys phi 19
      return .empty

def beginRound (fuel : Nat) (set : Symset) (again : Symset → ParseM StatementList) :
    ParseM StatementList := do
  let this ← get
  if this.curToken.cToken = .semicolonsym ∨ inset this.curToken.cToken statbegsys then do
    separator
    let sts ← recordStatement false (statementParse fuel set)
    let rest ← again set
    return .cons sts rest
  else return .nil

def sectionRound {α : Type} (item : ParseM α) (nodes : List α) (tail : Bool)
    (again : List α → ParseM (List α)) : ParseM (List α) := do
  linkNode nodes.isEmpty tail
  let node ← item
  let this ← get
  if this.curToken.cToken = .commasym then again (nodes ++ [node])
  else do
    expectToken .semicolonsym 5
    return nodes ++ [node]

def declarationRound (fuel : Nat) (fsys : Symset) (constDecl : List ConstDeclNode)
    (varDecl : List VarDeclNode) (procDef : ProdefList)
    (again : List ConstDeclNode × List VarDeclNode × ProdefList →
      ParseM (List ConstDeclNode × List VarDeclNode × ProdefList)) :
    ParseM (List ConstDeclNode × List VarDeclNode × ProdefList) := do
  let constDecl ← constSection fuel constDecl
  let varDecl ← varSection fuel varDecl
  let this ← get
  let oldProcedure := this.gen.currentProcedure
  let procDef ← procedureLoop fuel fsys oldProcedure procDef false
  modifyGen fun g => { g with currentProcedure := oldProcedure }
  test fuel (uniteset statbegsys (createset [.identsym])) declbegsys 7
  let this ← get
  if inset this.curToken.cToken declbegsys then again (constDecl, varDecl, procDef)
  else return (constDecl, varDecl, procDef)

def procedureRound (fuel : Nat) (fsys : Symset) (oldProcedure : Int) (procDef : ProdefList)
    (tail : Bool) (block : Symset → ParseM BlockNode) (again : ProdefList → ParseM ProdefList) :
    ParseM ProdefList := do
  let this ← get
  if this.curToken.cToken = .procsym then do
    linkNode procDef.isNil tail
    getToken
    let name ← expectIdent 4
    modifyGen (·.makeProc name)
    let made ← get
    getToken
    expectToken .semicolonsym 6
    modifyGen (·.openBlock)
    let body ← block (uniteset (createset [.semicolonsym]) fsys)
    modifyGen (·.closeBlock)
    expectToken .semicolonsym 6
    test fuel (uniteset statbegsys (createset [.identsym, .procsym])) fsys 6
    modifyGen (·.reserveSpace (body.varDecl.length + 4))
    let node := ProdefList.cons name (made.gen.globalLevel + 1) made.gen.procedureCount
      oldProcedure body .nil
    again (procDef.append node)
  else return procDef

section Guarded

variable {ι α β : Type}

/-- Calls that read on, and never give a token back. -/
def ReadsOn (calls : ι → ParseM α) : Prop :=
  ∀ i s, (stateOf (calls i s)).remaining ≤ s.remaining

/-- Run from `s`, the two computations are the same. -/
def Alike (x y : ParseM α) (s : ParseState) : Prop :=
  x s = y s

theorem alike_rfl (x : ParseM α) (s : ParseState) : Alike x x s := rfl

theorem Alike.bind {x y : ParseM α} {f g : α → ParseM β} {s : ParseState} (first : Alike x y s)
    (next : ∀ a s', x s = .ok a s' → Alike (f a) (g a) s') : Alike (x >>= f) (y >>= g) s :=
  bind_congr first next

theorem Alike.get {f g : ParseState → ParseM β} {s : ParseState} (next : Alike (f s) (g s) s) :
    Alike (MonadState.get >>= f) (MonadState.get >>= g) s := next

theorem Advances.alike {enough : Prop} {x : ParseM α} {f g : α → ParseM β} {s : ParseState}
    (first : Advances enough True x s)
    (next : ∀ a s', s'.remaining ≤ s.remaining → Alike (f a) (g a) s') :
    Alike (x >>= f) (x >>= g) s := by
  apply (alike_rfl x s).bind
  intro a s' run
  have less := first.remaining
  rw [run] at less
  exact next a s' less

theorem Advancing.alike {x : ParseM α} {f g : α → ParseM β} {s : ParseState} (first : Advancing x)
    (next : ∀ a s', s'.remaining ≤ s.remaining → Alike (f a) (g a) s') :
    Alike (x >>= f) (x >>= g) s :=
  (first True True s).alike next

theorem Alike.read {f g : Unit → ParseM β} {s : ParseState} (more : s.curToken.cToken ≠ .nulsym)
    (next : ∀ s', s'.remaining < s.remaining → Alike (f ()) (g ()) s') :
    Alike (getToken >>= f) (getToken >>= g) s := by
  apply (alike_rfl getToken s).bind
  intro _ s' run
  exact next s' ((getToken_remaining run).2 more)

/-- A call made where less remains, and what follows it. -/
theorem Alike.call {x y : ParseM α} {f g : α → ParseM β} {s s' : ParseState} (same : Alike x y s')
    (reads : (stateOf (x s')).remaining ≤ s'.remaining) (less : s'.remaining < s.remaining)
    (next : ∀ a t, t.remaining < s.remaining → Alike (f a) (g a) t) :
    Alike (x >>= f) (y >>= g) s' := by
  apply same.bind
  intro a t run
  rw [run] at reads
  exact next a t (Nat.lt_of_le_of_lt reads less)

theorem alike_recordStatement {x y : ParseM StatementNode} (body : Bool) {s : ParseState}
    (same : Alike x y s) : Alike (recordStatement body x) (recordStatement body y) s :=
  .get (same.bind fun _ _ _ => alike_rfl _ _)

theorem recordStatement_remaining {x : ParseM StatementNode} (body : Bool) {s : ParseState} :
    (stateOf (recordStatement body x s)).remaining ≤ (stateOf (x s)).remaining := by
  cases run : x s with
  | ok node s' =>
      have recorded : recordStatement body x s = _ := bind_of_ok run _
      exact Nat.le_of_eq (congrArg (fun result => (stateOf result).remaining) recorded)
  | error e s' =>
      have stopped : recordStatement body x s = .error e s' := bind_of_error run _
      exact Nat.le_of_eq (congrArg (fun result => (stateOf result).remaining) stopped)

theorem guarded_of_alike {x : (ι → ParseM α) → ParseM β}
    (alike : ∀ s calls calls', ReadsOn calls →
      (∀ i s', s'.remaining < s.remaining → Alike (calls i) (calls' i) s') →
        Alike (x calls) (x calls') s) : Guarded ParseState.remaining x :=
  alike

theorem guarded_skipRound (set : Symset) : Guarded ParseState.remaining (skipRound set) := by
  apply guarded_of_alike
  intro s calls calls' _ same
  apply Alike.get
  split
  · exact alike_rfl _ _
  · rename_i outside
    apply (alike_rfl _ _).bind
    intro _ t reported
    have next := modify_eq_ok.mp reported
    subst next
    refine Alike.read (fun none => outside (.inr none)) ?_
    intro s' less
    exact same set s' less

theorem guarded_expressionRound (fuel : Nat) (set : Symset) :
    Guarded ParseState.remaining (expressionRound fuel set) := by
  apply guarded_of_alike
  intro s calls calls' reads same
  apply Alike.get
  dsimp only
  split
  · rename_i operator
    apply Alike.read (by rcases operator with plus | minus <;> simp [*])
    intro s1 less1
    apply (advances_termParse fuel _ set s1).alike
    intro term s2 less2
    apply (advancing_quiet fun g => quiet_calculate g _).alike
    intro _ s3 less3
    have less : s3.remaining < s.remaining := by omega
    exact (same _ _ less).call (reads _ _) less fun _ _ _ => alike_rfl _ _
  · exact alike_rfl _ _

theorem guarded_termRound (fuel : Nat) (set : Symset) :
    Guarded ParseState.remaining (termRound fuel set) := by
  apply guarded_of_alike
  intro s calls calls' reads same
  apply Alike.get
  dsimp only
  split
  · rename_i operator
    apply Alike.read (by rcases operator with mult | slash <;> simp [*])
    intro s1 less1
    apply (advances_factorParse fuel set s1).alike
    intro term s2 less2
    apply (advancing_quiet fun g => quiet_calculate g _).alike
    intro _ s3 less3
    have less : s3.remaining < s.remaining := by omega
    exact (same _ _ less).call (reads _ _) less fun _ _ _ => alike_rfl _ _
  · exact alike_rfl _ _

theorem guarded_factorRound (fuel : Nat) (fsys : Symset) :
    Guarded ParseState.remaining (factorRound fuel fsys) := by
  apply guarded_of_alike
  intro s calls calls' reads same
  apply (advances_test fuel facbegsys fsys 24 s).alike
  intro _ s1 less1
  apply Alike.get
  split
  · exact alike_rfl _ _
  · exact alike_rfl _ _
  · rename_i paren
    apply Alike.read (by rw [paren]; decide)
    intro s2 less2
    have less : s2.remaining < s.remaining := by omega
    exact (same _ _ less).call (reads _ _) less fun _ _ _ => alike_rfl _ _
  · exact alike_rfl _ _

theorem guarded_beginRound (fuel : Nat) (set : Symset) :
    Guarded ParseState.remaining (beginRound fuel set) := by
  apply guarded_of_alike
  intro s calls calls' reads same
  apply Alike.get
  split
  · rename_i starts
    apply (alike_rfl _ _).bind
    intro _ s1 separated
    have parsed := advances_statementParse fuel set s1
    apply (alike_rfl _ _).bind
    intro sts s2 recorded
    have less : s2.remaining < s.remaining := by
      rcases separator_reads separated with less | ⟨token, noSemicolon⟩
      · have onward := (advances_recordStatement false parsed.toAdvances).remaining
        rw [recorded] at onward
        exact Nat.lt_of_le_of_lt onward less
      · have onward := (advancing_separator True False s).remaining
        rw [separated] at onward
        have statement : inset s1.curToken.cToken statbegsys = true := by
          rw [token]
          exact starts.resolve_left noSemicolon
        have consumed := consumes_recordStatement false
          ⟨parsed.toAdvances, parsed.consumes statement⟩
        exact Nat.lt_of_lt_of_le (consumed.less _ _ recorded) onward
    exact (same _ _ less).call (reads _ _) less fun _ _ _ => alike_rfl _ _
  · exact alike_rfl _ _

theorem guarded_sectionRound {item : ParseM α} (parsed : ∀ enough s, Consumes enough True item s)
    (nodes : List α) (tail : Bool) : Guarded ParseState.remaining
      (sectionRound item nodes tail) := by
  apply guarded_of_alike
  intro s calls calls' reads same
  apply (advances_linkNode True _ _ s).faulty.alike
  intro _ s1 less1
  apply (alike_rfl _ _).bind
  intro node s2 itemRan
  have less2 := (parsed True s1).less _ _ itemRan
  apply Alike.get
  split
  · exact same _ s2 (by omega)
  · exact alike_rfl _ _

theorem guarded_declarationRound (fuel : Nat) (fsys : Symset) (constDecl : List ConstDeclNode)
    (varDecl : List VarDeclNode) (procDef : ProdefList) :
    Guarded ParseState.remaining (declarationRound fuel fsys constDecl varDecl procDef) := by
  apply guarded_of_alike
  intro s calls calls' _ same
  apply (alike_rfl _ _).bind
  intro constDecl s1 ranConst
  apply (alike_rfl _ _).bind
  intro varDecl s2 ranVar
  apply Alike.get
  have parsed := advances_procedureLoop fuel fsys s2.gen.currentProcedure procDef false s2
  apply (alike_rfl _ _).bind
  intro procDef s3 ranProc
  apply (alike_rfl _ _).bind
  intro _ s4 restored
  apply (alike_rfl _ _).bind
  intro _ s5 tested
  apply Alike.get
  split
  · rename_i again
    exact same _ s5 (declarations_read ranConst ranVar parsed ranProc restored tested again)
  · exact alike_rfl _ _

/-- The calls of a statement, of which there are two kinds, come behind its keyword. -/
theorem alike_statementRound (fuel : Nat) (fsys : Symset) {s : ParseState}
    {statement statement' : Symset → ParseM StatementNode}
    {list list' : Symset → ParseM StatementList} (readsStatement : ReadsOn statement)
    (readsList : ReadsOn list)
    (sameStatement : ∀ set s', s'.remaining < s.remaining →
      Alike (statement set) (statement' set) s')
    (sameList : ∀ set s', s'.remaining < s.remaining → Alike (list set) (list' set) s') :
    Alike (statementRound fuel fsys statement list)
      (statementRound fuel fsys statement' list') s := by
  have record : ∀ set s', s'.remaining < s.remaining →
      Alike (recordStatement false (statement set)) (recordStatement false (statement' set)) s' :=
    fun set s' less => alike_recordStatement false (sameStatement set s' less)
  have readsRecord : ∀ set s',
      (stateOf (recordStatement false (statement set) s')).remaining ≤ s'.remaining :=
    fun set s' => Nat.le_trans (recordStatement_remaining false) (readsStatement set s')
  apply Alike.get
  split
  · exact alike_rfl _ _
  · exact alike_rfl _ _
  · rename_i token
    apply Alike.read (by rw [token]; decide)
    intro s1 less1
    apply (record _ s1 less1).call (readsRecord _ s1) less1
    intro first s2 less2
    exact (sameList _ s2 less2).call (readsList _ s2) less2 fun _ _ _ => alike_rfl _ _
  · rename_i token
    apply Alike.read (by rw [token]; decide)
    intro s1 less1
    apply (advances_conditionParse fuel _ s1).alike
    intro cond s2 less2
    apply (advancing_expectToken .thensym 16).alike
    intro _ s3 less3
    apply Alike.get
    apply (advancing_emit _).alike
    intro _ s4 less4
    have less : s4.remaining < s.remaining := by omega
    apply (record _ s4 less).call (readsRecord _ s4) less
    intro ifsts s5 less5
    apply Alike.get
    apply (advancing_emit _).alike
    intro _ s6 less6
    apply (advancing_emit _).alike
    intro _ s7 less7
    apply Alike.get
    split
    · apply advancing_getToken.alike
      intro _ s8 less8
      have less : s8.remaining < s.remaining := by omega
      exact (record _ s8 less).call (readsRecord _ s8) less fun _ _ _ => alike_rfl _ _
    · exact alike_rfl _ _
  · rename_i token
    apply Alike.read (by rw [token]; decide)
    intro s1 less1
    apply Alike.get
    apply (advances_conditionParse fuel _ s1).alike
    intro cond s2 less2
    apply (advancing_expectToken .dosym 18).alike
    intro _ s3 less3
    apply Alike.get
    apply (advancing_emit _).alike
    intro _ s4 less4
    have less : s4.remaining < s.remaining := by omega
    exact (record _ s4 less).call (readsRecord _ s4) less fun _ _ _ => alike_rfl _ _
  · exact alike_rfl _ _
  · exact alike_rfl _ _
  · exact alike_rfl _ _

/-- So do the block of a procedure and the next procedure. -/
theorem alike_procedureRound (fuel : Nat) (fsys : Symset) (oldProcedure : Int)
    (procDef : ProdefList) (tail : Bool) {s : ParseState} {block block' : Symset → ParseM BlockNode}
    {again again' : ProdefList → ParseM ProdefList} (readsBlock : ReadsOn block)
    (sameBlock : ∀ set s', s'.remaining < s.remaining → Alike (block set) (block' set) s')
    (sameAgain : ∀ procs s', s'.remaining < s.remaining → Alike (again procs) (again' procs) s') :
    Alike (procedureRound fuel fsys oldProcedure procDef tail block again)
      (procedureRound fuel fsys oldProcedure procDef tail block' again') s := by
  apply Alike.get
  split
  · rename_i procedure
    apply (alike_rfl _ _).bind
    intro _ s1 linked
    have same := linkNode_kept linked
    subst same
    apply Alike.read (by rw [procedure]; decide)
    intro s2 less2
    apply (advancing_expectIdent 4).alike
    intro name s3 less3
    apply (advancing_makeProc name).alike
    intro _ s4 less4
    apply Alike.get
    apply advancing_getToken.alike
    intro _ s5 less5
    apply (advancing_expectToken .semicolonsym 6).alike
    intro _ s6 less6
    apply advancing_openBlock.alike
    intro _ s7 less7
    have less : s7.remaining < s1.remaining := by omega
    apply (sameBlock _ s7 less).call (readsBlock _ s7) less
    intro body s8 less8
    apply advancing_closeBlock.alike
    intro _ s9 less9
    apply (advancing_expectToken .semicolonsym 6).alike
    intro _ s10 less10
    apply (advances_test fuel _ fsys 6 s10).alike
    intro _ s11 less11
    apply (advancing_emit _).alike
    intro _ s12 less12
    exact sameAgain _ s12 (by omega)
  · exact alike_rfl _ _

end Guarded

/-- Every iteration and every recursive cycle of the parser, at any amount of fuel. A
cycle through several functions passes one of the calls that are an argument of a round,
and these are made only where fewer tokens remain. -/
structure RoundsRead (fuel : Nat) : Prop where
  testLoop : ∀ set, skipLoop set (fuel + 1) = skipRound set (skipLoop · fuel) ∧
    Guarded ParseState.remaining (skipRound set)
  expression : ∀ set, expressionLoop (fuel + 1) set = expressionRound fuel set
    (expressionLoop fuel) ∧
    Guarded ParseState.remaining (expressionRound fuel set)
  term : ∀ set, termLoop (fuel + 1) set = termRound fuel set (termLoop fuel) ∧
    Guarded ParseState.remaining (termRound fuel set)
  factor : ∀ fsys, factorParse (fuel + 1) fsys = factorRound fuel fsys (expressionParse fuel) ∧
    Guarded ParseState.remaining (factorRound fuel fsys)
  statement : ∀ fsys,
    statementParse (fuel + 1) fsys =
        statementRound fuel fsys (statementParse fuel) (beginLoop fuel) ∧
      (∀ list, ReadsOn list → Guarded ParseState.remaining (statementRound fuel fsys · list)) ∧
      ∀ statement, ReadsOn statement →
        Guarded ParseState.remaining (statementRound fuel fsys statement)
  beginEnd : ∀ set, beginLoop (fuel + 1) set = beginRound fuel set (beginLoop fuel) ∧
    Guarded ParseState.remaining (beginRound fuel set)
  consts : ∀ nodes tail,
    sectionLoop constItem (fuel + 1) nodes tail =
        sectionRound constItem nodes tail (sectionLoop constItem fuel · true) ∧
      Guarded ParseState.remaining (sectionRound constItem nodes tail)
  vars : ∀ nodes tail,
    sectionLoop varItem (fuel + 1) nodes tail =
        sectionRound varItem nodes tail (sectionLoop varItem fuel · true) ∧
      Guarded ParseState.remaining (sectionRound varItem nodes tail)
  declarations : ∀ fsys constDecl varDecl procDef,
    declarationLoop (fuel + 1) fsys constDecl varDecl procDef =
        declarationRound fuel fsys constDecl varDecl procDef
          (fun nodes => declarationLoop fuel fsys nodes.1 nodes.2.1 nodes.2.2) ∧
      Guarded ParseState.remaining (declarationRound fuel fsys constDecl varDecl procDef)
  procedures : ∀ fsys oldProcedure procDef tail,
    procedureLoop (fuel + 1) fsys oldProcedure procDef tail =
        procedureRound fuel fsys oldProcedure procDef tail (blockParse fuel)
          (procedureLoop fuel fsys oldProcedure · true) ∧
      (∀ again, Guarded ParseState.remaining
        (procedureRound fuel fsys oldProcedure procDef tail · again)) ∧
      ∀ block, ReadsOn block →
        Guarded ParseState.remaining (procedureRound fuel fsys oldProcedure procDef tail block)
  reads : ReadsOn (statementParse fuel) ∧ ReadsOn (beginLoop fuel) ∧ ReadsOn (blockParse fuel)

theorem rounds_read (fuel : Nat) : RoundsRead fuel where
  testLoop set := ⟨rfl, guarded_skipRound set⟩
  expression set := ⟨by rw [expressionLoop]; rfl, guarded_expressionRound fuel set⟩
  term set := ⟨by rw [termLoop]; rfl, guarded_termRound fuel set⟩
  factor fsys := ⟨by rw [factorParse]; rfl, guarded_factorRound fuel fsys⟩
  statement fsys := by
    refine ⟨by rw [statementParse]; rfl, fun list reads => ?_, fun statement reads => ?_⟩
    · intro s calls calls' readsCalls same
      exact alike_statementRound fuel fsys readsCalls reads same fun _ _ _ => rfl
    · intro s calls calls' readsCalls same
      exact alike_statementRound fuel fsys reads readsCalls (fun _ _ _ => rfl) same
  beginEnd set := ⟨by rw [beginLoop]; rfl, guarded_beginRound fuel set⟩
  consts nodes tail := ⟨rfl, guarded_sectionRound (fun _ => consumes_constItem) nodes tail⟩
  vars nodes tail := ⟨rfl, guarded_sectionRound (fun _ => consumes_varItem) nodes tail⟩
  declarations fsys constDecl varDecl procDef :=
    ⟨by rw [declarationLoop]; rfl, guarded_declarationRound fuel fsys constDecl varDecl procDef⟩
  procedures fsys oldProcedure procDef tail := by
    refine ⟨by rw [procedureLoop]; rfl, fun again => ?_, fun block reads => ?_⟩
    · intro s calls calls' readsCalls same
      exact alike_procedureRound fuel fsys oldProcedure procDef tail readsCalls same
        fun _ _ _ => rfl
    · intro s calls calls' readsCalls same
      exact alike_procedureRound fuel fsys oldProcedure procDef tail reads (fun _ _ _ => rfl) same
  reads := ⟨fun set s => (advances_statementParse fuel set s).remaining,
    fun set s => (advances_beginLoop fuel set s).remaining,
    fun set s => (advances_blockParse fuel set s).remaining⟩

theorem advancing_expectPeriod : Advancing expectPeriod :=
  .get fun _ => .ite (advancing_pure _) (.ite (advancing_report _) (advancing_failWith 9))

theorem advances_programParse (fuel : Nat) (s : ParseState) :
    Advances (4 * s.remaining + 5 ≤ fuel) True (programParse fuel) s := by
  have offsets : Advancing (modifyGen (·.setOffsets)) := advancing_same fun _ => rfl
  have firstSet : Advancing
      (modifyGen fun g => { g.getFreeSet.2 with currentProcedure := g.getFreeSet.1 }) :=
    advancing_same fun g => getFreeSet_trace g
  apply (offsets _ _ s).bind
  intro _ s1 _ less1
  apply advances_getToken.bind
  intro _ s2 _ less2
  apply (firstSet _ _ s2).bind
  intro _ s3 _ less3
  apply ((advances_blockParse fuel _ s3).when fun _ => by omega).bind
  intro block s4 _ _
  apply (advancing_expectPeriod _ _ s4).bind
  intro _ s5 _ _
  apply (advancing_emit _ _ _ s5).bind
  intro _ s6 _ _
  apply (advancing_emit _ _ _ s6).bind
  exact fun _ s7 _ _ => advances_pure _

/-- Four units of fuel for a token are enough. -/
theorem parse_fuel {tokens : List CurrentToken} {fuel : Nat}
    (enough : 4 * tokens.length + 13 ≤ fuel)
    (s : ParseState) : parse fuel tokens ≠ .error .fuel s := by
  intro stopped
  have start : (initParse tokens).remaining = tokens.length + 2 := rfl
  exact (advances_programParse fuel (initParse tokens)).stops _ s stopped (by omega)

/-- The parser comes to an end on every token file: four units of fuel for a token are
enough, and every loop and every recursive cycle reads a token before it comes round. -/
theorem parse_terminates (tokens : List CurrentToken) :
    (∀ fuel, 4 * tokens.length + 13 ≤ fuel → ∀ s, parse fuel tokens ≠ .error .fuel s) ∧
      ∀ fuel, RoundsRead fuel :=
  ⟨fun _ enough => parse_fuel enough, rounds_read⟩

/-- `var x; procedure p; begin if odd x then x := x - 1 end; begin read x; while x > 0 do call p;
write x end.` -/
def countsDown : List CurrentToken :=
  [.word .varsym, .ident [120], .word .semicolonsym, .word .procsym, .ident [112],
    .word .semicolonsym, .word .beginsym, .word .ifsym, .word .oddsym, .ident [120],
    .word .thensym, .ident [120], .word .becomessym, .ident [120], .word .minussym, .number 1,
    .word .endsym, .word .semicolonsym, .word .beginsym, .word .readsym, .ident [120],
    .word .semicolonsym, .word .whilesym, .ident [120], .word .gtrsym, .number 0, .word .dosym,
    .word .callsym, .ident [112], .word .semicolonsym, .word .writesym, .ident [120],
    .word .endsym, .word .periodsym]

theorem parse_terminates_countsDown :
    (∀ s, parse 149 countsDown ≠ .error .fuel s) ∧ RoundsRead 149 :=
  ⟨(parse_terminates countsDown).1 149 (by decide), (parse_terminates countsDown).2 149⟩

end Pl0
