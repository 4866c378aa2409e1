import Pl0.CompileCapacity
import Pl0.ParserCalls

set_option autoImplicit false

namespace Pl0

open StateExcept

/-- Run from `s`, the computation does not end in undefined behaviour. -/
def Survives {α : Type} (x : ParseM α) (s : ParseState) : Prop :=
  ∀ fault s', x s ≠ .error (.fault fault) s'

section Survives

variable {α β : Type} {x : ParseM α} {s : ParseState}

theorem Advances.survives (advances : Advances False False x s) : Survives x s :=
  fun _ s' stopped => advances.stops _ s' stopped

theorem Advancing.survives (advancing : Advancing x) (s : ParseState) : Survives x s :=
  (advancing False False s).survives

theorem Survives.bind {f : α → ParseM β} (first : Survives x s)
    (next : ∀ a s', x s = .ok a s' → Survives (f a) s') : Survives (x >>= f) s := by
  intro fault t stopped
  cases run : x s with
  | ok a s' => exact next a s' run fault t ((bind_of_ok run f).symm.trans stopped)
  | error e s' =>
      rw [bind_of_error run] at stopped
      injection stopped with same
      exact first fault s' (by rw [run, same])

/-- A computation that cannot fail afterwards. -/
theorem Survives.then {f : α → ParseM β} (first : Survives x s) (rest : ∀ a, Advancing (f a)) :
    Survives (x >>= f) s :=
  first.bind fun a s' _ => (rest a).survives s'

theorem Survives.get {f : ParseState → ParseM β} (next : Survives (f s) s) :
    Survives (get >>= f) s :=
  next

theorem survives_pure (a : α) : Survives (pure a : ParseM α) s :=
  (advancing_pure a).survives s

theorem survives_recordStatement {x : ParseM StatementNode} (body : Bool)
    (survives : Survives x s) : Survives (recordStatement body x) s :=
  survives.then fun node => (advancing_noteStatement body node _).bind fun _ => advancing_pure _

end Survives

/-- In the states that a parse reaches: an assignment that is read up to its store is to a name
that `getSymbol` finds; a section is the first one of its kind in the block; and the block is
on a level that has an offset where a section gets to its first name. -/
structure WellDeclared (start : Nat) (file : List CurrentToken) : Prop where
  assigned : ∀ {position fsys fuel s value s'},
    Reached start file (.statementParse position fsys) (fuel + 1) s →
      s.curToken.cToken = .identsym → assignValue fuel fsys s = .ok value s' →
        s.gen.lookup s.curToken.string ≠ none
  consts : ∀ {bodyFuel fsys constDecl varDecl procDef fuel s},
    Reached start file (.declarationLoop bodyFuel fsys constDecl varDecl procDef) fuel s →
      s.curToken.cToken = .constsym →
        constDecl = [] ∧ ∀ value s', constHead s = .ok value s' → LevelInside s
  vars : ∀ {bodyFuel fsys constDecl consts varDecl procDef fuel s s'},
    Reached start file (.declarationLoop bodyFuel fsys constDecl varDecl procDef) (fuel + 1) s →
      constSection fuel constDecl s = .ok consts s' → s'.curToken.cToken = .varsym →
        varDecl = [] ∧ ∀ name t, varHead s' = .ok name t → LevelInside s'
  procs : ∀ {fsys oldProcedure procDef fuel s},
    Reached start file (.procedureLoop fsys oldProcedure procDef false) fuel s →
      s.curToken.cToken = .procsym → procDef = .nil

theorem survives_conditionParse (fuel : Nat) (fsys : Symset) (s : ParseState) :
    Survives (conditionParse fuel fsys) s := by
  have condition : Advances _ False (conditionParse fuel fsys) s :=
    advances_conditionParse fuel fsys s
  exact (condition.when False.elim).survives

theorem survives_test (fuel : Nat) (s1 s2 : Symset) (errorType : Nat) (s : ParseState) :
    Survives (test fuel s1 s2 errorType) s := by
  have tests : Advances _ False (test fuel s1 s2 errorType) s :=
    advances_test fuel s1 s2 errorType s
  exact (tests.when False.elim).survives

theorem survives_nameStatement {known : Option Symbol → ParseM Unit}
    (advances : ∀ sym, Advancing (known sym)) (errorType : Nat) (construct : Construct)
    (node : Name → StatementNode) (s : ParseState) :
    Survives (nameStatement errorType construct known node) s := by
  apply Advancing.survives
  refine advancing_getToken.bind fun _ => (advancing_expectIdent errorType).bind fun name =>
    .get fun t => (advancing_use construct name).bind fun _ => (advances _).bind fun _ =>
      advancing_getToken.bind fun _ => advancing_pure _

section Sections

variable {α β : Type} {item : ParseM α} {head : ParseM β} {s s' : ParseState} {nodes : List α}

theorem survives_readOffset (inside : LevelInside s) : Survives readOffset s := by
  unfold LevelInside at inside
  refine Survives.get ?_
  rw [if_pos inside]
  exact survives_pure _

theorem readOffset_faults (outside : ¬ LevelInside s) :
    readOffset s = .error (.fault .outOfBounds) s := by
  unfold LevelInside at outside
  rw [readOffset, get_bind, if_neg outside]
  rfl

/-- What the items of the two sections have in common: behind the head, which leaves the
globals alone, they read the offset of the level. -/
structure ReadsOffset {α β : Type} (item : ParseM α) (head : ParseM β) : Prop where
  gen : ∀ {s s' b}, head s = .ok b s' → s'.gen = s.gen
  survives : ∀ {s}, (∀ b s', head s = .ok b s' → LevelInside s') → Survives item s
  faults : ∀ {s s' b}, head s = .ok b s' → ¬ LevelInside s' →
    item s = .error (.fault .outOfBounds) s'
  level : ∀ {s s' node}, item s = .ok node s' → LevelInside s'

theorem LevelInside.of_gen (inside : LevelInside s) (gen : s'.gen = s.gen) : LevelInside s' := by
  unfold LevelInside
  rw [gen]
  exact inside

theorem ReadsOffset.survives_inside (reads : ReadsOffset item head) (inside : LevelInside s) :
    Survives item s :=
  reads.survives fun _ _ ran => inside.of_gen (reads.gen ran)

theorem survives_linkNode {first tail : Bool} (linked : (first || tail) = true) :
    Survives (linkNode first tail) s := by
  rw [linkNode, if_pos linked]
  exact survives_pure _

/-- What follows an item in its section. -/
theorem survives_next (fuel : Nat)
    (rest : ∀ (nodes : List α) {s : ParseState}, LevelInside s →
      Survives (sectionLoop item fuel nodes true) s) {node : α} (inside : LevelInside s) :
    Survives (get >>= fun this =>
      if this.curToken.cToken = .commasym then sectionLoop item fuel (nodes ++ [node]) true
      else do
        expectToken .semicolonsym 5
        return nodes ++ [node]) s := by
  refine Survives.get ?_
  split
  · exact rest _ inside
  · apply Advancing.survives
    exact (advancing_expectToken .semicolonsym 5).bind fun _ => advancing_pure _

/-- Behind the first item the tail pointer and the level are right. -/
theorem ReadsOffset.survives_rest (reads : ReadsOffset item head) :
    ∀ (fuel : Nat) (nodes : List α) {s : ParseState}, LevelInside s →
      Survives (sectionLoop item fuel nodes true) s
  | 0, _, _, _ => (advances_fuel not_false).survives
  | fuel + 1, nodes, s, inside => by
      rw [sectionLoop]
      refine (survives_linkNode (Bool.or_true _)).bind fun _ s1 linked => ?_
      obtain rfl := linkNode_kept linked
      refine (reads.survives_inside inside).bind fun node s2 ran => ?_
      exact survives_next fuel (reads.survives_rest fuel) (reads.level ran)

theorem ReadsOffset.survives_section (reads : ReadsOffset item head) (fuel : Nat)
    (level : ∀ b s', head s = .ok b s' → LevelInside s) :
    Survives (sectionLoop item fuel [] false) s := by
  cases fuel with
  | zero => exact (advances_fuel not_false).survives
  | succ fuel =>
      rw [sectionLoop]
      refine (survives_linkNode rfl).bind fun _ s1 linked => ?_
      obtain rfl := linkNode_kept linked
      refine (reads.survives fun b s' ran => (level b s' ran).of_gen (reads.gen ran)).bind ?_
      exact fun node s2 ran => survives_next fuel (reads.survives_rest fuel) (reads.level ran)

/-- The parser comes back with 0 or with an error code. -/
def ReturnsCode (result : EStateM.Result Stop ParseState BlockNode) : Prop :=
  match result with
  | .ok _ _ => True
  | .error (.ret code) _ => code ≠ 0
  | .error _ _ => False

/-- The ends of a parse that are no return. -/
def Stop.Breaks : Stop → Prop
  | .ret _ => False
  | .fault _ => True
  | .fuel => True

theorem constItem_readsOffset : ReadsOffset constItem constHead where
  gen := by
    intro s s' b ran
    simp only [constHead, bind_eq_ok, pure_eq_ok] at ran
    obtain ⟨_, s1, read, name, s2, expected, _, s3, read', _, s4, equals, _, s5, read'', value, s6,
      valued, -, rfl⟩ := ran
    obtain ⟨rfl, -, -⟩ := expectIdent_eq_ok expected
    obtain rfl := expectEql_eq_ok equals
    obtain ⟨rfl, -⟩ := constValue_eq_ok valued
    rw [getToken_gen _ _ _ read'', getToken_gen _ _ _ read', getToken_gen _ _ _ read]
  survives := by
    intro s inside
    refine (advancing_getToken.survives s).bind fun _ s1 read => ?_
    refine ((advancing_expectIdent 4).survives s1).bind fun name s2 expected => ?_
    refine (advancing_getToken.survives s2).bind fun _ s3 read' => ?_
    refine (advancing_expectEql.survives s3).bind fun _ s4 equals => ?_
    refine (advancing_getToken.survives s4).bind fun _ s5 read'' => ?_
    refine (advancing_constValue.survives s5).bind fun value s6 valued => ?_
    have ran : constHead s = .ok (name, value) s6 := by
      rw [constHead, bind_of_ok read, bind_of_ok expected, bind_of_ok read', bind_of_ok equals,
        bind_of_ok read'', bind_of_ok valued]
      rfl
    refine (survives_readOffset (inside _ _ ran)).then fun addr => ?_
    exact .get fun _ => (advancing_makeConst name value).bind fun _ =>
      advancing_getToken.bind fun _ => advancing_pure _
  faults := by
    intro s s' b ran outside
    simp only [constHead, bind_eq_ok, pure_eq_ok] at ran
    obtain ⟨_, s1, read, name, s2, expected, _, s3, read', _, s4, equals, _, s5, read'', value, s6,
      valued, -, rfl⟩ := ran
    rw [constItem, bind_of_ok read, bind_of_ok expected, bind_of_ok read', bind_of_ok equals,
      bind_of_ok read'', bind_of_ok valued]
    exact bind_of_error (readOffset_faults outside) _
  level := by
    intro s s' node ran
    simp only [constItem, bind_eq_ok, pure_eq_ok, modifyGen_eq_ok] at ran
    obtain ⟨_, s1, _, name, s2, _, _, s3, _, _, s4, _, _, s5, _, value, s6, _, addr, s7, offset,
      this, s8, got, _, s9, rfl, _, s10, read, -, rfl⟩ := ran
    obtain ⟨rfl, inside, -⟩ := readOffset_eq_ok offset
    obtain ⟨rfl, rfl⟩ := get_eq_ok.mp got
    have made : LevelInside { s7 with gen := s7.gen.makeConst name value } := inside
    exact made.of_gen (getToken_gen _ _ _ read)

theorem varItem_readsOffset : ReadsOffset varItem varHead where
  gen := by
    intro s s' b ran
    obtain ⟨_, s1, read, expected⟩ := bind_eq_ok.mp ran
    obtain ⟨rfl, -, -⟩ := expectIdent_eq_ok expected
    exact getToken_gen _ _ _ read
  survives := by
    intro s inside
    refine (advancing_getToken.survives s).bind fun _ s1 read => ?_
    refine ((advancing_expectIdent 4).survives s1).bind fun name s2 expected => ?_
    have ran : varHead s = .ok name s2 := (bind_of_ok read _).trans expected
    refine (survives_readOffset (inside _ _ ran)).then fun addr => ?_
    exact .get fun _ => (advancing_makeVar name).bind fun _ =>
      advancing_getToken.bind fun _ => advancing_pure _
  faults := by
    intro s s' b ran outside
    obtain ⟨_, s1, read, expected⟩ := bind_eq_ok.mp ran
    rw [varItem, bind_of_ok read, bind_of_ok expected]
    exact bind_of_error (readOffset_faults outside) _
  level := by
    intro s s' node ran
    simp only [varItem, bind_eq_ok, pure_eq_ok, modifyGen_eq_ok] at ran
    obtain ⟨_, s1, _, name, s2, _, addr, s3, offset, this, s4, got, _, s5, rfl, _, s6,
      read, -, rfl⟩ := ran
    obtain ⟨rfl, inside, -⟩ := readOffset_eq_ok offset
    obtain ⟨rfl, rfl⟩ := get_eq_ok.mp got
    have made : LevelInside { s3 with gen := s3.gen.makeVar name } := inside
    exact made.of_gen (getToken_gen _ _ _ read)

theorem survives_constSection (fuel : Nat) (nodes : List ConstDeclNode) {s : ParseState}
    (opens : s.curToken.cToken = .constsym →
      nodes = [] ∧ ∀ value s', constHead s = .ok value s' → LevelInside s) :
    Survives (constSection fuel nodes) s := by
  rw [constSection]
  refine Survives.get ?_
  split
  · rename_i here
    obtain ⟨rfl, level⟩ := opens here
    exact constItem_readsOffset.survives_section fuel level
  · exact survives_pure _

theorem survives_varSection (fuel : Nat) (nodes : List VarDeclNode) {s : ParseState}
    (opens : s.curToken.cToken = .varsym →
      nodes = [] ∧ ∀ name s', varHead s = .ok name s' → LevelInside s) :
    Survives (varSection fuel nodes) s := by
  rw [varSection]
  refine Survives.get ?_
  split
  · rename_i here
    obtain ⟨rfl, level⟩ := opens here
    exact varItem_readsOffset.survives_section fuel level
  · exact survives_pure _

end Sections

section Calls

variable {start : Nat} {file : List CurrentToken}

theorem survives_assignParse (fuel : Nat) (fsys : Symset) {s : ParseState}
    (assigned : ∀ value s', assignValue fuel fsys s = .ok value s' →
      s.gen.lookup s.curToken.string ≠ none) : Survives (assignParse fuel fsys) s := by
  rw [assignParse]
  refine Survives.get ?_
  refine ((advancing_use .assign s.curToken.string).survives s).bind fun _ s1 used => ?_
  refine ((advancing_checkAssigned _).survives s1).bind fun _ s2 checked => ?_
  refine (advancing_getToken.survives s2).bind fun _ s3 read => ?_
  refine (advancing_expectBecomes.survives s3).bind fun _ s4 becomes => ?_
  have expression : Advances _ False (expressionParse fuel fsys) s4 :=
    advances_expressionParse fuel fsys s4
  refine (expression.when False.elim).survives.bind fun value s5 parsed => ?_
  have ran : assignValue fuel fsys s = .ok value s5 := by
    rw [assignValue, get_bind, bind_of_ok used, bind_of_ok checked, bind_of_ok read,
      bind_of_ok becomes]
    exact parsed
  obtain ⟨symbol, found⟩ := Option.ne_none_iff_exists'.mp (assigned value s5 ran)
  rw [found]
  exact ((advancing_quiet fun g => quiet_becomes g symbol).survives s5).then fun _ =>
    advancing_pure _

theorem advancing_conditionalJump : Advancing (modifyGen (·.conditionalJump)) :=
  advancing_emit _

theorem advancing_jump : Advancing (modifyGen (·.jump)) :=
  advancing_emit _

theorem advancing_patch (j : Int) : Advancing (modifyGen fun g => g.patch j g.codeLength) :=
  advancing_emit _

mutual
theorem survives_statementParse (sound : WellDeclared start file) :
    ∀ (fuel : Nat) (fsys : Symset) (position : Position) {s : ParseState},
      Reached start file (.statementParse position fsys) fuel s →
        Survives (statementParse fuel fsys) s
  | 0, _, _, _, _ => (advances_fuel not_false).survives
  | fuel + 1, fsys, position, s, reached => by
      rw [statementParse]
      refine Survives.get ?_
      split
      · rename_i token
        exact survives_assignParse fuel fsys fun value s' ran => sound.assigned reached token ran
      · exact survives_nameStatement advancing_callKnown 14 .call .call s
      · rename_i token
        refine (advancing_getToken.survives s).bind fun _ s1 read => ?_
        refine (survives_recordStatement false (survives_statementParse sound fuel _ .item
          (.first reached token read))).bind fun first s2 parsed => ?_
        refine (survives_beginLoop sound fuel _ (.list reached token read parsed)).then fun rest =>
          ?_
        exact (advancing_expectToken .endsym 26).bind fun _ =>
          (advancing_quiet quiet_finishBegin).bind fun _ => advancing_pure _
      · rename_i token
        refine (advancing_getToken.survives s).bind fun _ s1 read => ?_
        refine (survives_conditionParse fuel _ s1).bind fun cond s2 condition => ?_
        refine ((advancing_expectToken .thensym 16).survives s2).bind fun _ s3 expected => ?_
        refine Survives.get ?_
        refine (advancing_conditionalJump.survives s3).bind fun _ s4 jump => ?_
        have head : ifHead fuel fsys s = .ok s3.gen.codeLength s4 := by
          rw [ifHead, bind_of_ok read, bind_of_ok condition, bind_of_ok expected, get_bind,
            bind_of_ok jump]
          rfl
        refine (survives_recordStatement false (survives_statementParse sound fuel fsys .thenBranch
          (.thenBranch reached token head))).bind fun ifsts s5 branch => ?_
        refine Survives.get ?_
        refine (advancing_jump.survives s5).bind fun _ s6 jumped => ?_
        refine ((advancing_patch _).survives s6).bind fun _ s7 patched => ?_
        refine Survives.get ?_
        split
        · rename_i hasElse
          have parsed : thenBranch fuel fsys s3.gen.codeLength s4 = .ok ifsts s7 := by
            rw [thenBranch, bind_of_ok branch, bind_of_ok jumped, bind_of_ok patched]
            rfl
          refine (advancing_getToken.survives s7).bind fun _ s8 read' => ?_
          refine (survives_recordStatement false (survives_statementParse sound fuel fsys
            .elseBranch (.elseBranch reached token head parsed hasElse read'))).then fun elsests =>
              ?_
          exact (advancing_finishIf _).bind fun _ => advancing_pure _
        · exact ((advancing_finishIf _).bind fun _ => advancing_pure _).survives s7
      · rename_i token
        refine (advancing_getToken.survives s).bind fun _ s1 read => ?_
        refine Survives.get ?_
        refine (survives_conditionParse fuel _ s1).bind fun cond s2 condition => ?_
        refine ((advancing_expectToken .dosym 18).survives s2).bind fun _ s3 expected => ?_
        refine Survives.get ?_
        refine (advancing_conditionalJump.survives s3).bind fun _ s4 jump => ?_
        have head : whileHead fuel fsys s = .ok () s4 := by
          rw [whileHead, bind_of_ok read, bind_of_ok condition, bind_of_ok expected]
          exact jump
        refine (survives_recordStatement false (survives_statementParse sound fuel fsys .loopBody
          (.loopBody reached token head))).then fun sts => ?_
        exact .get fun _ => (advancing_emit _).bind fun _ => (advancing_emit _).bind fun _ =>
          (advancing_emit _).bind fun _ =>
            (advancing_quiet fun g => quiet_addRegister g (-1)).bind fun _ => advancing_pure _
      · exact survives_nameStatement advancing_readKnown 27 .read .read s
      · exact survives_nameStatement advancing_writeKnown 28 .write .write s
      · exact (survives_test fuel fsys phi 19 s).then fun _ => advancing_pure _

theorem survives_beginLoop (sound : WellDeclared start file) :
    ∀ (fuel : Nat) (set : Symset) {s : ParseState},
      Reached start file (.beginLoop set) fuel s → Survives (beginLoop fuel set) s
  | 0, _, _, _ => (advances_fuel not_false).survives
  | fuel + 1, set, s, reached => by
      rw [beginLoop]
      refine Survives.get ?_
      split
      · rename_i token
        refine (advancing_separator.survives s).bind fun _ s1 separated => ?_
        refine (survives_recordStatement false (survives_statementParse sound fuel set .item
          (.item reached token separated))).bind fun sts s2 parsed => ?_
        exact (survives_beginLoop sound fuel set (.items reached token separated parsed)).then
          fun _ => advancing_pure _
      · exact survives_pure _
end

mutual
theorem survives_blockParse (sound : WellDeclared start file) :
    ∀ (fuel : Nat) (fsys : Symset) {s : ParseState},
      Reached start file (.blockParse fsys) fuel s → Survives (blockParse fuel fsys) s
  | 0, _, _, _ => (advances_fuel not_false).survives
  | fuel + 1, fsys, s, reached => by
      rw [blockParse]
      refine (survives_declarationLoop sound fuel fsys (.declarations reached)).bind ?_
      rintro ⟨constDecl, varDecl, procDef⟩ s1 declared
      dsimp only
      refine (survives_recordStatement true (survives_statementParse sound fuel _ .blockBody
        (.statement reached declared))).bind fun statement s2 _ => ?_
      exact (survives_test fuel fsys phi 8 s2).then fun _ => advancing_pure _

theorem survives_declarationLoop (sound : WellDeclared start file) :
    ∀ (fuel : Nat) (fsys : Symset) {bodyFuel : Nat} {constDecl : List ConstDeclNode}
      {varDecl : List VarDeclNode} {procDef : ProdefList} {s : ParseState},
      Reached start file (.declarationLoop bodyFuel fsys constDecl varDecl procDef) fuel s →
        Survives (declarationLoop fuel fsys constDecl varDecl procDef) s
  | 0, _, _, _, _, _, _, _ => (advances_fuel not_false).survives
  | fuel + 1, fsys, bodyFuel, constDecl, varDecl, procDef, s, reached => by
      rw [declarationLoop]
      refine (survives_constSection fuel constDecl (sound.consts reached)).bind
        fun consts s1 constRead => ?_
      refine (survives_varSection fuel varDecl (sound.vars reached constRead)).bind
        fun vars s2 varRead => ?_
      refine Survives.get ?_
      refine (survives_procedureLoop sound fuel fsys (.procedures reached constRead varRead)
        fun opens => .inl (sound.procs (.procedures reached constRead varRead) opens)).bind
          fun procs s3 procedures => ?_
      refine ((advancing_restore _).survives s3).bind fun _ s4 restored => ?_
      refine (survives_test fuel _ declbegsys 7 s4).bind fun _ s5 tested => ?_
      refine Survives.get ?_
      split
      · rename_i more
        have ended : declarationEnd fuel s2.gen.currentProcedure s3 = .ok () s5 := by
          rw [declarationEnd, bind_of_ok restored]
          exact tested
        exact survives_declarationLoop sound fuel fsys
          (.again (.body reached constRead varRead procedures) ended more)
      · exact survives_pure _

theorem survives_procedureLoop (sound : WellDeclared start file) :
    ∀ (fuel : Nat) (fsys : Symset) {oldProcedure : Int} {procDef : ProdefList} {tail : Bool}
      {s : ParseState}, Reached start file (.procedureLoop fsys oldProcedure procDef tail) fuel s →
        (s.curToken.cToken = .procsym → procDef = .nil ∨ tail = true) →
          Survives (procedureLoop fuel fsys oldProcedure procDef tail) s
  | 0, _, _, _, _, _, _, _ => (advances_fuel not_false).survives
  | fuel + 1, fsys, oldProcedure, procDef, tail, s, reached, opens => by
      rw [procedureLoop]
      refine Survives.get ?_
      split
      · rename_i token
        have set : (procDef.isNil || tail) = true := by
          rcases opens token with rfl | rfl
          · rfl
          · exact Bool.or_true _
        refine (survives_linkNode set).bind fun _ s0 linked => ?_
        refine (advancing_getToken.survives s0).bind fun _ s1 read => ?_
        refine ((advancing_expectIdent 4).survives s1).bind fun name s2 named => ?_
        refine ((advancing_makeProc name).survives s2).bind fun _ s3 made => ?_
        refine Survives.get ?_
        refine (advancing_getToken.survives s3).bind fun _ s4 read' => ?_
        refine ((advancing_expectToken .semicolonsym 6).survives s4).bind fun _ s5 expected => ?_
        refine (advancing_openBlock.survives s5).bind fun _ s6 entered => ?_
        have opened : procedureOpen oldProcedure s0 = .ok (fun body => ProdefList.cons name
            (s3.gen.globalLevel + 1) s3.gen.procedureCount oldProcedure body .nil) s6 := by
          rw [procedureOpen, bind_of_ok read, bind_of_ok named, bind_of_ok made, get_bind,
            bind_of_ok read', bind_of_ok expected, bind_of_ok entered]
          rfl
        refine (survives_blockParse sound fuel _ (.block reached token linked opened)).bind
          fun body s7 parsed => ?_
        refine (advancing_closeBlock.survives s7).bind fun _ s8 left => ?_
        refine ((advancing_expectToken .semicolonsym 6).survives s8).bind fun _ s9 expected' => ?_
        refine (survives_test fuel _ fsys 6 s9).bind fun _ s10 tested => ?_
        refine ((advancing_emit _).survives s10).bind fun _ s11 reserved => ?_
        have closed : procedureEnd fuel fsys body s7 = .ok () s11 := by
          rw [procedureEnd, bind_of_ok left, bind_of_ok expected', bind_of_ok tested]
          exact reserved
        exact survives_procedureLoop sound fuel fsys
          (.procedure reached token linked opened parsed closed) fun _ => .inr rfl
      · exact survives_pure _
end

theorem Reached.breaks {call : Call} {fuel : Nat} {s t : ParseState} {e : Stop}
    (reached : Reached start file call fuel s) (stopped : CallStops call fuel s e t)
    (breaks : e.Breaks) : ¬ ReturnsCode (parse start file) := by
  rw [reached.stops stopped]
  cases e with
  | ret code => exact breaks.elim
  | fault fault => exact id
  | fuel => exact id

end Calls

end Pl0
