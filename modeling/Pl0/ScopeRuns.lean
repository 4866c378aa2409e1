import Pl0.LexicalScope
import Pl0.Parse
import Pl0.StateExcept

set_option autoImplicit false

namespace Pl0

open StateExcept

/-- An event tells what the globals held when it was noted: `before` is the history up
to it. -/
def ValidEvent (before : List Event) : Event → Prop
  | .declare scope symbol =>
      symbol.level = scope.length - 1 ∧ symbol.id = (declarations before).length
  | .use scope _ name result => result = getSymbol (tableOf before) name (scope.length - 1)
  | _ => True

def ValidHistory (events : List Event) : Prop :=
  ∀ before event after, events = before ++ event :: after → ValidEvent before event

theorem ValidHistory.append {events : List Event} {event : Event} (valid : ValidHistory events)
    (last : ValidEvent events event) : ValidHistory (events ++ [event]) := by
  intro before e after split
  rcases List.append_eq_append_iff.mp split with ⟨middle, grown, rest⟩ | ⟨middle, inside, rest⟩
  · cases middle with
    | nil =>
        rw [List.append_nil] at grown
        rw [List.nil_append, List.cons.injEq] at rest
        rw [grown, ← rest.1]
        exact last
    | cons head tail => simp at rest
  · cases middle with
    | nil =>
        rw [List.append_nil] at inside
        rw [List.nil_append, List.cons.injEq] at rest
        rw [← inside, rest.1]
        exact last
    | cons head tail =>
        rw [List.cons_append, List.cons.injEq] at rest
        rw [rest.1]
        exact valid before head tail inside

/-- The table, the level and the numbering of the symbols follow from the history. -/
structure Scoped (block : List Int) (g : GenState) : Prop where
  valid : ValidHistory g.trace
  table : g.symbolTable = tableOf g.trace
  scope : g.scope = block
  level : g.globalLevel = block.length - 1
  allocated : g.allocated = (declarations g.trace).length

/-- What a construct needs of the answer for its name. -/
def Suits (construct : Construct) (result : Option Symbol) : Prop :=
  ∃ symbol, result = some symbol ∧ match construct with
    | .assign | .read => symbol.kind = .varS
    | .call => symbol.kind = .procS
    | .factor | .write => symbol.kind ≠ .procS

def Unsuited : Event → Prop
  | .use _ construct _ result => ¬ Suits construct result
  | _ => False

def Assigns : Event → Prop
  | .use _ construct _ _ => construct = .assign
  | _ => False

/-- The parser goes on behind an unsuitable name only in an assignment, with a report. -/
def Excused (s : ParseState) : Prop :=
  ∀ event ∈ s.gen.trace, Unsuited event → Assigns event ∧ s.reports ≠ []

def Inside (scope : List Int) (s : ParseState) : Prop :=
  Scoped scope s.gen ∧ Excused s

/-- A parse that ends without a result behind another unsuitable name returns -1. -/
def Stopped (stop : Stop) (s : ParseState) : Prop :=
  ValidHistory s.gen.trace ∧ (Excused s ∨ stop = .ret (-1))

/-- The computation stays in its block. -/
def Keeps {α : Type} (scope : List Int) (x : ParseM α) : Prop :=
  Triple (Inside scope) x (fun _ => Inside scope) Stopped

def Neutral : Event → Prop
  | .access .. => True
  | .statement .. => True
  | _ => False

theorem declarations_neutral {events : List Event} (neutral : ∀ event ∈ events, Neutral event) :
    declarations events = [] := by
  unfold declarations
  rw [List.filterMap_eq_nil_iff]
  intro event member
  have quiet := neutral event member
  cases event with
  | declare => exact quiet.elim
  | _ => rfl

theorem ValidHistory.neutral {before events : List Event} (valid : ValidHistory before)
    (neutral : ∀ event ∈ events, Neutral event) : ValidHistory (before ++ events) := by
  induction events generalizing before with
  | nil =>
      rw [List.append_nil]
      exact valid
  | cons event events ih =>
      rw [List.forall_mem_cons] at neutral
      rw [List.append_cons]
      apply ih _ neutral.2
      apply valid.append
      cases event with
      | declare => exact neutral.1.elim
      | use => exact neutral.1.elim
      | _ => trivial

/-- A change of the globals that declares and looks up nothing. -/
structure Quiet (g g' : GenState) : Prop where
  symbolTable : g'.symbolTable = g.symbolTable
  globalLevel : g'.globalLevel = g.globalLevel
  scope : g'.scope = g.scope
  allocated : g'.allocated = g.allocated
  trace : ∃ events, g'.trace = g.trace ++ events ∧ ∀ event ∈ events, Neutral event

theorem tableOf_neutral {before events : List Event} (neutral : ∀ event ∈ events, Neutral event) :
    tableOf (before ++ events) = tableOf before := by
  unfold tableOf
  rw [declarations_append, declarations_neutral neutral, List.append_nil]

theorem Quiet.keeps {block : List Int} {g g' : GenState} (quiet : Quiet g g')
    (inside : Scoped block g) : Scoped block g' := by
  obtain ⟨events, grown, neutral⟩ := quiet.trace
  refine ⟨?_, ?_, ?_, ?_, ?_⟩
  · rw [grown]
    exact inside.valid.neutral neutral
  · rw [quiet.symbolTable, grown, tableOf_neutral neutral, inside.table]
  · rw [quiet.scope, inside.scope]
  · rw [quiet.globalLevel, inside.level]
  · rw [quiet.allocated, grown, declarations_append, declarations_neutral neutral, List.append_nil,
      inside.allocated]

theorem Quiet.excused {s : ParseState} {g' : GenState} (quiet : Quiet s.gen g')
    (excused : Excused s) :
    Excused { s with gen := g' } := by
  obtain ⟨events, grown, neutral⟩ := quiet.trace
  intro event member unsuited
  change event ∈ g'.trace at member
  rw [grown] at member
  rcases List.mem_append.mp member with early | late
  · exact excused event early unsuited
  · have quiet := neutral event late
    cases event with
    | use => exact quiet.elim
    | _ => exact unsuited.elim

theorem quiet_of_trace {g g' : GenState} (symbolTable : g'.symbolTable = g.symbolTable)
    (globalLevel : g'.globalLevel = g.globalLevel) (scope : g'.scope = g.scope)
    (allocated : g'.allocated = g.allocated) (trace : g'.trace = g.trace) : Quiet g g' :=
  ⟨symbolTable, globalLevel, scope, allocated, [], by rw [trace, List.append_nil],
    fun _ none => absurd none List.not_mem_nil⟩

theorem quiet_of_event {g g' : GenState} (event : Event) (neutral : Neutral event)
    (symbolTable : g'.symbolTable = g.symbolTable)
    (globalLevel : g'.globalLevel = g.globalLevel) (scope : g'.scope = g.scope)
    (allocated : g'.allocated = g.allocated) (trace : g'.trace = g.trace ++ [event]) : Quiet g g' :=
  ⟨symbolTable, globalLevel, scope, allocated, [event], trace,
    fun _ member => List.mem_singleton.mp member ▸ neutral⟩

theorem quiet_load (g : GenState) (symbol : Symbol) : Quiet g (g.load symbol) :=
  quiet_of_event (.access _ _ _ symbol) trivial rfl rfl rfl rfl rfl

theorem quiet_literal (g : GenState) (value : Int) : Quiet g (g.literal value) :=
  quiet_of_trace rfl rfl rfl rfl rfl

theorem quiet_negate (g : GenState) (preop : Token) : Quiet g (g.negate preop) := by
  cases preop <;> exact quiet_of_trace rfl rfl rfl rfl rfl

theorem quiet_calculate (g : GenState) (op : Token) : Quiet g (g.calculate op) :=
  quiet_of_trace rfl rfl rfl rfl rfl

theorem quiet_testOdd (g : GenState) : Quiet g g.testOdd :=
  quiet_of_trace rfl rfl rfl rfl rfl

theorem quiet_compare (g : GenState) (op : Token) : Quiet g (g.compare op) :=
  quiet_of_trace rfl rfl rfl rfl rfl

theorem quiet_becomes (g : GenState) (symbol : Symbol) : Quiet g (g.becomes symbol) :=
  quiet_of_event (.access _ _ _ symbol) trivial rfl rfl rfl rfl rfl

theorem quiet_callSymbol (g : GenState) (symbol : Symbol) : Quiet g (g.callSymbol symbol) :=
  quiet_of_event (.access _ _ _ symbol) trivial rfl rfl rfl rfl rfl

theorem quiet_readSymbol (g : GenState) (symbol : Symbol) : Quiet g (g.readSymbol symbol) :=
  quiet_of_event (.access _ _ _ symbol) trivial rfl rfl rfl rfl rfl

theorem quiet_writeSymbol (g : GenState) (symbol : Symbol) : Quiet g (g.writeSymbol symbol) :=
  quiet_of_event (.access _ _ _ symbol) trivial rfl rfl rfl rfl rfl

theorem quiet_finishBegin (g : GenState) : Quiet g g.finishBegin := by
  unfold GenState.finishBegin
  split <;> exact quiet_of_trace rfl rfl rfl rfl rfl

theorem quiet_emit (g : GenState) (generate : CodeSets → Int → CodeSets) :
    Quiet g (g.emit generate) :=
  quiet_of_trace rfl rfl rfl rfl rfl

theorem quiet_addRegister (g : GenState) (count : Int) : Quiet g (g.addRegister count) :=
  quiet_of_trace rfl rfl rfl rfl rfl

section Keeps

variable {α β : Type} {block : List Int}

theorem Keeps.pure (a : α) : Keeps block (Pure.pure a : ParseM α) :=
  Triple.pure fun _ inside => inside

theorem Keeps.bind {x : ParseM α} {f : α → ParseM β} (first : Keeps block x)
    (next : ∀ a, Keeps block (f a)) : Keeps block (x >>= f) :=
  Triple.bind first next

theorem Keeps.get {f : ParseState → ParseM β} (next : ∀ t, Keeps block (f t)) :
    Keeps block (MonadState.get >>= f) :=
  Triple.get_bind fun t inside => (next t).weaken fun _ same => same ▸ inside

theorem Keeps.ite {c : Prop} [Decidable c] {x y : ParseM α} (yes : Keeps block x)
    (no : Keeps block y) : Keeps block (if c then x else y) :=
  Triple.ite yes no

theorem keeps_throw {stop : Stop} : Keeps block (throw stop : ParseM α) :=
  Triple.throw fun _ inside => ⟨inside.1.valid, .inl inside.2⟩

theorem keeps_modifyGen {f : GenState → GenState} (quiet : ∀ g, Quiet g (f g)) :
    Keeps block (modifyGen f) :=
  Triple.modify fun s inside =>
    ⟨(quiet s.gen).keeps inside.1, (quiet s.gen).excused inside.2⟩

theorem keeps_report (r : Report) : Keeps block (report r) :=
  Triple.modify fun s inside => by
    refine ⟨inside.1, ?_⟩
    intro event member unsuited
    exact ⟨(inside.2 event member unsuited).1, List.append_ne_nil_of_right_ne_nil _ (by simp)⟩

theorem keeps_getToken : Keeps block getToken :=
  Triple.modify fun s inside => by
    split
    · exact inside
    · exact inside

theorem keeps_failWith (errorType : Nat) : Keeps block (failWith errorType : ParseM α) :=
  (keeps_report _).bind fun _ => keeps_throw

theorem keeps_skipLoop (set : Symset) (fuel : Nat) : Keeps block (skipLoop set fuel) := by
  induction fuel with
  | zero => exact keeps_throw
  | succ fuel ih =>
      rw [skipLoop]
      apply Keeps.get
      intro this
      apply Keeps.ite
      · exact .pure ()
      · exact (keeps_report _).bind fun _ => keeps_getToken.bind fun _ => ih

theorem keeps_test (fuel : Nat) (s1 s2 : Symset) (errorType : Nat) :
    Keeps block (test fuel s1 s2 errorType) := by
  apply Keeps.get
  intro this
  apply Keeps.ite
  · exact .pure ()
  · exact (keeps_report _).bind fun _ => (keeps_report _).bind fun _ => keeps_skipLoop _ fuel

theorem keeps_expectToken (token : Token) (errorType : Nat) :
    Keeps block (expectToken token errorType) :=
  .get fun _ => .ite keeps_getToken (keeps_failWith _)

theorem keeps_expectIdent (errorType : Nat) : Keeps block (expectIdent errorType) :=
  .get fun _ => .ite (.pure _) (keeps_failWith _)

/-- After a use that found `result`, which may not suit its construct. -/
def Looked (block : List Int) (construct : Construct) (result : Option Symbol) (s : ParseState) :
    Prop :=
  Scoped block s.gen ∧ ∀ event ∈ s.gen.trace, Unsuited event →
    (Assigns event ∧ s.reports ≠ []) ∨
      (¬ Suits construct result ∧ (construct = .assign → Assigns event))

theorem use_looked (construct : Construct) (name : Name) {s : ParseState}
    (inside : Inside block s) :
    Looked block construct (s.gen.lookup name) { s with gen := s.gen.use construct name } := by
  obtain ⟨holds, excused⟩ := inside
  have noDeclaration : ∀ result, declarations [.use block construct name result] = [] :=
    fun _ => rfl
  have answer : s.gen.lookup name = getSymbol (tableOf s.gen.trace) name (block.length - 1) := by
    unfold GenState.lookup
    rw [holds.table, holds.level]
  refine ⟨⟨?_, ?_, holds.scope, holds.level, ?_⟩, ?_⟩
  · apply holds.valid.append
    change s.gen.lookup name = _
    rw [holds.scope, answer]
  · change s.gen.symbolTable = tableOf (s.gen.trace ++ [.use s.gen.scope construct name _])
    unfold tableOf
    rw [declarations_append, holds.scope, noDeclaration, List.append_nil]
    exact holds.table
  · change s.gen.allocated =
      (declarations (s.gen.trace ++ [.use s.gen.scope construct name _])).length
    rw [declarations_append, holds.scope, noDeclaration, List.append_nil]
    exact holds.allocated
  · intro event member unsuited
    rcases List.mem_append.mp member with early | late
    · exact .inl (excused event early unsuited)
    · have last := List.mem_singleton.mp late
      subst last
      exact .inr ⟨unsuited, id⟩

/-- What follows a use of a name in the source. -/
theorem keeps_use {f : PUnit → ParseM α} {construct : Construct} {name : Name} {t : ParseState}
    (inside : Inside block t)
    (next : Triple (Looked block construct (t.gen.lookup name)) (f ⟨⟩) (fun _ => Inside block)
      Stopped) :
    Triple (· = t) (modifyGen (·.use construct name) >>= f) (fun _ => Inside block) Stopped := by
  apply Triple.bind (Q := fun _ => Looked block construct (t.gen.lookup name))
  · apply Triple.modify
    rintro s rfl
    exact use_looked construct name inside
  · exact fun _ => next

/-- The parser stops at a name that does not suit. -/
theorem looked_failWith {construct : Construct} {result : Option Symbol} (errorType : Nat) :
    Triple (Looked block construct result) (failWith errorType : ParseM α) (fun _ => Inside block)
      Stopped := by
  intro s looked
  exact ⟨looked.1.valid, .inr rfl⟩

/-- With a suitable answer, the parse goes on in its block. -/
theorem looked_suits {construct : Construct} {result : Option Symbol} {x : ParseM α}
    (suits : Suits construct result) (keeps : Keeps block x) :
    Triple (Looked block construct result) x (fun _ => Inside block) Stopped := by
  apply keeps.weaken
  intro s looked
  refine ⟨looked.1, ?_⟩
  intro event member unsuited
  rcases looked.2 event member unsuited with excused | ⟨unsuitable, -⟩
  · exact excused
  · exact absurd suits unsuitable

theorem looked_report {result : Option Symbol} (r : Report) :
    Triple (Looked block .assign result) (report r) (fun _ => Inside block) Stopped := by
  intro s looked
  refine ⟨looked.1, ?_⟩
  intro event member unsuited
  refine ⟨?_, List.append_ne_nil_of_right_ne_nil _ (by simp)⟩
  rcases looked.2 event member unsuited with excused | ⟨-, assigns⟩
  · exact excused.1
  · exact assigns rfl

theorem looked_checkAssigned (result : Option Symbol) :
    Triple (Looked block .assign result) (checkAssigned result)
      (fun _ => Inside block) Stopped := by
  unfold checkAssigned
  cases result with
  | none => exact looked_report _
  | some symbol =>
      dsimp only
      by_cases kind : symbol.kind = .varS
      · rw [if_neg (by simpa using kind)]
        exact looked_suits ⟨symbol, rfl, kind⟩ (.pure _)
      · rw [if_pos kind]
        exact looked_report _

theorem looked_loadFactor (result : Option Symbol) :
    Triple (Looked block .factor result) (loadFactor result) (fun _ => Inside block) Stopped := by
  unfold loadFactor
  cases result with
  | none => exact looked_failWith 11
  | some symbol =>
      cases kind : symbol.kind with
      | varS =>
          simp only [kind]
          exact looked_suits ⟨symbol, rfl, by simp [kind]⟩
            (keeps_modifyGen fun g => quiet_load g symbol)
      | constS =>
          simp only [kind]
          exact looked_suits ⟨symbol, rfl, by simp [kind]⟩
            (keeps_modifyGen fun g => quiet_literal g symbol.val)
      | procS =>
          simp only [kind]
          exact looked_failWith 21

theorem keeps_identFactor : Keeps block identFactor := by
  apply Triple.get_bind
  intro t inside
  apply keeps_use inside
  exact Triple.bind (looked_loadFactor _) fun _ => keeps_getToken.bind fun _ => .pure _

theorem keeps_numberFactor : Keeps block numberFactor :=
  .get fun t => .ite (keeps_failWith 25)
    ((keeps_modifyGen fun g => quiet_literal g t.curToken.numeric).bind fun _ =>
      keeps_getToken.bind fun _ => .pure _)

theorem keeps_leadingSign : Keeps block leadingSign :=
  .get fun _ => .ite (keeps_getToken.bind fun _ => .pure _) (.pure _)

theorem keeps_closeParen (fuel : Nat) (fsys : Symset) : Keeps block (closeParen fuel fsys) :=
  .get fun _ => .ite keeps_getToken (keeps_test fuel fsys _ 22)

mutual
theorem keeps_expressionParse : ∀ (fuel : Nat) (fsys : Symset),
    Keeps block (expressionParse fuel fsys)
  | 0, _ => keeps_throw
  | fuel + 1, _ =>
      keeps_leadingSign.bind fun _ => (keeps_termParse fuel _ _).bind fun _ =>
        (keeps_expressionLoop fuel _).bind fun _ => .pure _

theorem keeps_expressionLoop : ∀ (fuel : Nat) (set : Symset), Keeps block (expressionLoop fuel set)
  | 0, _ => keeps_throw
  | fuel + 1, set => by
      rw [expressionLoop]
      apply Keeps.get
      intro this
      apply Keeps.ite
      · exact keeps_getToken.bind fun _ => (keeps_termParse fuel _ set).bind fun _ =>
          (keeps_modifyGen fun g => quiet_calculate g _).bind fun _ =>
            (keeps_expressionLoop fuel set).bind fun _ => .pure _
      · exact .pure _

theorem keeps_termParse : ∀ (fuel : Nat) (preop : Token) (fsys : Symset),
    Keeps block (termParse fuel preop fsys)
  | 0, _, _ => keeps_throw
  | fuel + 1, preop, _ =>
      (keeps_factorParse fuel _).bind fun _ =>
        (keeps_modifyGen fun g => quiet_negate g preop).bind fun _ =>
          (keeps_termLoop fuel _).bind fun _ => .pure _

theorem keeps_termLoop : ∀ (fuel : Nat) (set : Symset), Keeps block (termLoop fuel set)
  | 0, _ => keeps_throw
  | fuel + 1, set => by
      rw [termLoop]
      apply Keeps.get
      intro this
      apply Keeps.ite
      · exact keeps_getToken.bind fun _ => (keeps_factorParse fuel set).bind fun _ =>
          (keeps_modifyGen fun g => quiet_calculate g _).bind fun _ =>
            (keeps_termLoop fuel set).bind fun _ => .pure _
      · exact .pure _

theorem keeps_factorParse : ∀ (fuel : Nat) (fsys : Symset), Keeps block (factorParse fuel fsys)
  | 0, _ => keeps_throw
  | fuel + 1, fsys => by
      rw [factorParse]
      apply (keeps_test fuel facbegsys fsys 24).bind
      intro _
      apply Keeps.get
      intro this
      generalize this.curToken.cToken = token
      split
      · exact keeps_identFactor
      · exact keeps_numberFactor
      · exact keeps_getToken.bind fun _ => (keeps_expressionParse fuel _).bind fun _ =>
          (keeps_closeParen fuel fsys).bind fun _ => .pure _
      · exact (keeps_test fuel fsys _ 23).bind fun _ => keeps_failWith 23
end

theorem keeps_relOp : Keeps block relOp :=
  .get fun _ => .ite (.pure _) (keeps_failWith 20)

theorem keeps_conditionParse (fuel : Nat) (fsys : Symset) :
    Keeps block (conditionParse fuel fsys) := by
  apply Keeps.get
  intro this
  apply Keeps.ite
  · exact keeps_getToken.bind fun _ => (keeps_expressionParse fuel fsys).bind fun _ =>
      (keeps_modifyGen quiet_testOdd).bind fun _ => .pure _
  · exact (keeps_expressionParse fuel _).bind fun _ => keeps_relOp.bind fun _ =>
      keeps_getToken.bind fun _ => (keeps_expressionParse fuel fsys).bind fun _ =>
        (keeps_modifyGen fun g => quiet_compare g _).bind fun _ => .pure _

theorem keeps_expectBecomes : Keeps block expectBecomes :=
  .get fun _ => .ite keeps_getToken
    (.ite ((keeps_report _).bind fun _ => keeps_getToken) (keeps_failWith 30))

theorem keeps_storeSymbol (sym : Option Symbol) : Keeps block (storeSymbol sym) := by
  unfold storeSymbol
  split
  · exact keeps_throw
  · exact keeps_modifyGen fun g => quiet_becomes g _

theorem keeps_assignParse (fuel : Nat) (fsys : Symset) : Keeps block (assignParse fuel fsys) := by
  apply Triple.get_bind
  intro t inside
  apply keeps_use inside
  exact (looked_checkAssigned _).bind fun _ => keeps_getToken.bind fun _ =>
    keeps_expectBecomes.bind fun _ => (keeps_expressionParse fuel fsys).bind fun _ =>
      (keeps_storeSymbol _).bind fun _ => .pure _

theorem looked_callKnown (result : Option Symbol) :
    Triple (Looked block .call result) (callKnown result) (fun _ => Inside block) Stopped := by
  unfold callKnown
  cases result with
  | none => exact looked_failWith 11
  | some symbol =>
      dsimp only
      by_cases kind : symbol.kind = .procS
      · rw [if_neg (by simpa using kind)]
        exact looked_suits ⟨symbol, rfl, kind⟩ (keeps_modifyGen fun g => quiet_callSymbol g symbol)
      · rw [if_pos kind]
        exact looked_failWith 15

theorem looked_readKnown (result : Option Symbol) :
    Triple (Looked block .read result) (readKnown result) (fun _ => Inside block) Stopped := by
  unfold readKnown
  cases result with
  | none => exact looked_failWith 11
  | some symbol =>
      dsimp only
      by_cases kind : symbol.kind = .varS
      · rw [if_neg (by simpa using kind)]
        exact looked_suits ⟨symbol, rfl, kind⟩ (keeps_modifyGen fun g => quiet_readSymbol g symbol)
      · rw [if_pos kind]
        exact looked_failWith 27

theorem looked_writeKnown (result : Option Symbol) :
    Triple (Looked block .write result) (writeKnown result) (fun _ => Inside block) Stopped := by
  unfold writeKnown
  cases result with
  | none => exact looked_failWith 11
  | some symbol =>
      dsimp only
      by_cases kind : symbol.kind = .varS ∨ symbol.kind = .constS
      · rw [if_pos kind]
        have suitable : symbol.kind ≠ .procS := by
          rcases kind with kind | kind <;> simp [kind]
        exact looked_suits ⟨symbol, rfl, suitable⟩
          (keeps_modifyGen fun g => quiet_writeSymbol g symbol)
      · rw [if_neg kind]
        exact looked_failWith 27

theorem keeps_nameStatement {construct : Construct} {known : Option Symbol → ParseM Unit}
    (knows : ∀ result, Triple (Looked block construct result) (known result)
      (fun _ => Inside block) Stopped) (errorType : Nat) (node : Name → StatementNode) :
    Keeps block (nameStatement errorType construct known node) := by
  apply keeps_getToken.bind
  intro _
  apply (keeps_expectIdent errorType).bind
  intro name
  apply Triple.get_bind
  intro t inside
  apply keeps_use inside
  exact Triple.bind (knows _) fun _ => keeps_getToken.bind fun _ => .pure _

theorem keeps_recordStatement {body : Bool} {parse : ParseM StatementNode}
    (keeps : Keeps block parse) : Keeps block (recordStatement body parse) := by
  apply Keeps.get
  intro before
  apply keeps.bind
  intro node
  apply Keeps.bind
  · apply keeps_modifyGen
    intro g
    exact quiet_of_event (.statement _ _ _ _ _ node) trivial rfl rfl rfl rfl rfl
  · exact fun _ => .pure _

theorem keeps_separator : Keeps block separator :=
  .get fun _ => .ite keeps_getToken ((keeps_report _).bind fun _ => keeps_report _)

theorem keeps_finishIf (j2 : Int) : Keeps block (finishIf j2) :=
  (keeps_modifyGen fun g => quiet_addRegister g (-1)).bind fun _ =>
    keeps_modifyGen fun g => quiet_emit g _

mutual
theorem keeps_statementParse : ∀ (fuel : Nat) (fsys : Symset),
    Keeps block (statementParse fuel fsys)
  | 0, _ => keeps_throw
  | fuel + 1, fsys => by
      rw [statementParse]
      apply Keeps.get
      intro this
      generalize this.curToken.cToken = token
      split
      · exact keeps_assignParse fuel fsys
      · exact keeps_nameStatement looked_callKnown 14 .call
      · exact keeps_getToken.bind fun _ =>
          (keeps_recordStatement (keeps_statementParse fuel _)).bind fun _ =>
            (keeps_beginLoop fuel _).bind fun _ => (keeps_expectToken _ 26).bind fun _ =>
              (keeps_modifyGen quiet_finishBegin).bind fun _ => .pure _
      · apply keeps_getToken.bind
        intro _
        apply (keeps_conditionParse fuel _).bind
        intro cond
        apply (keeps_expectToken .thensym 16).bind
        intro _
        apply Keeps.get
        intro j1
        apply (keeps_modifyGen fun g => quiet_emit g _).bind
        intro _
        apply (keeps_recordStatement (keeps_statementParse fuel fsys)).bind
        intro ifsts
        apply Keeps.get
        intro j2
        apply (keeps_modifyGen fun g => quiet_emit g _).bind
        intro _
        apply (keeps_modifyGen fun g => quiet_emit g _).bind
        intro _
        apply Keeps.get
        intro this
        apply Keeps.ite
        · exact keeps_getToken.bind fun _ =>
            (keeps_recordStatement (keeps_statementParse fuel fsys)).bind fun _ =>
              (keeps_finishIf _).bind fun _ => .pure _
        · exact (keeps_finishIf _).bind fun _ => .pure _
      · apply keeps_getToken.bind
        intro _
        apply Keeps.get
        intro c
        apply (keeps_conditionParse fuel _).bind
        intro cond
        apply (keeps_expectToken .dosym 18).bind
        intro _
        apply Keeps.get
        intro j1
        apply (keeps_modifyGen fun g => quiet_emit g _).bind
        intro _
        apply (keeps_recordStatement (keeps_statementParse fuel fsys)).bind
        intro sts
        apply Keeps.get
        intro j2
        apply (keeps_modifyGen fun g => quiet_emit g _).bind
        intro _
        apply (keeps_modifyGen fun g => quiet_emit g _).bind
        intro _
        apply (keeps_modifyGen fun g => quiet_emit g _).bind
        intro _
        exact (keeps_modifyGen fun g => quiet_addRegister g (-1)).bind fun _ => .pure _
      · exact keeps_nameStatement looked_readKnown 27 .read
      · exact keeps_nameStatement looked_writeKnown 28 .write
      · exact (keeps_test fuel fsys phi 19).bind fun _ => .pure _

theorem keeps_beginLoop : ∀ (fuel : Nat) (set : Symset), Keeps block (beginLoop fuel set)
  | 0, _ => keeps_throw
  | fuel + 1, set => by
      rw [beginLoop]
      apply Keeps.get
      intro this
      apply Keeps.ite
      · exact keeps_separator.bind fun _ =>
          (keeps_recordStatement (keeps_statementParse fuel set)).bind fun _ =>
            (keeps_beginLoop fuel set).bind fun _ => .pure _
      · exact .pure _
end

theorem declarations_declare (events : List Event) (scope : List Int) (symbol : Symbol) :
    declarations (events ++ [.declare scope symbol]) = declarations events ++
      [(scope, symbol)] := by
  rw [declarations_append]
  rfl

/-- A new symbol goes to the table and to the history at once. -/
theorem putNew_scoped {g : GenState} (inside : Scoped block g) {symbol : Symbol}
    (level : symbol.level = g.globalLevel) (id : symbol.id = g.allocated) :
    Scoped block (g.putNew symbol) := by
  refine ⟨?_, ?_, inside.scope, inside.level, ?_⟩
  · apply inside.valid.append
    refine ⟨?_, id.trans inside.allocated⟩
    rw [level, inside.level, inside.scope]
  · change (putSymbol g.symbolTable symbol.name symbol).2 =
      tableOf (g.trace ++ [.declare g.scope symbol])
    unfold tableOf putSymbols
    rw [declarations_declare, List.map_append, List.foldl_append, inside.table]
    rfl
  · change g.allocated + 1 = (declarations (g.trace ++ [.declare g.scope symbol])).length
    rw [declarations_declare, List.length_append, inside.allocated]
    rfl

theorem putNew_excused {s : ParseState} {g : GenState} (trace : g.trace = s.gen.trace)
    (excused : Excused s) (symbol : Symbol) : Excused { s with gen := g.putNew symbol } := by
  intro event member unsuited
  change event ∈ g.trace ++ [.declare g.scope symbol] at member
  rw [trace] at member
  rcases List.mem_append.mp member with early | late
  · exact excused event early unsuited
  · rw [List.mem_singleton.mp late] at unsuited
    exact unsuited.elim

theorem keeps_makeConst (name : Name) (value : Int) :
    Keeps block (modifyGen (·.makeConst name value)) :=
  Triple.modify fun _ inside =>
    ⟨putNew_scoped inside.1 rfl rfl, putNew_excused rfl inside.2 _⟩

theorem keeps_makeVar (name : Name) : Keeps block (modifyGen (·.makeVar name)) :=
  Triple.modify fun s inside => by
    let offsets := Function.update s.gen.offsetArray s.gen.globalLevel
      (s.gen.offsetArray s.gen.globalLevel + 1)
    have moved : Scoped block { s.gen with offsetArray := offsets } :=
      ⟨inside.1.valid, inside.1.table, inside.1.scope, inside.1.level, inside.1.allocated⟩
    exact ⟨putNew_scoped moved rfl rfl, putNew_excused rfl inside.2 _⟩

theorem quiet_getFreeSet (g : GenState) : Quiet g g.getFreeSet.2 := by
  unfold GenState.getFreeSet
  split <;> exact quiet_of_trace rfl rfl rfl rfl rfl

theorem getFreeSet_trace (g : GenState) : g.getFreeSet.2.trace = g.trace := by
  unfold GenState.getFreeSet
  split <;> rfl

theorem keeps_makeProc (name : Name) : Keeps block (modifyGen (·.makeProc name)) :=
  Triple.modify fun s inside => by
    let counted := { s.gen with procedureCount := s.gen.procedureCount + 1 }
    let entered := { counted.getFreeSet.2 with currentProcedure := counted.getFreeSet.1 }
    have next : Quiet s.gen counted := quiet_of_trace rfl rfl rfl rfl rfl
    have free := quiet_getFreeSet counted
    have holds := free.keeps (next.keeps inside.1)
    have inner : Scoped block entered :=
      ⟨holds.valid, holds.table, holds.scope, holds.level, holds.allocated⟩
    have kept : entered.trace = s.gen.trace := getFreeSet_trace counted
    refine ⟨putNew_scoped inner ?_ ?_, putNew_excused kept inside.2 _⟩
    · exact free.globalLevel.symm
    · exact free.allocated.symm

theorem keeps_readOffset : Keeps block readOffset :=
  .get fun _ => .ite (.pure _) keeps_throw

theorem keeps_linkNode (first tail : Bool) : Keeps block (linkNode first tail) :=
  .ite (.pure _) keeps_throw

theorem keeps_constItem : Keeps block constItem :=
  keeps_getToken.bind fun _ => (keeps_expectIdent 4).bind fun _ => keeps_getToken.bind fun _ =>
    Keeps.bind (.get fun _ => .ite (.pure _) (.ite (keeps_failWith 1) (keeps_failWith 3))) fun _ =>
      keeps_getToken.bind fun _ =>
        Keeps.bind (.get fun _ => .ite (.ite (keeps_failWith 25) (.pure _))
          (keeps_failWith 2)) fun _ =>
          keeps_readOffset.bind fun _ => .get fun _ => (keeps_makeConst _ _).bind fun _ =>
            keeps_getToken.bind fun _ => .pure _

theorem keeps_varItem : Keeps block varItem :=
  keeps_getToken.bind fun _ => (keeps_expectIdent 4).bind fun _ => keeps_readOffset.bind fun _ =>
    .get fun _ => (keeps_makeVar _).bind fun _ => keeps_getToken.bind fun _ => .pure _

theorem keeps_sectionLoop {item : ParseM α} (keeps : Keeps block item) (fuel : Nat) (nodes : List α)
    (tail : Bool) : Keeps block (sectionLoop item fuel nodes tail) := by
  induction fuel generalizing nodes tail with
  | zero => exact keeps_throw
  | succ fuel ih =>
      exact (keeps_linkNode _ tail).bind fun _ => keeps.bind fun _ => .get fun _ =>
        .ite (ih _ true) ((keeps_expectToken .semicolonsym 5).bind fun _ => .pure _)

theorem keeps_constSection (fuel : Nat) (nodes : List ConstDeclNode) :
    Keeps block (constSection fuel nodes) :=
  .get fun _ => .ite (keeps_sectionLoop keeps_constItem fuel nodes false) (.pure _)

theorem keeps_varSection (fuel : Nat) (nodes : List VarDeclNode) :
    Keeps block (varSection fuel nodes) :=
  .get fun _ => .ite (keeps_sectionLoop keeps_varItem fuel nodes false) (.pure _)

/-- A nested block keeps to a scope of its own. -/
theorem keeps_nested {x : ParseM α} (keeps : ∀ procedure, Keeps (procedure :: block) x)
    {f : α → ParseM β} (next : ∀ a, Keeps block (f a)) :
    Keeps block (do modifyGen (·.openBlock); let a ← x; modifyGen (·.closeBlock); f a) := by
  have opened : Triple (Inside block) (modifyGen (·.openBlock))
      (fun _ s => ∃ procedure, Inside (procedure :: block) s) Stopped :=
    Triple.modify fun s inside => by
      refine ⟨s.gen.procedureCount, ⟨inside.1.valid, inside.1.table, ?_, ?_, inside.1.allocated⟩,
        inside.2⟩
      · change s.gen.procedureCount :: s.gen.scope = _
        rw [inside.1.scope]
      · change s.gen.globalLevel + 1 = _
        rw [inside.1.level, List.length_cons]
        push_cast
        omega
  have closed : Triple (fun s => ∃ procedure, Inside (procedure :: block) s)
    (modifyGen (·.closeBlock))
      (fun _ => Inside block) Stopped :=
    Triple.modify fun s inside => by
      obtain ⟨procedure, holds, excused⟩ := inside
      refine ⟨⟨holds.valid, holds.table, ?_, ?_, holds.allocated⟩, excused⟩
      · change s.gen.scope.tail = _
        rw [holds.scope]
        rfl
      · change s.gen.globalLevel - 1 = _
        rw [holds.level, List.length_cons]
        push_cast
        omega
  exact opened.bind fun _ => (Triple.exists keeps).bind fun a => closed.bind fun _ => next a

end Keeps

mutual
theorem keeps_blockParse : ∀ (fuel : Nat) (fsys : Symset) (block : List Int),
    Keeps block (blockParse fuel fsys)
  | 0, _, _ => keeps_throw
  | fuel + 1, fsys, block =>
      (keeps_declarationLoop fuel fsys _ _ _ block).bind fun _ =>
        (keeps_recordStatement (keeps_statementParse fuel _)).bind fun _ =>
          (keeps_test fuel fsys phi 8).bind fun _ => .pure _

theorem keeps_declarationLoop : ∀ (fuel : Nat) (fsys : Symset) (constDecl : List ConstDeclNode)
    (varDecl : List VarDeclNode) (procDef : ProdefList) (block : List Int),
    Keeps block (declarationLoop fuel fsys constDecl varDecl procDef)
  | 0, _, _, _, _, _ => keeps_throw
  | fuel + 1, fsys, constDecl, varDecl, procDef, block => by
      rw [declarationLoop]
      apply (keeps_constSection fuel constDecl).bind
      intro constDecl
      apply (keeps_varSection fuel varDecl).bind
      intro varDecl
      apply Keeps.get
      intro this
      apply (keeps_procedureLoop fuel fsys _ procDef false block).bind
      intro procDef
      apply Keeps.bind
      · apply keeps_modifyGen
        exact fun g => quiet_of_trace rfl rfl rfl rfl rfl
      intro _
      apply (keeps_test fuel _ declbegsys 7).bind
      intro _
      apply Keeps.get
      intro this
      apply Keeps.ite
      · exact keeps_declarationLoop fuel fsys constDecl varDecl procDef block
      · exact .pure _

theorem keeps_procedureLoop : ∀ (fuel : Nat) (fsys : Symset) (oldProcedure : Int)
    (procDef : ProdefList) (tail : Bool) (block : List Int),
    Keeps block (procedureLoop fuel fsys oldProcedure procDef tail)
  | 0, _, _, _, _, _ => keeps_throw
  | fuel + 1, fsys, oldProcedure, procDef, tail, block => by
      rw [procedureLoop]
      apply Keeps.get
      intro this
      apply Keeps.ite
      · apply (keeps_linkNode _ tail).bind
        intro _
        apply keeps_getToken.bind
        intro _
        apply (keeps_expectIdent 4).bind
        intro name
        apply (keeps_makeProc name).bind
        intro _
        apply Keeps.get
        intro made
        apply keeps_getToken.bind
        intro _
        apply (keeps_expectToken .semicolonsym 6).bind
        intro _
        apply keeps_nested fun procedure => keeps_blockParse fuel _ (procedure :: block)
        intro body
        exact (keeps_expectToken .semicolonsym 6).bind fun _ =>
          (keeps_test fuel _ fsys 6).bind fun _ =>
          (keeps_modifyGen fun g => quiet_emit g _).bind fun _ =>
            keeps_procedureLoop fuel fsys oldProcedure _ true block
      · exact .pure _
end

theorem keeps_programParse (fuel : Nat) (block : List Int) : Keeps block (programParse fuel) := by
  apply Keeps.bind
  · apply keeps_modifyGen
    exact fun g => quiet_of_trace rfl rfl rfl rfl rfl
  intro _
  apply keeps_getToken.bind
  intro _
  apply Keeps.bind
  · apply keeps_modifyGen
    intro g
    have free := quiet_getFreeSet g
    exact ⟨free.symbolTable, free.globalLevel, free.scope, free.allocated, free.trace⟩
  intro _
  apply (keeps_blockParse fuel _ block).bind
  intro body
  apply Keeps.bind
  · exact .get fun _ => .ite (.pure _) (.ite (keeps_report _) (keeps_failWith 9))
  intro _
  exact (keeps_modifyGen fun g => quiet_emit g _).bind fun _ =>
    (keeps_modifyGen fun g => quiet_emit g _).bind fun _ => .pure _

theorem initParse_inside (tokens : List CurrentToken) : Inside [0] (initParse tokens) := by
  refine ⟨⟨?_, rfl, rfl, rfl, rfl⟩, fun _ none => absurd none List.not_mem_nil⟩
  intro before event after split
  exact absurd split (by simp [initParse, initGen])

end Pl0
