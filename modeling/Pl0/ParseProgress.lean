import Pl0.ParseRuns
import Pl0.ScopeRuns

set_option autoImplicit false

namespace Pl0

open StateExcept

/-- What a parse may still read. The end of the file counts while it has not been seen. -/
def ParseState.remaining (s : ParseState) : Nat :=
  s.tokenFile.length + (if s.feof then 0 else 1) + (if s.curToken.cToken = .nulsym then 0 else 1)

/-- Ways to stop without a result: the parser gives up with -1, it uses up fuel that is
not `enough`, or it runs into a fault where `faults` allows it. -/
def Stop.Allowed (enough faults : Prop) : Stop → Prop
  | .ret code => code = -1
  | .fuel => ¬ enough
  | .fault _ => faults

/-- Run from `s`, the computation lets the history and the reports only grow and reads
nothing twice, and it stops in the allowed ways only. -/
structure Advances {α : Type} (enough faults : Prop) (x : ParseM α) (s : ParseState) : Prop where
  trace : s.gen.trace <+: (stateOf (x s)).gen.trace
  reports : s.reports <+: (stateOf (x s)).reports
  remaining : (stateOf (x s)).remaining ≤ s.remaining
  stops : ∀ stop s', x s = .error stop s' → stop.Allowed enough faults

/-- A computation that takes no fuel and has no fault. -/
def Advancing {α : Type} (x : ParseM α) : Prop :=
  ∀ enough faults s, Advances enough faults x s

theorem scanToken_length (file : List CurrentToken) (cur : CurrentToken) :
    (scanToken file cur).2.length + 1 ≤ file.length ∨
      file = [] ∧ scanToken file cur = (cur, []) := by
  induction file generalizing cur with
  | nil => exact .inr ⟨rfl, rfl⟩
  | cons token rest ih =>
      left
      rw [scanToken]
      split
      · split
        · rename_i last
          rw [last]
          simp
        · rename_i more
          rcases ih token with shorter | ⟨none, -⟩
          · rw [List.length_cons]
            omega
          · exact absurd none more
      · simp

/-- A read takes a token from what remains, or the end of the file. -/
theorem getToken_remaining {s s' : ParseState} (read : getToken s = .ok () s') :
    s'.remaining ≤ s.remaining ∧
      (s.curToken.cToken ≠ .nulsym → s'.remaining < s.remaining) := by
  have next := modify_eq_ok.mp read
  subst next
  unfold ParseState.remaining
  split
  · rename_i atEnd
    rw [atEnd]
    simp only [if_true]
    constructor
    · omega
    · intro some
      rw [if_neg some]
      omega
  · rename_i inside
    dsimp only
    have current :
        (if (scanToken s.tokenFile s.curToken).1.cToken = .nulsym then 0 else 1) ≤ 1 := by
      split <;> omega
    have file : (if (scanToken s.tokenFile s.curToken).2.isEmpty = true then 0 else 1) ≤ 1 := by
      split <;> omega
    rcases scanToken_length s.tokenFile s.curToken with shorter | ⟨none, same⟩
    · constructor
      · omega
      · intro some
        rw [if_neg some]
        omega
    · rw [none] at same ⊢
      rw [same]
      simp only [List.isEmpty_nil, if_true, List.length_nil]
      omega

theorem getToken_kept {s s' : ParseState} (read : getToken s = .ok () s') :
    s'.gen = s.gen ∧ s'.reports = s.reports := by
  have next := modify_eq_ok.mp read
  subst next
  split <;> exact ⟨rfl, rfl⟩

section Advances

variable {α β : Type} {enough faults : Prop} {x : ParseM α} {s : ParseState}

theorem Stop.Allowed.when {other : Prop} {stop : Stop} (allowed : stop.Allowed other faults)
    (implied : enough → other) : stop.Allowed enough faults := by
  cases stop with
  | ret code => exact allowed
  | fault f => exact allowed
  | fuel => exact fun holds => allowed (implied holds)

theorem Advances.when {other : Prop} (advances : Advances other faults x s)
    (implied : enough → other) :
    Advances enough faults x s :=
  ⟨advances.trace, advances.reports, advances.remaining, fun stop s' stopped =>
    (advances.stops stop s' stopped).when implied⟩

theorem Advances.faulty (advances : Advances enough faults x s) : Advances enough True x s :=
  ⟨advances.trace, advances.reports, advances.remaining, fun stop s' stopped => by
    have allowed := advances.stops stop s' stopped
    cases stop with
    | ret code => exact allowed
    | fault f => trivial
    | fuel => exact allowed⟩

theorem Advances.ok {s' : ParseState} {a : α} (returned : x s = .ok a s')
    (trace : s.gen.trace <+: s'.gen.trace) (reports : s.reports <+: s'.reports)
    (remaining : s'.remaining ≤ s.remaining) : Advances enough faults x s := by
  constructor
  · rw [returned]
    exact trace
  · rw [returned]
    exact reports
  · rw [returned]
    exact remaining
  · intro stop s'' stopped
    rw [returned] at stopped
    cases stopped

theorem Advances.bind {f : α → ParseM β} (first : Advances enough faults x s)
    (next : ∀ a s', x s = .ok a s' → s'.remaining ≤ s.remaining → Advances enough faults (f a) s') :
    Advances enough faults (x >>= f) s := by
  obtain ⟨trace, reports, remaining, stops⟩ := first
  cases run : x s with
  | ok a s' =>
      rw [run] at trace reports remaining
      have second := next a s' run remaining
      constructor
      · rw [bind_of_ok run]
        exact trace.trans second.trace
      · rw [bind_of_ok run]
        exact reports.trans second.reports
      · rw [bind_of_ok run]
        exact Nat.le_trans second.remaining remaining
      · rw [bind_of_ok run]
        exact second.stops
  | error e s' =>
      rw [run] at trace reports remaining
      constructor
      · rw [bind_of_error run]
        exact trace
      · rw [bind_of_error run]
        exact reports
      · rw [bind_of_error run]
        exact remaining
      · intro stop s'' stopped
        rw [bind_of_error run] at stopped
        injection stopped with same
        exact stops stop s' (by rw [run, same])

/-- A `get` sees the state it runs in. -/
theorem Advances.get {f : ParseState → ParseM β} (next : Advances enough faults (f s) s) :
    Advances enough faults (MonadState.get >>= f) s :=
  ⟨next.trace, next.reports, next.remaining, next.stops⟩

theorem advances_throw {stop : Stop} (allowed : stop.Allowed enough faults) :
    Advances enough faults (throw stop : ParseM α) s := by
  refine ⟨List.prefix_rfl, List.prefix_rfl, Nat.le_refl _, ?_⟩
  intro stop' s' stopped
  injection stopped with same
  exact same ▸ allowed

/-- Without fuel nothing is parsed. -/
theorem advances_fuel (never : ¬ enough) : Advances enough faults (throw .fuel : ParseM α) s :=
  advances_throw never

theorem advances_pure (a : α) : Advances enough faults (Pure.pure a : ParseM α) s :=
  .ok rfl List.prefix_rfl List.prefix_rfl (Nat.le_refl _)

theorem advances_getToken : Advances enough faults getToken s := by
  cases read : getToken s with
  | error e s' => cases read
  | ok u s' =>
      obtain ⟨gen, reports⟩ := getToken_kept read
      exact .ok read (gen ▸ List.prefix_rfl) (reports ▸ List.prefix_rfl) (getToken_remaining read).1

/-- Behind a token that was there, less remains. -/
theorem Advances.read {f : Unit → ParseM β} (some : s.curToken.cToken ≠ .nulsym)
    (next : ∀ s', s'.remaining < s.remaining → Advances enough faults (f ()) s') :
    Advances enough faults (getToken >>= f) s :=
  advances_getToken.bind fun _ s' read _ => next s' ((getToken_remaining read).2 some)

end Advances

section Advancing

variable {α β : Type}

theorem advancing_pure (a : α) : Advancing (Pure.pure a : ParseM α) :=
  fun _ _ _ => advances_pure a

theorem Advancing.bind {x : ParseM α} {f : α → ParseM β} (first : Advancing x)
    (next : ∀ a, Advancing (f a)) : Advancing (x >>= f) :=
  fun _ _ s => (first _ _ s).bind fun a s' _ _ => next a _ _ s'

theorem Advancing.get {f : ParseState → ParseM β} (next : ∀ t, Advancing (f t)) :
    Advancing (MonadState.get >>= f) :=
  fun _ _ s => .get (next s _ _ s)

theorem Advancing.ite {c : Prop} [Decidable c] {x y : ParseM α} (yes : Advancing x)
    (no : Advancing y) : Advancing (if c then x else y) := by
  split
  · exact yes
  · exact no

theorem advancing_modifyGen {f : GenState → GenState} (grows : ∀ g, g.trace <+: (f g).trace) :
    Advancing (modifyGen f) :=
  fun _ _ s => .ok rfl (grows s.gen) List.prefix_rfl (Nat.le_refl _)

theorem advancing_quiet {f : GenState → GenState} (quiet : ∀ g, Quiet g (f g)) :
    Advancing (modifyGen f) :=
  advancing_modifyGen fun g => by
    obtain ⟨events, grown, -⟩ := (quiet g).trace
    exact ⟨events, grown.symm⟩

theorem advancing_event {f : GenState → GenState}
    (grows : ∀ g, ∃ event, (f g).trace = g.trace ++ [event]) : Advancing (modifyGen f) :=
  advancing_modifyGen fun g => by
    obtain ⟨event, grown⟩ := grows g
    exact ⟨[event], grown.symm⟩

theorem advancing_same {f : GenState → GenState} (same : ∀ g, (f g).trace = g.trace) :
    Advancing (modifyGen f) :=
  advancing_modifyGen fun g => (same g).symm ▸ List.prefix_rfl

theorem advancing_emit (generate : GenState → CodeSets → Int → CodeSets) :
    Advancing (modifyGen fun g => g.emit (generate g)) :=
  advancing_quiet fun g => quiet_emit g _

theorem advancing_use (construct : Construct) (name : Name) :
    Advancing (modifyGen (·.use construct name)) :=
  advancing_event fun _ => ⟨_, rfl⟩

theorem advancing_report (r : Report) : Advancing (report r) :=
  fun _ _ _ => .ok rfl List.prefix_rfl (List.prefix_append _ _) (Nat.le_refl _)

theorem advancing_getToken : Advancing getToken :=
  fun _ _ _ => advances_getToken

theorem advancing_failWith (errorType : Nat) : Advancing (failWith errorType : ParseM α) :=
  (advancing_report _).bind fun _ _ _ _ =>
    advances_throw (show Stop.Allowed _ _ (.ret (-1)) from rfl)

theorem advancing_expectToken (token : Token) (errorType : Nat) :
    Advancing (expectToken token errorType) :=
  .get fun _ => .ite advancing_getToken (advancing_failWith _)

theorem advancing_expectIdent (errorType : Nat) : Advancing (expectIdent errorType) :=
  .get fun _ => .ite (advancing_pure _) (advancing_failWith _)

theorem advancing_loadFactor (sym : Option Symbol) : Advancing (loadFactor sym) := by
  unfold loadFactor
  split
  · exact advancing_failWith 11
  · split
    · exact advancing_quiet fun g => quiet_load g _
    · exact advancing_quiet fun g => quiet_literal g _
    · exact advancing_failWith 21

theorem advancing_identFactor : Advancing identFactor :=
  .get fun _ => (advancing_use _ _).bind fun _ => (advancing_loadFactor _).bind fun _ =>
    advancing_getToken.bind fun _ => advancing_pure _

theorem advancing_numberFactor : Advancing numberFactor :=
  .get fun _ => .ite (advancing_failWith 25) ((advancing_quiet fun g => quiet_literal g _).bind
    fun _ => advancing_getToken.bind fun _ => advancing_pure _)

theorem advancing_leadingSign : Advancing leadingSign :=
  .get fun _ => .ite (advancing_getToken.bind fun _ => advancing_pure _) (advancing_pure _)

theorem advancing_relOp : Advancing relOp :=
  .get fun _ => .ite (advancing_pure _) (advancing_failWith 20)

theorem advancing_checkAssigned (sym : Option Symbol) : Advancing (checkAssigned sym) := by
  unfold checkAssigned
  split
  · exact advancing_report _
  · exact .ite (advancing_report _) (advancing_pure _)

theorem advancing_expectBecomes : Advancing expectBecomes :=
  .get fun _ => .ite advancing_getToken
    (.ite ((advancing_report _).bind fun _ => advancing_getToken) (advancing_failWith 30))

theorem advances_storeSymbol (enough : Prop) (sym : Option Symbol) (s : ParseState) :
    Advances enough (sym = none) (storeSymbol sym) s := by
  unfold storeSymbol
  split
  · exact advances_throw rfl
  · exact advancing_quiet (fun g => quiet_becomes g _) _ _ s

theorem advancing_callKnown (sym : Option Symbol) : Advancing (callKnown sym) := by
  unfold callKnown
  split
  · exact advancing_failWith 11
  · exact .ite (advancing_failWith 15) (advancing_quiet fun g => quiet_callSymbol g _)

theorem advancing_readKnown (sym : Option Symbol) : Advancing (readKnown sym) := by
  unfold readKnown
  split
  · exact advancing_failWith 11
  · exact .ite (advancing_failWith 27) (advancing_quiet fun g => quiet_readSymbol g _)

theorem advancing_writeKnown (sym : Option Symbol) : Advancing (writeKnown sym) := by
  unfold writeKnown
  split
  · exact advancing_failWith 11
  · exact .ite (advancing_quiet fun g => quiet_writeSymbol g _) (advancing_failWith 27)

theorem advancing_noteStatement (body : Bool) (node : StatementNode) (start : Int) :
    Advancing (modifyGen fun g => g.record (.statement g.scope body g.currentProcedure start
      ((g.code g.currentProcedure).drop start.toNat) node)) :=
  advancing_event fun _ => ⟨_, rfl⟩

theorem advancing_separator : Advancing separator :=
  .get fun _ => .ite advancing_getToken
    ((advancing_report _).bind fun _ => advancing_report _)

theorem advancing_finishIf (j2 : Int) : Advancing (finishIf j2) :=
  (advancing_quiet fun g => quiet_addRegister g (-1)).bind fun _ => advancing_emit _

theorem advancing_makeProc (name : Name) : Advancing (modifyGen (·.makeProc name)) := by
  apply advancing_event
  intro g
  unfold GenState.makeProc GenState.putNew
  exact ⟨_, congrArg (· ++ _) (getFreeSet_trace _)⟩

theorem advancing_makeConst (name : Name) (value : Int) :
    Advancing (modifyGen (·.makeConst name value)) :=
  advancing_event fun _ => ⟨_, rfl⟩

theorem advancing_makeVar (name : Name) : Advancing (modifyGen (·.makeVar name)) :=
  advancing_event fun _ => ⟨_, rfl⟩

theorem advancing_expectEql : Advancing expectEql :=
  .get fun _ => .ite (advancing_pure _) (.ite (advancing_failWith 1) (advancing_failWith 3))

theorem advancing_constValue : Advancing constValue :=
  .get fun _ => .ite (.ite (advancing_failWith 25) (advancing_pure _)) (advancing_failWith 2)

theorem advancing_openBlock : Advancing (modifyGen (·.openBlock)) :=
  advancing_same fun _ => rfl

theorem advancing_closeBlock : Advancing (modifyGen (·.closeBlock)) :=
  advancing_same fun _ => rfl

theorem advancing_restore (set : Int) :
    Advancing (modifyGen fun g => { g with currentProcedure := set }) :=
  advancing_same fun _ => rfl

/-- The level has an entry in `offsetArray`. -/
def LevelInside (s : ParseState) : Prop :=
  0 ≤ s.gen.globalLevel ∧ s.gen.globalLevel < maxLexiLevels

theorem advances_readOffset (enough : Prop) (s : ParseState) :
    Advances enough (¬ LevelInside s) readOffset s := by
  apply Advances.get
  split
  · exact advances_pure _
  · rename_i outside
    exact advances_throw outside

theorem advances_linkNode (enough : Prop) (first tail : Bool) (s : ParseState) :
    Advances enough ((first || tail) = false) (linkNode first tail) s := by
  unfold linkNode
  split
  · exact advances_pure _
  · rename_i missing
    exact advances_throw (Bool.eq_false_iff.mpr missing)

end Advancing

section Recursion

variable {enough faults : Prop}

theorem advances_skipLoop (set : Symset) : ∀ (fuel : Nat) (s : ParseState),
    Advances (s.remaining < fuel) faults (skipLoop set fuel) s
  | 0, s => advances_fuel (Nat.not_lt_zero _)
  | fuel + 1, s => by
      rw [skipLoop]
      apply Advances.get
      split
      · exact advances_pure ()
      · rename_i outside
        apply (advancing_report _ _ _ s).bind
        intro _ t reported _
        have same := modify_eq_ok.mp reported
        subst same
        refine Advances.read (fun none => outside (.inr none)) ?_
        intro s' less
        apply (advances_skipLoop set fuel s').when
        intro small
        exact Nat.lt_of_lt_of_le less (Nat.le_of_lt_succ small)

theorem advances_test (fuel : Nat) (s1 s2 : Symset) (errorType : Nat) (s : ParseState) :
    Advances (s.remaining < fuel) faults (test fuel s1 s2 errorType) s := by
  apply Advances.get
  split
  · exact advances_pure ()
  · apply (advancing_report _ _ _ s).bind
    intro _ t _ less
    apply (advancing_report _ _ _ t).bind
    intro _ t' _ less'
    exact (advances_skipLoop _ fuel t').when fun small => by omega

theorem advances_closeParen (fuel : Nat) (fsys : Symset) (s : ParseState) :
    Advances (s.remaining < fuel) faults (closeParen fuel fsys) s := by
  apply Advances.get
  split
  · exact advances_getToken
  · exact advances_test fuel fsys _ 22 s

/- The recursion is on the fuel. A call that reads a token first leaves less to its
callees, so that four units of fuel for a token are enough. -/
mutual
theorem advances_expressionParse : ∀ (fuel : Nat) (fsys : Symset) (s : ParseState),
    Advances (4 * s.remaining + 4 ≤ fuel) faults (expressionParse fuel fsys) s
  | 0, _, _ => advances_fuel (by omega)
  | fuel + 1, _, s => by
      apply (advancing_leadingSign _ _ s).bind
      intro preop s1 _ less1
      apply ((advances_termParse fuel preop _ s1).when fun _ => by omega).bind
      intro term s2 _ less2
      apply ((advances_expressionLoop fuel _ s2).when fun _ => by omega).bind
      exact fun rest s3 _ _ => advances_pure _

theorem advances_expressionLoop : ∀ (fuel : Nat) (set : Symset) (s : ParseState),
    Advances (4 * s.remaining + 1 ≤ fuel) faults (expressionLoop fuel set) s
  | 0, _, _ => advances_fuel (by omega)
  | fuel + 1, set, s => by
      rw [expressionLoop]
      apply Advances.get
      dsimp only
      split
      · rename_i operator
        apply Advances.read (by rcases operator with plus | minus <;> simp [*])
        intro s1 less1
        apply ((advances_termParse fuel _ set s1).when fun _ => by omega).bind
        intro term s2 _ less2
        apply (advancing_quiet (fun g => quiet_calculate g _) _ _ s2).bind
        intro _ s3 _ less3
        apply ((advances_expressionLoop fuel set s3).when fun _ => by omega).bind
        exact fun rest s4 _ _ => advances_pure _
      · exact advances_pure _

theorem advances_termParse : ∀ (fuel : Nat) (preop : Token) (fsys : Symset) (s : ParseState),
    Advances (4 * s.remaining + 3 ≤ fuel) faults (termParse fuel preop fsys) s
  | 0, _, _, _ => advances_fuel (by omega)
  | fuel + 1, preop, _, s => by
      apply ((advances_factorParse fuel _ s).when fun _ => by omega).bind
      intro factor s1 _ less1
      apply (advancing_quiet (fun g => quiet_negate g preop) _ _ s1).bind
      intro _ s2 _ less2
      apply ((advances_termLoop fuel _ s2).when fun _ => by omega).bind
      exact fun rest s3 _ _ => advances_pure _

theorem advances_termLoop : ∀ (fuel : Nat) (set : Symset) (s : ParseState),
    Advances (4 * s.remaining + 1 ≤ fuel) faults (termLoop fuel set) s
  | 0, _, _ => advances_fuel (by omega)
  | fuel + 1, set, s => by
      rw [termLoop]
      apply Advances.get
      dsimp only
      split
      · rename_i operator
        apply Advances.read (by rcases operator with mult | slash <;> simp [*])
        intro s1 less1
        apply ((advances_factorParse fuel set s1).when fun _ => by omega).bind
        intro factor s2 _ less2
        apply (advancing_quiet (fun g => quiet_calculate g _) _ _ s2).bind
        intro _ s3 _ less3
        apply ((advances_termLoop fuel set s3).when fun _ => by omega).bind
        exact fun rest s4 _ _ => advances_pure _
      · exact advances_pure _

theorem advances_factorParse : ∀ (fuel : Nat) (fsys : Symset) (s : ParseState),
    Advances (4 * s.remaining + 2 ≤ fuel) faults (factorParse fuel fsys) s
  | 0, _, _ => advances_fuel (by omega)
  | fuel + 1, fsys, s => by
      rw [factorParse]
      apply ((advances_test fuel facbegsys fsys 24 s).when fun _ => by omega).bind
      intro _ s1 _ less1
      apply Advances.get
      split
      · exact advancing_identFactor _ _ s1
      · exact advancing_numberFactor _ _ s1
      · rename_i paren
        apply Advances.read (by rw [paren]; decide)
        intro s2 less2
        apply ((advances_expressionParse fuel _ s2).when fun _ => by omega).bind
        intro e s3 _ less3
        apply ((advances_closeParen fuel fsys s3).when fun _ => by omega).bind
        exact fun _ s4 _ _ => advances_pure _
      · apply ((advances_test fuel fsys _ 23 s1).when fun _ => by omega).bind
        exact fun _ s2 _ _ => advancing_failWith 23 _ _ s2
end

theorem advances_conditionParse (fuel : Nat) (fsys : Symset) (s : ParseState) :
    Advances (4 * s.remaining + 4 ≤ fuel) faults (conditionParse fuel fsys) s := by
  apply Advances.get
  split
  · apply advances_getToken.bind
    intro _ s1 _ less1
    apply ((advances_expressionParse fuel fsys s1).when fun _ => by omega).bind
    intro right s2 _ _
    apply (advancing_quiet quiet_testOdd _ _ s2).bind
    exact fun _ s3 _ _ => advances_pure _
  · apply (advances_expressionParse fuel _ s).bind
    intro left s1 _ less1
    apply (advancing_relOp _ _ s1).bind
    intro op s2 _ less2
    apply advances_getToken.bind
    intro _ s3 _ less3
    apply ((advances_expressionParse fuel fsys s3).when fun _ => by omega).bind
    intro right s4 _ _
    apply (advancing_quiet (fun g => quiet_compare g _) _ _ s4).bind
    exact fun _ s5 _ _ => advances_pure _

/-- The statement that starts here reads its first token. -/
structure Consumes {α : Type} (enough faults : Prop) (x : ParseM α) (s : ParseState) : Prop
    extends Advances enough faults x s where
  less : ∀ a s', x s = .ok a s' → s'.remaining < s.remaining

theorem Consumes.read {β : Type} {f : Unit → ParseM β} {s : ParseState}
    (some : s.curToken.cToken ≠ .nulsym)
    (next : ∀ s', s'.remaining < s.remaining → Advances enough faults (f ()) s') :
    Consumes enough faults (getToken >>= f) s := by
  refine ⟨Advances.read some next, ?_⟩
  intro a s' returned
  obtain ⟨u, s1, read, rest⟩ := bind_eq_ok.mp returned
  have less := (getToken_remaining read).2 some
  have onward := (next s1 less).remaining
  rw [rest] at onward
  exact Nat.lt_of_le_of_lt onward less

/-- What comes before the read keeps the token. -/
theorem Consumes.bind {α β : Type} {x : ParseM α} {f : α → ParseM β} {s : ParseState}
    (first : Advances enough faults x s)
    (next : ∀ a s', x s = .ok a s' → s'.remaining ≤ s.remaining → Consumes enough faults (f a) s') :
    Consumes enough faults (x >>= f) s := by
  refine ⟨first.bind fun a s' run less => (next a s' run less).toAdvances, ?_⟩
  intro b s' returned
  obtain ⟨a, s1, run, rest⟩ := bind_eq_ok.mp returned
  have start := first.remaining
  rw [run] at start
  exact Nat.lt_of_lt_of_le ((next a s1 run start).less b s' rest) start

/-- What comes behind the read. -/
theorem Consumes.then {α β : Type} {x : ParseM α} {f : α → ParseM β} {s : ParseState}
    (first : Consumes enough faults x s)
    (next : ∀ a s', x s = .ok a s' → s'.remaining < s.remaining → Advances enough faults (f a) s') :
    Consumes enough faults (x >>= f) s := by
  refine ⟨first.toAdvances.bind fun a s' run _ => next a s' run (first.less a s' run), ?_⟩
  intro b s' returned
  obtain ⟨a, s1, run, rest⟩ := bind_eq_ok.mp returned
  have less := first.less a s1 run
  have onward := (next a s1 run less).remaining
  rw [rest] at onward
  exact Nat.lt_of_le_of_lt onward less

theorem checkAssigned_kept {sym : Option Symbol} {s s' : ParseState}
    (checked : checkAssigned sym s = .ok () s') : s'.curToken = s.curToken := by
  unfold checkAssigned at checked
  split at checked
  · have same := modify_eq_ok.mp checked
    subst same
    rfl
  · split at checked
    · have same := modify_eq_ok.mp checked
      subst same
      rfl
    · obtain ⟨-, rfl⟩ := pure_eq_ok.mp checked
      rfl

theorem Consumes.get {β : Type} {f : ParseState → ParseM β} {s : ParseState}
    (next : Consumes enough faults (f s) s) : Consumes enough faults (MonadState.get >>= f) s :=
  ⟨.get next.toAdvances, next.less⟩

theorem consumes_assignParse (fuel : Nat) (fsys : Symset) {s : ParseState}
    (name : s.curToken.cToken = .identsym) :
    Consumes (4 * s.remaining ≤ fuel) True (assignParse fuel fsys) s := by
  apply Consumes.get
  dsimp only
  refine Consumes.bind (advancing_use _ _ _ _ s) ?_
  intro _ s1 used less1
  have same := modify_eq_ok.mp used
  subst same
  refine Consumes.bind (advancing_checkAssigned _ _ _ _) ?_
  intro _ s2 checked less2
  have kept := checkAssigned_kept checked
  refine Consumes.read (by rw [kept]; simp [name]) ?_
  intro s3 less3
  apply (advancing_expectBecomes _ _ s3).bind
  intro _ s4 _ less4
  apply ((advances_expressionParse fuel fsys s4).when fun _ => by omega).bind
  intro exp s5 _ _
  apply (advances_storeSymbol _ _ s5).faulty.bind
  exact fun _ s6 _ _ => advances_pure _

theorem consumes_nameStatement {known : Option Symbol → ParseM Unit}
    (advances : ∀ sym, Advancing (known sym)) (errorType : Nat) (construct : Construct)
    (node : Name → StatementNode) {s : ParseState} (some : s.curToken.cToken ≠ .nulsym) :
    Consumes enough faults (nameStatement errorType construct known node) s := by
  refine Consumes.read some ?_
  intro s1 _
  apply (advancing_expectIdent errorType _ _ s1).bind
  intro name s2 _ _
  apply Advances.get
  apply (advancing_use construct name _ _ s2).bind
  intro _ s3 _ _
  apply (advances _ _ _ s3).bind
  intro _ s4 _ _
  apply advances_getToken.bind
  exact fun _ s5 _ _ => advances_pure _

theorem advances_recordStatement {parse : ParseM StatementNode} (body : Bool) {s : ParseState}
    (parsed : Advances enough faults parse s) : Advances enough faults
      (recordStatement body parse) s := by
  apply Advances.get
  apply parsed.bind
  intro node s1 _ _
  apply (advancing_noteStatement body node _ _ _ s1).bind
  exact fun _ s2 _ _ => advances_pure _

theorem consumes_recordStatement {parse : ParseM StatementNode} (body : Bool) {s : ParseState}
    (parsed : Consumes enough faults parse s) : Consumes enough faults
      (recordStatement body parse) s := by
  apply Consumes.get
  refine parsed.then ?_
  intro node s1 _ _
  apply (advancing_noteStatement body node _ _ _ s1).bind
  exact fun _ s2 _ _ => advances_pure _

/-- Reads a token at least where it `starts` with one of its own. -/
structure ConsumesWhen {α : Type} (starts enough faults : Prop) (x : ParseM α)
    (s : ParseState) : Prop
    extends Advances enough faults x s where
  consumes : starts → ∀ a s', x s = .ok a s' → s'.remaining < s.remaining

theorem Consumes.always {α : Type} {starts : Prop} {x : ParseM α} {s : ParseState}
    (consumes : Consumes enough faults x s) : ConsumesWhen starts enough faults x s :=
  ⟨consumes.toAdvances, fun _ => consumes.less⟩

theorem Consumes.when {α : Type} {other : Prop} {x : ParseM α} {s : ParseState}
    (consumes : Consumes other faults x s) (implied : enough → other) :
    Consumes enough faults x s :=
  ⟨consumes.toAdvances.when implied, consumes.less⟩

theorem ConsumesWhen.get {β : Type} {starts : Prop} {f : ParseState → ParseM β} {s : ParseState}
    (next : ConsumesWhen starts enough faults (f s) s) :
    ConsumesWhen starts enough faults (MonadState.get >>= f) s :=
  ⟨.get next.toAdvances, next.consumes⟩

/-- A semicolon is read; where it is missing the next statement stays in place. -/
theorem separator_reads {s s' : ParseState} (separated : separator s = .ok () s') :
    s'.remaining < s.remaining ∨
      s'.curToken = s.curToken ∧ s.curToken.cToken ≠ .semicolonsym := by
  have rest := get_bind_eq_ok.mp separated
  split at rest
  · rename_i semicolon
    exact .inl ((getToken_remaining rest).2 (by rw [semicolon]; decide))
  · rename_i missing
    obtain ⟨_, s2, recovered, reported⟩ := bind_eq_ok.mp rest
    have same := modify_eq_ok.mp recovered
    have same' := modify_eq_ok.mp reported
    subst same same'
    exact .inr ⟨rfl, missing⟩

mutual
theorem advances_statementParse : ∀ (fuel : Nat) (fsys : Symset) (s : ParseState),
    ConsumesWhen (inset s.curToken.cToken statbegsys = true) (4 * s.remaining + 2 ≤ fuel) True
      (statementParse fuel fsys) s
  | 0, _, s => by
      refine ⟨advances_fuel (by omega), ?_⟩
      intro _ a s' returned
      exact (throw_ne_ok.mp returned).elim
  | fuel + 1, fsys, s => by
      rw [statementParse]
      apply ConsumesWhen.get
      split
      · rename_i token
        apply Consumes.always
        exact (consumes_assignParse fuel fsys token).when fun _ => by omega
      · rename_i token
        apply Consumes.always
        exact consumes_nameStatement advancing_callKnown 14 .call .call (by rw [token]; decide)
      · rename_i token
        apply Consumes.always
        refine Consumes.read (by rw [token]; decide) ?_
        intro s1 less1
        apply (advances_recordStatement false
          ((advances_statementParse fuel _ s1).when fun _ => by omega)).bind
        intro first s2 _ less2
        apply ((advances_beginLoop fuel _ s2).when fun _ => by omega).bind
        intro rest s3 _ _
        apply (advancing_expectToken .endsym 26 _ _ s3).bind
        intro _ s4 _ _
        apply (advancing_quiet quiet_finishBegin _ _ s4).bind
        exact fun _ s5 _ _ => advances_pure _
      · rename_i token
        apply Consumes.always
        refine Consumes.read (by rw [token]; decide) ?_
        intro s1 less1
        apply ((advances_conditionParse fuel _ s1).when fun _ => by omega).bind
        intro cond s2 _ less2
        apply (advancing_expectToken .thensym 16 _ _ s2).bind
        intro _ s3 _ less3
        apply Advances.get
        apply (advancing_emit _ _ _ s3).bind
        intro _ s4 _ less4
        apply (advances_recordStatement false
          ((advances_statementParse fuel fsys s4).when fun _ => by omega)).bind
        intro ifsts s5 _ less5
        apply Advances.get
        apply (advancing_emit _ _ _ s5).bind
        intro _ s6 _ less6
        apply (advancing_emit _ _ _ s6).bind
        intro _ s7 _ less7
        apply Advances.get
        split
        · apply advances_getToken.bind
          intro _ s8 _ less8
          apply (advances_recordStatement false
            ((advances_statementParse fuel fsys s8).when fun _ => by omega)).bind
          intro elsests s9 _ _
          apply (advancing_finishIf _ _ _ s9).bind
          exact fun _ s10 _ _ => advances_pure _
        · apply (advancing_finishIf _ _ _ s7).bind
          exact fun _ s8 _ _ => advances_pure _
      · rename_i token
        apply Consumes.always
        refine Consumes.read (by rw [token]; decide) ?_
        intro s1 less1
        apply Advances.get
        apply ((advances_conditionParse fuel _ s1).when fun _ => by omega).bind
        intro cond s2 _ less2
        apply (advancing_expectToken .dosym 18 _ _ s2).bind
        intro _ s3 _ less3
        apply Advances.get
        apply (advancing_emit _ _ _ s3).bind
        intro _ s4 _ less4
        apply (advances_recordStatement false
          ((advances_statementParse fuel fsys s4).when fun _ => by omega)).bind
        intro sts s5 _ _
        apply Advances.get
        apply (advancing_emit _ _ _ s5).bind
        intro _ s6 _ _
        apply (advancing_emit _ _ _ s6).bind
        intro _ s7 _ _
        apply (advancing_emit _ _ _ s7).bind
        intro _ s8 _ _
        apply (advancing_quiet (fun g => quiet_addRegister g (-1)) _ _ s8).bind
        exact fun _ s9 _ _ => advances_pure _
      · rename_i token
        apply Consumes.always
        exact consumes_nameStatement advancing_readKnown 27 .read .read (by rw [token]; decide)
      · rename_i token
        apply Consumes.always
        exact consumes_nameStatement advancing_writeKnown 28 .write .write (by rw [token]; decide)
      · rename_i ident call begins ifs whiles reads writes
        constructor
        · apply ((advances_test fuel fsys phi 19 s).when fun _ => by omega).bind
          exact fun _ s1 _ _ => advances_pure _
        · intro starts
          simp_all [statbegsys]

theorem advances_beginLoop : ∀ (fuel : Nat) (set : Symset) (s : ParseState),
    Advances (4 * s.remaining + 3 ≤ fuel) True (beginLoop fuel set) s
  | 0, _, _ => advances_fuel (by omega)
  | fuel + 1, set, s => by
      rw [beginLoop]
      apply Advances.get
      split
      · rename_i starts
        apply (advancing_separator _ _ s).bind
        intro _ s1 separated less1
        rcases separator_reads separated with less | ⟨token, noSemicolon⟩
        · apply (advances_recordStatement false
            ((advances_statementParse fuel set s1).when fun _ => by omega)).bind
          intro sts s2 _ less2
          apply ((advances_beginLoop fuel set s2).when fun _ => by omega).bind
          exact fun rest s3 _ _ => advances_pure _
        · have parsed := advances_statementParse fuel set s1
          have statement : inset s1.curToken.cToken statbegsys = true := by
            rw [token]
            exact starts.resolve_left noSemicolon
          refine ((consumes_recordStatement false
            (Consumes.when ⟨parsed.toAdvances, parsed.consumes statement⟩ ?_)).then ?_).toAdvances
          · intro _
            omega
          · intro sts s2 _ less2
            apply ((advances_beginLoop fuel set s2).when fun _ => by omega).bind
            exact fun rest s3 _ _ => advances_pure _
      · exact advances_pure _
end

theorem consumes_constItem (s : ParseState) : Consumes enough True constItem s := by
  refine Consumes.bind advances_getToken ?_
  intro _ s1 _ less1
  refine Consumes.bind (advancing_expectIdent 4 _ _ s1) ?_
  intro name s2 expected less2
  obtain ⟨same, ident, -⟩ := expectIdent_eq_ok expected
  subst same
  refine Consumes.read (by rw [ident]; decide) ?_
  intro s3 _
  apply (advancing_expectEql _ _ s3).bind
  intro _ s4 _ _
  apply advances_getToken.bind
  intro _ s5 _ _
  apply (advancing_constValue _ _ s5).bind
  intro value s6 _ _
  apply (advances_readOffset _ s6).faulty.bind
  intro addr s7 _ _
  apply Advances.get
  apply (advancing_makeConst name value _ _ s7).bind
  intro _ s8 _ _
  apply advances_getToken.bind
  exact fun _ s9 _ _ => advances_pure _

theorem consumes_varItem (s : ParseState) : Consumes enough True varItem s := by
  refine Consumes.bind advances_getToken ?_
  intro _ s1 _ less1
  refine Consumes.bind (advancing_expectIdent 4 _ _ s1) ?_
  intro name s2 expected less2
  obtain ⟨same, ident, -⟩ := expectIdent_eq_ok expected
  subst same
  refine Consumes.bind (advances_readOffset _ s2).faulty ?_
  intro addr s3 read _
  obtain ⟨same, -⟩ := readOffset_eq_ok read
  subst same
  apply Consumes.get
  refine Consumes.bind (advancing_makeVar name _ _ s3) ?_
  intro _ s4 made _
  have next := modify_eq_ok.mp made
  subst next
  refine Consumes.read (by rw [ident]; decide) ?_
  exact fun s5 _ => advances_pure _

theorem consumes_sectionLoop {α : Type} {item : ParseM α}
    (parsed : ∀ enough s, Consumes enough True item s) :
    ∀ (fuel : Nat) (nodes : List α) (tail : Bool) (s : ParseState),
      Consumes (s.remaining < fuel) True (sectionLoop item fuel nodes tail) s
  | 0, _, _, _ => by
      refine ⟨advances_fuel (Nat.not_lt_zero _), ?_⟩
      intro a s' returned
      exact (throw_ne_ok.mp returned).elim
  | fuel + 1, nodes, tail, s => by
      rw [sectionLoop]
      refine Consumes.bind (advances_linkNode _ _ _ s).faulty ?_
      intro _ s1 linked less1
      refine (parsed _ s1).then ?_
      intro node s2 _ less2
      apply Advances.get
      split
      · apply (consumes_sectionLoop parsed fuel _ true s2).toAdvances.when
        intro _
        omega
      · apply (advancing_expectToken .semicolonsym 5 _ _ s2).bind
        exact fun _ s3 _ _ => advances_pure _

theorem consumes_section {α : Type} {item : ParseM α} (keyword : Token)
    (parsed : ∀ enough s, Consumes enough True item s) (fuel : Nat) (nodes : List α)
    (s : ParseState) :
    ConsumesWhen (s.curToken.cToken = keyword) (s.remaining < fuel) True
      (if s.curToken.cToken = keyword then sectionLoop item fuel nodes false
        else pure nodes) s := by
  split
  · exact (consumes_sectionLoop parsed fuel nodes false s).always
  · rename_i other
    exact ⟨advances_pure _, fun here => absurd here other⟩

theorem consumes_constSection (fuel : Nat) (nodes : List ConstDeclNode) (s : ParseState) :
    ConsumesWhen (s.curToken.cToken = .constsym) (s.remaining < fuel) True
      (constSection fuel nodes) s :=
  .get (consumes_section .constsym (fun _ => consumes_constItem) fuel nodes s)

theorem consumes_varSection (fuel : Nat) (nodes : List VarDeclNode) (s : ParseState) :
    ConsumesWhen (s.curToken.cToken = .varsym) (s.remaining < fuel) True
      (varSection fuel nodes) s :=
  .get (consumes_section .varsym (fun _ => consumes_varItem) fuel nodes s)

theorem constSection_kept {fuel : Nat} {nodes nodes' : List ConstDeclNode} {s s' : ParseState}
    (other : s.curToken.cToken ≠ .constsym)
    (returned : constSection fuel nodes s = .ok nodes' s') : s' = s := by
  have rest := get_bind_eq_ok.mp returned
  rw [if_neg other] at rest
  exact (pure_eq_ok.mp rest).2.symm

theorem varSection_kept {fuel : Nat} {nodes nodes' : List VarDeclNode} {s s' : ParseState}
    (other : s.curToken.cToken ≠ .varsym)
    (returned : varSection fuel nodes s = .ok nodes' s') : s' = s := by
  have rest := get_bind_eq_ok.mp returned
  rw [if_neg other] at rest
  exact (pure_eq_ok.mp rest).2.symm

theorem procedureLoop_kept {fuel : Nat} {fsys : Symset} {oldProcedure : Int}
    {procDef procDef' : ProdefList} {tail : Bool} {s s' : ParseState}
    (other : s.curToken.cToken ≠ .procsym)
    (returned : procedureLoop fuel fsys oldProcedure procDef tail s = .ok procDef' s') :
    s' = s := by
  cases fuel with
  | zero => exact (throw_ne_ok.mp returned).elim
  | succ fuel =>
      rw [procedureLoop] at returned
      have rest := get_bind_eq_ok.mp returned
      rw [if_neg other] at rest
      exact (pure_eq_ok.mp rest).2.symm

/-- When `test` returns behind the same token, it was wanted or the last one. -/
theorem skipLoop_reads (set : Symset) (fuel : Nat) {s s' : ParseState}
    (skipped : skipLoop set fuel s = .ok () s') :
    s'.remaining < s.remaining ∨
      s'.curToken = s.curToken ∧ (inset s.curToken.cToken set ∨ s.curToken.cToken = .nulsym) := by
  cases fuel with
  | zero => exact (throw_ne_ok.mp skipped).elim
  | succ fuel =>
      rw [skipLoop] at skipped
      have rest := get_bind_eq_ok.mp skipped
      split at rest
      · rename_i last
        obtain ⟨-, same⟩ := pure_eq_ok.mp rest
        subst same
        exact .inr ⟨rfl, last⟩
      · rename_i outside
        obtain ⟨_, s1, reported, rest⟩ := bind_eq_ok.mp rest
        have same := modify_eq_ok.mp reported
        subst same
        obtain ⟨_, s2, read, rest⟩ := bind_eq_ok.mp rest
        have less := (getToken_remaining read).2 fun none => outside (.inr none)
        have skips : Advances _ True (skipLoop set fuel) s2 := advances_skipLoop set fuel s2
        have onward := skips.remaining
        rw [rest] at onward
        exact .inl (Nat.lt_of_le_of_lt onward less)

theorem test_reads {fuel : Nat} {set1 set2 : Symset} {errorType : Nat} {s s' : ParseState}
    (tested : test fuel set1 set2 errorType s = .ok () s') :
    s'.remaining < s.remaining ∨ s'.curToken = s.curToken ∧
      (inset s.curToken.cToken (uniteset set1 set2) ∨ s.curToken.cToken = .nulsym) := by
  have rest := get_bind_eq_ok.mp tested
  split at rest
  · rename_i wanted
    obtain ⟨-, same⟩ := pure_eq_ok.mp rest
    subst same
    exact .inr ⟨rfl, .inl (by simp [wanted])⟩
  · obtain ⟨_, s1, recovered, rest⟩ := bind_eq_ok.mp rest
    have same := modify_eq_ok.mp recovered
    obtain ⟨_, s2, reported, rest⟩ := bind_eq_ok.mp rest
    have same' := modify_eq_ok.mp reported
    subst same same'
    have skipped := skipLoop_reads _ fuel rest
    exact skipped

/-- The loop over the declarations goes round behind a token that was read, be it in a
section or by `test`. -/
theorem declarations_read {fuel : Nat} {fsys : Symset} {oldProcedure : Int} {enough : Prop}
    {consts consts' : List ConstDeclNode} {vars vars' : List VarDeclNode}
    {procs procs' : ProdefList} {s s1 s2 s3 s4 s5 : ParseState}
    (ranConst : constSection fuel consts s = .ok consts' s1)
    (ranVar : varSection fuel vars s1 = .ok vars' s2)
    (parsed : ConsumesWhen (s2.curToken.cToken = .procsym) enough True
      (procedureLoop fuel fsys oldProcedure procs false) s2)
    (ranProc : procedureLoop fuel fsys oldProcedure procs false s2 = .ok procs' s3)
    (restored : modifyGen (fun g => { g with currentProcedure := oldProcedure }) s3 = .ok () s4)
    (tested : test fuel (uniteset statbegsys (createset [.identsym])) declbegsys 7 s4 = .ok () s5)
    (again : inset s5.curToken.cToken declbegsys = true) : s5.remaining < s.remaining := by
  have constParsed := consumes_constSection fuel consts s
  have varParsed := consumes_varSection fuel vars s1
  have less1 := constParsed.remaining
  have less2 := varParsed.remaining
  have less3 := parsed.remaining
  have skips : Advances _ True
      (test fuel (uniteset statbegsys (createset [.identsym])) declbegsys 7) s4 :=
    advances_test fuel _ declbegsys 7 s4
  have less5 := skips.remaining
  rw [ranConst] at less1
  rw [ranVar] at less2
  rw [ranProc] at less3
  rw [tested] at less5
  dsimp only [stateOf_ok] at less1 less2 less3 less5
  have next := modify_eq_ok.mp restored
  have less4 : s4.remaining = s3.remaining := by
    rw [← next]
    rfl
  by_cases isConst : s.curToken.cToken = .constsym
  · have less := constParsed.consumes isConst _ _ ranConst
    omega
  · have same := constSection_kept isConst ranConst
    subst same
    by_cases isVar : s1.curToken.cToken = .varsym
    · have less := varParsed.consumes isVar _ _ ranVar
      omega
    · have same := varSection_kept isVar ranVar
      subst same
      by_cases isProc : s2.curToken.cToken = .procsym
      · have less := parsed.consumes isProc _ _ ranProc
        omega
      · have same := procedureLoop_kept isProc ranProc
        subst same
        subst next
        rcases test_reads tested with less | ⟨token, last⟩
        · exact less
        · rw [token] at again
          dsimp only at last again
          simp [declbegsys, isConst, isVar, isProc] at again

mutual
theorem advances_blockParse : ∀ (fuel : Nat) (fsys : Symset) (s : ParseState),
    Advances (4 * s.remaining + 5 ≤ fuel) True (blockParse fuel fsys) s
  | 0, _, _ => advances_fuel (by omega)
  | fuel + 1, fsys, s => by
      rw [blockParse]
      apply ((advances_declarationLoop fuel fsys [] [] .nil s).when fun _ => by omega).bind
      rintro ⟨constDecl, varDecl, procDef⟩ s1 _ less1
      apply (advances_recordStatement true
        ((advances_statementParse fuel _ s1).when fun _ => by omega)).bind
      intro statement s2 _ less2
      apply ((advances_test fuel fsys phi 8 s2).when fun _ => by omega).bind
      exact fun _ s3 _ _ => advances_pure _

theorem advances_declarationLoop : ∀ (fuel : Nat) (fsys : Symset) (constDecl : List ConstDeclNode)
    (varDecl : List VarDeclNode) (procDef : ProdefList) (s : ParseState),
    Advances (4 * s.remaining + 4 ≤ fuel) True
      (declarationLoop fuel fsys constDecl varDecl procDef) s
  | 0, _, _, _, _, _ => advances_fuel (by omega)
  | fuel + 1, fsys, constDecl, varDecl, procDef, s => by
      rw [declarationLoop]
      apply ((consumes_constSection fuel constDecl s).when fun _ => by omega).bind
      intro constDecl s1 ranConst less1
      apply ((consumes_varSection fuel varDecl s1).when fun _ => by omega).bind
      intro varDecl s2 ranVar less2
      apply Advances.get
      dsimp only
      have parsed := advances_procedureLoop fuel fsys s2.gen.currentProcedure procDef false s2
      apply (parsed.when fun _ => by omega).bind
      intro procDef s3 ranProc less3
      apply (advancing_restore _ _ _ s3).bind
      intro _ s4 restored less4
      apply ((advances_test fuel _ declbegsys 7 s4).when fun _ => by omega).bind
      intro _ s5 tested less5
      apply Advances.get
      split
      · rename_i again
        have less := declarations_read ranConst ranVar parsed ranProc restored tested again
        exact (advances_declarationLoop fuel fsys constDecl varDecl procDef s5).when fun _ => by
          omega
      · exact advances_pure _

theorem advances_procedureLoop : ∀ (fuel : Nat) (fsys : Symset) (oldProcedure : Int)
    (procDef : ProdefList) (tail : Bool) (s : ParseState),
    ConsumesWhen (s.curToken.cToken = .procsym) (4 * s.remaining + 3 ≤ fuel) True
      (procedureLoop fuel fsys oldProcedure procDef tail) s
  | 0, _, _, _, _, s => by
      refine ⟨advances_fuel (by omega), ?_⟩
      intro _ a s' returned
      exact (throw_ne_ok.mp returned).elim
  | fuel + 1, fsys, oldProcedure, procDef, tail, s => by
      rw [procedureLoop]
      apply ConsumesWhen.get
      split
      · rename_i procedure
        apply Consumes.always
        refine Consumes.bind (advances_linkNode _ _ _ s).faulty ?_
        intro _ s1 linked less1
        have same := linkNode_kept linked
        subst same
        refine Consumes.read (by rw [procedure]; decide) ?_
        intro s2 less2
        apply (advancing_expectIdent 4 _ _ s2).bind
        intro name s3 _ less3
        apply (advancing_makeProc name _ _ s3).bind
        intro _ s4 _ less4
        apply Advances.get
        apply advances_getToken.bind
        intro _ s5 _ less5
        apply (advancing_expectToken .semicolonsym 6 _ _ s5).bind
        intro _ s6 _ less6
        apply (advancing_openBlock _ _ s6).bind
        intro _ s7 _ less7
        apply ((advances_blockParse fuel _ s7).when fun _ => by omega).bind
        intro body s8 _ less8
        apply (advancing_closeBlock _ _ s8).bind
        intro _ s9 _ less9
        apply (advancing_expectToken .semicolonsym 6 _ _ s9).bind
        intro _ s10 _ less10
        apply ((advances_test fuel _ fsys 6 s10).when fun _ => by omega).bind
        intro _ s11 _ less11
        apply (advancing_emit _ _ _ s11).bind
        intro _ s12 _ less12
        exact (advances_procedureLoop fuel fsys oldProcedure _ true s12).when fun _ => by omega
      · rename_i other
        exact ⟨advances_pure _, fun procedure => absurd procedure other⟩
end

end Recursion

end Pl0
