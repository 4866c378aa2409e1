import Pl0.TokenStream

set_option autoImplicit false

namespace Pl0

open StateExcept MarkedText

/-- What may become of a token without a change of what the parser makes of the program. -/
def Slip : Mark → CurrentToken → List CurrentToken → List CurrentToken → Prop
  | .plain, _, _, _ => False
  | .becomes, _, alt, _ => alt = [.word .eqlsym]
  | .binary, token, alt, _ => ∃ signs, alt = token :: signs ∧
      ∀ sign ∈ signs, sign = .word .plussym ∨ sign = .word .minussym
  | .separator droppable, _, alt, _ => droppable ∧ alt = []
  | .closeParen, _, alt, next =>
      alt = [] ∧ (headToken next = .semicolonsym ∨ headToken next = .endsym)
  | .period, _, alt, _ => alt = []

/-- A token stays as it is, or slips where that is allowed. -/
def Kept (slips : Prop) : Permits CurrentToken Mark :=
  fun mark token alt next => alt = [token] ∨ slips ∧ Slip mark token alt next

/-- A place in a parse: what is ahead, the globals, and what may have been reported. -/
structure Stands (allowed : List Report → Prop) (tokens : List CurrentToken) (g : GenState)
    (s : ParseState) : Prop where
  ahead : Ahead s tokens
  gen : s.gen = g
  reports : allowed s.reports

/-- The function reads on from `tokens` to `rest`, returns `a` and leads the globals from
`g` to `g'`, unless it runs out of fuel. -/
def ReadsTo {α : Type} (allowed : List Report → Prop) (x : ParseM α) (tokens : List CurrentToken)
    (g : GenState) (a : α) (rest : List CurrentToken) (g' : GenState) : Prop :=
  Triple (Stands allowed tokens g) x (fun b s => b = a ∧ Stands allowed rest g' s)
    fun stop _ => stop = .fuel

/-- Reports do not matter. -/
def Lenient (allowed : List Report → Prop) : Prop :=
  ∀ reports r, allowed reports → allowed (reports ++ [r])

section ReadsTo

variable {α β : Type} {allowed : List Report → Prop} {tokens middle rest : List CurrentToken}
  {g gm g' : GenState} {a : α} {b : β}

theorem readsTo_pure : ReadsTo allowed (pure a) tokens g a tokens g :=
  Triple.pure fun _ at_ => ⟨rfl, at_⟩

theorem readsTo_fuel : ReadsTo allowed (throw .fuel) tokens g a rest g' :=
  Triple.throw fun _ _ => rfl

theorem ReadsTo.bind {x : ParseM α} {f : α → ParseM β}
    (first : ReadsTo allowed x tokens g a middle gm)
    (next : ReadsTo allowed (f a) middle gm b rest g') :
    ReadsTo allowed (x >>= f) tokens g b rest g' := by
  refine Triple.bind first fun a' => ?_
  rintro s ⟨rfl, at_⟩
  exact next s at_

theorem ReadsTo.get {f : ParseState → ParseM α}
    (next : ∀ t, Stands allowed tokens g t → ReadsTo allowed (f t) tokens g a rest g') :
    ReadsTo allowed (MonadState.get >>= f) tokens g a rest g' :=
  fun s at_ => next s at_ s at_

theorem readsTo_modifyGen {f : GenState → GenState} :
    ReadsTo allowed (modifyGen f) tokens g () tokens (f g) :=
  Triple.modify fun _ at_ =>
    ⟨rfl, ⟨at_.ahead.feof, at_.ahead.current⟩, congrArg f at_.gen, at_.reports⟩

theorem readsTo_getToken : ReadsTo allowed getToken tokens g () tokens.tail g := by
  intro s at_
  cases read : getToken s with
  | error e s' => cases read
  | ok u s' =>
      obtain ⟨gen, reports⟩ : s'.gen = s.gen ∧ s'.reports = s.reports := by
        rw [← modify_eq_ok.mp read]
        split <;> exact ⟨rfl, rfl⟩
      refine ⟨rfl, getToken_ahead at_.ahead read, gen.trans at_.gen, ?_⟩
      rw [reports]
      exact at_.reports

theorem readsTo_report (lenient : Lenient allowed) (r : Report) :
    ReadsTo allowed (report r) tokens g () tokens g :=
  Triple.modify fun _ at_ => ⟨rfl, ⟨at_.ahead.feof, at_.ahead.current⟩, at_.gen,
    lenient _ _ at_.reports⟩

/-- `getToken` behind a token that is known. -/
theorem ReadsTo.read {token : CurrentToken} {f : Unit → ParseM α}
    (next : ReadsTo allowed (f ()) tokens g a rest g') :
    ReadsTo allowed (getToken >>= f) (token :: tokens) g a rest g' :=
  ReadsTo.bind readsTo_getToken next

theorem ReadsTo.generate {f : GenState → GenState} {k : Unit → ParseM α}
    (next : ReadsTo allowed (k ()) tokens (f g) a rest g') :
    ReadsTo allowed (modifyGen f >>= k) tokens g a rest g' :=
  ReadsTo.bind readsTo_modifyGen next

theorem readsTo_expectToken (token : Token) (errorType : Nat) :
    ReadsTo allowed (expectToken token errorType) (.word token :: rest) g () rest g := by
  apply ReadsTo.get
  intro t at_
  rw [if_pos (show t.curToken.cToken = token from at_.ahead.cToken)]
  exact readsTo_getToken

theorem readsTo_expectIdent (name : Name) (errorType : Nat) :
    ReadsTo allowed (expectIdent errorType) (.ident name :: rest) g name
      (.ident name :: rest) g := by
  apply ReadsTo.get
  intro t at_
  rw [if_pos (show t.curToken.cToken = .identsym from at_.ahead.cToken), at_.ahead.string]
  exact readsTo_pure

/-- A test is silent at a token of its first set. -/
theorem readsTo_test {s1 : Symset} (inside : inset (headToken tokens) s1) (fuel : Nat) (s2 : Symset)
    (errorType : Nat) : ReadsTo allowed (test fuel s1 s2 errorType) tokens g () tokens g := by
  apply ReadsTo.get
  intro t at_
  rw [at_.ahead.cToken, if_pos inside]
  exact readsTo_pure

theorem readsTo_skipLoop (lenient : Lenient allowed) {set : Symset} {skipped : List CurrentToken}
    (outside : ∀ token ∈ skipped, ¬ inset token.cToken set ∧ token.cToken ≠ .nulsym)
    (stops : inset (headToken rest) set ∨ headToken rest = .nulsym) : ∀ fuel,
    ReadsTo allowed (skipLoop set fuel) (skipped ++ rest) g () rest g := by
  induction skipped with
  | nil =>
      intro fuel
      cases fuel with
      | zero => exact readsTo_fuel
      | succ fuel =>
          apply ReadsTo.get
          intro t at_
          rw [show t.curToken.cToken = headToken rest from at_.ahead.cToken, if_pos stops]
          exact readsTo_pure
  | cons token skipped ih =>
      intro fuel
      cases fuel with
      | zero => exact readsTo_fuel
      | succ fuel =>
          obtain ⟨⟨notIn, notEnd⟩, others⟩ := List.forall_mem_cons.mp outside
          apply ReadsTo.get
          intro t at_
          rw [show t.curToken.cToken = token.cToken from at_.ahead.cToken,
            if_neg (not_or.mpr ⟨notIn, notEnd⟩)]
          apply (readsTo_report lenient _).bind
          exact ReadsTo.read (ih others fuel)

/-- A test that reports passes over the tokens outside of its sets. -/
theorem readsTo_test_skips (lenient : Lenient allowed) {s1 s2 : Symset}
    {skipped : List CurrentToken}
    (outside : ∀ token ∈ skipped, ¬ inset token.cToken (uniteset s1 s2) ∧ token.cToken ≠ .nulsym)
    (stops : inset (headToken rest) (uniteset s1 s2) ∨ headToken rest = .nulsym) (fuel : Nat)
    (errorType : Nat) : ReadsTo allowed (test fuel s1 s2 errorType) (skipped ++ rest) g
      () rest g := by
  apply ReadsTo.get
  intro t at_
  by_cases inside : inset t.curToken.cToken s1 = true
  · rw [if_pos inside]
    rw [at_.ahead.cToken] at inside
    cases skipped with
    | nil => exact readsTo_pure
    | cons token skipped =>
        have notIn := (outside token List.mem_cons_self).1
        rw [inset_uniteset, Bool.or_eq_true] at notIn
        exact absurd (Or.inl inside) notIn
  · rw [if_neg inside]
    apply (readsTo_report lenient _).bind
    apply (readsTo_report lenient _).bind
    exact readsTo_skipLoop lenient outside stops fuel

theorem readsTo_recordStatement {parse : ParseM StatementNode} {node : StatementNode} (body : Bool)
    (parsed : ReadsTo allowed parse tokens g node rest g') :
    ReadsTo allowed (recordStatement body parse) tokens g node rest (g.recorded body node g') := by
  apply ReadsTo.get
  intro t at_
  rw [at_.gen]
  apply parsed.bind
  exact readsTo_modifyGen.bind readsTo_pure

end ReadsTo

end Pl0
