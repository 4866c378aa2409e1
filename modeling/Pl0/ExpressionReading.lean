import Pl0.Compile
import Pl0.LegalTree
import Pl0.Reading

set_option autoImplicit false

namespace Pl0

open MarkedText

/-- The operators that would go on with an expression. -/
def operators : List Token := [.plussym, .minussym, .multsym, .slashsym]

def signTokens : List Token := [.plussym, .minussym]

/-- What every follow set of the parser has, and what it has not. -/
structure Guards (fsys : Symset) : Prop where
  semicolon : inset .semicolonsym fsys = true
  ends : inset .endsym fsys = true
  plus : inset .plussym fsys = false
  minus : inset .minussym fsys = false

theorem Guards.front {fsys : Symset} (guards : Guards fsys) (tokens : List Token)
    (noSign : ∀ token ∈ tokens, token ∉ signTokens) :
    Guards (uniteset (createset tokens) fsys) := by
  have noPlus : .plussym ∉ tokens := fun member => noSign _ member (by decide)
  have noMinus : .minussym ∉ tokens := fun member => noSign _ member (by decide)
  constructor
  · simp [guards.semicolon]
  · simp [guards.ends]
  · simp [guards.plus, noPlus]
  · simp [guards.minus, noMinus]

theorem Guards.back {fsys : Symset} (guards : Guards fsys) (tokens : List Token)
    (noSign : ∀ token ∈ tokens, token ∉ signTokens) :
    Guards (uniteset fsys (createset tokens)) := by
  have noPlus : .plussym ∉ tokens := fun member => noSign _ member (by decide)
  have noMinus : .minussym ∉ tokens := fun member => noSign _ member (by decide)
  constructor
  · simp [guards.semicolon]
  · simp [guards.ends]
  · simp [guards.plus, noPlus]
  · simp [guards.minus, noMinus]

/-- Signs that slipped in behind an operator. -/
def Signs (slips : Prop) (signs : List CurrentToken) : Prop :=
  signs = [] ∨ slips ∧ ∀ sign ∈ signs, sign = .word .plussym ∨ sign = .word .minussym

section Kept

variable {slips : Prop} {token : CurrentToken} {marked : List Marked}
  {text rest : List CurrentToken}

theorem kept_plain (kept : Rewrites (Kept slips) ((token, .plain) :: marked) text rest) :
    ∃ later, text = token :: later ∧ Rewrites (Kept slips) marked later rest := by
  obtain ⟨alt, later, rfl, rfl | ⟨-, never⟩, others⟩ := rewrites_cons.mp kept
  · exact ⟨later, rfl, others⟩
  · cases never

theorem kept_binary (kept : Rewrites (Kept slips) ((token, .binary) :: marked) text rest) :
    ∃ signs later, text = token :: (signs ++ later) ∧ Signs slips signs ∧
      Rewrites (Kept slips) marked later rest := by
  obtain ⟨alt, later, rfl, rfl | ⟨allowed, signs, rfl, all⟩, others⟩ := rewrites_cons.mp kept
  · exact ⟨[], later, rfl, .inl rfl, others⟩
  · exact ⟨signs, later, rfl, .inr ⟨allowed, all⟩, others⟩

/-- A role that the last token of a text plays. -/
theorem kept_last {mark : Mark} (kept : Rewrites (Kept slips) [(token, mark)] text rest) :
    Kept slips mark token text rest := by
  obtain ⟨alt, later, rfl, permitted, others⟩ := rewrites_cons.mp kept
  rw [rewrites_nil] at others
  subst others
  rw [List.append_nil]
  exact permitted

end Kept

theorem FactorExp.frontier_first (op : Token) (f : FactorNode) (next : FactorExp) :
    (FactorExp.cons op f next).frontier true = f.frontier ++ next.frontier false := rfl

theorem FactorExp.frontier_next (op : Token) (f : FactorNode) (next : FactorExp) :
    (FactorExp.cons op f next).frontier false =
      (.word op, .binary) :: (f.frontier ++ next.frontier false) := rfl

theorem TermExp.frontier_next (op : Token) (t : FactorExp) (next : TermExp) :
    (TermExp.cons op t next).frontier false =
      (.word op, .binary) :: (t.frontier true ++ next.frontier false) := rfl

/-- The first token of a factor. -/
theorem FactorNode.frontier_head (f : FactorNode) :
    ∃ token marked, f.frontier = (token, .plain) :: marked ∧ inset token.cToken facbegsys := by
  cases f with
  | ident name => exact ⟨.ident name, [], rfl, show inset .identsym facbegsys = true by decide⟩
  | digit value => exact ⟨.number value, [], rfl, show inset .numbersym facbegsys = true by decide⟩
  | exp e => exact ⟨.word .lparentsym, _, rfl, by decide⟩

theorem FactorExp.frontier_head (e : FactorExp) (grammatical : e.Grammatical true) :
    ∃ token marked, e.frontier true = (token, .plain) :: marked ∧ inset token.cToken facbegsys := by
  cases e with
  | nil => cases grammatical
  | cons op f next =>
      obtain ⟨token, marked, starts, begins⟩ := f.frontier_head
      refine ⟨token, marked ++ next.frontier false, ?_, begins⟩
      rw [FactorExp.frontier, if_pos rfl, starts]
      rfl

/-- The first token of an expression: a sign, or that of a factor. -/
theorem TermExp.frontier_head (e : TermExp) (grammatical : e.Grammatical true) :
    ∃ token marked, e.frontier true = (token, .plain) :: marked ∧
      (token.cToken ∈ signTokens ∨ inset token.cToken facbegsys) := by
  cases e with
  | nil => cases grammatical
  | cons op t next =>
      obtain ⟨isOp, proper, others⟩ := grammatical
      rcases isOp with ⟨-, rfl⟩ | sign
      · obtain ⟨token, marked, starts, begins⟩ := t.frontier_head proper
        refine ⟨token, marked ++ next.frontier false, ?_, .inr begins⟩
        rw [TermExp.frontier, if_pos rfl, if_pos rfl, starts]
        rfl
      · have signIsOp : op ≠ .unset := by
          rcases sign with rfl | rfl <;> decide
        refine ⟨.word op, t.frontier true ++ next.frontier false, ?_, .inl ?_⟩
        · rw [TermExp.frontier, if_pos rfl, if_neg signIsOp]
          rfl
        · rcases sign with rfl | rfl <;> decide

section Completeness

variable {slips : Prop} {allowed : List Report → Prop} {tokens rest : List CurrentToken}
  {g : GenState} {fsys : Symset} {fuel : Nat}

/-- The test in front of a factor passes over the signs. -/
theorem readsTo_signs (lenient : slips → Lenient allowed) (guards : Guards fsys)
    {signs : List CurrentToken} (slipped : Signs slips signs)
    (begins : inset (headToken rest) facbegsys) (fuel errorType : Nat) :
    ReadsTo allowed (test fuel facbegsys fsys errorType) (signs ++ rest) g () rest g := by
  rcases slipped with rfl | ⟨slip, all⟩
  · exact readsTo_test begins fuel fsys errorType
  · refine readsTo_test_skips (lenient slip) ?_ ?_ fuel errorType
    · intro sign member
      rcases all sign member with rfl | rfl
      · refine ⟨?_, by decide⟩
        rw [inset_uniteset,
          show (CurrentToken.word .plussym).cToken = .plussym from rfl, guards.plus]
        decide
      · refine ⟨?_, by decide⟩
        rw [inset_uniteset, show (CurrentToken.word .minussym).cToken = .minussym from rfl,
          guards.minus]
        decide
    · rw [inset_uniteset, begins]
      exact .inl rfl

theorem readsTo_loadFactor {sym : Option Symbol} (suits : Suits .factor sym) :
    ReadsTo allowed (loadFactor sym) tokens g () tokens (g.loadKnown sym) := by
  obtain ⟨symbol, rfl, kind⟩ := suits
  have noProc : symbol.kind ≠ .procS := kind
  unfold loadFactor GenState.loadKnown
  cases same : symbol.kind with
  | varS =>
      simp only [same]
      exact readsTo_modifyGen
  | constS =>
      simp only [same]
      exact readsTo_modifyGen
  | procS => exact absurd same noProc

theorem readsTo_identFactor {name : Name} (suits : Suits .factor (g.lookup name)) :
    ReadsTo allowed identFactor (.ident name :: rest) g (.ident name) rest
      (genFactor (.ident name) g) := by
  apply ReadsTo.get
  intro t stands
  rw [stands.ahead.string, stands.gen]
  apply ReadsTo.generate
  apply (readsTo_loadFactor suits).bind
  exact ReadsTo.read readsTo_pure

theorem readsTo_numberFactor {value : Int} (small : value ≤ maxNumber) :
    ReadsTo allowed numberFactor (.number value :: rest) g (.digit value) rest
      (genFactor (.digit value) g) := by
  apply ReadsTo.get
  intro t stands
  rw [stands.ahead.numeric, if_neg (Int.not_lt.mpr small)]
  apply ReadsTo.generate
  exact ReadsTo.read readsTo_pure

theorem readsTo_closeParen {text : List CurrentToken} (guards : Guards fsys)
    (kept : Kept slips .closeParen (.word .rparentsym) text rest) :
    ReadsTo allowed (closeParen fuel fsys) (text ++ rest) g () rest g := by
  apply ReadsTo.get
  intro t stands
  rcases kept with rfl | ⟨-, rfl, behind⟩
  · rw [if_pos (show t.curToken.cToken = .rparentsym from stands.ahead.cToken)]
    exact readsTo_getToken
  · have other : t.curToken.cToken ≠ .rparentsym := by
      rw [show t.curToken.cToken = headToken rest from stands.ahead.cToken]
      rcases behind with next | next <;> rw [next] <;> decide
    rw [if_neg other]
    apply readsTo_test
    rw [show headToken ([] ++ rest) = headToken rest from rfl]
    rcases behind with next | next <;> rw [next]
    · exact guards.semicolon
    · exact guards.ends

/-- Where a list of factors ends, or goes on. -/
theorem FactorExp.head_more {e : FactorExp} (grammatical : e.Grammatical false)
    {text : List CurrentToken} (kept : Rewrites (Kept slips) (e.frontier false) text rest) :
    headToken (text ++ rest) = headToken rest ∨
      headToken (text ++ rest) ∈ [.multsym, .slashsym] := by
  cases e with
  | nil =>
      rw [rewrites_nil.mp kept]
      exact .inl rfl
  | cons op f next =>
      obtain ⟨signs, later, rfl, -, -⟩ := kept_binary kept
      right
      show op ∈ [.multsym, .slashsym]
      rcases grammatical.1 with rfl | rfl <;> decide

theorem TermExp.head_more {e : TermExp} (grammatical : e.Grammatical false)
    {text : List CurrentToken} (kept : Rewrites (Kept slips) (e.frontier false) text rest) :
    headToken (text ++ rest) = headToken rest ∨ headToken (text ++ rest) ∈ signTokens := by
  cases e with
  | nil =>
      rw [rewrites_nil.mp kept]
      exact .inl rfl
  | cons op t next =>
      obtain ⟨signs, later, rfl, -, -⟩ := kept_binary kept
      right
      show op ∈ signTokens
      rcases grammatical.1 with ⟨never, -⟩ | rfl | rfl
      · cases never
      · decide
      · decide

/-- Behind the terms of an expression comes no operator of a term. -/
theorem TermExp.calm_more {e : TermExp} (grammatical : e.Grammatical false)
    {text : List CurrentToken} (kept : Rewrites (Kept slips) (e.frontier false) text rest)
    (calm : headToken rest ∉ operators) : headToken (text ++ rest) ∉ [.multsym, .slashsym] := by
  rcases e.head_more grammatical kept with last | sign
  · rw [last]
    intro member
    exact calm (by simp [operators] at member ⊢; tauto)
  · intro member
    simp only [signTokens, List.mem_cons, List.not_mem_nil, or_false] at sign member
    rcases sign with sign | sign <;> rw [sign] at member <;> simp at member

mutual
theorem factorParse_reads (lenient : slips → Lenient allowed) : ∀ (f : FactorNode) {fuel : Nat}
    {fsys : Symset} {g : GenState} {signs text rest : List CurrentToken}, f.Grammatical →
    f.Suited g.lookup → Guards fsys →
    Signs slips signs → Rewrites (Kept slips) f.frontier text rest →
    ReadsTo allowed (factorParse fuel fsys) (signs ++ (text ++ rest)) g f rest (genFactor f g)
  | f, 0, _, _, _, _, _, _, _, _, _, _ => readsTo_fuel
  | .ident name, fuel + 1, fsys, g, signs, text, rest, _, suited, guards, signed, kept => by
      obtain ⟨later, rfl, nothing⟩ := kept_plain kept
      rw [rewrites_nil] at nothing
      subst nothing
      have begins : inset (headToken ([.ident name] ++ rest)) facbegsys := by
        show inset .identsym facbegsys = true
        decide
      apply (readsTo_signs lenient guards signed begins fuel 24).bind
      apply ReadsTo.get
      intro t stands
      rw [show t.curToken.cToken = .identsym from stands.ahead.cToken]
      exact readsTo_identFactor suited
  | .digit value, fuel + 1, fsys, g, signs, text, rest, _, suited, guards, signed, kept => by
      obtain ⟨later, rfl, nothing⟩ := kept_plain kept
      rw [rewrites_nil] at nothing
      subst nothing
      have begins : inset (headToken ([.number value] ++ rest)) facbegsys := by
        show inset .numbersym facbegsys = true
        decide
      apply (readsTo_signs lenient guards signed begins fuel 24).bind
      apply ReadsTo.get
      intro t stands
      rw [show t.curToken.cToken = .numbersym from stands.ahead.cToken]
      exact readsTo_numberFactor suited
  | .exp e, fuel + 1, fsys, g, signs, text, rest, grammatical, suited, guards, signed, kept => by
      obtain ⟨later, rfl, inside⟩ := kept_plain kept
      obtain ⟨inner, close, rfl, keptInner, keptClose⟩ := rewrites_append.mp inside
      have closes := kept_last keptClose
      rw [List.cons_append, List.append_assoc]
      have begins : inset (headToken (CurrentToken.word .lparentsym :: (inner ++ (close ++ rest))))
          facbegsys := by
        show inset .lparentsym facbegsys = true
        decide
      apply (readsTo_signs lenient guards signed begins fuel 24).bind
      apply ReadsTo.get
      intro t stands
      rw [show t.curToken.cToken = .lparentsym from stands.ahead.cToken]
      apply ReadsTo.read
      have calm : headToken (close ++ rest) ∉ operators := by
        rcases closes with rfl | ⟨-, rfl, behind⟩
        · show Token.rparentsym ∉ operators
          decide
        · rw [List.nil_append]
          rcases behind with next | next <;> rw [next] <;> decide
      have wider := guards.front [.rparentsym] (by decide)
      apply (expressionParse_reads lenient e grammatical suited wider keptInner calm).bind
      apply (readsTo_closeParen guards closes).bind
      exact readsTo_pure

theorem termParse_reads (lenient : slips → Lenient allowed) : ∀ (e : FactorExp) {fuel : Nat}
    {fsys : Symset} {g : GenState} {signs text rest : List CurrentToken} (preop : Token),
      e.Grammatical true → e.Suited g.lookup →
    Guards fsys → Signs slips signs → Rewrites (Kept slips) (e.frontier true) text rest →
    headToken rest ∉ [.multsym, .slashsym] →
    ReadsTo allowed (termParse fuel preop fsys) (signs ++ (text ++ rest)) g e rest
      (genFactors e (some preop) g)
  | e, 0, _, _, _, _, _, _, _, _, _, _, _, _ => readsTo_fuel
  | .nil, _ + 1, _, _, _, _, _, _, grammatical, _, _, _, _, _ => by cases grammatical
  | .cons op f next, fuel + 1, fsys, g, signs, text, rest, preop, grammatical, suited, guards,
      signed, kept, calm => by
      obtain ⟨rfl, proper, others⟩ := grammatical
      rw [FactorExp.frontier_first] at kept
      obtain ⟨first, more, rfl, keptFirst, keptMore⟩ := rewrites_append.mp kept
      rw [List.append_assoc]
      have wider := guards.back [.multsym, .slashsym] (by decide)
      apply (factorParse_reads lenient f proper suited.1 wider signed keptFirst).bind
      apply ReadsTo.generate
      have known := ((genFactor_emits f g).trans (emitted_negate (genFactor f g) preop)).lookup
      apply (termLoop_reads lenient next others (known ▸ suited.2) wider keptMore calm).bind
      exact readsTo_pure

theorem termLoop_reads (lenient : slips → Lenient allowed) : ∀ (e : FactorExp) {fuel : Nat}
    {set : Symset} {g : GenState} {text rest : List CurrentToken}, e.Grammatical false →
    e.Suited g.lookup →
    Guards set → Rewrites (Kept slips) (e.frontier false) text rest →
    headToken rest ∉ [.multsym, .slashsym] →
    ReadsTo allowed (termLoop fuel set) (text ++ rest) g e rest (genFactors e none g)
  | e, 0, _, _, _, _, _, _, _, _, _ => readsTo_fuel
  | .nil, fuel + 1, set, g, text, rest, _, _, _, kept, calm => by
      rw [rewrites_nil.mp kept]
      apply ReadsTo.get
      intro t stands
      have other : ¬ (t.curToken.cToken = .multsym ∨ t.curToken.cToken = .slashsym) := by
        rw [show t.curToken.cToken = headToken rest from stands.ahead.cToken]
        simpa using calm
      rw [if_neg other]
      exact readsTo_pure
  | .cons op f next, fuel + 1, set, g, text, rest, grammatical, suited, guards, kept, calm => by
      obtain ⟨isOp, proper, others⟩ := grammatical
      have isOp : op = .multsym ∨ op = .slashsym := isOp
      rw [FactorExp.frontier_next] at kept
      obtain ⟨signs, later, rfl, signed, behind⟩ := kept_binary kept
      obtain ⟨first, more, rfl, keptFirst, keptMore⟩ := rewrites_append.mp behind
      simp only [List.cons_append, List.append_assoc]
      apply ReadsTo.get
      intro t stands
      rw [show t.curToken.cToken = op from stands.ahead.cToken, if_pos isOp]
      apply ReadsTo.read
      apply (factorParse_reads lenient f proper suited.1 guards signed keptFirst).bind
      apply ReadsTo.generate
      have known : ((genFactor f g).calculate op).lookup = g.lookup := (genFactor_emits f g).lookup
      apply (termLoop_reads lenient next others (known ▸ suited.2) guards keptMore calm).bind
      exact readsTo_pure

theorem expressionParse_reads (lenient : slips → Lenient allowed) : ∀ (e : TermExp) {fuel : Nat}
    {fsys : Symset} {g : GenState} {text rest : List CurrentToken}, e.Grammatical true →
    e.Suited g.lookup →
    Guards fsys → Rewrites (Kept slips) (e.frontier true) text rest → headToken rest ∉ operators →
    ReadsTo allowed (expressionParse fuel fsys) (text ++ rest) g e rest (genTerms e true g)
  | e, 0, _, _, _, _, _, _, _, _, _ => readsTo_fuel
  | .nil, _ + 1, _, _, _, _, grammatical, _, _, _, _ => by cases grammatical
  | .cons op t next, fuel + 1, fsys, g, text, rest, grammatical, suited, guards, kept, calm => by
      obtain ⟨isOp, proper, others⟩ := grammatical
      have wider := guards.back [.multsym, .slashsym] (by decide)
      have signed : Rewrites (Kept slips) ((if op = .unset then [] else [plain op]) ++
          (t.frontier true ++ next.frontier false)) text rest := kept
      obtain ⟨sign, operands, rfl, keptSign, keptOperands⟩ := rewrites_append.mp signed
      obtain ⟨first, more, rfl, keptFirst, keptMore⟩ := rewrites_append.mp keptOperands
      have starts : ReadsTo allowed leadingSign (sign ++ (first ++ (more ++ rest))) g op
          (first ++ (more ++ rest)) g := by
        apply ReadsTo.get
        intro s stands
        rcases isOp with ⟨-, rfl⟩ | isSign
        · rw [if_pos rfl] at keptSign
          rw [rewrites_nil.mp keptSign] at stands ⊢
          obtain ⟨token, marked, begins, factor⟩ := t.frontier_head proper
          rw [begins] at keptFirst
          obtain ⟨later, rfl, -⟩ := kept_plain keptFirst
          have other : ¬ (s.curToken.cToken = .plussym ∨ s.curToken.cToken = .minussym) := by
            rw [show s.curToken.cToken = token.cToken from stands.ahead.cToken]
            rintro (sign | sign) <;> rw [sign] at factor <;> revert factor <;> decide
          rw [if_neg other]
          exact readsTo_pure
        · have signIsOp : op ≠ .unset := by
            rcases isSign with rfl | rfl <;> decide
          rw [if_neg signIsOp] at keptSign
          obtain ⟨later, rfl, keptNone⟩ := kept_plain keptSign
          rw [rewrites_nil.mp keptNone] at stands ⊢
          rw [show s.curToken.cToken = op from stands.ahead.cToken, if_pos isSign]
          exact ReadsTo.read readsTo_pure
      simp only [List.append_assoc]
      apply starts.bind
      apply (termParse_reads lenient t op proper suited.1 wider (.inl rfl) keptFirst
        (next.calm_more others keptMore calm)).bind
      have known := (genFactors_emits t (some op) g).lookup
      apply (expressionLoop_reads lenient next others (known ▸ suited.2) wider keptMore calm).bind
      exact readsTo_pure

theorem expressionLoop_reads (lenient : slips → Lenient allowed) : ∀ (e : TermExp) {fuel : Nat}
    {set : Symset} {g : GenState} {text rest : List CurrentToken}, e.Grammatical false →
    e.Suited g.lookup →
    Guards set → Rewrites (Kept slips) (e.frontier false) text rest → headToken rest ∉ operators →
    ReadsTo allowed (expressionLoop fuel set) (text ++ rest) g e rest (genTerms e false g)
  | e, 0, _, _, _, _, _, _, _, _, _ => readsTo_fuel
  | .nil, fuel + 1, set, g, text, rest, _, _, _, kept, calm => by
      rw [rewrites_nil.mp kept]
      apply ReadsTo.get
      intro t stands
      have other : ¬ (t.curToken.cToken = .plussym ∨ t.curToken.cToken = .minussym) := by
        rw [show t.curToken.cToken = headToken rest from stands.ahead.cToken]
        intro sign
        exact calm (by simp [operators]; tauto)
      rw [if_neg other]
      exact readsTo_pure
  | .cons op t next, fuel + 1, set, g, text, rest, grammatical, suited, guards, kept, calm => by
      obtain ⟨isOp, proper, others⟩ := grammatical
      have sign : op = .plussym ∨ op = .minussym := by
        rcases isOp with ⟨never, -⟩ | sign
        · cases never
        · exact sign
      rw [TermExp.frontier_next] at kept
      obtain ⟨signs, later, rfl, signed, behind⟩ := kept_binary kept
      obtain ⟨first, more, rfl, keptFirst, keptMore⟩ := rewrites_append.mp behind
      simp only [List.cons_append, List.append_assoc]
      apply ReadsTo.get
      intro s stands
      rw [show s.curToken.cToken = op from stands.ahead.cToken, if_pos sign]
      apply ReadsTo.read
      apply (termParse_reads lenient t .unset proper suited.1 guards signed keptFirst
        (next.calm_more others keptMore calm)).bind
      apply ReadsTo.generate
      have known : ((genFactors t (some .unset) g).calculate op).lookup = g.lookup :=
        (genFactors_emits t (some .unset) g).lookup
      apply (expressionLoop_reads lenient next others (known ▸ suited.2) guards keptMore calm).bind
      exact readsTo_pure
end

theorem conditionParse_reads (lenient : slips → Lenient allowed) (c : ConditionNode)
    {text : List CurrentToken} (grammatical : c.Grammatical) (suited : c.Suited g.lookup)
    (guards : Guards fsys) (kept : Rewrites (Kept slips) c.frontier text rest)
    (calm : headToken rest ∉ operators) :
    ReadsTo allowed (conditionParse fuel fsys) (text ++ rest) g c rest (genCondition c g) := by
  cases c with
  | odd right =>
      obtain ⟨later, rfl, keptRight⟩ := kept_plain kept
      apply ReadsTo.get
      intro t stands
      rw [if_pos (show t.curToken.cToken = .oddsym from stands.ahead.cToken)]
      apply ReadsTo.read
      apply (expressionParse_reads lenient right grammatical suited guards keptRight calm).bind
      apply ReadsTo.generate
      exact readsTo_pure
  | relOp op left right =>
      obtain ⟨isRel, properL, properR⟩ := grammatical
      obtain ⟨first, others, rfl, keptLeft, keptOthers⟩ := rewrites_append.mp kept
      obtain ⟨second, rfl, keptRight⟩ := kept_plain keptOthers
      rw [List.append_assoc, List.cons_append]
      have noOdd : headToken (first ++ CurrentToken.word op :: (second ++ rest)) ≠ .oddsym := by
        obtain ⟨token, marked, begins, operand⟩ := left.frontier_head properL
        rw [begins] at keptLeft
        obtain ⟨later, rfl, -⟩ := kept_plain keptLeft
        show token.cToken ≠ .oddsym
        intro odd
        rw [odd] at operand
        revert operand
        decide
      have relCalm : headToken (CurrentToken.word op :: (second ++ rest)) ∉ operators := by
        show op ∉ operators
        rcases isRel with rfl | rfl | rfl | rfl | rfl | rfl <;> decide
      have wider := guards.front [.eqlsym, .neqsym, .lessym, .leqsym, .gtrsym, .geqsym] (by decide)
      apply ReadsTo.get
      intro t stands
      rw [stands.ahead.cToken, if_neg noOdd]
      apply (expressionParse_reads lenient left properL suited.1 wider keptLeft relCalm).bind
      have operator : ReadsTo allowed relOp (CurrentToken.word op :: (second ++ rest))
          (genTerms left true g) op (CurrentToken.word op :: (second ++ rest))
            (genTerms left true g) := by
        apply ReadsTo.get
        intro s stands
        unfold IsRelOp at isRel
        rw [show s.curToken.cToken = op from stands.ahead.cToken]
        dsimp only
        rw [if_pos isRel]
        exact readsTo_pure
      apply operator.bind
      apply ReadsTo.read
      have known := (genTerms_emits left true g).lookup
      apply (expressionParse_reads lenient right properR
        (known ▸ suited.2) guards keptRight calm).bind
      apply ReadsTo.generate
      exact readsTo_pure

theorem readsTo_checkAssigned {sym : Option Symbol} (suits : Suits .assign sym) :
    ReadsTo allowed (checkAssigned sym) tokens g () tokens g := by
  obtain ⟨symbol, rfl, kind⟩ := suits
  have isVar : symbol.kind = .varS := kind
  unfold checkAssigned
  simp only [isVar, ne_eq, not_true_eq_false, if_false]
  exact readsTo_pure

theorem readsTo_storeSymbol {sym : Option Symbol} (suits : Suits .assign sym) :
    ReadsTo allowed (storeSymbol sym) tokens g () tokens (g.storeKnown sym) := by
  obtain ⟨symbol, rfl, -⟩ := suits
  show ReadsTo allowed (modifyGen (·.becomes symbol)) tokens g () tokens (g.becomes symbol)
  exact readsTo_modifyGen

theorem readsTo_expectBecomes (lenient : slips → Lenient allowed) {alt : List CurrentToken}
    (kept : Kept slips .becomes (.word .becomessym) alt rest) :
    ReadsTo allowed expectBecomes (alt ++ rest) g () rest g := by
  apply ReadsTo.get
  intro t stands
  rcases kept with rfl | ⟨slip, rfl⟩
  · rw [if_pos (show t.curToken.cToken = .becomessym from stands.ahead.cToken)]
    exact readsTo_getToken
  · have equals : t.curToken.cToken = .eqlsym := stands.ahead.cToken
    rw [equals, if_neg (by decide), if_pos rfl]
    apply (readsTo_report (lenient slip) _).bind
    exact readsTo_getToken

theorem assignParse_reads (lenient : slips → Lenient allowed) (name : Name) (e : TermExp)
    {text : List CurrentToken} (grammatical : e.Grammatical true)
    (suits : Suits .assign (g.lookup name))
    (suited : e.Suited g.lookup) (guards : Guards fsys)
    (kept : Rewrites (Kept slips) (StatementNode.assign name e).frontier text rest)
    (calm : headToken rest ∉ operators) :
    ReadsTo allowed (assignParse fuel fsys) (text ++ rest) g (.assign name e) rest
      (genStatement (.assign name e) g) := by
  obtain ⟨behind, rfl, keptBehind⟩ := kept_plain kept
  obtain ⟨alt, value, rfl, keptBecomes, keptValue⟩ := rewrites_cons.mp keptBehind
  rw [List.cons_append, List.append_assoc]
  apply ReadsTo.get
  intro t stands
  rw [stands.ahead.string, stands.gen]
  apply ReadsTo.generate
  apply (readsTo_checkAssigned suits).bind
  apply ReadsTo.read
  apply (readsTo_expectBecomes lenient keptBecomes).bind
  have assigned : ReadsTo allowed (expressionParse fuel fsys) (value ++ rest) (g.use .assign name) e
      rest (genTerms e true (g.use .assign name)) :=
    expressionParse_reads lenient e grammatical suited guards keptValue calm
  apply assigned.bind
  apply (readsTo_storeSymbol suits).bind
  exact readsTo_pure

/-- The statements that are a keyword and a name. -/
theorem nameStatement_reads {keyword : Token} {errorType : Nat} {construct : Construct}
    {known : Option Symbol → ParseM Unit} {node : Name → StatementNode}
    (act : GenState → Symbol → GenState) (name : Name) {text : List CurrentToken}
    (acts : ∀ symbol, Suits construct (some symbol) →
      known (some symbol) = modifyGen (act · symbol))
    (suits : Suits construct (g.lookup name))
    (kept : Rewrites (Kept slips) [plain keyword, nameToken name] text rest) :
    ReadsTo allowed (nameStatement errorType construct known node) (text ++ rest) g (node name) rest
      ((g.use construct name).nameKnown act (g.lookup name)) := by
  obtain ⟨behind, rfl, keptBehind⟩ := kept_plain kept
  obtain ⟨later, rfl, nothing⟩ := kept_plain keptBehind
  rw [rewrites_nil.mp nothing]
  apply ReadsTo.read
  apply (readsTo_expectIdent name errorType).bind
  apply ReadsTo.get
  intro t stands
  rw [stands.gen]
  apply ReadsTo.generate
  have acted : ReadsTo allowed (known (g.lookup name)) (.ident name :: rest)
    (g.use construct name) ()
      (.ident name :: rest) ((g.use construct name).nameKnown act (g.lookup name)) := by
    obtain ⟨symbol, found, kind⟩ := suits
    rw [found, acts symbol ⟨symbol, rfl, kind⟩]
    exact readsTo_modifyGen
  apply acted.bind
  exact ReadsTo.read readsTo_pure

end Completeness

end Pl0
