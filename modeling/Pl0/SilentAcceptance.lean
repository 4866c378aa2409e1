import Pl0.GrammarSoundness

set_option autoImplicit false

namespace Pl0

open MarkedText StateExcept

def CurrentToken.opens (token : CurrentToken) : Bool := decide (token.cToken = .lparentsym)

def CurrentToken.closes (token : CurrentToken) : Bool := decide (token.cToken = .rparentsym)

/-- As many parentheses are closed as are opened. -/
def Balanced (text : List CurrentToken) : Prop :=
  text.countP CurrentToken.opens = text.countP CurrentToken.closes

instance (text : List CurrentToken) : Decidable (Balanced text) :=
  inferInstanceAs (Decidable (_ = _))

/-- The tokens of a part of a program: the parentheses go in pairs, and no token is a
period. -/
structure Bracketed (frontier : List Marked) : Prop where
  balanced : Balanced (frontier.map Prod.fst)
  closers : ∀ pair ∈ frontier, pair.2 = .closeParen → pair.1.closes = true
  inside : ∀ pair ∈ frontier, pair.1.cToken ≠ .periodsym

namespace Bracketed

variable {first second frontier : List Marked} {token : CurrentToken} {mark : Mark}

theorem nil : Bracketed [] := by
  refine ⟨rfl, ?_, ?_⟩
  · simp
  · simp

theorem append (left : Bracketed first) (right : Bracketed second) :
    Bracketed (first ++ second) := by
  refine ⟨?_, List.forall_mem_append.mpr ⟨left.closers, right.closers⟩,
    List.forall_mem_append.mpr ⟨left.inside, right.inside⟩⟩
  have leftBalanced := left.balanced
  have rightBalanced := right.balanced
  unfold Balanced at leftBalanced rightBalanced ⊢
  rw [List.map_append, List.countP_append, List.countP_append, leftBalanced, rightBalanced]

/-- A token that is neither a parenthesis nor a period. -/
def Ordinary (code : Token) : Prop := code ≠ .lparentsym ∧ code ≠ .rparentsym ∧ code ≠ .periodsym

instance (code : Token) : Decidable (Ordinary code) := inferInstanceAs (Decidable (_ ∧ _))

theorem cons (others : Bracketed frontier) (ordinary : Ordinary token.cToken)
    (other : mark ≠ .closeParen) : Bracketed ((token, mark) :: frontier) := by
  refine ⟨?_, List.forall_mem_cons.mpr ⟨fun same => absurd same other, others.closers⟩,
    List.forall_mem_cons.mpr ⟨ordinary.2.2, others.inside⟩⟩
  have balanced := others.balanced
  have noLeft : ¬ token.opens = true := by simp [CurrentToken.opens, ordinary.1]
  have noRight : ¬ token.closes = true := by simp [CurrentToken.closes, ordinary.2.1]
  unfold Balanced at balanced ⊢
  rw [List.map_cons, List.countP_cons_of_neg noLeft, List.countP_cons_of_neg noRight, balanced]

theorem plain (others : Bracketed frontier) {code : Token} (ordinary : Ordinary code) :
    Bracketed (plain code :: frontier) :=
  others.cons ordinary (by decide)

theorem name (others : Bracketed frontier) (name : Name) : Bracketed (nameToken name :: frontier) :=
  others.cons (show Ordinary .identsym by decide) (by decide)

theorem number (others : Bracketed frontier) (value : Int) :
    Bracketed ((.number value, .plain) :: frontier) :=
  others.cons (show Ordinary .numbersym by decide) (by decide)

/-- Around an expression there are two parentheses. -/
theorem parens (inner : Bracketed frontier) :
    Bracketed (Pl0.plain .lparentsym :: (frontier ++ [(.word .rparentsym, .closeParen)])) := by
  refine ⟨?_, ?_, ?_⟩
  · have balanced := inner.balanced
    unfold Balanced at balanced ⊢
    rw [List.map_cons, List.map_append, List.countP_cons_of_pos (by rfl), List.countP_append,
      List.countP_cons_of_neg (by decide), List.countP_append, balanced]
    rfl
  · refine List.forall_mem_cons.mpr ⟨fun same => absurd same (by decide), ?_⟩
    exact List.forall_mem_append.mpr ⟨inner.closers, by
      simp [CurrentToken.closes, CurrentToken.word]⟩
  · refine List.forall_mem_cons.mpr ⟨by decide, ?_⟩
    exact List.forall_mem_append.mpr ⟨inner.inside, by simp [CurrentToken.word]⟩

end Bracketed

theorem ordinary_sign {op : Token} (isSign : op = .plussym ∨ op = .minussym) :
    Bracketed.Ordinary op := by
  rcases isSign with rfl | rfl <;> decide

theorem ordinary_relOp {op : Token} (isRel : IsRelOp op) : Bracketed.Ordinary op := by
  rcases isRel with rfl | rfl | rfl | rfl | rfl | rfl <;> decide

mutual
theorem FactorNode.bracketed : ∀ f : FactorNode, f.Grammatical → Bracketed f.frontier
  | .ident name, _ => Bracketed.nil.name name
  | .digit value, _ => Bracketed.nil.number value
  | .exp e, grammatical => (e.bracketed true grammatical).parens

theorem FactorExp.bracketed : ∀ (e : FactorExp) (first : Bool), e.Grammatical first →
    Bracketed (e.frontier first)
  | .nil, _, _ => .nil
  | .cons op factor next, first, ⟨legal, proper, grammatical⟩ => by
      have others := (factor.bracketed proper).append (next.bracketed false grammatical)
      cases first with
      | true => exact others
      | false =>
          have ordinary : Bracketed.Ordinary op := by
            rcases legal with rfl | rfl <;> decide
          exact others.cons ordinary (by decide)

theorem TermExp.bracketed : ∀ (e : TermExp) (first : Bool), e.Grammatical first →
    Bracketed (e.frontier first)
  | .nil, _, _ => .nil
  | .cons op term next, first, ⟨legal, proper, grammatical⟩ => by
      have others := (term.bracketed true proper).append (next.bracketed false grammatical)
      cases first with
      | true =>
          simp only [TermExp.frontier, if_true]
          split
          · exact others
          · rename_i signed
            exact others.plain (ordinary_sign (legal.resolve_left fun unset => signed unset.2))
      | false =>
          exact others.cons
            (ordinary_sign (legal.resolve_left fun unset => absurd unset.1 (by decide)))
            (by decide)
end

theorem ConditionNode.bracketed : ∀ cond : ConditionNode, cond.Grammatical → Bracketed cond.frontier
  | .odd right, grammatical => (right.bracketed true grammatical).plain (by decide)
  | .relOp _ left right, ⟨isRel, properLeft, properRight⟩ =>
      (left.bracketed true properLeft).append
        ((right.bracketed true properRight).plain (ordinary_relOp isRel))

mutual
theorem StatementNode.bracketed : ∀ sts : StatementNode, sts.Grammatical → Bracketed sts.frontier
  | .empty, _ => .nil
  | .assign name e, grammatical =>
      ((e.bracketed true grammatical).cons (show Bracketed.Ordinary .becomessym by decide)
        (by decide)).name name
  | .begin list, grammatical =>
      ((list.bracketed true grammatical).append (Bracketed.nil.plain (by decide))).plain (by decide)
  | .ifS cond ifsts, ⟨properCond, proper⟩ =>
      ((cond.bracketed properCond).append ((ifsts.bracketed proper).plain (by decide))).plain
        (by decide)
  | .ifElse cond ifsts elsests, ⟨properCond, proper, properElse⟩ =>
      ((cond.bracketed properCond).append (((ifsts.bracketed proper).append
        ((elsests.bracketed properElse).plain (by decide))).plain (by decide))).plain (by decide)
  | .while cond sts, ⟨properCond, proper⟩ =>
      ((cond.bracketed properCond).append ((sts.bracketed proper).plain (by decide))).plain
        (by decide)
  | .read name, _ => (Bracketed.nil.name name).plain (by decide)
  | .write name, _ => (Bracketed.nil.name name).plain (by decide)
  | .call name, _ => (Bracketed.nil.name name).plain (by decide)

theorem StatementList.bracketed : ∀ (list : StatementList) (some : Bool), list.Grammatical some →
    Bracketed list.frontier
  | .nil, _, _ => .nil
  | .cons sts next, _, ⟨proper, grammatical⟩ =>
      (sts.bracketed proper).append (next.bracketedAfter grammatical sts.endsEmpty)

theorem StatementList.bracketedAfter : ∀ (list : StatementList), list.Grammatical false →
    ∀ ends : Bool, Bracketed (list.frontierAfter ends)
  | .nil, _, _ => .nil
  | .cons sts next, ⟨proper, grammatical⟩, _ =>
      ((sts.bracketed proper).append (next.bracketedAfter grammatical sts.endsEmpty)).cons
        (show Bracketed.Ordinary .semicolonsym by decide) (by simp)
end

theorem items_bracketed {β : Type} {item : β → List Marked} (bracketed : ∀ b, Bracketed (item b)) :
    ∀ items : List β, Bracketed (itemsFrontier item items)
  | [] => Bracketed.nil.plain (by decide)
  | b :: items => ((bracketed b).append (items_bracketed bracketed items)).plain (by decide)

theorem section_bracketed {β : Type} {keyword : Token} {item : β → List Marked}
    (bracketed : ∀ b, Bracketed (item b)) (ordinary : Bracketed.Ordinary keyword) :
    ∀ items : List β, Bracketed (sectionFrontier keyword item items)
  | [] => .nil
  | b :: items => ((bracketed b).append (items_bracketed bracketed items)).plain ordinary

theorem constFrontier_bracketed (const : Name × Int) : Bracketed (constFrontier const) :=
  ((Bracketed.nil.number const.2).plain (by decide)).name const.1

theorem varFrontier_bracketed (name : Name) : Bracketed (varFrontier name) :=
  Bracketed.nil.name name

mutual
theorem BlockTree.bracketed : ∀ t : BlockTree, t.Grammatical → Bracketed t.frontier
  | .mk consts vars procs statement, ⟨proper, grammatical⟩ =>
      (section_bracketed constFrontier_bracketed (by decide) consts).append
        ((section_bracketed varFrontier_bracketed (by decide) vars).append
          ((procs.bracketed proper).append (statement.bracketed grammatical)))

theorem ProcTrees.bracketed : ∀ t : ProcTrees, t.Grammatical → Bracketed t.frontier
  | .nil, _ => .nil
  | .cons ident body next, ⟨proper, grammatical⟩ =>
      ((((body.bracketed proper).append ((next.bracketed grammatical).plain (by decide))).plain
        (by decide)).name ident).plain (by decide)
end

theorem normal_balanced {text : List CurrentToken} :
    Balanced (text.map CurrentToken.normal) ↔ Balanced text := by
  have opens : CurrentToken.opens ∘ CurrentToken.normal = CurrentToken.opens := by
    funext token
    show decide (token.normal.cToken = _) = decide (token.cToken = _)
    rw [token.normal_cToken]
  have closes : CurrentToken.closes ∘ CurrentToken.normal = CurrentToken.closes := by
    funext token
    show decide (token.normal.cToken = _) = decide (token.cToken = _)
    rw [token.normal_cToken]
  unfold Balanced
  rw [List.countP_map, List.countP_map, opens, closes]

theorem balanced_period {text : List CurrentToken} {period : CurrentToken}
    (isPeriod : period.cToken = .periodsym) : Balanced (text ++ [period]) ↔ Balanced text := by
  have noLeft : ¬ period.opens = true := by simp [CurrentToken.opens, isPeriod]
  have noRight : ¬ period.closes = true := by simp [CurrentToken.closes, isPeriod]
  unfold Balanced
  rw [List.countP_append, List.countP_append, List.countP_cons_of_neg noLeft,
    List.countP_cons_of_neg noRight, List.countP_nil, List.countP_nil]
  rfl

section Loose

variable {frontier : List Marked} {text rest : List CurrentToken}

/-- Only closing parentheses can be missing, so none is where they go in pairs. -/
theorem loose_exact (bracketed : Bracketed frontier) (kept : Rewrites Loose frontier text rest) :
    Balanced text ↔ text = frontier.map Prod.fst := by
  constructor
  · intro balanced
    have opened : text.countP CurrentToken.opens =
      (frontier.map Prod.fst).countP CurrentToken.opens := by
      refine kept.countP_same ?_
      rintro pair member alt next (rfl | ⟨closer, rfl⟩)
      · rfl
      · have closes := bracketed.closers pair member closer
        have noLeft : ¬ pair.1.opens = true := by
          simp only [CurrentToken.closes, decide_eq_true_eq] at closes
          simp [CurrentToken.opens, closes]
        rw [List.countP_cons_of_neg noLeft]
    have closed : text = frontier.map Prod.fst ∨
        text.countP CurrentToken.closes < (frontier.map Prod.fst).countP CurrentToken.closes := by
      refine kept.countP_lower ?_
      rintro pair member alt next (rfl | ⟨closer, rfl⟩)
      · exact .inl rfl
      · rw [List.countP_cons_of_pos (bracketed.closers pair member closer)]
        exact .inr (Nat.succ_pos _)
    rcases closed with same | less
    · exact same
    · have whole := bracketed.balanced
      unfold Balanced at balanced whole
      omega
  · rintro rfl
    exact bracketed.balanced

theorem loose_inside (bracketed : Bracketed frontier) (kept : Rewrites Loose frontier text rest) :
    ∀ token ∈ text, token.cToken ≠ .periodsym := by
  have none : text.countP (fun token => decide (token.cToken = .periodsym)) =
      (frontier.map Prod.fst).countP fun token => decide (token.cToken = .periodsym) := by
    refine kept.countP_same ?_
    rintro pair member alt next (rfl | ⟨closer, rfl⟩)
    · rfl
    · have inside := bracketed.inside pair member
      rw [List.countP_cons_of_neg (by simp [inside])]
  have zero : ((frontier.map Prod.fst).countP fun token => decide
    (token.cToken = .periodsym)) = 0 := by
    refine List.countP_eq_zero.mpr fun token member => ?_
    obtain ⟨pair, member', rfl⟩ := List.mem_map.mp member
    simp [bracketed.inside pair member']
  rw [zero] at none
  intro token member isPeriod
  exact List.countP_eq_zero.mp none token member (decide_eq_true isPeriod)

end Loose

/-- The tokens up to the first period, with it. -/
def upToPeriod : List CurrentToken → List CurrentToken
  | [] => []
  | token :: rest => if token.cToken = .periodsym then [token] else token :: upToPeriod rest

theorem upToPeriod_append {text rest : List CurrentToken} {period : CurrentToken}
    (inside : ∀ token ∈ text, token.cToken ≠ .periodsym) (isPeriod : period.cToken = .periodsym) :
    upToPeriod (text ++ period :: rest) = text ++ [period] := by
  induction text with
  | nil => rw [List.nil_append, upToPeriod, if_pos isPeriod, List.nil_append]
  | cons token text ih =>
      obtain ⟨other, others⟩ := List.forall_mem_cons.mp inside
      rw [List.cons_append, upToPeriod, if_neg other, ih others, List.cons_append]

/-- The tokens of a file that have been read when the parser is in the state `s`. -/
def ParseState.consumed (s : ParseState) (file : List CurrentToken) : List CurrentToken :=
  (seen file).take ((seen file).length - (seen s.tokenFile).length)

/-- The tokens of a parse that says nothing. -/
theorem ProgramTaken.tokens {t : BlockTree} {file more : List CurrentToken} {s : ParseState}
    (taken : ProgramTaken t ((seen file).map CurrentToken.normal) more s) :
    ∃ text period rest, seen file = text ++ period :: rest ∧ period.normal = .word .periodsym ∧
      Rewrites Loose t.frontier (text.map CurrentToken.normal) (.word .periodsym :: more) ∧
      s.consumed file = text ++ [period] ∧ upToPeriod (seen file) = text ++ [period] := by
  obtain ⟨text, whole, kept⟩ := taken.text
  obtain ⟨before, behind, parts, rfl, tail⟩ := List.map_eq_append_iff.mp whole
  obtain ⟨period, rest, rfl, isPeriod, left⟩ := List.map_eq_cons_iff.mp tail
  have code : period.cToken = .periodsym := by
    rw [← period.normal_cToken, isPeriod]
    rfl
  refine ⟨before, period, rest, parts, isPeriod, kept, ?_, ?_⟩
  · have same : rest.length = (seen s.tokenFile).length := by
      have lengths := congrArg List.length (left.trans taken.left.symm)
      rw [List.length_map, List.length_map] at lengths
      exact lengths
    rw [ParseState.consumed, parts, ← same]
    rw [show (before ++ period :: rest).length - rest.length = (before ++ [period]).length by
      simp only [List.length_append, List.length_cons, List.length_nil]
      omega, show before ++ period :: rest = (before ++ [period]) ++ rest by simp, List.take_left]
  · rw [parts]
    refine upToPeriod_append (fun token member isPeriod' => ?_) code
    refine loose_inside (t.bracketed taken.grammatical) kept token.normal
      (List.mem_map.mpr ⟨token, member, rfl⟩) ?_
    rw [token.normal_cToken]
    exact isPeriod'

/-- The text that a program spells is one with its parentheses in pairs. -/
theorem spells_balanced {t : BlockTree} {text : List CurrentToken} (grammatical : t.Grammatical)
    (spells : Spells text t.program) : Balanced text := by
  rw [← normal_balanced, show text.map CurrentToken.normal = t.program.map Prod.fst from spells,
    BlockTree.program, List.map_append]
  exact (balanced_period rfl).mpr (t.bracketed grammatical).balanced

/-- A parse that says nothing has read a sentence of the grammar exactly when the parentheses
of what it read go in pairs. -/
theorem silent_sentence {fuel : Nat} {file : List CurrentToken} {block : BlockNode} {s : ParseState}
    (accepted : parse fuel file = .ok block s) (silent : s.reports = []) :
    Sentence .program (s.consumed file) ↔ Balanced (upToPeriod (seen file)) := by
  obtain ⟨t, more, taken, -⟩ := parse_taken accepted silent
  obtain ⟨text, period, rest, parts, isPeriod, kept, consumed, upTo⟩ := taken.tokens
  have code : period.cToken = .periodsym := by
    rw [← period.normal_cToken, isPeriod]
    rfl
  rw [consumed, upTo]
  constructor
  · intro sentence
    obtain ⟨t', grammatical, spells⟩ := sentence_iff.mp sentence
    exact spells_balanced grammatical spells
  · intro balanced
    have exact_ := (loose_exact (t.bracketed taken.grammatical) kept).mp
      (normal_balanced.mpr ((balanced_period code).mp balanced))
    refine sentence_iff.mpr ⟨t, taken.grammatical, ?_⟩
    unfold Spells BlockTree.program
    rw [List.map_append, List.map_append, exact_]
    simp only [List.map_cons, List.map_nil, isPeriod]

/-- `var x; begin x := (1 end.` -/
def unclosed : List CurrentToken :=
  [.word .varsym, .ident [120], .word .semicolonsym, .word .beginsym, .ident [120],
    .word .becomessym, .word .lparentsym, .number 1, .word .endsym, .word .periodsym]

theorem unclosed_accepted : ∃ block s, parse 20 unclosed = .ok block s ∧ s.reports = [] := by
  apply returned?_eq_some.mp
  rfl

theorem silent_sentence_unclosed : ∃ block s, parse 20 unclosed = .ok block s ∧
    (Sentence .program (s.consumed unclosed) ↔ Balanced (upToPeriod (seen unclosed))) := by
  obtain ⟨block, s, accepted, silent⟩ := unclosed_accepted
  exact ⟨block, s, accepted, silent_sentence accepted silent⟩

theorem unclosed_no_sentence : ¬ ∀ (fuel : Nat) (file : List CurrentToken) (block : BlockNode)
    (s : ParseState), parse fuel file = .ok block s → s.reports = [] →
      Sentence .program (s.consumed file) := by
  intro always
  obtain ⟨block, s, accepted, silent⟩ := unclosed_accepted
  obtain ⟨t, more, taken, -⟩ := parse_taken accepted silent
  obtain ⟨text, period, rest, -, -, -, consumed, upTo⟩ := taken.tokens
  obtain ⟨t', grammatical, spells⟩ := sentence_iff.mp (always _ _ _ _ accepted silent)
  have balanced := spells_balanced grammatical spells
  rw [consumed, ← upTo] at balanced
  exact absurd balanced (by decide)

end Pl0
