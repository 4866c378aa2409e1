import Pl0.BlockRereading

set_option autoImplicit false

namespace Pl0

open StateExcept

/- A text that is not read as the statement it was printed for. The parser reads it as it was
printed up to the first place that goes wrong, and what it makes of that place is another
statement, whatever it finds and reports behind. -/

/-- Whatever the function returns, from wherever it starts, is `wrong`. -/
def Yields {α : Type} (x : ParseM α) (wrong : α → Prop) : Prop :=
  Triple (fun _ => True) x (fun a _ => wrong a) fun _ _ => True

/-- Whatever the function returns for the text is `wrong`. -/
def Misreads {α : Type} (x : ParseM α) (tokens : List CurrentToken) (g : GenState)
    (wrong : α → Prop) : Prop :=
  Triple (Stands (fun _ => True) tokens g) x (fun a _ => wrong a) fun _ _ => True

section Rules

variable {α β : Type} {tokens rest : List CurrentToken} {g g' : GenState} {a : α}
  {wrong : α → Prop} {worse : β → Prop}

theorem yields_pure (is : wrong a) : Yields (pure a) wrong :=
  Triple.pure fun _ _ => is

theorem yields_any (x : ParseM α) : Yields x fun _ => True := by
  intro s _
  cases x s <;> trivial

theorem yields_throw {stop : Stop} : Yields (throw stop) wrong :=
  Triple.throw fun _ _ => trivial

theorem Yields.then {x : ParseM α} {f : α → ParseM β} (first : Yields x wrong)
    (next : ∀ a, wrong a → Yields (f a) worse) : Yields (x >>= f) worse :=
  Triple.bind first fun a s is => next a is s trivial

theorem Yields.bind {x : ParseM α} {f : α → ParseM β} (next : ∀ a, Yields (f a) worse) :
    Yields (x >>= f) worse :=
  (yields_any x).then fun a _ => next a

theorem Yields.mono {x : ParseM α} {wrong' : α → Prop} (yields : Yields x wrong)
    (weaker : ∀ a, wrong a → wrong' a) : Yields x wrong' :=
  Triple.mono yields (fun a _ => weaker a) fun _ _ => id

theorem Yields.ite {c : Prop} [Decidable c] {x y : ParseM α} (yes : Yields x wrong)
    (no : Yields y wrong) : Yields (if c then x else y) wrong :=
  Triple.ite yes no

theorem Yields.misreads {x : ParseM α} (yields : Yields x wrong) : Misreads x tokens g wrong :=
  yields.weaken fun _ _ => trivial

theorem Misreads.mono {x : ParseM α} {wrong' : α → Prop} (misreads : Misreads x tokens g wrong)
    (weaker : ∀ a, wrong a → wrong' a) : Misreads x tokens g wrong' :=
  Triple.mono misreads (fun a _ => weaker a) fun _ _ => id

/-- What the function returns is known, and wrong. -/
theorem ReadsTo.returns_wrong {x : ParseM α} (reads : ReadsTo (fun _ => True) x tokens g a rest g')
    (is : wrong a) : Misreads x tokens g wrong :=
  Triple.mono reads (fun _ _ found => found.1 ▸ is) fun _ _ _ => trivial

theorem misreads_throw {stop : Stop} : Misreads (throw stop) tokens g wrong :=
  Triple.throw fun _ _ => trivial

/-- What is read as it was printed leaves the mistake to what follows. -/
theorem ReadsTo.misreads {x : ParseM α} {f : α → ParseM β}
    (first : ReadsTo (fun _ => True) x tokens g a rest g')
    (next : Misreads (f a) rest g' worse) : Misreads (x >>= f) tokens g worse := by
  intro s stands
  cases run : x s with
  | error stop t => rw [bind_of_error run]; trivial
  | ok b t =>
      obtain ⟨rfl, behind⟩ := Triple.ok first stands run
      rw [bind_of_ok run]
      exact next t behind

/-- What follows a mistake does not mend it. -/
theorem Misreads.bind {x : ParseM α} {f : α → ParseM β} (first : Misreads x tokens g wrong)
    (next : ∀ a, wrong a → Yields (f a) worse) : Misreads (x >>= f) tokens g worse :=
  Triple.bind first fun a s is => next a is s trivial

theorem Misreads.get {f : ParseState → ParseM α}
    (next : ∀ t, Stands (fun _ => True) tokens g t → Misreads (f t) tokens g wrong) :
    Misreads (MonadState.get >>= f) tokens g wrong :=
  fun s stands => next s stands s stands

theorem Misreads.read {token : CurrentToken} {f : Unit → ParseM α}
    (next : Misreads (f ()) tokens g wrong) :
    Misreads (getToken >>= f) (token :: tokens) g wrong :=
  ReadsTo.misreads readsTo_getToken next

theorem Misreads.generate {f : GenState → GenState} {k : Unit → ParseM α}
    (next : Misreads (k ()) tokens (f g) wrong) : Misreads (modifyGen f >>= k) tokens g wrong :=
  ReadsTo.misreads readsTo_modifyGen next

theorem Misreads.record {parse : ParseM StatementNode} {wrong : StatementNode → Prop}
    (body : Bool) (misreads : Misreads parse tokens g wrong) :
    Misreads (recordStatement body parse) tokens g wrong :=
  Misreads.get fun _ _ => misreads.bind fun _ is => .bind fun _ => yields_pure is

end Rules

/-- The node is another statement than `s`, empty statements of a list apart. -/
def StatementNode.Differs (s node : StatementNode) : Prop :=
  node.isEmpty = false ∧ node.dropEmpty ≠ s.dropEmpty

/-- The printed text of the statement is not read as the statement in front of `rest`. -/
def StatementNode.Misread (s : StatementNode) (rest : List CurrentToken) : Prop :=
  ¬ s.Reprintable ∨ s.endsEmpty = true ∧ inset (headToken rest) statbegsys = true

section Statements

variable {fuel : Nat} {fsys : Symset} {g : GenState} {tokens rest : List CurrentToken}

theorem lenient_any : Lenient (fun _ : List Report => True) := fun _ _ _ => trivial

/-- Where a name stands for a keyword, the statement becomes an assignment. -/
theorem ident_misreads {s : StatementNode} (ident : headToken tokens = .identsym)
    (other : ∀ name e, s.dropEmpty ≠ .assign name e) :
    Misreads (statementParse fuel fsys) tokens g s.Differs := by
  cases fuel with
  | zero => exact misreads_throw
  | succ fuel =>
      apply Misreads.get
      intro t stands
      rw [stands.ahead.cToken, ident]
      refine Yields.misreads (.bind fun this => .bind fun _ => .bind fun _ => .bind fun _ =>
        .bind fun _ => .bind fun exp => .bind fun _ => yields_pure ⟨rfl, fun same => ?_⟩)
      exact other _ _ same.symm

theorem dropEmpty_isEmpty (s : StatementNode) : s.dropEmpty.isEmpty = s.isEmpty := by
  cases s <;> rfl

theorem differs_empty {node : StatementNode} (filled : node.isEmpty = false) :
    StatementNode.empty.Differs node := by
  refine ⟨filled, fun same => ?_⟩
  have none : node.isEmpty = true := by
    rw [← dropEmpty_isEmpty, same]
    rfl
  rw [filled] at none
  cases none

/-- Where a statement begins, the parser makes one that is not empty. -/
theorem begins_misreads (begins : inset (headToken tokens) statbegsys = true) :
    Misreads (statementParse fuel fsys) tokens g StatementNode.empty.Differs := by
  cases fuel with
  | zero => exact misreads_throw
  | succ fuel =>
      apply Misreads.get
      intro t stands
      rw [stands.ahead.cToken]
      generalize headToken tokens = token at begins
      apply Yields.misreads
      cases token <;> first | exact absurd begins (by decide) | skip
      case identsym =>
        exact .bind fun _ => .bind fun _ => .bind fun _ => .bind fun _ => .bind fun _ =>
          .bind fun _ => .bind fun _ => yields_pure (differs_empty rfl)
      case beginsym =>
        exact .bind fun _ => .bind fun _ => .bind fun _ => .bind fun _ => .bind fun _ =>
          yields_pure (differs_empty rfl)
      case ifsym =>
        refine .bind fun _ => .bind fun _ => .bind fun _ => .bind fun _ => .bind fun _ =>
          .bind fun _ => .bind fun _ => .bind fun _ => .bind fun _ => .bind fun _ => .ite ?_ ?_
        · exact .bind fun _ => .bind fun _ => .bind fun _ => yields_pure (differs_empty rfl)
        · exact .bind fun _ => yields_pure (differs_empty rfl)
      case whilesym =>
        exact .bind fun _ => .bind fun _ => .bind fun _ => .bind fun _ => .bind fun _ =>
          .bind fun _ => .bind fun _ => .bind fun _ => .bind fun _ => .bind fun _ => .bind fun _ =>
            .bind fun _ => yields_pure (differs_empty rfl)
      all_goals
        exact .bind fun _ => .bind fun _ => .bind fun _ => .bind fun _ => .bind fun _ =>
          .bind fun _ => yields_pure (differs_empty rfl)

theorem guard_ident {keyword : Token} {cond : ConditionNode} (odd : cond.isOdd = true)
    (more : List CurrentToken) : headToken (guardPrinted keyword cond ++ more) = .identsym := by
  cases cond with
  | odd right => rfl
  | relOp op left right => cases odd

theorem condition_reads {cond : ConditionNode} {behind : Token} (grammatical : cond.Grammatical)
    (suited : cond.Suited g.lookup) (guards : Guards fsys) (calm : behind ∉ operators) :
    ReadsTo (fun _ => True) (conditionParse fuel fsys)
      (cond.frontier.map Prod.fst ++ .word behind :: rest) g cond (.word behind :: rest)
      (genCondition cond g) :=
  conditionParse_reads (fun _ => lenient_any) cond grammatical suited guards
    (kept_same cond.frontier (.word behind :: rest)) calm

/-- A statement is read as it was printed, its semicolon apart. -/
theorem statement_rereads {s : StatementNode} (grammatical : s.Grammatical)
    (suited : s.Suited g.lookup) (closed : s.ThenBranches StatementNode.Closed)
    (guards : Guards fsys) (reprintable : s.Reprintable)
    (follows : Follows True s.reread fsys (semicolonIf s.endsSemicolon ++ rest)) :
    ReadsTo (fun _ => True) (statementParse fuel fsys) (s.printed ++ rest) g s.reread
      (semicolonIf s.endsSemicolon ++ rest) (genStatement s.reread g) := by
  obtain ⟨text, printed, kept⟩ := statement_printsAs s reprintable
  have spec := reread_spec s
  rw [printed, List.append_assoc]
  exact statementParse_reads (fun _ => lenient_any) s.reread (spec.grammatical grammatical)
    (spec.suited _ suited) (spec.closed closed) guards (kept _) follows

/-- The first token of a printed statement. -/
theorem printed_head {s : StatementNode} (filled : s.isEmpty = false)
    (more : List CurrentToken) : inset (headToken (s.printed ++ more)) statbegsys = true := by
  cases s with
  | empty => cases filled
  | ifS cond ifsts => cases cond <;> exact of_decide_eq_true rfl
  | ifElse cond ifsts elsests => cases cond <;> exact of_decide_eq_true rfl
  | «while» cond sts => cases cond <;> exact of_decide_eq_true rfl
  | _ => exact of_decide_eq_true rfl

/-- Behind the statements of a list comes its end, or another statement. -/
theorem printedList_head : ∀ (list : StatementList) (more : List CurrentToken),
    (list.allEmpty = true ∧ list.printed = []) ∨
      (list.allEmpty = false ∧ inset (headToken (list.printed ++ more)) statbegsys = true)
  | .nil, _ => .inl ⟨rfl, rfl⟩
  | .cons sts next, more => by
      cases filled : sts.isEmpty with
      | true =>
          obtain rfl := sts.eq_empty filled
          exact printedList_head next more
      | false =>
          rw [StatementList.allEmpty, filled, StatementList.printed, List.append_assoc]
          exact .inr ⟨rfl, printed_head filled _⟩

theorem StatementList.Reprintable.behindEmpty {next : StatementList} (right : next.Reprintable) :
    (StatementList.cons .empty next).Reprintable := by
  refine ⟨fun filled => ?_, trivial, right⟩
  cases filled

/-- The tokens behind a statement of a list. -/
def StatementList.behind (list : StatementList) (rest : List CurrentToken) : List CurrentToken :=
  list.printed ++ .word .endsym :: rest

/-- A statement of a list is followed as it must be. -/
theorem Follows.inList {sts : StatementNode} {next : StatementList} (guards : Guards fsys)
    (right : ¬ sts.Misread (next.behind rest)) :
    Follows True sts.reread fsys (semicolonIf sts.endsSemicolon ++ next.behind rest) := by
  have ends : next.allEmpty = true → headToken (next.behind rest) = .endsym := by
    intro quiet
    rcases printedList_head next (.word .endsym :: rest) with ⟨-, none⟩ | ⟨filled, -⟩
    · rw [StatementList.behind, none]
      rfl
    · rw [quiet] at filled
      cases filled
  have calm : headToken (semicolonIf sts.endsSemicolon ++ next.behind rest) ∉ operators ∧
      headToken (semicolonIf sts.endsSemicolon ++ next.behind rest) ≠ .elsesym := by
    cases sts.endsSemicolon with
    | true => exact of_decide_eq_true rfl
    | false =>
        show headToken (next.behind rest) ∉ operators ∧ headToken (next.behind rest) ≠ .elsesym
        rcases printedList_head next (.word .endsym :: rest) with ⟨quiet, -⟩ | ⟨-, begins⟩
        · rw [ends quiet]
          decide
        · exact begins_calm begins
  refine ⟨calm.1, fun _ => calm.2, fun empty => ?_⟩
  rw [reread_endsEmpty] at empty
  have notBegin : ¬ inset (headToken (next.behind rest)) statbegsys = true :=
    fun begins => right (.inr ⟨empty, begins⟩)
  have quiet : next.allEmpty = true := by
    rcases printedList_head next (.word .endsym :: rest) with ⟨quiet, -⟩ | ⟨-, begins⟩
    · exact quiet
    · exact absurd begins notBegin
  have last : headToken (semicolonIf sts.endsSemicolon ++ next.behind rest) = .endsym := by
    rw [endsEmpty_no_semicolon sts empty]
    exact ends quiet
  rw [last]
  exact ⟨by decide, .inl guards.ends⟩

theorem printedSeparator_reads (ends : Bool) (begins : inset (headToken rest) statbegsys = true) :
    ReadsTo (fun _ => True) separator (semicolonIf ends ++ rest) g () rest g := by
  cases ends with
  | true => exact readsTo_separator
  | false => exact readsTo_noSeparator lenient_any begins

/-- A list goes wrong in its first printed statement or behind it. -/
theorem cons_misreads {α : Type} {sts : StatementNode} {next : StatementList} {wrong : α → Prop}
    {k : StatementNode → StatementList → ParseM α} (filled : sts.isEmpty = false)
    (grammatical : sts.Grammatical) (suited : sts.Suited g.lookup)
    (closed : sts.ThenBranches StatementNode.Closed) (guards : Guards fsys)
    (mistake : ¬ (StatementList.cons sts next).Reprintable)
    (first : sts.Misread (next.behind rest) → Misreads (statementParse fuel fsys)
      (sts.printed ++ next.behind rest) g sts.Differs)
    (others : ∀ g' : GenState, g'.lookup = g.lookup → ¬ next.Reprintable →
      Misreads (beginLoop fuel fsys) (semicolonIf sts.endsSemicolon ++ next.behind rest) g'
        fun list => list.dropEmpty ≠ next.dropEmpty)
    (kept : ∀ node list, (StatementList.cons node list).dropEmpty ≠
      (StatementList.cons sts next).dropEmpty → Yields (k node list) wrong) :
    Misreads (do
        let node ← recordStatement false (statementParse fuel fsys)
        let list ← beginLoop fuel fsys
        k node list)
      (sts.printed ++ next.behind rest) g wrong := by
  have whole : (StatementList.cons sts next).dropEmpty = .cons sts.dropEmpty next.dropEmpty := by
    rw [StatementList.dropEmpty, filled]
    rfl
  by_cases misread : sts.Misread (next.behind rest)
  · apply ((first misread).record false).bind
    rintro node ⟨filled', differs⟩
    refine .bind fun list => kept node list fun same => differs ?_
    rw [whole, StatementList.dropEmpty, filled'] at same
    exact (StatementList.cons.inj same).1
  · have right : sts.Reprintable := Classical.not_not.mp fun wrong => misread (.inl wrong)
    have behind : ¬ next.Reprintable := by
      refine fun read => mistake ⟨fun _ ends => ?_, right, read⟩
      rcases printedList_head next (.word .endsym :: rest) with ⟨quiet, -⟩ | ⟨-, begins⟩
      · exact quiet
      · exact absurd (.inr ⟨ends, begins⟩) misread
    apply (readsTo_recordStatement false (statement_rereads grammatical suited closed guards right
      (.inList guards misread))).misreads
    have known : (g.recorded false sts.reread (genStatement sts.reread g)).lookup = g.lookup :=
      genStatement_lookup sts.reread g
    apply (others _ known behind).bind
    refine fun list differs => kept sts.reread list fun same => differs ?_
    rw [whole, StatementList.dropEmpty, reread_isEmpty, filled] at same
    exact (StatementList.cons.inj same).2

mutual
theorem statementParse_misreads : ∀ (s : StatementNode) {fuel : Nat} {fsys : Symset} {g : GenState}
    {rest : List CurrentToken}, s.Grammatical → s.Suited g.lookup →
    s.ThenBranches StatementNode.Closed → Guards fsys → s.Misread rest →
    Misreads (statementParse fuel fsys) (s.printed ++ rest) g s.Differs
  | _, 0, _, _, _, _, _, _, _, _ => misreads_throw
  | .empty, fuel + 1, _, _, _, _, _, _, _, misread => by
      rcases misread with wrong | ⟨-, begins⟩
      · exact absurd trivial wrong
      · -- the statement behind it is taken for the empty one
        exact begins_misreads begins
  | .assign _ _, _ + 1, _, _, _, _, _, _, _, .inl wrong => absurd trivial wrong
  | .read _, _ + 1, _, _, _, _, _, _, _, .inl wrong => absurd trivial wrong
  | .write _, _ + 1, _, _, _, _, _, _, _, .inl wrong => absurd trivial wrong
  | .call _, _ + 1, _, _, _, _, _, _, _, .inl wrong => absurd trivial wrong
  | .begin list, fuel + 1, fsys, g, rest, grammatical, suited, closed, guards, .inl wrong => by
      have tokens : (StatementNode.begin list).printed ++ rest =
          .word .beginsym :: list.behind rest := by
        rw [StatementNode.printed, List.cons_append, List.append_assoc]
        rfl
      rw [tokens]
      apply Misreads.get
      intro t stands
      rw [show t.curToken.cToken = .beginsym from stands.ahead.cToken]
      apply Misreads.read
      refine statements_misread list grammatical suited closed
        (guards.front [.semicolonsym, .endsym] (by decide)) wrong fun node others differs => ?_
      refine .bind fun _ => .bind fun _ => yields_pure ⟨rfl, fun same => differs ?_⟩
      exact StatementNode.begin.inj same
  | .ifS cond ifsts, fuel + 1, fsys, g, rest, grammatical, suited, closed, guards, misread => by
      rw [StatementNode.printed, List.append_assoc]
      cases odd : cond.isOdd with
      | true => exact ident_misreads (guard_ident odd _) nofun
      | false =>
          have branch : ifsts.Misread rest :=
            misread.imp (fun wrong right => wrong ⟨odd, right⟩) id
          have wider := guards.front [.thensym, .dosym] (by decide)
          rw [guardPrinted_relOp odd]
          apply Misreads.get
          intro t stands
          rw [show t.curToken.cToken = .ifsym from stands.ahead.cToken]
          apply Misreads.read
          apply (condition_reads grammatical.1 suited.1 wider (by decide)).misreads
          apply (readsTo_expectToken .thensym 16).misreads
          apply Misreads.get
          intro j1 stands1
          rw [stands1.gen]
          apply Misreads.generate
          have known : (genCondition cond g).conditionalJump.lookup = g.lookup :=
            (genCondition_emits cond g).lookup
          apply ((statementParse_misreads ifsts grammatical.2 (known ▸ suited.2) closed guards
            branch).record false).bind
          rintro node ⟨-, differs⟩
          refine .bind fun _ => .bind fun _ => .bind fun _ => .bind fun _ => .ite ?_ ?_
          · exact .bind fun _ => .bind fun _ => .bind fun _ => yields_pure ⟨rfl, nofun⟩
          · refine .bind fun _ => yields_pure ⟨rfl, fun same => differs ?_⟩
            exact (StatementNode.ifS.inj same).2
  | .ifElse cond ifsts elsests, fuel + 1, fsys, g, rest, grammatical, suited, closed, guards,
      misread => by
      simp only [StatementNode.printed, List.append_assoc, List.cons_append]
      cases odd : cond.isOdd with
      | true => exact ident_misreads (guard_ident odd _) nofun
      | false =>
          have wider := guards.front [.thensym, .dosym] (by decide)
          obtain ⟨⟨notEmpty, notOpen⟩, closedIf, closedElse⟩ := closed
          rw [guardPrinted_relOp odd]
          apply Misreads.get
          intro t stands
          rw [show t.curToken.cToken = .ifsym from stands.ahead.cToken]
          apply Misreads.read
          apply (condition_reads grammatical.1 suited.1 wider (by decide)).misreads
          apply (readsTo_expectToken .thensym 16).misreads
          apply Misreads.get
          intro j1 stands1
          rw [stands1.gen]
          apply Misreads.generate
          have known : (genCondition cond g).conditionalJump.lookup = g.lookup :=
            (genCondition_emits cond g).lookup
          by_cases right : ifsts.Reprintable
          · have follows : Follows True ifsts.reread fsys (semicolonIf ifsts.endsSemicolon ++
                .word .elsesym :: (elsests.printed ++ rest)) := by
              refine ⟨?_, fun opened => ?_, fun empty => ?_⟩
              · cases ifsts.endsSemicolon <;>
                  exact of_decide_eq_true rfl
              · rw [reread_endsOpen, notOpen] at opened
                cases opened
              · rw [reread_endsEmpty, notEmpty] at empty
                cases empty
            apply (readsTo_recordStatement false (statement_rereads grammatical.2.1
              (known ▸ suited.2.1) closedIf guards right follows)).misreads
            apply Misreads.get
            intro j2 _
            apply Misreads.generate
            apply Misreads.generate
            apply Misreads.get
            intro u stands3
            cases ends : ifsts.endsSemicolon with
            | true =>
                -- the parser finds the semicolon and looks for no else behind it
                have noElse : u.curToken.cToken ≠ .elsesym := by
                  rw [stands3.ahead.cToken, ends]
                  exact of_decide_eq_true rfl
                rw [if_neg noElse]
                exact Yields.misreads (.bind fun _ => yields_pure ⟨rfl, nofun⟩)
            | false =>
                have isElse : u.curToken.cToken = .elsesym := by
                  rw [stands3.ahead.cToken, ends]
                  rfl
                have other : elsests.Misread rest :=
                  misread.imp (fun wrong read => wrong ⟨odd, ends, right, read⟩) id
                have known' : (genStatement ifsts.reread
                  (genCondition cond g).conditionalJump).lookup =
                    g.lookup := (genStatement_lookup ifsts.reread _).trans known
                rw [if_pos isElse]
                apply Misreads.read
                apply ((statementParse_misreads elsests grammatical.2.2 (known' ▸ suited.2.2)
                  closedElse guards other).record false).bind
                rintro node ⟨-, differs⟩
                refine .bind fun _ => yields_pure ⟨rfl, fun same => differs ?_⟩
                exact (StatementNode.ifElse.inj same).2.2
          · apply ((statementParse_misreads ifsts grammatical.2.1 (known ▸ suited.2.1) closedIf
              guards (.inl right)).record false).bind
            rintro node ⟨-, differs⟩
            refine .bind fun _ => .bind fun _ => .bind fun _ => .bind fun _ => .ite ?_ ?_
            · refine .bind fun _ => .bind fun _ => .bind fun _ =>
                yields_pure ⟨rfl, fun same => differs ?_⟩
              exact (StatementNode.ifElse.inj same).2.1
            · exact .bind fun _ => yields_pure ⟨rfl, nofun⟩
  | .while cond sts, fuel + 1, fsys, g, rest, grammatical, suited, closed, guards, misread => by
      rw [StatementNode.printed, List.append_assoc]
      cases odd : cond.isOdd with
      | true => exact ident_misreads (guard_ident odd _) nofun
      | false =>
          have body : sts.Misread rest :=
            misread.imp (fun wrong right => wrong ⟨odd, right⟩) id
          have wider := guards.front [.dosym] (by decide)
          rw [guardPrinted_relOp odd]
          apply Misreads.get
          intro t stands
          rw [show t.curToken.cToken = .whilesym from stands.ahead.cToken]
          apply Misreads.read
          apply Misreads.get
          intro c _
          apply (condition_reads grammatical.1 suited.1 wider (by decide)).misreads
          apply (readsTo_expectToken .dosym 18).misreads
          apply Misreads.get
          intro j1 stands1
          rw [stands1.gen]
          apply Misreads.generate
          have known : (genCondition cond g).conditionalJump.lookup = g.lookup :=
            (genCondition_emits cond g).lookup
          apply ((statementParse_misreads sts grammatical.2 (known ▸ suited.2) closed guards
            body).record false).bind
          rintro node ⟨-, differs⟩
          refine .bind fun _ => .bind fun _ => .bind fun _ => .bind fun _ => .bind fun _ =>
            yields_pure ⟨rfl, fun same => differs ?_⟩
          exact (StatementNode.while.inj same).2
/-- The statements behind `begin`, up to what the parser makes of them. -/
theorem statements_misread {α : Type} : ∀ (list : StatementList) {flag : Bool} {fuel : Nat}
    {fsys : Symset} {g : GenState} {rest : List CurrentToken} {wrong : α → Prop}
    {k : StatementNode → StatementList → ParseM α}, list.Grammatical flag → list.Suited g.lookup →
    list.ThenBranches StatementNode.Closed → Guards fsys → ¬ list.Reprintable →
    (∀ node others, (StatementList.cons node others).dropEmpty ≠ list.dropEmpty →
      Yields (k node others) wrong) →
    Misreads (do
        let node ← recordStatement false (statementParse fuel fsys)
        let others ← beginLoop fuel fsys
        k node others)
      (list.behind rest) g wrong
  | .nil, _, _, _, _, _, _, _, _, _, _, _, mistake, _ => absurd trivial mistake
  | .cons sts next, flag, fuel, fsys, g, rest, wrong, k, grammatical, suited, closed, guards,
      mistake, kept => by
      cases filled : sts.isEmpty with
      | true =>
          obtain rfl := sts.eq_empty filled
          exact statements_misread next grammatical.2 suited.2 closed.2 guards
            (fun right => mistake right.behindEmpty) kept
      | false =>
          rw [StatementList.behind, StatementList.printed, List.append_assoc]
          exact cons_misreads filled grammatical.1 suited.1 closed.1 guards mistake
            (statementParse_misreads sts grammatical.1 suited.1 closed.1 guards)
            (fun g' known => beginLoop_misreads next sts.endsSemicolon grammatical.2
              (known ▸ suited.2) closed.2 guards) kept

/-- The statements behind one whose text ends with a semicolon or without. -/
theorem beginLoop_misreads : ∀ (list : StatementList) (ends : Bool) {fuel : Nat} {fsys : Symset}
    {g : GenState} {rest : List CurrentToken}, list.Grammatical false → list.Suited g.lookup →
    list.ThenBranches StatementNode.Closed → Guards fsys → ¬ list.Reprintable →
    Misreads (beginLoop fuel fsys) (semicolonIf ends ++ list.behind rest) g
      fun others => others.dropEmpty ≠ list.dropEmpty
  | .nil, _, _, _, _, _, _, _, _, _, mistake => absurd trivial mistake
  | _, _, 0, _, _, _, _, _, _, _, _ => misreads_throw
  | .cons sts next, ends, fuel + 1, fsys, g, rest, grammatical, suited, closed,
      guards, mistake => by
      cases filled : sts.isEmpty with
      | true =>
          obtain rfl := sts.eq_empty filled
          exact beginLoop_misreads next ends grammatical.2 suited.2 closed.2 guards
            (fun right => mistake right.behindEmpty)
      | false =>
          have begins : inset (headToken ((StatementList.cons sts next).behind rest)) statbegsys =
              true := by
            rw [StatementList.behind, StatementList.printed, List.append_assoc]
            exact printed_head filled _
          apply Misreads.get
          intro t stands
          have goesOn : t.curToken.cToken = .semicolonsym ∨
              inset t.curToken.cToken statbegsys = true := by
            rw [stands.ahead.cToken]
            cases ends with
            | true => exact .inl rfl
            | false => exact .inr begins
          rw [if_pos goesOn]
          apply (printedSeparator_reads ends begins).misreads
          rw [StatementList.behind, StatementList.printed, List.append_assoc]
          exact cons_misreads filled grammatical.1 suited.1 closed.1 guards mistake
            (statementParse_misreads sts grammatical.1 suited.1 closed.1 guards)
            (fun g' known => beginLoop_misreads next sts.endsSemicolon grammatical.2
              (known ▸ suited.2) closed.2 guards)
            (fun node others differs => yields_pure differs)
end

end Statements

end Pl0
