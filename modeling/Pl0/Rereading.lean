import Pl0.Compile
import Pl0.DanglingElse
import Pl0.Reading
import Pl0.StatementReading
import Pl0.UnparseTokens

set_option autoImplicit false

namespace Pl0

open MarkedText

/- The statement that the parser makes of the printed text of a statement: a simple
statement is printed with its semicolon, and empty statements are not printed at all. -/

/-- The printed text of the statement ends with a semicolon. -/
def StatementNode.endsSemicolon : StatementNode → Bool
  | .assign _ _ => true
  | .ifS _ ifsts => ifsts.endsSemicolon
  | .ifElse _ _ elsests => elsests.endsSemicolon
  | .while _ sts => sts.endsSemicolon
  | .read _ => true
  | .write _ => true
  | .call _ => true
  | _ => false

/-- The semicolon at the end of a text. -/
def semicolonIf (ends : Bool) : List CurrentToken :=
  if ends then [.word .semicolonsym] else []

/- A semicolon in front of `end` makes an empty statement, and so does a list of which
nothing is printed. -/
mutual
def StatementNode.reread : StatementNode → StatementNode
  | .begin stsList => .begin stsList.reread
  | .ifS cond ifsts => .ifS cond ifsts.reread
  | .ifElse cond ifsts elsests => .ifElse cond ifsts.reread elsests.reread
  | .while cond sts => .while cond sts.reread
  | s => s

def StatementList.reread : StatementList → StatementList
  | .nil => .cons .empty .nil
  | .cons sts next =>
      if sts.isEmpty then next.reread else .cons sts.reread (next.rereadAfter sts.endsSemicolon)

def StatementList.rereadAfter : StatementList → Bool → StatementList
  | .nil, ends => if ends then .cons .empty .nil else .nil
  | .cons sts next, ends =>
      if sts.isEmpty then next.rereadAfter ends
      else .cons sts.reread (next.rereadAfter sts.endsSemicolon)
end

/- The statement without the empty statements of its lists. -/
mutual
def StatementNode.dropEmpty : StatementNode → StatementNode
  | .begin stsList => .begin stsList.dropEmpty
  | .ifS cond ifsts => .ifS cond ifsts.dropEmpty
  | .ifElse cond ifsts elsests => .ifElse cond ifsts.dropEmpty elsests.dropEmpty
  | .while cond sts => .while cond sts.dropEmpty
  | s => s

def StatementList.dropEmpty : StatementList → StatementList
  | .nil => .nil
  | .cons sts next => if sts.isEmpty then next.dropEmpty else .cons sts.dropEmpty next.dropEmpty
end

/-- Nothing is printed of the list. -/
def StatementList.allEmpty : StatementList → Bool
  | .nil => true
  | .cons sts next => sts.isEmpty && next.allEmpty

def ConditionNode.isOdd : ConditionNode → Bool
  | .odd _ => true
  | .relOp _ _ _ => false

/- The printed text of the statement is read as the same statement: `odd` is not glued to
its keyword, no semicolon comes between a then branch and its else, and an empty branch or
loop body in a list does not take in the statement that is printed behind it. -/
mutual
def StatementNode.Reprintable : StatementNode → Prop
  | .begin stsList => stsList.Reprintable
  | .ifS cond ifsts => cond.isOdd = false ∧ ifsts.Reprintable
  | .ifElse cond ifsts elsests =>
      cond.isOdd = false ∧ ifsts.endsSemicolon = false ∧ ifsts.Reprintable ∧ elsests.Reprintable
  | .while cond sts => cond.isOdd = false ∧ sts.Reprintable
  | _ => True

def StatementList.Reprintable : StatementList → Prop
  | .nil => True
  | .cons sts next =>
      (sts.isEmpty = false → sts.endsEmpty = true → next.allEmpty = true) ∧
        sts.Reprintable ∧ next.Reprintable
end

theorem StatementNode.eq_empty (s : StatementNode) (isEmpty : s.isEmpty = true) : s = .empty := by
  cases s <;> first | rfl | cases isEmpty

theorem endsEmpty_no_semicolon : ∀ s : StatementNode, s.endsEmpty = true →
    s.endsSemicolon = false
  | .empty, _ => rfl
  | .assign _ _, ends => by cases ends
  | .begin _, ends => by cases ends
  | .ifS _ ifsts, ends => endsEmpty_no_semicolon ifsts ends
  | .ifElse _ _ elsests, ends => endsEmpty_no_semicolon elsests ends
  | .while _ sts, ends => endsEmpty_no_semicolon sts ends
  | .read _, ends => by cases ends
  | .write _, ends => by cases ends
  | .call _, ends => by cases ends

theorem reread_isEmpty (s : StatementNode) : s.reread.isEmpty = s.isEmpty := by
  cases s <;> rfl

theorem reread_endsEmpty : ∀ s : StatementNode, s.reread.endsEmpty = s.endsEmpty
  | .empty => rfl
  | .assign _ _ => rfl
  | .begin _ => rfl
  | .ifS _ ifsts => reread_endsEmpty ifsts
  | .ifElse _ _ elsests => reread_endsEmpty elsests
  | .while _ sts => reread_endsEmpty sts
  | .read _ => rfl
  | .write _ => rfl
  | .call _ => rfl

theorem reread_endsOpen : ∀ s : StatementNode, s.reread.endsOpen = s.endsOpen
  | .empty => rfl
  | .assign _ _ => rfl
  | .begin _ => rfl
  | .ifS _ _ => rfl
  | .ifElse _ _ elsests => reread_endsOpen elsests
  | .while _ sts => reread_endsOpen sts
  | .read _ => rfl
  | .write _ => rfl
  | .call _ => rfl

/-- What holds of a statement holds of it as it is reread. -/
structure RereadOf (s : StatementNode) : Prop where
  dropEmpty : s.reread.dropEmpty = s.dropEmpty
  grammatical : s.Grammatical → s.reread.Grammatical
  suited : ∀ find, s.Suited find → s.reread.Suited find
  closed : s.ThenBranches StatementNode.Closed → s.reread.ThenBranches StatementNode.Closed
  compiled : ∀ c n start, compileStatement c s.reread n start = compileStatement c s n start

/-- The same for a list; the flag tells whether a statement is asked for. -/
structure RereadTo (list whole : StatementList) (some_ : Bool) : Prop where
  dropEmpty : whole.dropEmpty = list.dropEmpty
  grammatical : ∀ flag, list.Grammatical flag → whole.Grammatical some_
  suited : ∀ find, list.Suited find → whole.Suited find
  closed : list.ThenBranches StatementNode.Closed → whole.ThenBranches StatementNode.Closed
  compiled : ∀ c n start, compileStatements c whole n start = compileStatements c list n start

/-- An empty statement of a list is not printed. -/
theorem RereadTo.empty {list whole : StatementList} {some_ : Bool}
    (spec : RereadTo list whole some_) : RereadTo (.cons .empty list) whole some_ where
  dropEmpty := spec.dropEmpty
  grammatical := fun _ proper => spec.grammatical false proper.2
  suited := fun find suited => spec.suited find suited.2
  closed := fun closed => spec.closed closed.2
  compiled := spec.compiled

theorem RereadTo.cons {sts : StatementNode} {next next' : StatementList} (some_ : Bool)
    (filled : ¬ sts.isEmpty = true) (spec : RereadOf sts) (others : RereadTo next next' false) :
    RereadTo (.cons sts next) (.cons sts.reread next') some_ where
  dropEmpty := by
    rw [StatementList.dropEmpty, StatementList.dropEmpty, reread_isEmpty, if_neg filled,
      if_neg filled, spec.dropEmpty, others.dropEmpty]
  grammatical := fun _ proper => ⟨spec.grammatical proper.1, others.grammatical false proper.2⟩
  suited := fun find suited => ⟨spec.suited find suited.1, others.suited find suited.2⟩
  closed := fun closed => ⟨spec.closed closed.1, others.closed closed.2⟩
  compiled := fun c n start => by
    simp only [compileStatements, spec.compiled, others.compiled]

/-- The empty statement that the parser finds at the end of a list. -/
theorem rereadTo_last (some_ : Bool) : RereadTo .nil (.cons .empty .nil) some_ where
  dropEmpty := rfl
  grammatical := fun _ _ => ⟨trivial, rfl⟩
  suited := fun _ _ => ⟨trivial, trivial⟩
  closed := fun _ => ⟨trivial, trivial⟩
  compiled := fun _ _ _ => rfl

theorem rereadOf_rfl (s : StatementNode) (same : s.reread = s) : RereadOf s := by
  constructor <;> rw [same]
  · exact id
  · exact fun _ => id
  · exact id
  · exact fun _ _ _ => rfl

mutual
theorem reread_spec : ∀ s : StatementNode, RereadOf s
  | .empty => rereadOf_rfl _ rfl
  | .assign _ _ => rereadOf_rfl _ rfl
  | .read _ => rereadOf_rfl _ rfl
  | .write _ => rereadOf_rfl _ rfl
  | .call _ => rereadOf_rfl _ rfl
  | .begin stsList => by
      have spec := rereadList_spec stsList
      constructor
      · simp only [StatementNode.reread, StatementNode.dropEmpty, spec.dropEmpty]
      · exact spec.grammatical true
      · exact spec.suited
      · exact spec.closed
      · intro c n start
        simp only [StatementNode.reread, compileStatement, spec.compiled]
  | .ifS cond ifsts => by
      have spec := reread_spec ifsts
      constructor
      · simp only [StatementNode.reread, StatementNode.dropEmpty, spec.dropEmpty]
      · exact fun proper => ⟨proper.1, spec.grammatical proper.2⟩
      · exact fun find suited => ⟨suited.1, spec.suited find suited.2⟩
      · exact spec.closed
      · intro c n start
        simp only [StatementNode.reread, compileStatement, spec.compiled]
  | .ifElse cond ifsts elsests => by
      have spec := reread_spec ifsts
      have specElse := reread_spec elsests
      constructor
      · simp only [StatementNode.reread, StatementNode.dropEmpty, spec.dropEmpty,
          specElse.dropEmpty]
      · exact fun proper =>
          ⟨proper.1, spec.grammatical proper.2.1, specElse.grammatical proper.2.2⟩
      · exact fun find suited =>
          ⟨suited.1, spec.suited find suited.2.1, specElse.suited find suited.2.2⟩
      · rintro ⟨⟨filled, closed⟩, closedIf, closedElse⟩
        refine ⟨⟨?_, ?_⟩, spec.closed closedIf, specElse.closed closedElse⟩
        · rw [reread_endsEmpty]
          exact filled
        · rw [reread_endsOpen]
          exact closed
      · intro c n start
        simp only [StatementNode.reread, compileStatement, spec.compiled, specElse.compiled]
  | .while cond sts => by
      have spec := reread_spec sts
      constructor
      · simp only [StatementNode.reread, StatementNode.dropEmpty, spec.dropEmpty]
      · exact fun proper => ⟨proper.1, spec.grammatical proper.2⟩
      · exact fun find suited => ⟨suited.1, spec.suited find suited.2⟩
      · exact spec.closed
      · intro c n start
        simp only [StatementNode.reread, compileStatement, spec.compiled]

theorem rereadList_spec : ∀ list : StatementList, RereadTo list list.reread true
  | .nil => rereadTo_last true
  | .cons sts next => by
      rw [StatementList.reread]
      by_cases isEmpty : sts.isEmpty = true
      · rw [if_pos isEmpty, sts.eq_empty isEmpty]
        exact (rereadList_spec next).empty
      · rw [if_neg isEmpty]
        exact .cons true isEmpty (reread_spec sts) (rereadAfter_spec next sts.endsSemicolon)

theorem rereadAfter_spec : ∀ (list : StatementList) (ends : Bool),
    RereadTo list (list.rereadAfter ends) false
  | .nil, false => ⟨rfl, fun _ _ => rfl, fun _ => id, id, fun _ _ _ => rfl⟩
  | .nil, true => rereadTo_last false
  | .cons sts next, ends => by
      rw [StatementList.rereadAfter]
      by_cases isEmpty : sts.isEmpty = true
      · rw [if_pos isEmpty, sts.eq_empty isEmpty]
        exact (rereadAfter_spec next ends).empty
      · rw [if_neg isEmpty]
        exact .cons false isEmpty (reread_spec sts) (rereadAfter_spec next sts.endsSemicolon)
end

theorem kept_same (marked : List Marked) (rest : List CurrentToken) :
    Rewrites (Kept True) marked (marked.map Prod.fst) rest :=
  rewrites_same (fun _ _ _ => .inl rfl) marked rest

theorem kept_token {token : CurrentToken} {mark : Mark} {marked : List Marked}
    {text rest : List CurrentToken} (others : Rewrites (Kept True) marked text rest) :
    Rewrites (Kept True) ((token, mark) :: marked) (token :: text) rest :=
  .cons (.inl rfl) others

theorem kept_both {first second : List Marked} {before after rest : List CurrentToken}
    (left : ∀ rest, Rewrites (Kept True) first before rest)
    (right : Rewrites (Kept True) second after rest) :
    Rewrites (Kept True) (first ++ second) (before ++ after) rest :=
  rewrites_append.mpr ⟨before, after, rfl, left _, right⟩

theorem guardPrinted_relOp {keyword : Token} : ∀ {cond : ConditionNode}, cond.isOdd = false →
    guardPrinted keyword cond = .word keyword :: cond.frontier.map Prod.fst
  | .odd _, odd => by cases odd
  | .relOp op left right, _ => by
      rw [guardPrinted, ConditionNode.frontier, List.map_append]
      rfl

/-- The guard of an if or a while, with what is printed behind it. -/
theorem kept_guard {keyword behind : Token} {cond : ConditionNode} (relOp : cond.isOdd = false)
    {marked : List Marked} {text rest : List CurrentToken}
    (others : Rewrites (Kept True) marked text rest) :
    Rewrites (Kept True) (plain keyword :: (cond.frontier ++ plain behind :: marked))
      (guardPrinted keyword cond ++ .word behind :: text) rest := by
  rw [guardPrinted_relOp relOp]
  exact kept_token (kept_both (kept_same cond.frontier) (kept_token others))

/-- The printed text of a statement is read as the statement, its semicolon apart. -/
def PrintsAs (s : StatementNode) : Prop :=
  ∃ text, s.printed = text ++ semicolonIf s.endsSemicolon ∧
    ∀ rest, Rewrites (Kept True) s.reread.frontier text rest

theorem simple_printsAs (s : StatementNode) (printed : s.printed = simplePrinted s)
    (ends : s.endsSemicolon = true) (same : s.reread = s) : PrintsAs s := by
  refine ⟨s.frontier.map Prod.fst, ?_, ?_⟩
  · rw [printed, ends]
    rfl
  · rw [same]
    exact kept_same s.frontier

mutual
theorem statement_printsAs : ∀ s : StatementNode, s.Reprintable → PrintsAs s
  | .empty, _ => ⟨[], rfl, fun rest => .nil rest⟩
  | .assign _ _, _ => simple_printsAs _ rfl rfl rfl
  | .read _, _ => simple_printsAs _ rfl rfl rfl
  | .write _, _ => simple_printsAs _ rfl rfl rfl
  | .call _, _ => simple_printsAs _ rfl rfl rfl
  | .begin stsList, reprintable => by
      refine ⟨_, (List.append_nil _).symm, fun rest => ?_⟩
      exact kept_token (kept_both (rereadList_printed stsList reprintable)
        (kept_same [plain .endsym] rest))
  | .ifS cond ifsts, ⟨relOp, branch⟩ => by
      obtain ⟨text, printed, kept⟩ := statement_printsAs ifsts branch
      refine ⟨guardPrinted .ifsym cond ++ .word .thensym :: text, ?_, fun rest => ?_⟩
      · rw [StatementNode.printed, printed, List.append_assoc]
        rfl
      · exact kept_guard relOp (kept rest)
  | .ifElse cond ifsts elsests, ⟨relOp, closed, branch, other⟩ => by
      obtain ⟨text, printed, kept⟩ := statement_printsAs ifsts branch
      obtain ⟨text', printed', kept'⟩ := statement_printsAs elsests other
      rw [closed, semicolonIf, if_neg (by decide), List.append_nil] at printed
      refine ⟨guardPrinted .ifsym cond ++
        .word .thensym :: (text ++ .word .elsesym :: text'), ?_, fun rest => ?_⟩
      · rw [StatementNode.printed, printed, printed', List.append_assoc, List.cons_append,
          List.append_assoc]
        rfl
      · exact kept_guard relOp (kept_both kept (kept_token (kept' rest)))
  | .while cond sts, ⟨relOp, body⟩ => by
      obtain ⟨text, printed, kept⟩ := statement_printsAs sts body
      refine ⟨guardPrinted .whilesym cond ++ .word .dosym :: text, ?_, fun rest => ?_⟩
      · rw [StatementNode.printed, printed, List.append_assoc]
        rfl
      · exact kept_guard relOp (kept rest)

theorem rereadList_printed : ∀ list : StatementList, list.Reprintable → ∀ rest,
    Rewrites (Kept True) list.reread.frontier list.printed rest
  | .nil, _, rest => .nil rest
  | .cons sts next, ⟨apart, first, others⟩, rest => by
      rw [StatementList.reread]
      by_cases isEmpty : sts.isEmpty = true
      · rw [if_pos isEmpty, sts.eq_empty isEmpty]
        exact rereadList_printed next others rest
      · rw [if_neg isEmpty]
        obtain ⟨text, printed, kept⟩ := statement_printsAs sts first
        have later := rereadAfter_printed next sts.endsSemicolon sts.endsEmpty (fun ends =>
          ⟨endsEmpty_no_semicolon sts ends, apart (Bool.eq_false_iff.mpr isEmpty) ends⟩) others rest
        rw [StatementList.frontier, reread_endsEmpty, StatementList.printed, printed,
          List.append_assoc]
        exact kept_both kept later

/-- The statements behind one whose text ends with a semicolon or without. Where it ends
with an empty statement, the parser would not find the next one. -/
theorem rereadAfter_printed : ∀ (list : StatementList) (ends emptied : Bool),
    (emptied = true → ends = false ∧ list.allEmpty = true) → list.Reprintable → ∀ rest,
      Rewrites (Kept True) ((list.rereadAfter ends).frontierAfter emptied)
        (semicolonIf ends ++ list.printed) rest
  | .nil, false, _, _, _, rest => .nil rest
  | .nil, true, _, _, _, rest => kept_token (.nil rest)
  | .cons sts next, ends, emptied, quiet, ⟨apart, first, others⟩, rest => by
      rw [StatementList.rereadAfter]
      by_cases isEmpty : sts.isEmpty = true
      · rw [if_pos isEmpty]
        obtain rfl := sts.eq_empty isEmpty
        exact rereadAfter_printed next ends emptied quiet others rest
      · rw [if_neg isEmpty]
        have filled : sts.isEmpty = false := Bool.eq_false_iff.mpr isEmpty
        have notEmptied : emptied = false := by
          cases emptied with
          | false => rfl
          | true =>
              have none := (quiet rfl).2
              rw [StatementList.allEmpty, filled] at none
              cases none
        obtain ⟨text, printed, kept⟩ := statement_printsAs sts first
        have later := rereadAfter_printed next sts.endsSemicolon sts.endsEmpty (fun ends =>
          ⟨endsEmpty_no_semicolon sts ends, apart filled ends⟩) others rest
        have whole := kept_both kept later
        rw [StatementList.frontierAfter, reread_endsEmpty, reread_isEmpty, filled, notEmptied,
          StatementList.printed, printed, List.append_assoc]
        cases ends with
        | true => exact kept_token whole
        | false =>
            -- the semicolon is not printed, and the parser puts up with that
            exact rewrites_cons.mpr ⟨[], _, rfl, .inr ⟨trivial, rfl, rfl⟩, whole⟩
end

/-- A statement that the parser can read is one as it is reread. -/
theorem reread_readable {s : StatementNode} (readable : s.Readable) : s.reread.Readable :=
  ⟨(reread_isEmpty s).trans readable.1, (reread_spec s).closed readable.2⟩

end Pl0
