import Pl0.StatementReading

set_option autoImplicit false

namespace Pl0

open MarkedText

section Declarations

variable {α β : Type} {slips : Prop} {allowed : List Report → Prop} {rest : List CurrentToken}
  {g : GenState}

theorem readsTo_readOffset {tokens : List CurrentToken} (inside : g.LevelInside) :
    ReadsTo allowed readOffset tokens g (g.offsetArray g.globalLevel) tokens g := by
  apply ReadsTo.get
  intro t stands
  unfold GenState.LevelInside at inside
  rw [stands.gen, if_pos inside]
  exact readsTo_pure

theorem constItem_reads (keyword : CurrentToken) {const : Name × Int} {text : List CurrentToken}
    (small : const.2 ≤ maxNumber) (inside : g.LevelInside)
    (kept : Rewrites (Kept slips) (constFrontier const) text rest) :
    ReadsTo allowed constItem (keyword :: (text ++ rest)) g (g.constNode const) rest
      (g.makeItem const) := by
  obtain ⟨behind, rfl, keptBehind⟩ := kept_plain kept
  obtain ⟨value, rfl, keptValue⟩ := kept_plain keptBehind
  obtain ⟨none, rfl, nothing⟩ := kept_plain keptValue
  rw [rewrites_nil.mp nothing]
  apply ReadsTo.read
  apply (readsTo_expectIdent const.1 4).bind
  apply ReadsTo.read
  have equals : ReadsTo allowed expectEql (.word .eqlsym :: .number const.2 :: rest) g ()
      (.word .eqlsym :: .number const.2 :: rest) g := by
    apply ReadsTo.get
    intro t stands
    rw [if_pos (show t.curToken.cToken = .eqlsym from stands.ahead.cToken)]
    exact readsTo_pure
  apply equals.bind
  apply ReadsTo.read
  have number : ReadsTo allowed constValue (.number const.2 :: rest) g const.2
      (.number const.2 :: rest) g := by
    apply ReadsTo.get
    intro t stands
    rw [if_pos (show t.curToken.cToken = .numbersym from stands.ahead.cToken), stands.ahead.numeric,
      if_neg (Int.not_lt.mpr small)]
    exact readsTo_pure
  apply number.bind
  apply (readsTo_readOffset inside).bind
  apply ReadsTo.get
  intro t stands
  rw [stands.gen]
  apply ReadsTo.generate
  exact ReadsTo.read readsTo_pure

theorem varItem_reads (keyword : CurrentToken) {name : Name} {text : List CurrentToken}
    (inside : g.LevelInside) (kept : Rewrites (Kept slips) (varFrontier name) text rest) :
    ReadsTo allowed varItem (keyword :: (text ++ rest)) g (g.varNode name) rest
      (g.makeVar name) := by
  obtain ⟨none, rfl, nothing⟩ := kept_plain kept
  rw [rewrites_nil.mp nothing]
  apply ReadsTo.read
  apply (readsTo_expectIdent name 4).bind
  apply (readsTo_readOffset inside).bind
  apply ReadsTo.get
  intro t stands
  rw [stands.gen]
  apply ReadsTo.generate
  exact ReadsTo.read readsTo_pure

theorem readsTo_linkNode {first tail : Bool} {tokens : List CurrentToken}
    (linked : (first || tail) = true) :
    ReadsTo allowed (linkNode first tail) tokens g () tokens g := by
  unfold linkNode
  rw [if_pos linked]
  exact readsTo_pure

/-- An item of a declaration is read with its keyword or its comma, where `fine` holds. -/
def ItemReads (slips : Prop) (allowed : List Report → Prop) (item : ParseM α)
    (frontier : β → List Marked) (make : GenState → β → GenState) (node : GenState → β → α)
    (fine : β → Prop) : Prop :=
  ∀ (g : GenState) (b : β) (keyword : CurrentToken) (text rest : List CurrentToken), fine b →
    g.LevelInside → Rewrites (Kept slips) (frontier b) text rest →
    ReadsTo allowed item (keyword :: (text ++ rest)) g (node g b) rest (make g b) ∧
      (make g b).LevelInside

theorem sectionLoop_reads {item : ParseM α} {frontier : β → List Marked}
    {make : GenState → β → GenState} {node : GenState → β → α} {fine : β → Prop}
    (reads : ItemReads slips allowed item frontier make node fine) : ∀ (items : List β) (b : β)
    {fuel : Nat} {nodes : List α} {tail : Bool} {keyword : CurrentToken} {g : GenState}
    {text rest : List CurrentToken}, (nodes.isEmpty || tail) = true → (∀ c ∈ b :: items, fine c) →
    g.LevelInside → Rewrites (Kept slips) (frontier b ++ itemsFrontier frontier items) text rest →
    ReadsTo allowed (sectionLoop item fuel nodes tail) (keyword :: (text ++ rest)) g
      (nodes ++ itemNodes make node g (b :: items)) rest (afterItems make g (b :: items))
  | items, b, 0, _, _, _, _, _, _, _, _, _, _ => readsTo_fuel
  | items, b, fuel + 1, nodes, tail, keyword, g, text, rest, linked, fines, inside, kept => by
      obtain ⟨first, more, rfl, keptFirst, keptMore⟩ := rewrites_append.mp kept
      obtain ⟨fineFirst, fineOthers⟩ := List.forall_mem_cons.mp fines
      obtain ⟨itemReads, insideNext⟩ :=
        reads g b keyword first (more ++ rest) fineFirst inside keptFirst
      rw [List.append_assoc]
      apply (readsTo_linkNode linked).bind
      apply itemReads.bind
      apply ReadsTo.get
      intro t stands
      cases items with
      | nil =>
          obtain ⟨none, rfl, nothing⟩ := kept_plain keptMore
          rw [rewrites_nil.mp nothing] at stands ⊢
          have other : t.curToken.cToken ≠ .commasym := by
            rw [show t.curToken.cToken = .semicolonsym from stands.ahead.cToken]
            decide
          rw [if_neg other]
          apply (readsTo_expectToken .semicolonsym 5).bind
          exact readsTo_pure
      | cons c items =>
          obtain ⟨others, rfl, keptOthers⟩ := kept_plain keptMore
          rw [if_pos (show t.curToken.cToken = .commasym from stands.ahead.cToken)]
          have loop := @sectionLoop_reads item frontier make node fine reads items c fuel
            (nodes ++ [node g b]) true (.word .commasym) (make g b) others rest (Bool.or_true _)
            fineOthers insideNext keptOthers
          rw [List.append_assoc] at loop
          exact loop

/-- A section begins with its keyword, or is not there. -/
theorem sectionFrontier_head {keyword : Token} {frontier : β → List Marked} {items : List β}
    {text : List CurrentToken}
    (kept : Rewrites (Kept slips) (sectionFrontier keyword frontier items) text rest) :
    headToken (text ++ rest) = headToken rest ∨ headToken (text ++ rest) = keyword := by
  cases items with
  | nil =>
      rw [rewrites_nil.mp kept]
      exact .inl rfl
  | cons b items =>
      obtain ⟨later, rfl, -⟩ := kept_plain kept
      exact .inr rfl

theorem ProcTrees.frontier_head {procs : ProcTrees} {text : List CurrentToken}
    (kept : Rewrites (Kept slips) procs.frontier text rest) :
    headToken (text ++ rest) = headToken rest ∨ headToken (text ++ rest) = .procsym := by
  cases procs with
  | nil =>
      rw [rewrites_nil.mp kept]
      exact .inl rfl
  | cons ident body next =>
      obtain ⟨later, rfl, -⟩ := kept_plain kept
      exact .inr rfl

theorem readsTo_section {item : ParseM α} {frontier : β → List Marked}
    {make : GenState → β → GenState} {node : GenState → β → α} {fine : β → Prop}
    (reads : ItemReads slips allowed item frontier make node fine) (keyword : Token)
    (items : List β)
    {fuel : Nat} {text : List CurrentToken} (fines : ∀ c ∈ items, fine c)
    (inside : items ≠ [] → g.LevelInside) (other : headToken rest ≠ keyword)
    (kept : Rewrites (Kept slips) (sectionFrontier keyword frontier items) text rest) :
    ReadsTo allowed
      (do
        let this ← get
        if this.curToken.cToken = keyword then sectionLoop item fuel [] false else return [])
      (text ++ rest) g (itemNodes make node g items) rest (afterItems make g items) := by
  apply ReadsTo.get
  intro t stands
  cases items with
  | nil =>
      rw [rewrites_nil.mp kept] at stands ⊢
      rw [show t.curToken.cToken = headToken rest from stands.ahead.cToken, if_neg other]
      exact readsTo_pure
  | cons b items =>
      obtain ⟨later, rfl, keptItems⟩ := kept_plain kept
      rw [if_pos (show t.curToken.cToken = keyword from stands.ahead.cToken)]
      exact sectionLoop_reads reads items b rfl fines (inside (List.cons_ne_nil b items)) keptItems

end Declarations

/-- A token that begins a statement is none that begins nothing. -/
theorem begins_other {token other : Token} (begins : inset token statbegsys = true)
    (noBegin : inset other statbegsys = false) : token ≠ other := by
  rintro rfl
  rw [noBegin] at begins
  cases begins

section Blocks

variable {slips : Prop} {allowed : List Report → Prop} {rest : List CurrentToken} {g : GenState}

theorem constItem_itemReads : ItemReads slips allowed constItem constFrontier GenState.makeItem
    GenState.constNode fun const => const.2 ≤ maxNumber :=
  fun _ _ keyword _ _ small inside kept => ⟨constItem_reads keyword small inside kept, inside⟩

theorem varItem_itemReads : ItemReads slips allowed varItem varFrontier GenState.makeVar
    GenState.varNode fun _ => True :=
  fun _ _ keyword _ _ _ inside kept => ⟨varItem_reads keyword inside kept, inside⟩

/-- What may come behind a block. -/
structure BlockFollows (slips : Prop) (fsys : Symset) (rest : List CurrentToken) : Prop where
  closes : headToken rest = .semicolonsym ∨ headToken rest = .periodsym ∨
    slips ∧ headToken rest = .nulsym
  inside : inset (headToken rest) fsys = true ∨ slips ∧ headToken rest = .nulsym

theorem BlockFollows.statement {s : StatementNode} {fsys : Symset}
    (follows : BlockFollows slips fsys rest) :
    Follows slips s (uniteset (createset [.semicolonsym, .endsym]) fsys) rest := by
  obtain ⟨closes, inside⟩ := follows
  constructor
  · rcases closes with next | next | ⟨-, next⟩ <;> rw [next] <;> decide
  · intro _
    rcases closes with next | next | ⟨-, next⟩ <;> rw [next] <;> decide
  · intro _
    constructor
    · rcases closes with next | next | ⟨-, next⟩ <;> rw [next] <;> decide
    · rw [inset_uniteset, Bool.or_eq_true]
      exact inside.imp Or.inr id

/-- The sections of a block are read up to its procedures. -/
theorem sections_read {consts : List (Name × Int)} {vars : List Name}
    {constText varText tokens : List CurrentToken} (small : ∀ const ∈ consts, const.2 ≤ maxNumber)
    (inside : consts ≠ [] ∨ vars ≠ [] → g.LevelInside)
    (keptConsts : Rewrites (Kept slips) (sectionFrontier .constsym constFrontier consts) constText
      (varText ++ tokens))
    (keptVars : Rewrites (Kept slips) (sectionFrontier .varsym varFrontier vars) varText tokens)
    (other : headToken tokens ≠ .varsym ∧ headToken tokens ≠ .constsym) (fuel : Nat) :
    ReadsTo allowed (constSection fuel []) (constText ++ (varText ++ tokens)) g
        (itemNodes GenState.makeItem GenState.constNode g consts) (varText ++ tokens)
        (afterItems GenState.makeItem g consts) ∧
      ReadsTo allowed (varSection fuel []) (varText ++ tokens)
        (afterItems GenState.makeItem g consts)
        (itemNodes GenState.makeVar GenState.varNode (afterItems GenState.makeItem g consts) vars)
        tokens (g.declared consts vars) := by
  have levelInside : vars ≠ [] → (afterItems GenState.makeItem g consts).LevelInside := by
    intro some
    have sameLevel : (afterItems GenState.makeItem g consts).globalLevel = g.globalLevel :=
      @afterItems_level _ GenState.makeItem (fun _ _ => rfl) g consts
    unfold GenState.LevelInside
    rw [sameLevel]
    exact inside (.inr some)
  constructor
  · refine readsTo_section constItem_itemReads .constsym consts small
      (fun some => inside (.inl some)) ?_ keptConsts
    rcases sectionFrontier_head keptVars with same | isVar
    · rw [same]
      exact other.2
    · rw [isVar]
      decide
  · exact readsTo_section varItem_itemReads .varsym vars (fun _ _ => trivial) levelInside other.1
      keptVars

/-- The declarations of a block, with `left` ahead behind the procedures. -/
theorem declarationLoop_reads {fsys : Symset} {consts : List (Name × Int)} {vars : List Name}
    {procDef : ProdefList} {g' : GenState} {constText varText tokens left : List CurrentToken}
    (small : ∀ const ∈ consts, const.2 ≤ maxNumber)
    (inside : consts ≠ [] ∨ vars ≠ [] → g.LevelInside)
    (keptConsts : Rewrites (Kept slips) (sectionFrontier .constsym constFrontier consts) constText
      (varText ++ tokens))
    (keptVars : Rewrites (Kept slips) (sectionFrontier .varsym varFrontier vars) varText tokens)
    (other : headToken tokens ≠ .varsym ∧ headToken tokens ≠ .constsym)
    (procs : ∀ fuel, ReadsTo allowed
      (procedureLoop fuel fsys (g.declared consts vars).currentProcedure .nil false) tokens
      (g.declared consts vars) procDef left g')
    (tested : ∀ fuel g, ReadsTo allowed
      (test fuel (uniteset statbegsys (createset [.identsym])) declbegsys 7) left g () rest g)
    (begins : inset (headToken rest) statbegsys = true) (fuel : Nat) :
    ReadsTo allowed (declarationLoop fuel fsys [] [] .nil) (constText ++ (varText ++ tokens)) g
      (itemNodes GenState.makeItem GenState.constNode g consts,
        itemNodes GenState.makeVar GenState.varNode (afterItems GenState.makeItem g consts) vars,
        procDef) rest (g'.inProcedure (g.declared consts vars).currentProcedure) := by
  cases fuel with
  | zero => exact readsTo_fuel
  | succ fuel =>
      obtain ⟨constsRead, varsRead⟩ := sections_read small inside keptConsts keptVars other fuel
      apply constsRead.bind
      apply varsRead.bind
      apply ReadsTo.get
      intro t stands
      rw [stands.gen]
      apply (procs fuel).bind
      apply ReadsTo.generate
      apply (tested fuel _).bind
      apply ReadsTo.get
      intro u stands'
      have noDeclaration : ¬ inset (headToken rest) declbegsys = true := by
        generalize headToken rest = token at begins
        revert begins
        cases token <;> decide
      rw [stands'.ahead.cToken, if_neg noDeclaration]
      exact readsTo_pure

/-- A block from its declarations and its statement, with `left` ahead behind these. -/
theorem blockParse_of {fsys : Symset} {constDecl : List ConstDeclNode}
    {varDecl : List VarDeclNode} {procDef : ProdefList} {statement : StatementNode}
    {g1 : GenState} {tokens body left : List CurrentToken}
    (declarations : ∀ fuel, ReadsTo allowed (declarationLoop fuel fsys [] [] .nil) tokens g
      (constDecl, varDecl, procDef) body g1)
    (reads : ∀ fuel, ReadsTo allowed
      (statementParse fuel (uniteset (createset [.semicolonsym, .endsym]) fsys)) body g1 statement
      left (genStatement statement g1))
    (tested : ∀ fuel g, ReadsTo allowed (test fuel fsys phi 8) left g () rest g) (fuel : Nat) :
    ReadsTo allowed (blockParse fuel fsys) tokens g (.mk constDecl varDecl procDef statement) rest
      (genBody statement g1) := by
  cases fuel with
  | zero => exact readsTo_fuel
  | succ fuel =>
      apply (declarations fuel).bind
      apply (readsTo_recordStatement true (reads fuel)).bind
      apply (tested fuel _).bind
      exact readsTo_pure

/-- A procedure from its block, and the procedures behind it; `left` is ahead behind its
closing semicolon. -/
theorem procedureLoop_of {fsys : Symset} {old : Int} {procDef result : ProdefList} {tail : Bool}
    {ident : Name} {node : BlockNode} {inner g' : GenState}
    {tokens left after : List CurrentToken} (linked : (procDef.isNil || tail) = true)
    (body : ∀ fuel, ReadsTo allowed (blockParse fuel (uniteset (createset [.semicolonsym]) fsys))
      tokens (g.makeProc ident).openBlock node (.word .semicolonsym :: left) inner)
    (tested : ∀ fuel g, ReadsTo allowed
      (test fuel (uniteset statbegsys (createset [.identsym, .procsym])) fsys 6) left g () after g)
    (more : ∀ fuel, ReadsTo allowed (procedureLoop fuel fsys old
      (procDef.append (.cons ident ((g.makeProc ident).globalLevel + 1)
        (g.makeProc ident).procedureCount old node .nil)) true) after
      (inner.closeProc (node.varDecl.length + 4)) result rest g') (fuel : Nat) :
    ReadsTo allowed (procedureLoop fuel fsys old procDef tail)
      (.word .procsym :: .ident ident :: .word .semicolonsym :: tokens) g result rest g' := by
  cases fuel with
  | zero => exact readsTo_fuel
  | succ fuel =>
      apply ReadsTo.get
      intro t stands
      rw [if_pos (show t.curToken.cToken = .procsym from stands.ahead.cToken)]
      apply (readsTo_linkNode linked).bind
      apply ReadsTo.read
      apply (readsTo_expectIdent ident 4).bind
      apply ReadsTo.generate
      apply ReadsTo.get
      intro made stands'
      rw [stands'.gen]
      apply ReadsTo.read
      apply (readsTo_expectToken .semicolonsym 6).bind
      apply ReadsTo.generate
      apply (body fuel).bind
      apply ReadsTo.generate
      apply (readsTo_expectToken .semicolonsym 6).bind
      apply (tested fuel _).bind
      apply ReadsTo.generate
      exact more fuel

/-- The procedures end in front of a token that is not `procedure`. -/
theorem procedureLoop_ends {fsys : Symset} {old : Int} {procDef : ProdefList} {tail : Bool}
    (other : headToken rest ≠ .procsym) (fuel : Nat) :
    ReadsTo allowed (procedureLoop fuel fsys old procDef tail) rest g procDef rest g := by
  cases fuel with
  | zero => exact readsTo_fuel
  | succ fuel =>
      apply ReadsTo.get
      intro t stands
      have differs : t.curToken.cToken ≠ .procsym := by
        rw [stands.ahead.cToken]
        exact other
      rw [if_neg differs]
      exact readsTo_pure

/-- The follow set of a procedure's block. -/
theorem Guards.procedure {fsys : Symset}
    (guards : Guards (uniteset (createset [.semicolonsym, .endsym]) fsys)) :
    Guards (uniteset (createset [.semicolonsym, .endsym])
      (uniteset (createset [.semicolonsym]) fsys)) := by
  obtain ⟨semicolon, ends, plus, minus⟩ := guards
  simp only [inset_uniteset, inset_createset] at semicolon ends plus minus
  constructor <;> simp_all

/-- The procedures of a block begin with `procedure`, and its statement does not. -/
theorem procedures_other {text : List CurrentToken}
    (head : headToken (text ++ rest) = headToken rest ∨ headToken (text ++ rest) = .procsym)
    (begins : inset (headToken rest) statbegsys = true) :
    headToken (text ++ rest) ≠ .varsym ∧ headToken (text ++ rest) ≠ .constsym := by
  rcases head with same | isProc
  · rw [same]
    exact ⟨begins_other begins (by decide), begins_other begins (by decide)⟩
  · rw [isProc]
    decide

mutual
theorem blockParse_reads (lenient : slips → Lenient allowed) : ∀ (t : BlockTree) {fuel : Nat}
    {fsys : Symset} {g : GenState} {text rest : List CurrentToken}, t.Grammatical → t.Suited g →
    t.Bodies StatementNode.Readable → Guards (uniteset (createset [.semicolonsym, .endsym]) fsys) →
    Rewrites (Kept slips) t.frontier text rest → BlockFollows slips fsys rest →
    ReadsTo allowed (blockParse fuel fsys) (text ++ rest) g (t.build g).1 rest (t.build g).2
  | .mk consts vars procs statement, fuel, fsys, g, text, rest, grammatical, suited, readable,
      guards, kept, follows => by
      obtain ⟨constText, afterConsts, rfl, keptConsts, keptAfterConsts⟩ := rewrites_append.mp kept
      obtain ⟨varText, afterVars, rfl, keptVars, keptAfterVars⟩ :=
        rewrites_append.mp keptAfterConsts
      obtain ⟨procText, body, rfl, keptProcs, keptBody⟩ := rewrites_append.mp keptAfterVars
      obtain ⟨small, inside, procsSuited, statementSuited⟩ := suited
      simp only [List.append_assoc] at keptConsts keptVars ⊢
      have begins : inset (headToken (body ++ rest)) statbegsys = true :=
        kept_head rest readable.2.1 keptBody
      refine blockParse_of (declarationLoop_reads small inside keptConsts keptVars
        (procedures_other (procs.frontier_head keptProcs) begins)
        (fun _ => procedureLoop_reads lenient procs grammatical.1 procsSuited readable.1 guards rfl
          keptProcs begins)
        (fun fuel _ => readsTo_test (by rw [inset_uniteset, begins]; rfl) fuel declbegsys 7)
        begins)
        (fun _ => statementParse_reads lenient statement grammatical.2 statementSuited
          readable.2.2 guards keptBody follows.statement) (fun fuel g => ?_) fuel
      rcases follows.inside with inside | ⟨slip, last⟩
      · exact readsTo_test inside fuel phi 8
      · have skipsNone : ∀ token ∈ ([] : List CurrentToken),
            ¬ inset token.cToken (uniteset fsys phi) ∧ token.cToken ≠ .nulsym := by simp
        exact readsTo_test_skips (lenient slip) skipsNone (.inr last) fuel 8

theorem procedureLoop_reads (lenient : slips → Lenient allowed) : ∀ (procs : ProcTrees) {fuel : Nat}
    {fsys : Symset} {old : Int} {procDef : ProdefList} {tail : Bool} {g : GenState}
    {text rest : List CurrentToken}, procs.Grammatical → procs.Suited old g →
    procs.Bodies StatementNode.Readable →
    Guards (uniteset (createset [.semicolonsym, .endsym]) fsys) →
    (procDef.isNil || tail) = true → Rewrites (Kept slips) procs.frontier text rest →
    inset (headToken rest) statbegsys = true →
    ReadsTo allowed (procedureLoop fuel fsys old procDef tail) (text ++ rest) g
      (procDef.append (procs.build old g).1) rest (procs.build old g).2
  | .nil, fuel, fsys, old, procDef, tail, g, text, rest, _, _, _, _, _, kept, begins => by
      rw [rewrites_nil.mp kept, ProcTrees.build, procDef.append_nil]
      exact procedureLoop_ends (begins_other begins (by decide)) fuel
  | .cons ident body next, fuel, fsys, old, procDef, tail, g, text, rest, grammatical, suited,
      readable, guards, linked, kept, begins => by
      obtain ⟨afterWord, rfl, keptWord⟩ := kept_plain kept
      obtain ⟨afterName, rfl, keptName⟩ := kept_plain keptWord
      obtain ⟨afterOpen, rfl, keptOpen⟩ := kept_plain keptName
      obtain ⟨block, afterBlock, rfl, keptBlock, keptClose⟩ := rewrites_append.mp keptOpen
      obtain ⟨more, rfl, keptMore⟩ := kept_plain keptClose
      simp only [List.cons_append, List.append_assoc] at keptBlock ⊢
      have follows : BlockFollows slips (uniteset (createset [.semicolonsym]) fsys)
          (CurrentToken.word .semicolonsym :: (more ++ rest)) := by
        refine ⟨.inl rfl, .inl ?_⟩
        show inset .semicolonsym _ = true
        simp
      have next_ : inset (headToken (more ++ rest))
        (uniteset statbegsys (createset [.identsym, .procsym])) = true := by
        rw [inset_uniteset, Bool.or_eq_true]
        rcases next.frontier_head keptMore with same | isProc
        · rw [same]
          exact .inl begins
        · rw [isProc]
          exact .inr (by decide)
      refine procedureLoop_of linked (fun _ => blockParse_reads lenient body grammatical.1 suited.1
        readable.1 guards.procedure keptBlock follows)
          (fun fuel _ => readsTo_test next_ fuel fsys 6)
        (fun _ => ?_) fuel
      rw [ProcTrees.build]
      dsimp only
      rw [← ProdefList.append_node procDef (next.build old _).1]
      exact procedureLoop_reads lenient next grammatical.2 suited.2 readable.2 guards
        (Bool.or_true _) keptMore begins
end

end Blocks

end Pl0
