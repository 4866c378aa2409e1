import Pl0.BlockReading
import Pl0.Rereading

set_option autoImplicit false

namespace Pl0

open MarkedText

/- The blocks that the parser makes of the printed text of a program. A procedure is printed
with a semicolon behind its block, also where the block ends with one. -/

mutual
def BlockTree.reread : BlockTree → BlockTree
  | .mk consts vars procs statement => .mk consts vars procs.reread statement.reread

def ProcTrees.reread : ProcTrees → ProcTrees
  | .nil => .nil
  | .cons ident body next => .cons ident body.reread next.reread
end

mutual
def BlockNode.dropEmpty : BlockNode → BlockNode
  | .mk constDecl varDecl procDef statement =>
      .mk constDecl varDecl procDef.dropEmpty statement.dropEmpty

def ProdefList.dropEmpty : ProdefList → ProdefList
  | .nil => .nil
  | .cons ident lexical addr paraProc body next =>
      .cons ident lexical addr paraProc body.dropEmpty next.dropEmpty
end

def BlockTree.statement : BlockTree → StatementNode
  | .mk _ _ _ statement => statement

def ProcTrees.isNil : ProcTrees → Bool
  | .nil => true
  | .cons _ _ _ => false

/- The printed text of the block is read as the same block; the flag tells whether the
block is that of a procedure. The test behind a procedure does not skip the second semicolon
where a semicolon may follow the block around it. -/
mutual
def BlockTree.Reprintable : BlockTree → Bool → Prop
  | .mk _ _ procs statement, inner => procs.Reprintable inner ∧ statement.Reprintable

def ProcTrees.Reprintable : ProcTrees → Bool → Prop
  | .nil, _ => True
  | .cons _ body next, inner =>
      body.Reprintable true ∧
        (inner = true → body.statement.endsSemicolon = true → next.isNil = true) ∧
          next.Reprintable inner
end

/-- What the loop over the procedures leaves in front of the statement of the block. -/
def ProcTrees.leftover : ProcTrees → Bool → List CurrentToken
  | .nil, _ => []
  | .cons _ body next, inner =>
      if (inner && body.statement.endsSemicolon) = true then [.word .semicolonsym]
      else next.leftover inner

theorem leftover_semicolon : ∀ (procs : ProcTrees) (inner : Bool), ∀ token ∈ procs.leftover inner,
    token = .word .semicolonsym
  | .nil, _, token, member => by cases member
  | .cons _ body next, inner, token, member => by
      rw [ProcTrees.leftover] at member
      split at member
      · exact List.mem_singleton.mp member
      · exact leftover_semicolon next inner token member

theorem procedures_head (procs : ProcTrees) (rest : List CurrentToken) :
    headToken (procs.printed ++ rest) = headToken rest ∨
      headToken (procs.printed ++ rest) = .procsym := by
  cases procs with
  | nil => exact .inl rfl
  | cons ident body next => exact .inr rfl

section Blocks

variable {allowed : List Report → Prop} {rest : List CurrentToken} {g : GenState}

/-- A statement part is followed as it must be, also where its text ends with a semicolon. -/
theorem follows_semicolon {slips : Prop} {s : StatementNode} {fsys : Symset} {ends : Bool}
    (follows : BlockFollows slips fsys rest) (quiet : s.endsEmpty = true → ends = false) :
    Follows slips s (uniteset (createset [.semicolonsym, .endsym]) fsys)
      (semicolonIf ends ++ rest) := by
  cases ends with
  | false => exact follows.statement
  | true =>
      have head : headToken (semicolonIf true ++ rest) = .semicolonsym := rfl
      refine ⟨?_, fun _ => ?_, fun empty => ?_⟩
      · rw [head]
        decide
      · rw [head]
        decide
      · cases quiet empty

/-- A semicolon that no set of a test has is skipped. -/
theorem readsTo_test_semicolon (lenient : Lenient allowed) {s1 s2 : Symset}
    (outside : inset .semicolonsym (uniteset s1 s2) = false)
    (stops : inset (headToken rest) (uniteset s1 s2) = true) {skipped : List CurrentToken}
    (semicolons : ∀ token ∈ skipped, token = .word .semicolonsym) (fuel errorType : Nat) :
    ReadsTo allowed (test fuel s1 s2 errorType) (skipped ++ rest) g () rest g := by
  refine readsTo_test_skips lenient (fun token member => ?_) (.inl stops) fuel errorType
  rw [semicolons token member]
  refine ⟨?_, by decide⟩
  show ¬ inset .semicolonsym (uniteset s1 s2) = true
  rw [outside]
  decide

theorem semicolonIf_mem {ends : Bool} : ∀ token ∈ semicolonIf ends,
    token = .word .semicolonsym := by
  intro token member
  cases ends with
  | false => cases member
  | true => exact List.mem_singleton.mp member

/-- Behind a procedure comes the next one, or the statement of the block. -/
theorem procedures_next (procs : ProcTrees) (begins : inset (headToken rest) statbegsys = true) :
    inset (headToken (procs.printed ++ rest))
      (uniteset statbegsys (createset [.identsym, .procsym])) = true := by
  rw [inset_uniteset, Bool.or_eq_true]
  rcases procedures_head procs rest with head | isProc
  · rw [head]
    exact .inl begins
  · rw [isProc]
    exact .inr (by decide)

theorem semicolon_inside (fsys : Symset) :
    inset .semicolonsym (uniteset (createset [.semicolonsym]) fsys) = true := by
  simp

/-- The closing semicolon of a procedure, behind the one its block ends with. -/
theorem bodyTest_reads {fsys : Symset} (ends : Bool) (fuel : Nat) :
    ReadsTo allowed (test fuel (uniteset (createset [.semicolonsym]) fsys) phi 8)
      (semicolonIf ends ++ .word .semicolonsym :: rest) g ()
      (.word .semicolonsym :: (semicolonIf ends ++ rest)) g := by
  have swapped : semicolonIf ends ++ .word .semicolonsym :: rest =
      .word .semicolonsym :: (semicolonIf ends ++ rest) := by
    cases ends <;> rfl
  rw [swapped]
  exact readsTo_test (show inset (headToken (.word .semicolonsym :: _)) _ = true from
    semicolon_inside fsys) fuel phi 8

/-- The test behind a procedure skips a second semicolon, unless a semicolon may follow the
block around it. -/
theorem procedureTest_reads (lenient : Lenient allowed) {fsys : Symset} {inner : Bool}
    (same : inset .semicolonsym fsys = inner)
    (next_ : inset (headToken rest)
      (uniteset statbegsys (createset [.identsym, .procsym])) = true) (ends : Bool) (fuel : Nat) :
    ReadsTo allowed (test fuel (uniteset statbegsys (createset [.identsym, .procsym])) fsys 6)
      (semicolonIf ends ++ rest) g () (semicolonIf (inner && ends) ++ rest) g := by
  cases ends with
  | false =>
      rw [Bool.and_false]
      exact readsTo_test next_ fuel fsys 6
  | true =>
      rw [Bool.and_true]
      cases inner with
      | false =>
          refine readsTo_test_semicolon lenient ?_ ?_ semicolonIf_mem fuel 6
          · rw [inset_uniteset, same]
            decide
          · rw [inset_uniteset, next_]
            rfl
      | true =>
          have stops : inset (headToken (semicolonIf true ++ rest))
              (uniteset (uniteset statbegsys (createset [.identsym, .procsym])) fsys) = true := by
            show inset .semicolonsym _ = true
            rw [inset_uniteset, same, Bool.or_true]
          have skipsNone : ∀ token ∈ ([] : List CurrentToken), ¬ inset token.cToken
              (uniteset (uniteset statbegsys (createset [.identsym, .procsym])) fsys) ∧
                token.cToken ≠ .nulsym := by simp
          exact readsTo_test_skips lenient skipsNone (.inl stops) fuel 6

mutual
theorem blockParse_rereads (lenient : Lenient allowed) : ∀ (t : BlockTree) (inner : Bool)
    {fuel : Nat} {fsys : Symset} {g : GenState} {rest after : List CurrentToken},
    t.Grammatical → t.reread.Suited g → t.Bodies StatementNode.Readable → t.Reprintable inner →
    Guards (uniteset (createset [.semicolonsym, .endsym]) fsys) →
    inset .semicolonsym fsys = inner → BlockFollows True fsys rest →
    (∀ fuel g, ReadsTo allowed (test fuel fsys phi 8)
      (semicolonIf t.statement.endsSemicolon ++ rest) g () after g) →
    ReadsTo allowed (blockParse fuel fsys) (t.printed ++ rest) g (t.reread.build g).1 after
      (t.reread.build g).2
  | .mk consts vars procs statement, inner, fuel, fsys, g, rest, after, grammatical, suited,
      readable, reprintable, guards, same, follows, tested => by
      obtain ⟨text, printed, kept⟩ := statement_printsAs statement reprintable.2
      obtain ⟨small, inside, procsSuited, statementSuited⟩ := suited
      obtain ⟨filled, closed⟩ := reread_readable readable.2
      have body : (BlockTree.mk consts vars procs statement).printed ++ rest =
          (sectionFrontier .constsym constFrontier consts).map Prod.fst ++
            ((sectionFrontier .varsym varFrontier vars).map Prod.fst ++
              (procs.printed ++ (text ++ (semicolonIf statement.endsSemicolon ++ rest)))) := by
        rw [BlockTree.printed, printed]
        simp only [List.append_assoc]
      have begins : inset (headToken (text ++ (semicolonIf statement.endsSemicolon ++ rest)))
          statbegsys = true := kept_head _ filled (kept rest)
      rw [body]
      refine blockParse_of (declarationLoop_reads small inside
        (kept_same _ _) (kept_same _ _) (procedures_other (procedures_head procs _) begins)
        (fun _ => procedureLoop_rereads lenient procs inner grammatical.1 procsSuited readable.1
          reprintable.1 guards same rfl begins)
        (fun fuel _ => readsTo_test_semicolon lenient (by decide) ?_
          (leftover_semicolon procs inner) fuel 7) begins)
        (fun _ => statementParse_reads (fun _ => lenient) statement.reread
          ((reread_spec statement).grammatical grammatical.2) statementSuited closed guards
          (kept _) (follows_semicolon follows fun empty => ?_)) tested fuel
      · rw [inset_uniteset, inset_uniteset, begins]
        rfl
      · rw [reread_endsEmpty] at empty
        exact endsEmpty_no_semicolon statement empty

theorem procedureLoop_rereads (lenient : Lenient allowed) : ∀ (procs : ProcTrees) (inner : Bool)
    {fuel : Nat} {fsys : Symset} {old : Int} {procDef : ProdefList} {tail : Bool} {g : GenState}
    {rest : List CurrentToken}, procs.Grammatical → procs.reread.Suited old g →
    procs.Bodies StatementNode.Readable → procs.Reprintable inner →
    Guards (uniteset (createset [.semicolonsym, .endsym]) fsys) →
    inset .semicolonsym fsys = inner → (procDef.isNil || tail) = true →
    inset (headToken rest) statbegsys = true →
    ReadsTo allowed (procedureLoop fuel fsys old procDef tail) (procs.printed ++ rest) g
      (procDef.append (procs.reread.build old g).1) (procs.leftover inner ++ rest)
      (procs.reread.build old g).2
  | .nil, inner, fuel, fsys, old, procDef, tail, g, rest, _, _, _, _, _, _, _, begins => by
      rw [ProcTrees.reread, ProcTrees.build, procDef.append_nil]
      exact procedureLoop_ends (begins_other begins (by decide)) fuel
  | .cons ident body next, inner, fuel, fsys, old, procDef, tail, g, rest, grammatical, suited,
      readable, reprintable, guards, same, linked, begins => by
      obtain ⟨bodyReprintable, last, nextReprintable⟩ := reprintable
      have follows : BlockFollows True (uniteset (createset [.semicolonsym]) fsys)
          (.word .semicolonsym :: (next.printed ++ rest)) :=
        ⟨.inl rfl, .inl (semicolon_inside fsys)⟩
      have blockReads : ∀ fuel, ReadsTo allowed
          (blockParse fuel (uniteset (createset [.semicolonsym]) fsys))
          (body.printed ++ .word .semicolonsym :: (next.printed ++ rest))
          (g.makeProc ident).openBlock (body.reread.build (g.makeProc ident).openBlock).1
          (.word .semicolonsym ::
            (semicolonIf body.statement.endsSemicolon ++ (next.printed ++ rest)))
          (body.reread.build (g.makeProc ident).openBlock).2 := fun fuel =>
        blockParse_rereads lenient body true grammatical.1 suited.1 readable.1 bodyReprintable
          guards.procedure (semicolon_inside fsys) follows fun fuel _ => bodyTest_reads _ fuel
      have tested := fun fuel g => @procedureTest_reads allowed (next.printed ++ rest) g lenient
        fsys inner same (procedures_next next begins) body.statement.endsSemicolon fuel
      have printed : (ProcTrees.cons ident body next).printed ++ rest =
          .word .procsym :: .ident ident :: .word .semicolonsym ::
            (body.printed ++ .word .semicolonsym :: (next.printed ++ rest)) := by
        simp only [ProcTrees.printed, List.cons_append, List.append_assoc]
      rw [printed, ProcTrees.leftover, ProcTrees.reread, ProcTrees.build]
      dsimp only
      rw [← ProdefList.append_node procDef (next.reread.build old _).1]
      refine procedureLoop_of linked blockReads tested (fun fuel => ?_) fuel
      by_cases stuck : (inner && body.statement.endsSemicolon) = true
      · -- the second semicolon stays, in front of the statement of the block
        obtain ⟨isInner, ends⟩ := Bool.and_eq_true_iff.mp stuck
        cases next with
        | cons _ _ _ => cases last isInner ends
        | nil =>
            rw [stuck, if_pos rfl, ProcTrees.reread, ProcTrees.build, ProdefList.append_nil]
            have noProcedure : headToken (semicolonIf true ++ (ProcTrees.nil.printed ++ rest)) ≠
                .procsym := show Token.semicolonsym ≠ .procsym by decide
            exact procedureLoop_ends noProcedure fuel
      · rw [if_neg stuck, Bool.eq_false_iff.mpr stuck]
        exact procedureLoop_rereads lenient next inner grammatical.2 suited.2 readable.2
          nextReprintable guards same (Bool.or_true _) begins
end

end Blocks

end Pl0
