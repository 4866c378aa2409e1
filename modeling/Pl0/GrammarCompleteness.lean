import Pl0.BlockReading
import Pl0.DanglingElse
import Pl0.Grammar
import Pl0.ParserTermination

set_option autoImplicit false

namespace Pl0

open MarkedText StateExcept

/-- `programParse` behind its first token. -/
def mainParse (fuel : Nat) : ParseM BlockNode := do
  let block ← blockParse fuel (uniteset (createset [.periodsym]) (uniteset declbegsys statbegsys))
  expectPeriod
  modifyGen (·.reserveSpace (block.varDecl.length + 4))
  modifyGen (·.halt)
  return block

section Programs

variable {slips : Prop} {allowed : List Report → Prop}

theorem expectPeriod_reads (lenient : slips → Lenient allowed) {text : List CurrentToken}
    {g : GenState} (kept : Kept slips .period (.word .periodsym) text []) :
    ReadsTo allowed expectPeriod (text ++ []) g () (text ++ []) g := by
  apply ReadsTo.get
  intro t stands
  rcases kept with rfl | ⟨slip, rfl⟩
  · rw [if_pos (show t.curToken.cToken = .periodsym from stands.ahead.cToken)]
    exact readsTo_pure
  · have last : t.curToken.cToken = .nulsym := stands.ahead.cToken
    rw [last, if_neg (by decide), if_pos rfl]
    exact readsTo_report (lenient slip) _

/-- A text that keeps a program has tokens. -/
theorem kept_program_some {t : BlockTree} {text : List CurrentToken}
    (readable : t.Bodies StatementNode.Readable) (kept : Rewrites (Kept slips) t.program text []) :
    text ≠ [] := by
  rintro rfl
  obtain ⟨block, period, parts, keptBlock, -⟩ := rewrites_append.mp kept
  obtain ⟨rfl, rfl⟩ := List.append_eq_nil_iff.mp parts.symm
  cases t with
  | mk consts vars procs statement =>
      obtain ⟨_, afterConsts, parts, -, keptAfterConsts⟩ := rewrites_append.mp keptBlock
      obtain ⟨rfl, rfl⟩ := List.append_eq_nil_iff.mp parts.symm
      obtain ⟨_, afterVars, parts, -, keptAfterVars⟩ := rewrites_append.mp keptAfterConsts
      obtain ⟨rfl, rfl⟩ := List.append_eq_nil_iff.mp parts.symm
      obtain ⟨_, body, parts, -, keptBody⟩ := rewrites_append.mp keptAfterVars
      obtain ⟨rfl, rfl⟩ := List.append_eq_nil_iff.mp parts.symm
      have begins := kept_head [] readable.2.1 keptBody
      exact absurd begins (by decide)

/-- What the parser finds in a file; from an empty one it reads nothing, and the globals of
the token keep what they start with. -/
def coming (file : List CurrentToken) : List CurrentToken :=
  if file = [] then [.word .unset] else (seen file).map CurrentToken.normal

theorem coming_some {file : List CurrentToken} (some : file ≠ []) :
    coming file = (seen file).map CurrentToken.normal := by
  rw [coming, if_neg some]

/-- The first read of a parse. -/
theorem parse_enters (fuel : Nat) (file : List CurrentToken) :
    ∃ s, parse fuel file = mainParse fuel s ∧ Ahead s (coming file) ∧ s.gen = mainGen ∧
      s.reports = [] := by
  obtain ⟨s, read⟩ : ∃ s, getToken { initParse file with gen := initGen.setOffsets } = .ok () s :=
    ⟨_, rfl⟩
  have entered : Ahead s (coming file) := by
    cases file with
    | nil =>
        have after := modify_eq_ok.mp read
        subst after
        exact ⟨rfl, rfl, rfl⟩
    | cons token file =>
        rw [coming_some (List.cons_ne_nil _ _)]
        exact getToken_coming rfl read
  obtain ⟨gen, reports⟩ := getToken_kept read
  refine ⟨{ s with gen := { s.gen.getFreeSet.2 with currentProcedure := s.gen.getFreeSet.1 } }, ?_,
    ⟨entered.feof, entered.current⟩, ?_, reports⟩
  · unfold parse programParse
    rw [bind_of_ok (show modifyGen (·.setOffsets) (initParse file) = .ok ()
      { initParse file with gen := initGen.setOffsets } from rfl), bind_of_ok read]
    rfl
  · rw [gen]
    rfl

/-- The parse of a text that keeps a program: the nodes and the globals are those of the
program, unless the fuel runs out. -/
theorem parse_reads (lenient : slips → Lenient allowed) (silent : allowed []) {t : BlockTree}
    (grammatical : t.Grammatical) (suited : t.Suited mainGen)
    (readable : t.Bodies StatementNode.Readable) {file : List CurrentToken}
    (kept : Rewrites (Kept slips) t.program ((seen file).map CurrentToken.normal) []) (fuel : Nat) :
    match parse fuel file with
    | .ok block s => block = (t.build mainGen).1 ∧ allowed s.reports ∧
        s.gen = (t.build mainGen).2.finishMain ((t.build mainGen).1.varDecl.length + 4)
    | .error stop _ => stop = .fuel := by
  have some : file ≠ [] := by
    rintro rfl
    exact kept_program_some readable kept rfl
  obtain ⟨block, period, whole, keptBlock, keptPeriod⟩ := rewrites_append.mp kept
  have closes := kept_last keptPeriod
  have guards : Guards (uniteset (createset [.semicolonsym, .endsym])
      (uniteset (createset [.periodsym]) (uniteset declbegsys statbegsys))) := by
    constructor <;> decide
  have follows : BlockFollows slips
    (uniteset (createset [.periodsym]) (uniteset declbegsys statbegsys))
      (period ++ []) := by
    rcases closes with rfl | ⟨slip, rfl⟩
    · exact ⟨.inr (.inl rfl), .inl (show inset .periodsym _ = true by decide)⟩
    · exact ⟨.inr (.inr ⟨slip, rfl⟩), .inr ⟨slip, rfl⟩⟩
  have body : ReadsTo allowed (mainParse fuel) (block ++ (period ++ [])) mainGen (t.build mainGen).1
      (period ++ []) ((t.build mainGen).2.finishMain ((t.build mainGen).1.varDecl.length + 4)) := by
    apply (blockParse_reads lenient t grammatical suited readable guards keptBlock follows).bind
    apply (expectPeriod_reads lenient closes).bind
    apply ReadsTo.generate
    apply ReadsTo.generate
    exact readsTo_pure
  obtain ⟨s1, start, entered, gen, reports⟩ := parse_enters fuel file
  rw [coming_some some, whole] at entered
  rw [List.append_nil] at body
  have result := body s1 ⟨entered, gen, by rw [reports]; exact silent⟩
  rw [← start] at result
  cases run : parse fuel file with
  | ok node s =>
      rw [run] at result
      exact ⟨result.1, result.2.reports, result.2.gen⟩
  | error stop s =>
      rw [run] at result
      exact result

end Programs

/-- A tree that derives a text from the grammar. -/
def Reading (text : List CurrentToken) (t : BlockTree) : Prop :=
  t.Grammatical ∧ Spells text t.program

/-- No block has an empty statement as its body, and no empty statement stands directly in
front of an else. -/
def BlockTree.Filled (t : BlockTree) : Prop :=
  t.Bodies fun s => s.isEmpty = false ∧ s.ThenBranches fun branch => branch.endsEmpty = false

theorem spells_rewrites {slips : Prop} {text : List CurrentToken} {frontier : List Marked}
    (spells : Spells text frontier) : Rewrites (Kept slips) frontier
      (text.map CurrentToken.normal) [] := by
  rw [show text.map CurrentToken.normal = frontier.map Prod.fst from spells]
  exact rewrites_same (fun _ _ _ => .inl rfl) frontier []

/-- A sentence is read by some tree; and a tree whose statements are filled and whose names
and numbers suit is parsed without a report, into a tree of the same tokens. -/
theorem sentence_parses (file : List CurrentToken) (sentence : Sentence .program (seen file)) :
    (∃ t, Reading (seen file) t) ∧ ∀ t, Reading (seen file) t → t.Filled → t.Suited mainGen →
      ∀ fuel, 4 * file.length + 13 ≤ fuel → ∃ block s, parse fuel file = .ok block s ∧
        s.reports = [] ∧ Reading (seen file) block.tree := by
  refine ⟨sentence_iff.mp sentence, ?_⟩
  rintro t ⟨grammatical, spells⟩ filled suited fuel enough
  have same : t.attachElse.program = t.program := by
    unfold BlockTree.program
    rw [t.attachElse_frontier]
  have readable : t.attachElse.Bodies StatementNode.Readable := by
    refine t.attachElse_bodies (fun s holds => ?_) filled
    have spec := attachElse_spec s
    exact ⟨spec.isEmpty.trans holds.1, spec.closed holds.2⟩
  have kept : Rewrites (Kept False) t.attachElse.program
    ((seen file).map CurrentToken.normal) [] := by
    rw [same]
    exact spells_rewrites spells
  have result := @parse_reads False (· = []) False.elim rfl t.attachElse
    (t.attachElse_grammatical grammatical)
      (t.attachElse_suited (.refl mainGen) suited) readable file
    kept fuel
  cases run : parse fuel file with
  | error stop s =>
      rw [run] at result
      have outOfFuel : stop = .fuel := result
      subst outOfFuel
      exact absurd run (parse_fuel enough s)
  | ok block s =>
      rw [run] at result
      obtain ⟨built, silent, -⟩ := result
      refine ⟨block, s, rfl, silent, ?_⟩
      rw [built, BlockTree.build_tree]
      refine ⟨t.attachElse_grammatical grammatical, ?_⟩
      rw [same]
      exact spells

/-- `var x; if odd 1 then if odd 0 then read x else write x.`, with the else given to the
outer if. -/
def danglingTree : BlockTree :=
  .mk [] [[120]] .nil (.ifElse (.odd (.cons .unset (.cons .nulsym (.digit 1) .nil) .nil))
    (.ifS (.odd (.cons .unset (.cons .nulsym (.digit 0) .nil) .nil)) (.read [120])) (.write [120]))

def danglingText : List CurrentToken := danglingTree.program.map Prod.fst

theorem danglingText_reading : Reading (seen danglingText) danglingTree := by
  refine ⟨⟨trivial, ⟨.inl ⟨rfl, rfl⟩, ⟨rfl, trivial, rfl⟩, rfl⟩, ?_, trivial⟩, rfl⟩
  exact ⟨⟨.inl ⟨rfl, rfl⟩, ⟨rfl, trivial, rfl⟩, rfl⟩, trivial⟩

theorem sentence_parses_dangling : ∃ block s, parse 100 danglingText = .ok block s ∧
    s.reports = [] ∧ Reading (seen danglingText) block.tree := by
  have filled : danglingTree.Filled := ⟨trivial, rfl, rfl, trivial, trivial⟩
  have suited : danglingTree.Suited mainGen := by
    have small : ∀ value : Int, value ≤ 1 → value ≤ maxNumber := fun _ le => le_trans le (by decide)
    refine ⟨by simp, fun _ => ⟨by decide, by decide⟩, trivial, ?_, ?_, ?_⟩
    · exact ⟨⟨small 1 (by decide), trivial⟩, trivial⟩
    · exact ⟨⟨⟨small 0 (by decide), trivial⟩, trivial⟩, _, rfl, rfl⟩
    · exact ⟨_, rfl, by decide⟩
  exact (sentence_parses danglingText (sentence_iff.mpr ⟨_, danglingText_reading⟩)).2 danglingTree
    danglingText_reading filled suited 100 (by decide)

end Pl0
