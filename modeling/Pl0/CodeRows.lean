import Pl0.CompileCapacity

set_option autoImplicit false

namespace Pl0

open StateExcept

/-- A numbered program whose code lies in the rows of `generatedCode` that bear the numbers: no
instruction of one block is in the row of another. -/
structure NumberedInRows (block : BlockNode) (g : GenState) : Prop extends
    NumberedProgram block g where
  rows : ∀ set index, index < (g.code set).length → rowOf set index = set

theorem rows_iff (code : CodeSets) :
    (∀ set index, index < (code set).length → rowOf set index = set) ↔
      ∀ set, ((code set).length : Int) ≤ maxCodeLength := by
  simp only [rowOf_eq_iff]
  constructor
  · intro inside set
    have row : maxCodeLength = 500 := rfl
    by_contra long
    have last := inside set ((code set).length - 1) (by omega)
    omega
  · intro lengths set index below
    have length := lengths set
    omega

/-- For every program accepted without a report, with a code set for each block: procedures,
symbols and code sets are numbered alike, and the code of each block lies in the row of its
number, exactly when every block's code fits into a row. -/
theorem numberedInRows_iff {fuel : Nat} {tokens : List CurrentToken} {block : BlockNode}
    {s : ParseState} (accepted : parse fuel tokens = .ok block s) (silent : s.reports = [])
    (few : block.procedures.length ≤ maxCodeSets - 1) :
    NumberedInRows block s.gen ↔ FitsRows block := by
  have numbered := parse_numbers accepted silent few
  have room : block.procedures.length < maxCodeSets := by
    have sets : maxCodeSets = 100 := rfl
    omega
  have lengths := lengths_iff accepted room
  rw [← rows_iff] at lengths
  constructor
  · intro placed
    obtain ⟨main, bodies⟩ := lengths.mp placed.rows
    exact ⟨main, bodies⟩
  · intro fits
    exact ⟨numbered, lengths.mpr ⟨fits.main, fits.bodies⟩⟩

/-- `procedure p; var x; procedure q; begin end; begin end; procedure r; begin end; begin end.` -/
def nestedProcedures : List CurrentToken :=
  [.word .procsym, .ident [112], .word .semicolonsym, .word .varsym, .ident [120],
    .word .semicolonsym, .word .procsym, .ident [113], .word .semicolonsym, .word .beginsym,
    .word .endsym, .word .semicolonsym, .word .beginsym, .word .endsym, .word .semicolonsym,
    .word .procsym, .ident [114], .word .semicolonsym, .word .beginsym, .word .endsym,
    .word .semicolonsym, .word .beginsym, .word .endsym, .word .periodsym]

theorem numberedInRows_iff_nested : ∃ block s, parse 20 nestedProcedures = .ok block s ∧
    s.reports = [] ∧ block.procedures.map (·.addr) = [1, 2, 3] ∧
    (NumberedInRows block s.gen ↔ FitsRows block) := by
  have looked : returned? (fun block s => (s.reports, block.procedures.map (·.addr)))
      (parse 20 nestedProcedures) = some ([], [1, 2, 3]) := by
    decide +kernel
  obtain ⟨block, s, accepted, found⟩ := returned?_eq_some.mp looked
  obtain ⟨silent, addresses⟩ := Prod.mk.inj found
  have count : block.procedures.length = 3 := by
    have lengths := congrArg List.length addresses
    rwa [List.length_map] at lengths
  exact ⟨block, s, accepted, silent, addresses, numberedInRows_iff accepted silent
    (by rw [count]; decide)⟩

/-- `var x; procedure p; begin end; x := 1 + 1 + ... + 1.`, with 251 ones. -/
def longSum : List CurrentToken :=
  [.word .varsym, .ident [120], .word .semicolonsym, .word .procsym, .ident [112],
    .word .semicolonsym, .word .beginsym, .word .endsym, .word .semicolonsym, .ident [120],
    .word .becomessym] ++
    (List.replicate 250 [.number 1, .word .plussym]).flatten ++ [.number 1, .word .periodsym]

/-- The main block has 504 instructions; the last four lie in the row of `p`. -/
theorem longSum_accepted : ∃ block s, parse 300 longSum = .ok block s ∧
    (s.reports, block.procedures.map (·.lexical), (s.gen.code 0).length) = ([], [1], 504) := by
  apply returned?_eq_some.mp
  decide +kernel

theorem longSum_outOfRow : ¬ ∀ (fuel : Nat) (tokens : List CurrentToken) (block : BlockNode)
    (s : ParseState), parse fuel tokens = .ok block s → s.reports = [] →
      block.procedures.length ≤ maxCodeSets - 1 →
      (∀ p ∈ block.procedures, p.lexical < maxLexiLevels) → NumberedInRows block s.gen := by
  intro claim
  obtain ⟨block, s, accepted, found⟩ := longSum_accepted
  simp only [Prod.mk.injEq] at found
  obtain ⟨silent, levels, length⟩ := found
  have count : block.procedures.length = 1 := by
    have lengths := congrArg List.length levels
    rwa [List.length_map] at lengths
  have shallow : ∀ p ∈ block.procedures, p.lexical < maxLexiLevels := by
    intro p member
    have inside := List.mem_map_of_mem (f := Procedure.lexical) member
    rw [levels, List.mem_singleton] at inside
    rw [inside]
    decide
  have rows := (claim _ _ _ _ accepted silent (by rw [count]; decide) shallow).rows
  exact absurd (rows 0 500 (by rw [length]; decide)) (by decide)

end Pl0
