import Pl0.CodeLayout

set_option autoImplicit false

namespace Pl0

open StateExcept

/-- `count` consecutive addresses from `first` on. -/
def addressesFrom (first : Int) (count : Nat) : List Int :=
  (List.range count).map fun (i : Nat) => first + (i : Int)

theorem length_addressesFrom (first : Int) (count : Nat) :
    (addressesFrom first count).length = count := by
  unfold addressesFrom
  rw [List.length_map, List.length_range]

theorem addressesFrom_succ (first : Int) (count : Nat) :
    addressesFrom first (count + 1) = addressesFrom first count ++ [first + count] := by
  unfold addressesFrom
  rw [List.range_succ, List.map_append, List.map_singleton]

theorem addressesFrom_append (first : Int) (count count' : Nat) :
    addressesFrom first count ++ addressesFrom (first + count) count' =
      addressesFrom first (count + count') := by
  induction count' with
  | zero => rw [Nat.add_zero]; exact List.append_nil _
  | succ count' ih =>
      rw [addressesFrom_succ, ← List.append_assoc, ih, ← Nat.add_assoc, addressesFrom_succ,
        Int.natCast_add, Int.add_assoc]

theorem addressesFrom_cons (first : Int) (count : Nat) :
    addressesFrom first (count + 1) = first :: addressesFrom (first + 1) count := by
  rw [Nat.add_comm, ← addressesFrom_append]
  have single : addressesFrom first 1 = [first] := by
    rw [addressesFrom_succ]
    simp [addressesFrom]
  rw [single]
  rfl

/-- A block's variables lie behind the four control words of its frame, in order. -/
def FrameLayout (block : BlockNode) : Prop :=
  block.varDecl.map (·.addr) = addressesFrom 4 block.varDecl.length

/-- How many variables the procedures of one level declare. -/
def declaredVars (level : Int) : List Procedure → Nat
  | [] => 0
  | p :: rest => (if p.lexical = level then p.body.varDecl.length else 0) + declaredVars level rest

theorem declaredVars_cons (level : Int) (p : Procedure) (rest : List Procedure) :
    declaredVars level (p :: rest) =
      (if p.lexical = level then p.body.varDecl.length else 0) + declaredVars level rest := rfl

theorem declaredVars_append (level : Int) (first last : List Procedure) :
    declaredVars level (first ++ last) = declaredVars level first + declaredVars level last := by
  induction first with
  | nil => exact (Nat.zero_add _).symm
  | cons p first ih =>
      rw [List.cons_append, declaredVars_cons, ih, declaredVars_cons, Nat.add_assoc]

theorem declaredVars_eq_zero {level : Int} {procedures : List Procedure} :
    declaredVars level procedures = 0 ↔
      ∀ p ∈ procedures, p.lexical = level → p.body.varDecl = [] := by
  induction procedures with
  | nil => simp [declaredVars]
  | cons p rest ih =>
      rw [declaredVars_cons, Nat.add_eq_zero_iff, ih, List.forall_mem_cons]
      apply and_congr_left'
      by_cases same : p.lexical = level
      · rw [if_pos same, List.length_eq_zero_iff]
        simp only [same, true_implies]
      · rw [if_neg same]
        simp only [same, false_implies]

/-- Each procedure of a list gets the addresses that the counter of its level has
reached, which counts from `offsets` on. -/
def Counted (offsets : Int → Int) (procedures : List Procedure) : Prop :=
  ∀ before p after, procedures = before ++ p :: after →
    p.body.varDecl.map (·.addr) =
      addressesFrom (offsets p.lexical + declaredVars p.lexical before) p.body.varDecl.length

theorem Counted.nil (offsets : Int → Int) : Counted offsets [] := by
  intro before p after split
  exact absurd split (by simp)

theorem Counted.append {offsets offsets' : Int → Int} {first last : List Procedure}
    (one : Counted offsets first) (two : Counted offsets' last)
    (moved : ∀ p ∈ last, offsets' p.lexical = offsets p.lexical + declaredVars p.lexical first) :
    Counted offsets (first ++ last) := by
  intro before p after split
  rcases List.append_eq_append_iff.mp split with ⟨middle, behind, rest⟩ | ⟨middle, inside, rest⟩
  · have member : p ∈ last := by
      rw [rest]
      exact List.mem_append_right _ List.mem_cons_self
    rw [two middle p after rest, moved p member, behind, declaredVars_append]
    push_cast
    rw [Int.add_assoc]
  · cases middle with
    | nil =>
        rw [List.append_nil] at inside
        rw [List.nil_append] at rest
        have member : p ∈ last := by
          rw [← rest]
          exact List.mem_cons_self
        rw [two [] p after rest.symm, moved p member, inside]
        simp [declaredVars]
    | cons q middle =>
        rw [List.cons_append, List.cons.injEq] at rest
        obtain ⟨rfl, -⟩ := rest
        exact one before p middle inside

/-- What the declarations of a block do to the counters: they are moved by what is
declared at each level. -/
structure Allocated (g : GenState) (d : Declarations) (g' : GenState) (d' : Declarations)
    (own : Nat) (procedures : List Procedure) : Prop where
  globalLevel : g'.globalLevel = g.globalLevel
  varDecl : d'.varDecl.map (·.addr) =
    d.varDecl.map (·.addr) ++ addressesFrom (g.offsetArray g.globalLevel) own
  procDef : d'.procDef.procedures = d.procDef.procedures ++ procedures
  levels : ∀ p ∈ procedures, g.globalLevel < p.lexical
  counted : Counted g.offsetArray procedures
  offsets : ∀ level, g'.offsetArray level = g.offsetArray level + declaredVars level procedures +
    (if level = g.globalLevel then (own : Int) else 0)

theorem declaredVars_of_lt {level : Int} {procedures : List Procedure}
    (above : ∀ p ∈ procedures, level < p.lexical) : declaredVars level procedures = 0 := by
  rw [declaredVars_eq_zero]
  intro p member same
  have bound := above p member
  omega

theorem Allocated.trans {g g' g'' : GenState} {d d' d'' : Declarations} {own own' : Nat}
    {procedures procedures' : List Procedure} (first : Allocated g d g' d' own procedures)
    (second : Allocated g' d' g'' d'' own' procedures') :
    Allocated g d g'' d'' (own + own') (procedures ++ procedures') where
  globalLevel := second.globalLevel.trans first.globalLevel
  varDecl := by
    have reached := first.offsets g.globalLevel
    rw [declaredVars_of_lt first.levels, if_pos rfl, Int.natCast_zero, Int.add_zero] at reached
    rw [second.varDecl, first.varDecl, first.globalLevel, reached, List.append_assoc,
      addressesFrom_append]
  procDef := by rw [second.procDef, first.procDef, List.append_assoc]
  levels := by
    have levels := second.levels
    rw [first.globalLevel] at levels
    exact List.forall_mem_append.mpr ⟨first.levels, levels⟩
  counted := by
    apply first.counted.append second.counted
    intro p member
    have deeper := second.levels p member
    rw [first.globalLevel] at deeper
    rw [first.offsets, if_neg (by omega), Int.add_zero]
  offsets := by
    intro level
    rw [second.offsets, first.offsets, first.globalLevel, declaredVars_append]
    split <;> push_cast <;> omega

theorem makeProc_offsetArray (g : GenState) (name : Name) :
    (g.makeProc name).offsetArray = g.offsetArray := by
  unfold GenState.makeProc GenState.getFreeSet
  dsimp only
  cases (List.range maxCodeSets).find? fun i => !g.inUse i <;> rfl

/-- One procedure declaration: its own variables count at its level, which is one
deeper. -/
theorem allocated_proc {g gb : GenState} {d inner : Declarations} {name : Name}
    {statement : StatementNode} {own : Nat} {procedures : List Procedure} (set space : Int)
    (nested : Allocated (g.makeProc name).openBlock .none gb inner own procedures) :
    ∃ p, Allocated g d ((genBody statement gb).leaveProc set space)
      (d.addProc g name (inner.block statement)) 0 (p :: procedures) := by
  have level : (g.makeProc name).openBlock.globalLevel = g.globalLevel + 1 := by
    change (g.makeProc name).globalLevel + 1 = _
    rw [makeProc_globalLevel]
  have offsets : (g.makeProc name).openBlock.offsetArray = g.offsetArray :=
    makeProc_offsetArray g name
  have body := genBody_emits statement gb
  have addresses := nested.varDecl
  have length : inner.varDecl.length = own := by
    have counts := congrArg List.length nested.varDecl
    rw [List.length_map, List.length_append, length_addressesFrom] at counts
    exact counts.trans (Nat.zero_add own)
  rw [level, offsets] at addresses
  refine ⟨⟨name, g.globalLevel + 1, g.procedureCount + 1, g.currentProcedure,
    inner.block statement⟩, ?_, ?_, ?_, ?_, ?_, ?_⟩
  · change (genBody statement gb).globalLevel - 1 = g.globalLevel
    rw [body.globalLevel, nested.globalLevel, level]
    omega
  · exact (List.append_nil _).symm
  · have within : inner.procDef.procedures = procedures := nested.procDef
    rw [d.addProc_procedures, within]
  · intro p member
    rcases List.mem_cons.mp member with rfl | inside
    · dsimp only
      omega
    · have deeper := nested.levels p inside
      omega
  · have single : Counted g.offsetArray [⟨name, g.globalLevel + 1, g.procedureCount + 1,
        g.currentProcedure, inner.block statement⟩] := by
      intro before p after split
      obtain ⟨rfl, rfl, rfl⟩ : before = [] ∧ p = _ ∧ after = [] := by
        cases before with
        | nil =>
            rw [List.nil_append, List.cons.injEq] at split
            exact ⟨rfl, split.1.symm, split.2.symm⟩
        | cons head tail => simp at split
      change inner.varDecl.map (·.addr) = addressesFrom (g.offsetArray (g.globalLevel + 1) +
        (0 : Nat)) inner.varDecl.length
      rw [addresses, length, Int.natCast_zero, Int.add_zero]
      rfl
    have counted := nested.counted
    rw [offsets] at counted
    apply single.append counted
    intro p member
    have deeper := nested.levels p member
    rw [declaredVars_cons, if_neg (by dsimp only; omega)]
    exact (Int.add_zero _).symm
  · intro l
    have reached := nested.offsets l
    have space : (inner.block statement).varDecl.length = own := length
    change (genBody statement gb).offsetArray l = _
    rw [body.offsetArray, reached, offsets, level, declaredVars_cons, space]
    by_cases same : g.globalLevel + 1 = l
    · rw [if_pos same.symm, if_pos same, if_neg (by omega)]
      push_cast
      omega
    · rw [if_neg (Ne.symm same), if_neg same]
      push_cast
      split <;> omega

theorem Declares.allocated {g g' : GenState} {d d' : Declarations}
    (declares : Declares g d g' d') : ∃ own procedures, Allocated g d g' d' own procedures := by
  have unchanged : ∀ (g : GenState) (d d' : Declarations), d'.varDecl = d.varDecl →
      d'.procDef = d.procDef → ∀ g', g'.globalLevel = g.globalLevel →
      g'.offsetArray = g.offsetArray → Allocated g d g' d' 0 [] := by
    intro g d d' vars procs g' level offsets
    refine ⟨level, ?_, ?_, ?_, .nil _, ?_⟩
    · rw [vars]
      exact (List.append_nil _).symm
    · rw [procs, List.append_nil]
    · exact fun p none => absurd none List.not_mem_nil
    · intro l
      rw [offsets]
      simp [declaredVars]
  induction declares with
  | done g d => exact ⟨0, [], unchanged g d d rfl rfl g rfl rfl⟩
  | @const g _ d _ name value small inside _ ih =>
      obtain ⟨own, procedures, rest⟩ := ih
      have none : Allocated g d (g.makeConst name value) (d.addConst g name value) 0 [] :=
        unchanged g d (d.addConst g name value) rfl rfl (g.makeConst name value) rfl rfl
      exact ⟨0 + own, [] ++ procedures, none.trans rest⟩
  | @var g _ d _ name inside _ ih =>
      obtain ⟨own, procedures, rest⟩ := ih
      have one : Allocated g d (g.makeVar name) (d.addVar g name) 1 [] := by
        refine ⟨rfl, ?_, (List.append_nil _).symm, ?_, .nil _, ?_⟩
        · unfold Declarations.addVar
          rw [List.map_append]
          simp [addressesFrom]
        · exact fun p none => absurd none List.not_mem_nil
        · intro l
          change Function.update g.offsetArray g.globalLevel (g.offsetArray g.globalLevel + 1) l = _
          by_cases same : l = g.globalLevel
          · rw [same, Function.update_self, if_pos rfl]
            simp [declaredVars]
          · rw [Function.update_of_ne same, if_neg same]
            simp [declaredVars]
      exact ⟨1 + own, [] ++ procedures, one.trans rest⟩
  | @proc g gb _ d inner _ name statement _ _ ihNested ih =>
      obtain ⟨own, procedures, nested⟩ := ihNested
      obtain ⟨own', procedures', rest⟩ := ih
      obtain ⟨p, one⟩ :=
        allocated_proc (d := d) g.currentProcedure (inner.varDecl.length + 4) nested
      exact ⟨0 + own', _, one.trans rest⟩

theorem addressesFrom_shift {first : Int} {moved count : Nat} :
    addressesFrom (first + moved) count = addressesFrom first count ↔ count = 0 ∨ moved = 0 := by
  constructor
  · intro same
    cases count with
    | zero => exact .inl rfl
    | succ count =>
        have heads := congrArg List.head? same
        simp only [addressesFrom, List.range_succ_eq_map, List.map_cons, List.head?_cons,
          Option.some.injEq] at heads
        right
        omega
  · rintro (none | unmoved)
    · rw [none]
      rfl
    · rw [unmoved, Int.natCast_zero, Int.add_zero]

/-- The blocks of a program with their nesting levels, in the order in which they are
opened. -/
def BlockNode.blocks (block : BlockNode) : List (Int × BlockNode) :=
  (0, block) :: block.procedures.map fun p => (p.lexical, p.body)

/-- A variable of a well laid out frame lies inside the words that the INC of its
block reserves. -/
theorem FrameLayout.reserved {block : BlockNode} (layout : FrameLayout block) {v : VarDeclNode}
    (member : v ∈ block.varDecl) : 4 ≤ v.addr ∧ v.addr < block.varDecl.length + 4 := by
  have address : v.addr ∈ addressesFrom 4 block.varDecl.length := by
    rw [← layout]
    exact List.mem_map_of_mem member
  obtain ⟨i, inside, place⟩ := List.mem_map.mp address
  have below := List.mem_range.mp inside
  omega

/-- The variables of the main block are the first of their level. -/
theorem Declares.main_frameLayout {g : GenState} {d : Declarations} {block : BlockNode}
    (declares : Declares mainGen .none g d) (shape : block = d.block block.statement) :
    FrameLayout block := by
  obtain ⟨own, procedures, allocated⟩ := declares.allocated
  have vars : block.varDecl.map (·.addr) = addressesFrom 4 own := by
    rw [shape]
    exact allocated.varDecl
  have count : block.varDecl.length = own := by
    have lengths := congrArg List.length vars
    rwa [List.length_map, length_addressesFrom] at lengths
  unfold FrameLayout
  rw [vars, count]

/-- A block is laid out well exactly when it has no variables or no earlier block of its level
has any. -/
theorem Declares.blockLayout_iff {g : GenState} {d : Declarations} {block : BlockNode}
    (declares : Declares mainGen .none g d) (shape : block = d.block block.statement)
    {before after : List (Int × BlockNode)} {level : Int} {b : BlockNode}
    (opened : block.blocks = before ++ (level, b) :: after) :
    FrameLayout b ↔
      b.varDecl = [] ∨ ∀ earlier ∈ before, earlier.1 = level → earlier.2.varDecl = [] := by
  obtain ⟨own, procedures, allocated⟩ := declares.allocated
  have start : mainGen.globalLevel = 0 := rfl
  have offsets : ∀ l, mainGen.offsetArray l = 4 := fun _ => rfl
  have within : block.procedures = procedures := by
    rw [shape]
    exact allocated.procDef
  unfold BlockNode.blocks at opened
  rw [within] at opened
  cases before with
  | nil =>
      rw [List.nil_append, List.cons.injEq, Prod.mk.injEq] at opened
      obtain ⟨⟨-, rfl⟩, -⟩ := opened
      have layout : FrameLayout block := declares.main_frameLayout shape
      simp [layout]
  | cons main before =>
      rw [List.cons_append, List.cons.injEq] at opened
      obtain ⟨rfl, opened⟩ := opened
      obtain ⟨first, rest, split, rfl, restEq⟩ := List.map_eq_append_iff.mp opened
      obtain ⟨p, last, rfl, one, rfl⟩ := List.map_eq_cons_iff.mp restEq
      rw [Prod.mk.injEq] at one
      obtain ⟨rfl, rfl⟩ := one
      have deeper := allocated.levels p (by rw [split]; simp)
      rw [start] at deeper
      unfold FrameLayout
      rw [allocated.counted first p last split, offsets, addressesFrom_shift,
        List.length_eq_zero_iff, declaredVars_eq_zero, List.forall_mem_cons]
      apply or_congr_right
      constructor
      · intro none
        refine ⟨fun same => absurd same (by dsimp only; omega), ?_⟩
        intro earlier member same
        obtain ⟨q, inside, rfl⟩ := List.mem_map.mp member
        exact none q inside same
      · intro none q inside same
        exact none.2 _ (List.mem_map_of_mem inside) same

/-- For every accepted program and every block of it, the variables of the block lie
at 4, 5, ... exactly when it has none or no earlier block of its level has any. -/
theorem frameLayout_iff {fuel : Nat} {tokens : List CurrentToken} {block : BlockNode}
    {s : ParseState} (accepted : parse fuel tokens = .ok block s)
    {before after : List (Int × BlockNode)} {level : Int} {b : BlockNode}
    (opened : block.blocks = before ++ (level, b) :: after) :
    FrameLayout b ↔
      b.varDecl = [] ∨ ∀ earlier ∈ before, earlier.1 = level → earlier.2.varDecl = [] := by
  obtain ⟨g, ⟨declared, d, declares, shape, -⟩, -⟩ := parse_runs accepted
  exact declares.blockLayout_iff shape opened

/-- `procedure p; var a; begin end; procedure q; var b; begin end; begin end.` -/
def siblings : List CurrentToken :=
  [.word .procsym, .ident [112], .word .semicolonsym, .word .varsym, .ident [97],
    .word .semicolonsym, .word .beginsym, .word .endsym, .word .semicolonsym, .word .procsym,
    .ident [113], .word .semicolonsym, .word .varsym, .ident [98], .word .semicolonsym,
    .word .beginsym, .word .endsym, .word .semicolonsym, .word .beginsym, .word .endsym,
    .word .periodsym]

/-- The variable of the second procedure is at 5, behind the five words of its frame. -/
theorem siblings_parsed : ∃ block s before b after, parse 20 siblings = .ok block s ∧
    block.blocks = before ++ (1, b) :: after ∧ b.varDecl.map (·.addr) = [5] := by
  have looked : returned? (fun block _ => block.blocks.map fun b => (b.1, b.2.varDecl.map (·.addr)))
      (parse 20 siblings) = some [(0, []), (1, [4]), (1, [5])] := by
    decide +kernel
  obtain ⟨block, s, accepted, found⟩ := returned?_eq_some.mp looked
  obtain ⟨main, rest, blocks, -, found⟩ := List.map_eq_cons_iff.mp found
  obtain ⟨first, rest, rfl, -, found⟩ := List.map_eq_cons_iff.mp found
  obtain ⟨⟨level, b⟩, rest, rfl, second, -⟩ := List.map_eq_cons_iff.mp found
  rw [Prod.mk.injEq] at second
  obtain ⟨rfl, address⟩ := second
  exact ⟨block, s, [main, first], b, rest, accepted, blocks, address⟩

theorem frameLayout_iff_siblings : ∃ block s before b after, parse 20 siblings = .ok block s ∧
    block.blocks = before ++ (1, b) :: after ∧ (FrameLayout b ↔
      b.varDecl = [] ∨ ∀ earlier ∈ before, earlier.1 = 1 → earlier.2.varDecl = []) := by
  obtain ⟨block, s, before, b, after, accepted, opened, -⟩ := siblings_parsed
  exact ⟨block, s, before, b, after, accepted, opened, frameLayout_iff accepted opened⟩

theorem sibling_frames_overflow : ¬ ∀ (fuel : Nat) (tokens : List CurrentToken) (block : BlockNode)
    (s : ParseState), parse fuel tokens = .ok block s → ∀ b ∈ block.blocks, FrameLayout b.2 := by
  intro always
  obtain ⟨block, s, before, b, after, accepted, opened, address⟩ := siblings_parsed
  have layout := always _ _ _ _ accepted (1, b) (by rw [opened]; simp)
  unfold FrameLayout at layout
  have length := congrArg List.length address
  rw [List.length_map, List.length_singleton] at length
  rw [address, length] at layout
  exact absurd layout (by decide)

end Pl0
