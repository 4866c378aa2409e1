import Pl0.StatementExecution
import Pl0.StoredDeclarations
import Pl0.VariableHomes

set_option autoImplicit false

namespace Pl0

/- The names of a program without procedures, where the table tells them all apart. -/

section Table

variable {table : SymTable} {symbols : List Symbol} {s : Symbol}

theorem filter_eq_singleton {α β : Type} [DecidableEq β] {f : α → β} {l : List α} {a : α}
    (nodup : (l.map f).Nodup) (member : a ∈ l) : l.filter (fun b => f b = f a) = [a] := by
  obtain ⟨before, after, rfl⟩ := List.append_of_mem member
  rw [List.map_append, List.map_cons, List.nodup_append, List.nodup_cons] at nodup
  obtain ⟨-, ⟨notAfter, -⟩, apart⟩ := nodup
  have first : before.filter (fun b => f b = f a) = [] := by
    rw [List.filter_eq_nil_iff]
    intro b inside
    have differ := apart _ (List.mem_map_of_mem inside) _ List.mem_cons_self
    simpa using differ
  have last : after.filter (fun b => f b = f a) = [] := by
    rw [List.filter_eq_nil_iff]
    intro b inside
    have differ : f b ≠ f a := fun same => notAfter (same ▸ List.mem_map_of_mem inside)
    simpa using differ
  rw [List.filter_append, first, List.nil_append, List.filter_cons_of_pos (by simp), last]

/-- A lookup of a name that has its bucket to itself. -/
theorem HoldsSymbols.getSymbol_eq (holds : HoldsSymbols table symbols)
    (distinct : (symbols.map fun t => hashcode (symTableInit 100) t.name).Nodup)
    (member : s ∈ symbols)
    (level : Int) : getSymbol table s.name level = some s := by
  rw [getSymbol_eq_foldl, holds.chains, holds.hashcode_eq]
  rw [filter_eq_singleton distinct member]
  rfl

/-- Names with hashcodes of their own are all stored. -/
theorem eachStored_of_distinct
    (distinct : (symbols.map fun t => hashcode (symTableInit 100) t.name).Nodup) :
    EachStored symbols := by
  rw [eachStored_iff]
  constructor
  · apply List.Pairwise.imp _ (List.pairwise_map.mp distinct)
    intro earlier later differ
    rw [← Bool.not_eq_true, compareDataType_iff]
    rintro ⟨named, -⟩
    exact differ (congrArg _ named)
  · have few : symbols.length ≤ 100 := by
      have inside : (symbols.map fun t => hashcode (symTableInit 100) t.name) ⊆ List.range 100 := by
        intro h member
        obtain ⟨t, -, rfl⟩ := List.mem_map.mp member
        exact List.mem_range.mpr (hashcode_lt _ _ (by decide))
      have bound := (distinct.subperm inside).length_le
      rwa [List.length_map, List.length_range] at bound
    have used : bucketsUsed symbols.dropLast ≤ symbols.length - 1 := by
      unfold bucketsUsed
      apply (List.toFinset_card_le _).trans
      rw [List.length_map, List.length_dropLast]
    omega

end Table

/-- What declarations without procedures put into the table: one symbol for each constant
and each variable. -/
structure Entered (g : GenState) (d : Declarations) (g' : GenState) (d' : Declarations)
    (symbols : List Symbol) : Prop where
  level : g'.globalLevel = g.globalLevel
  table : g'.symbolTable = putSymbols g.symbolTable symbols
  names : (d'.constDecl.map (·.ident) ++ d'.varDecl.map (·.ident)).Perm
    ((d.constDecl.map (·.ident) ++ d.varDecl.map (·.ident)) ++ symbols.map (·.name))
  consts : ∀ k ∈ d'.constDecl, k ∈ d.constDecl ∨ ∃ symbol ∈ symbols, symbol.name = k.ident ∧
    symbol.kind = .constS ∧ symbol.val = k.numer
  vars : ∀ v ∈ d'.varDecl, v ∈ d.varDecl ∨ ∃ symbol ∈ symbols, symbol.name = v.ident ∧
    symbol.kind = .varS ∧ symbol.level = g.globalLevel ∧ symbol.addr = v.addr

theorem Entered.trans {g g' g'' : GenState} {d d' d'' : Declarations}
    {symbols symbols' : List Symbol}
    (first : Entered g d g' d' symbols) (second : Entered g' d' g'' d'' symbols') :
    Entered g d g'' d'' (symbols ++ symbols') where
  level := second.level.trans first.level
  table := by
    rw [second.table, first.table]
    unfold putSymbols
    rw [List.foldl_append]
  names := by
    apply second.names.trans
    rw [List.map_append, ← List.append_assoc]
    exact first.names.append_right _
  consts := by
    intro k member
    rcases second.consts k member with early | ⟨symbol, inside, found⟩
    · rcases first.consts k early with old | ⟨symbol, inside, found⟩
      · exact .inl old
      · exact .inr ⟨symbol, List.mem_append_left _ inside, found⟩
    · exact .inr ⟨symbol, List.mem_append_right _ inside, found⟩
  vars := by
    intro v member
    rcases second.vars v member with early | ⟨symbol, inside, named, kind, level, addr⟩
    · rcases first.vars v early with old | ⟨symbol, inside, found⟩
      · exact .inl old
      · exact .inr ⟨symbol, List.mem_append_left _ inside, found⟩
    · exact .inr ⟨symbol, List.mem_append_right _ inside, named, kind,
        level.trans first.level, addr⟩

theorem Declares.entered {g g' : GenState} {d d' : Declarations} (declares : Declares g d g' d')
    (free : d'.procDef.procedures = []) : ∃ symbols, Entered g d g' d' symbols := by
  induction declares with
  | done g d =>
      refine ⟨[], rfl, rfl, ?_, fun k => .inl, fun v => .inl⟩
      rw [List.map_nil, List.append_nil]
  | @const g _ d _ name value small inside rest ih =>
      obtain ⟨symbols, entered⟩ := ih free
      have one : Entered g d (g.makeConst name value) (d.addConst g name value)
          [g.newSymbol .constS name value 0] := by
        refine ⟨rfl, rfl, ?_, ?_, fun v => .inl⟩
        · unfold Declarations.addConst
          rw [List.map_append, List.append_assoc, List.append_assoc]
          exact List.perm_append_comm.append_left _
        · intro k member
          rcases List.mem_append.mp member with old | new
          · exact .inl old
          · rw [List.mem_singleton.mp new]
            exact .inr ⟨_, List.mem_cons_self, rfl, rfl, rfl⟩
      exact ⟨_, one.trans entered⟩
  | @var g _ d _ name inside rest ih =>
      obtain ⟨symbols, entered⟩ := ih free
      have one : Entered g d (g.makeVar name) (d.addVar g name)
          [g.newSymbol .varS name 0 (g.offsetArray g.globalLevel)] := by
        refine ⟨rfl, rfl, ?_, fun k => .inl, ?_⟩
        · unfold Declarations.addVar
          rw [List.map_append, List.append_assoc]
          rfl
        · intro v member
          rcases List.mem_append.mp member with old | new
          · exact .inl old
          · rw [List.mem_singleton.mp new]
            exact .inr ⟨_, List.mem_cons_self, rfl, rfl, rfl, rfl⟩
      exact ⟨_, one.trans entered⟩
  | @proc g gb _ d inner _ name statement nested rest _ _ =>
      -- a procedure would stay in the list
      have declared := rest.housed.procs ⟨name, g.globalLevel + 1, g.procedureCount + 1,
        g.currentProcedure, inner.block statement⟩ (by
          rw [d.addProc_procedures]
          exact List.mem_append_right _ List.mem_cons_self)
      rw [free] at declared
      cases declared

end Pl0
