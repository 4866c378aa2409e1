import Pl0.ParseState
import Pl0.SymbolTableIsolation
import Mathlib.Data.List.Find

set_option autoImplicit false

namespace Pl0

/-- A symbol and the block that declares it, as its chain of procedure numbers. -/
abbrev Declared := List Int × Symbol

def declarations (events : List Event) : List Declared :=
  events.filterMap fun
    | .declare scope symbol => some (scope, symbol)
    | _ => none

/-- The symbol table that a history builds. -/
def tableOf (events : List Event) : SymTable :=
  putSymbols (symTableInit 100) ((declarations events).map Prod.snd)

theorem declarations_append (events events' : List Event) :
    declarations (events ++ events') = declarations events ++ declarations events' :=
  List.filterMap_append

theorem mem_declarations {events : List Event} {block : List Int} {symbol : Symbol} :
    (block, symbol) ∈ declarations events ↔ .declare block symbol ∈ events := by
  unfold declarations
  rw [List.mem_filterMap]
  constructor
  · rintro ⟨event, member, declares⟩
    cases event with
    | declare scope sym =>
        rw [Option.some.injEq, Prod.mk.injEq] at declares
        obtain ⟨rfl, rfl⟩ := declares
        exact member
    | _ => cases declares
  · intro member
    exact ⟨_, member, rfl⟩

/-- The declarations that `putSymbol` does not refuse. -/
def kept : SymTable → List Declared → List Declared
  | _, [] => []
  | table, d :: rest =>
      let (stored, table') := putSymbol table d.2.name d.2
      if stored then d :: kept table' rest else kept table' rest

theorem kept_cons (table : SymTable) (d : Declared) (rest : List Declared) :
    kept table (d :: rest) =
      if (putSymbol table d.2.name d.2).1 then d :: kept (putSymbol table d.2.name d.2).2 rest
      else kept (putSymbol table d.2.name d.2).2 rest :=
  rfl

theorem mem_of_mem_kept {table : SymTable} {ds : List Declared} {d : Declared}
    (member : d ∈ kept table ds) : d ∈ ds := by
  induction ds generalizing table with
  | nil => exact member
  | cons first rest ih =>
      rw [kept_cons] at member
      split at member
      · rcases List.mem_cons.mp member with rfl | later
        · exact List.mem_cons_self
        · exact List.mem_cons_of_mem _ (ih later)
      · exact List.mem_cons_of_mem _ (ih member)

/-- A bucket holds what was kept under its hashcode, in the order of declaration. -/
theorem chain_putSymbols {table : SymTable} (linked : TailsLinked table) (ds : List Declared)
    (bucket : Nat) : (putSymbols table (ds.map Prod.snd)).chain bucket = table.chain bucket ++
      ((kept table ds).filter fun d => hashcode table d.2.name = bucket).map Prod.snd := by
  induction ds generalizing table with
  | nil => exact (List.append_nil _).symm
  | cons d rest ih =>
      have same : ∀ key, hashcode (putSymbol table d.2.name d.2).2 key = hashcode table key :=
        fun key => hashcode_congr key (putSymbol_numsBucket table d.2.name d.2)
      have later := ih (putSymbol_tailsLinked linked d.2.name d.2)
      simp only [same] at later
      change (putSymbols (putSymbol table d.2.name d.2).2 (rest.map Prod.snd)).chain bucket = _
      rw [later, kept_cons]
      by_cases refused : Refused table d.2
      · rw [putSymbol_refused refused]
        rfl
      · rw [putSymbol_accepted refused, if_pos rfl]
        by_cases own : hashcode table d.2.name = bucket
        · rw [List.filter_cons_of_pos (by simpa using own), List.map_cons, ← own,
            putSymbol_chain_accepted linked refused, List.append_assoc]
          rfl
        · rw [List.filter_cons_of_neg (by simpa using own),
            putSymbol_chain_elsewhere linked d.2 bucket (Ne.symm own)]

/-- What the table holds under a name, oldest first; nothing ever leaves the table. -/
def storedUnder (events : List Event) (name : Name) : List Declared :=
  (kept (symTableInit 100) (declarations events)).filter fun d => d.2.name = name

theorem mem_storedUnder {events : List Event} {name : Name} {d : Declared}
    (member : d ∈ storedUnder events name) : d ∈ declarations events ∧ d.2.name = name := by
  obtain ⟨inKept, named⟩ := List.mem_filter.mp member
  exact ⟨mem_of_mem_kept inKept, by simpa using named⟩

/-- Where no other name shares the bucket, a lookup scans what is stored under the
name. -/
theorem getSymbol_tableOf {events : List Event} {name : Name}
    (alone : ∀ d ∈ declarations events,
      hashcode (symTableInit 100) d.2.name = hashcode (symTableInit 100) name → d.2.name = name)
    (level : Int) : getSymbol (tableOf events) name level =
      ((storedUnder events name).map Prod.snd).foldl (getSymbolStep level) none := by
  have same : hashcode (tableOf events) name = hashcode (symTableInit 100) name :=
    hashcode_congr name (putSymbols_numsBucket _ _)
  rw [getSymbol_eq_foldl, same]
  unfold tableOf
  rw [chain_putSymbols (symTableInit_tailsLinked 100)]
  have empty : (symTableInit 100).chain (hashcode (symTableInit 100) name) = [] := rfl
  have filters : (kept (symTableInit 100) (declarations events)).filter
      (fun d => hashcode (symTableInit 100) d.2.name = hashcode (symTableInit 100) name) =
      storedUnder events name := by
    unfold storedUnder
    apply List.filter_congr
    intro d member
    rw [decide_eq_decide]
    constructor
    · exact alone d (mem_of_mem_kept member)
    · intro named
      rw [named]
  rw [empty, filters, List.nil_append]

theorem getSymbolStep_some (level : Int) (found value : Symbol) :
    getSymbolStep level (some found) value =
      if value.level ≤ level ∧ value.level - level > found.level - level then some value
      else some found :=
  rfl

/-- A first symbol that is deeper than the use stays the answer. -/
theorem foldl_getSymbolStep_deep {level : Int} {first : Symbol} (deep : level < first.level)
    (rest : List Symbol) : rest.foldl (getSymbolStep level) (some first) = some first := by
  induction rest with
  | nil => rfl
  | cons next rest ih =>
      have kept : getSymbolStep level (some first) next = some first := by
        rw [getSymbolStep_some, if_neg (by omega)]
      rw [List.foldl_cons, kept, ih]

/-- Otherwise the answer is the first symbol of the deepest level that the use can
see. -/
theorem foldl_getSymbolStep_visible {level : Int} {first : Symbol} (visible : first.level ≤ level)
    (rest : List Symbol) : ∃ found, rest.foldl (getSymbolStep level) (some first) = some found ∧
      found.level ≤ level ∧ (∀ s ∈ first :: rest, s.level ≤ level → s.level ≤ found.level) ∧
      (first :: rest).find? (fun s => s.level = found.level) = some found := by
  induction rest generalizing first with
  | nil => exact ⟨first, rfl, visible, by simp, by simp⟩
  | cons next rest ih =>
      rw [List.foldl_cons, getSymbolStep_some]
      by_cases better : next.level ≤ level ∧ next.level - level > first.level - level
      · rw [if_pos better]
        obtain ⟨found, folded, seen, deepest, earliest⟩ := ih better.1
        have above := deepest next List.mem_cons_self better.1
        refine ⟨found, folded, seen, ?_, ?_⟩
        · rw [List.forall_mem_cons]
          exact ⟨fun _ => by omega, deepest⟩
        · rw [List.find?_cons_of_neg (by simp only [decide_eq_true_eq]; omega)]
          exact earliest
      · rw [if_neg better]
        obtain ⟨found, folded, seen, deepest, earliest⟩ := ih visible
        have atLeast := deepest first List.mem_cons_self visible
        refine ⟨found, folded, seen, ?_, ?_⟩
        · rw [List.forall_mem_cons] at deepest ⊢
          refine ⟨deepest.1, ?_⟩
          rw [List.forall_mem_cons]
          exact ⟨fun _ => by omega, deepest.2⟩
        · by_cases own : first.level = found.level
          · rw [List.find?_cons_of_pos (by simpa using own)] at earliest ⊢
            exact earliest
          · rw [List.find?_cons_of_neg (by simpa using own)] at earliest ⊢
            rw [List.find?_cons_of_neg (by simp only [decide_eq_true_eq]; omega)]
            exact earliest

def declaresName (events : List Event) (name : Name) (block : List Int) : Bool :=
  (declarations events).any fun d => d.1 = block ∧ d.2.name = name

/-- The innermost of the blocks around a scope that has declared the name so far. -/
def innermostBlock (events : List Event) (name : Name) : List Int → Option (List Int)
  | [] => none
  | procedure :: outer =>
      if declaresName events name (procedure :: outer) then some (procedure :: outer)
      else innermostBlock events name outer

theorem innermostBlock_suffix {events : List Event} {name : Name} {scope block : List Int}
    (innermost : innermostBlock events name scope = some block) : block <:+ scope := by
  induction scope with
  | nil => cases innermost
  | cons procedure outer ih =>
      rw [innermostBlock] at innermost
      split at innermost
      · cases innermost
        exact List.suffix_rfl
      · exact (ih innermost).trans (List.suffix_cons _ _)

/-- A use resolves to the declaration of its name in the innermost block around it that
has declared the name. -/
def ResolvesLexically (events : List Event) (scope : List Int) (name : Name)
    (result : Option Symbol) : Prop :=
  ∃ block symbol, innermostBlock events name scope = some block ∧
    (block, symbol) ∈ declarations events ∧ symbol.name = name ∧ result = some symbol

instance (events : List Event) (scope : List Int) (name : Name) (result : Option Symbol) :
    Decidable (ResolvesLexically events scope name result) :=
  decidable_of_iff (∃ d ∈ declarations events, innermostBlock events name scope = some d.1 ∧
    d.2.name = name ∧ result = some d.2)
    ⟨fun ⟨d, member, innermost, named, same⟩ => ⟨d.1, d.2, innermost, member, named, same⟩,
      fun ⟨block, symbol, innermost, member, named, same⟩ =>
        ⟨(block, symbol), member, innermost, named, same⟩⟩

/-- When the table can tell: among the declarations of the name that were stored, the
oldest is no deeper than the use, none that the use can see is deeper than `block`, and
the oldest at the depth of `block` was made in `block`. -/
structure VisibleIn (events : List Event) (scope : List Int) (name : Name) (block : List Int) :
    Prop where
  innermost : innermostBlock events name scope = some block
  oldest : ∀ d, (storedUnder events name).head? = some d → d.1.length ≤ scope.length
  deepest : ∀ d ∈ storedUnder events name, d.1.length ≤ scope.length → d.1.length ≤ block.length
  own : ∃ symbol,
    (storedUnder events name).find? (fun d => d.1.length = block.length) = some (block, symbol)

def Visible (events : List Event) (scope : List Int) (name : Name) : Prop :=
  ∃ block, VisibleIn events scope name block

/-- What `makeSymbol` sees to: the level of a symbol is the depth of its block, and
every declaration makes a symbol of its own. -/
structure Numbered (events : List Event) : Prop where
  level : ∀ d ∈ declarations events, d.2.level = d.1.length - 1
  distinct : ∀ d ∈ declarations events, ∀ d' ∈ declarations events, d.2 = d'.2 → d.1 = d'.1

theorem resolvesLexically_iff {events : List Event} {name : Name} (numbered : Numbered events)
    (alone : ∀ d ∈ declarations events,
      hashcode (symTableInit 100) d.2.name = hashcode (symTableInit 100) name → d.2.name = name)
    (scope : List Int) : ResolvesLexically events scope name
      (getSymbol (tableOf events) name (scope.length - 1)) ↔ Visible events scope name := by
  have levels : ∀ d ∈ storedUnder events name, d.2.level = d.1.length - 1 :=
    fun d member => numbered.level d (mem_storedUnder member).1
  rw [getSymbol_tableOf alone]
  generalize stored : storedUnder events name = chain at levels
  have atLevel : ∀ block : List Int, chain.find? (fun d => d.1.length = block.length) =
      chain.find? ((fun s : Symbol => decide (s.level = block.length - 1)) ∘ Prod.snd) := by
    intro block
    apply List.find?_congr
    intro d member
    have level := levels d member
    rw [Function.comp_apply, decide_eq_decide]
    omega
  constructor
  · rintro ⟨block, symbol, innermost, declared, named, picked⟩
    have inside := (innermostBlock_suffix innermost).length_le
    have level := numbered.level _ declared
    cases chain with
    | nil => cases picked
    | cons first rest =>
        have firstLevel := levels first List.mem_cons_self
        rw [List.map_cons, List.foldl_cons] at picked
        change (rest.map Prod.snd).foldl _ (some first.2) = some symbol at picked
        by_cases visible : first.2.level ≤ scope.length - 1
        · obtain ⟨found, folded, seen, deepest, earliest⟩ :=
            foldl_getSymbolStep_visible visible (rest.map Prod.snd)
          rw [folded, Option.some.injEq] at picked
          subst picked
          refine ⟨block, innermost, ?_, ?_, ?_⟩
          · intro d head
            rw [stored, List.head?_cons, Option.some.injEq] at head
            subst head
            omega
          · intro d member within
            rw [stored] at member
            have own := levels d member
            have bound := deepest d.2 (List.mem_map_of_mem member) (by omega)
            dsimp only at level
            omega
          · rw [stored, atLevel block]
            rw [← List.map_cons, List.find?_map, level] at earliest
            obtain ⟨d, at_, same⟩ := Option.map_eq_some_iff.mp earliest
            have member := (mem_storedUnder (stored ▸ List.mem_of_find?_eq_some at_)).1
            have owner := numbered.distinct d member _ declared same
            dsimp only at owner
            exact ⟨d.2, by rw [at_, ← owner]⟩
        · have same := foldl_getSymbolStep_deep (Int.not_le.mp visible) (rest.map Prod.snd)
          rw [same, Option.some.injEq] at picked
          subst picked
          dsimp only at level
          omega
  · rintro ⟨block, innermost, oldest, deepest, symbol, own⟩
    have inside := (innermostBlock_suffix innermost).length_le
    rw [stored] at own deepest oldest
    have member := List.mem_of_find?_eq_some own
    obtain ⟨declared, named⟩ := mem_storedUnder (stored ▸ member)
    refine ⟨block, symbol, innermost, declared, named, ?_⟩
    cases chain with
    | nil => cases own
    | cons first rest =>
        have firstLevel := levels first List.mem_cons_self
        have visible := oldest first rfl
        rw [List.map_cons, List.foldl_cons]
        change (rest.map Prod.snd).foldl _ (some first.2) = some symbol
        have shallow : first.2.level ≤ scope.length - 1 := by omega
        obtain ⟨found, folded, seen, highest, earliest⟩ :=
          foldl_getSymbolStep_visible shallow (rest.map Prod.snd)
        rw [← List.map_cons, List.find?_map] at earliest
        obtain ⟨d, at_, rfl⟩ := Option.map_eq_some_iff.mp earliest
        have dMember := List.mem_of_find?_eq_some at_
        have dLevel := levels d dMember
        have below := deepest d dMember (by omega)
        have symbolLevel := levels _ member
        have above :=
          highest symbol (List.mem_map_of_mem member) (by dsimp only at symbolLevel; omega)
        have equal : d.2.level = block.length - 1 := by
          dsimp only at symbolLevel
          omega
        rw [equal, ← atLevel block, own, Option.some.injEq] at at_
        rw [folded, ← at_]

end Pl0
