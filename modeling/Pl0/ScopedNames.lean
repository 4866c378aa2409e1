import Pl0.LegalTree
import Pl0.NameUses
import Pl0.ProcedureNumbering
import Pl0.ScopedMeaning
import Pl0.VariableHomes

set_option autoImplicit false

namespace Pl0

/-- The symbol is that of a declaration of the block. -/
inductive Rib.Declares (rib : Rib) (symbol : Symbol) : Prop
  | const {k : ConstDeclNode} (member : k ∈ rib.constDecl) (named : k.ident = symbol.name)
      (kind : symbol.kind = .constS) (val : symbol.val = k.numer)
  | var {v : VarDeclNode} (member : v ∈ rib.varDecl) (named : v.ident = symbol.name)
      (kind : symbol.kind = .varS) (addr : symbol.addr = v.addr)
  | proc {p : Procedure} (member : p ∈ rib.procs) (named : p.ident = symbol.name)
      (kind : symbol.kind = .procS) (addr : symbol.addr = p.addr)

theorem Rib.Declares.name_mem {rib : Rib} {symbol : Symbol} (declares : rib.Declares symbol) :
    symbol.name ∈ rib.names := by
  unfold Rib.names Rib.varNames
  cases declares with
  | const member named =>
      exact List.mem_append_left _ (List.mem_append_left _ (List.mem_map.mpr ⟨_, member, named⟩))
  | var member named =>
      exact List.mem_append_left _ (List.mem_append_right _ (List.mem_map.mpr ⟨_, member, named⟩))
  | proc member named => exact List.mem_append_right _ (List.mem_map.mpr ⟨_, member, named⟩)

/-- The symbol is what the name stands for in a block with these around it. -/
def Denotes (ribs : List Rib) (name : Name) (symbol : Symbol) : Prop :=
  symbol.name = name ∧ ∃ rib outer, visible Rib.names name ribs = rib :: outer ∧
    rib.Declares symbol ∧ symbol.level = outer.length

/-- The blocks around the point that the parse has come to: what each of them has declared
is what the history tells of it. -/
structure Describes (g : GenState) (ribs : List Rib) : Prop where
  length : ribs.length = g.scope.length
  level : g.globalLevel = g.scope.length - 1
  symbols : ∀ n rib, ribs[n]? = some rib → ∀ symbol,
    (g.scope.drop n, symbol) ∈ declarations g.trace →
      rib.Declares symbol ∧ symbol.level = ribs.length - 1 - n
  names : ∀ n rib, ribs[n]? = some rib → ∀ name ∈ rib.names,
    declaresName g.trace name (g.scope.drop n) = true
  counted : ∀ d ∈ declarations g.trace, ∀ number ∈ d.1, number ≤ g.procedureCount
  around : ∀ number ∈ g.scope, number ≤ g.procedureCount

theorem declaresName_iff {events : List Event} {name : Name} {block : List Int} :
    declaresName events name block = true ↔
      ∃ symbol, (block, symbol) ∈ declarations events ∧ symbol.name = name := by
  unfold declaresName
  rw [List.any_eq_true]
  constructor
  · rintro ⟨d, member, same⟩
    obtain ⟨rfl, named⟩ := of_decide_eq_true same
    exact ⟨d.2, member, named⟩
  · rintro ⟨symbol, member, named⟩
    exact ⟨(block, symbol), member, decide_eq_true ⟨rfl, named⟩⟩

theorem innermostBlock_visible {events : List Event} {name : Name} {block : List Int} :
    ∀ {scope : List Int} {ribs : List Rib}, ribs.length = scope.length →
      (∀ n rib, ribs[n]? = some rib →
        (declaresName events name (scope.drop n) = true ↔ name ∈ rib.names)) →
      innermostBlock events name scope = some block →
        ∃ n rib, ribs[n]? = some rib ∧ block = scope.drop n ∧
          visible Rib.names name ribs = rib :: ribs.drop (n + 1)
  | [], _, _, _, innermost => by cases innermost
  | procedure :: outer, [], same, _, _ => by cases same
  | procedure :: outer, rib :: ribs, same, told, innermost => by
      rw [innermostBlock] at innermost
      have here := told 0 rib rfl
      by_cases declared : declaresName events name (procedure :: outer) = true
      · rw [if_pos declared] at innermost
        cases innermost
        refine ⟨0, rib, rfl, rfl, ?_⟩
        unfold visible
        rw [List.dropWhile_cons_of_neg]
        · rfl
        · simpa using here.mp declared
      · rw [if_neg declared] at innermost
        obtain ⟨n, found, there, place, seen⟩ :=
          innermostBlock_visible (Nat.succ.inj same) (fun n rib' there => told (n + 1) rib' there)
            innermost
        refine ⟨n + 1, found, there, place, ?_⟩
        unfold visible
        rw [List.dropWhile_cons_of_pos]
        · exact seen
        · have absent : name ∉ rib.names := fun member => declared (here.mpr member)
          simpa using absent

namespace Describes

variable {g g' : GenState} {ribs outer : List Rib} {rib rib' : Rib}

/-- A use that resolves got the symbol that its name stands for. -/
theorem denotes (describes : Describes g ribs) {name : Name} {result : Option Symbol}
    (resolves : ResolvesLexically g.trace g.scope name result) :
    ∃ symbol, result = some symbol ∧ Denotes ribs name symbol := by
  obtain ⟨block, symbol, innermost, declared, named, found⟩ := resolves
  have told : ∀ n rib, ribs[n]? = some rib →
      (declaresName g.trace name (g.scope.drop n) = true ↔ name ∈ rib.names) := by
    intro n rib there
    rw [declaresName_iff]
    constructor
    · rintro ⟨other, member, same⟩
      rw [← same]
      exact (describes.symbols n rib there other member).1.name_mem
    · exact fun member => declaresName_iff.mp (describes.names n rib there name member)
  obtain ⟨n, rib, there, rfl, seen⟩ := innermostBlock_visible describes.length told innermost
  obtain ⟨declares, level⟩ := describes.symbols n rib there symbol declared
  refine ⟨symbol, found, named, rib, _, seen, declares, ?_⟩
  have inside := (List.getElem?_eq_some_iff.mp there).1
  rw [level, List.length_drop]
  omega

/-- Events that declare nothing. -/
theorem same (describes : Describes g ribs) {events : List Event}
    (trace : g'.trace = g.trace ++ events) (none : declarations events = [])
    (scope : g'.scope = g.scope) (level : g'.globalLevel = g.globalLevel)
    (count : g'.procedureCount = g.procedureCount) : Describes g' ribs := by
  have declared : declarations g'.trace = declarations g.trace := by
    rw [trace, declarations_append, none, List.append_nil]
  refine ⟨?_, ?_, ?_, ?_, ?_, ?_⟩
  · rw [scope, describes.length]
  · rw [level, scope, describes.level]
  · rw [declared, scope]
    exact describes.symbols
  · unfold declaresName
    rw [declared, scope]
    exact describes.names
  · rw [declared, count]
    exact describes.counted
  · rw [scope, count]
    exact describes.around

/-- A declaration of the innermost block. -/
theorem declare (describes : Describes g (rib :: outer)) {symbol : Symbol}
    (trace : g'.trace = g.trace ++ [.declare g.scope symbol]) (scope : g'.scope = g.scope)
    (level : g'.globalLevel = g.globalLevel) (count : g.procedureCount ≤ g'.procedureCount)
    (deep : symbol.level = g.globalLevel)
    (grows : ∀ other, rib.Declares other → rib'.Declares other) (own : rib'.Declares symbol)
    (names : ∀ name ∈ rib'.names, name ∈ rib.names ∨ name = symbol.name) :
    Describes g' (rib' :: outer) := by
  have declared : declarations g'.trace = declarations g.trace ++ [(g.scope, symbol)] := by
    rw [trace, declarations_append]
    rfl
  have length : outer.length + 1 = g.scope.length := describes.length
  refine ⟨?_, ?_, ?_, ?_, ?_, ?_⟩
  · rw [scope]
    exact length
  · rw [level, scope, describes.level]
  · intro n other there found member
    rw [declared, scope] at member
    cases n with
    | zero =>
        cases there
        rcases List.mem_append.mp member with old | new
        · obtain ⟨declares, level⟩ := describes.symbols 0 rib rfl found old
          exact ⟨grows _ declares, level⟩
        · cases List.mem_singleton.mp new
          refine ⟨own, ?_⟩
          rw [deep, describes.level, List.length_cons, ← length]
          push_cast
          omega
    | succ n =>
        rcases List.mem_append.mp member with old | new
        · exact describes.symbols (n + 1) other there found old
        · have shorter := congrArg (fun d => d.1.length) (List.mem_singleton.mp new)
          simp only [List.length_drop] at shorter
          omega
  · intro n other there name member
    rw [scope]
    refine declaresName_iff.mpr ?_
    rw [declared]
    have old : ∀ block, declaresName g.trace name block = true →
        ∃ found, (block, found) ∈ declarations g.trace ++ [(g.scope, symbol)] ∧
          found.name = name := by
      intro block told
      obtain ⟨found, inside, named⟩ := declaresName_iff.mp told
      exact ⟨found, List.mem_append_left _ inside, named⟩
    cases n with
    | zero =>
        cases there
        rcases names name member with before | new
        · exact old _ (describes.names 0 rib rfl name before)
        · exact ⟨symbol, List.mem_append_right _ (List.mem_singleton.mpr rfl), new.symm⟩
    | succ n => exact old _ (describes.names (n + 1) other there name member)
  · intro d member number inside
    rw [declared] at member
    rcases List.mem_append.mp member with old | new
    · exact Int.le_trans (describes.counted d old number inside) count
    · rw [List.mem_singleton.mp new] at inside
      exact Int.le_trans (describes.around number inside) count
  · intro number inside
    rw [scope] at inside
    exact Int.le_trans (describes.around number inside) count

/-- Into a block whose number is new. -/
theorem inner (describes : Describes g ribs) {number : Int}
    (fresh : ∀ d ∈ declarations g.trace, d.1 ≠ number :: g.scope)
    (trace : g'.trace = g.trace) (scope : g'.scope = number :: g.scope)
    (level : g'.globalLevel = g.globalLevel + 1) (count : g'.procedureCount = g.procedureCount)
    (bounded : number ≤ g.procedureCount) : Describes g' (⟨[], [], []⟩ :: ribs) := by
  refine ⟨?_, ?_, ?_, ?_, ?_, ?_⟩
  · rw [scope, List.length_cons, List.length_cons, describes.length]
  · rw [level, describes.level, scope, List.length_cons]
    push_cast
    omega
  · rw [trace, scope]
    intro n other there symbol member
    cases n with
    | zero => exact absurd rfl (fresh _ member)
    | succ n =>
        obtain ⟨declares, deep⟩ := describes.symbols n other there symbol member
        refine ⟨declares, ?_⟩
        rw [deep, List.length_cons]
        push_cast
        omega
  · rw [trace, scope]
    intro n other there name member
    cases n with
    | zero =>
        cases there
        cases member
    | succ n => exact describes.names n other there name member
  · rw [trace, count]
    exact describes.counted
  · rw [scope, count]
    intro other member
    rcases List.mem_cons.mp member with rfl | around
    · exact bounded
    · exact describes.around other around

/-- Out of a block. -/
theorem leave (describes : Describes g (rib :: ribs)) (trace : g'.trace = g.trace)
    (scope : g'.scope = g.scope.tail) (level : g'.globalLevel = g.globalLevel - 1)
    (count : g'.procedureCount = g.procedureCount) : Describes g' ribs := by
  have length : ribs.length + 1 = g.scope.length := describes.length
  refine ⟨?_, ?_, ?_, ?_, ?_, ?_⟩
  · rw [scope, List.length_tail]
    omega
  · rw [level, describes.level, scope, List.length_tail]
    omega
  · rw [trace, scope]
    intro n other there symbol member
    rw [List.drop_tail] at member
    obtain ⟨declares, deep⟩ := describes.symbols (n + 1) other there symbol member
    refine ⟨declares, ?_⟩
    rw [deep, List.length_cons]
    push_cast
    omega
  · rw [trace, scope]
    intro n other there name member
    rw [List.drop_tail]
    exact describes.names (n + 1) other there name member
  · rw [trace, count]
    exact describes.counted
  · rw [scope, count]
    exact fun number member => describes.around number (List.mem_of_mem_tail member)

theorem makeItem (describes : Describes g (rib :: outer)) (const : Name × Int) :
    Describes (g.makeItem const)
      ({ rib with constDecl := rib.constDecl ++ [g.constNode const] } :: outer) := by
  refine describes.declare rfl rfl rfl (Int.le_refl _) rfl ?_ ?_ ?_
  · intro other declares
    cases declares with
    | const member named kind val => exact .const (List.mem_append_left _ member) named kind val
    | var member named kind addr => exact .var member named kind addr
    | proc member named kind addr => exact .proc member named kind addr
  · exact .const (List.mem_append_right _ (List.mem_singleton.mpr rfl)) rfl rfl rfl
  · intro name member
    simp only [Rib.names, Rib.varNames, List.map_append, List.mem_append, List.map_cons,
      List.map_nil, List.mem_singleton] at member ⊢
    rcases member with ((old | new) | var) | proc
    · exact .inl (.inl (.inl old))
    · exact .inr new
    · exact .inl (.inl (.inr var))
    · exact .inl (.inr proc)

theorem makeVar (describes : Describes g (rib :: outer)) (name : Name) :
    Describes (g.makeVar name)
      ({ rib with varDecl := rib.varDecl ++ [g.varNode name] } :: outer) := by
  refine describes.declare rfl rfl rfl (Int.le_refl _) rfl ?_ ?_ ?_
  · intro other declares
    cases declares with
    | const member named kind val => exact .const member named kind val
    | var member named kind addr => exact .var (List.mem_append_left _ member) named kind addr
    | proc member named kind addr => exact .proc member named kind addr
  · exact .var (List.mem_append_right _ (List.mem_singleton.mpr rfl)) rfl rfl rfl
  · intro other member
    simp only [Rib.names, Rib.varNames, List.map_append, List.mem_append, List.map_cons,
      List.map_nil, List.mem_singleton] at member ⊢
    rcases member with (const | old | new) | proc
    · exact .inl (.inl (.inl const))
    · exact .inl (.inl (.inr old))
    · exact .inr new
    · exact .inl (.inr proc)

/-- The declarations of a block in front of its procedures. -/
theorem declared {consts : List (Name × Int)} {vars : List Name} :
    ∀ {g : GenState} {rib : Rib}, Describes g (rib :: outer) →
      Describes (g.declared consts vars) (⟨rib.constDecl ++
          itemNodes GenState.makeItem GenState.constNode g consts,
        rib.varDecl ++ itemNodes GenState.makeVar GenState.varNode
          (afterItems GenState.makeItem g consts) vars, rib.procs⟩ :: outer) := by
  induction consts with
  | cons const consts ih =>
      intro g rib describes
      have behind := ih (describes.makeItem const)
      rw [List.append_assoc] at behind
      exact behind
  | nil =>
      induction vars with
      | nil =>
          intro g rib describes
          rw [itemNodes, itemNodes, List.append_nil, List.append_nil]
          exact describes
      | cons name vars ih =>
          intro g rib describes
          have behind := ih (describes.makeVar name)
          rw [List.append_assoc] at behind
          exact behind

/-- Into the block of a new procedure, which sees itself. -/
theorem openProc (describes : Describes g (rib :: outer)) (p : Procedure)
    (addr : p.addr = g.procedureCount + 1) :
    Describes (g.makeProc p.ident).openBlock (⟨[], [], []⟩ :: rib.upTo rib.procs p :: outer) := by
  obtain ⟨symbol, kind, named, number, level, trace⟩ := makeProc_symbol g p.ident
  obtain ⟨-, -, -, scope⟩ := makeProc_declares g p.ident
  have count := makeProc_procedureCount g p.ident
  have made : Describes (g.makeProc p.ident) (rib.upTo rib.procs p :: outer) := by
    refine describes.declare trace scope (makeProc_globalLevel g p.ident) (by omega) level ?_ ?_ ?_
    · intro other declares
      cases declares with
      | const member named kind val => exact .const member named kind val
      | var member named kind addr => exact .var member named kind addr
      | proc member named kind addr => exact .proc (List.mem_append_left _ member) named kind addr
    · exact .proc (List.mem_append_right _ (List.mem_singleton.mpr rfl)) named.symm kind
        (number.trans addr.symm)
    · intro other member
      simp only [Rib.upTo, Rib.names, Rib.varNames, List.map_append, List.mem_append,
        List.map_cons, List.map_nil, List.mem_singleton] at member ⊢
      rcases member with (const | var) | old | new
      · exact .inl (.inl (.inl const))
      · exact .inl (.inl (.inr var))
      · exact .inl (.inr old)
      · exact .inr (new.trans named.symm)
  refine made.inner ?_ rfl rfl rfl rfl (Int.le_refl _)
  intro d member same
  have bound : (g.makeProc p.ident).procedureCount ≤ g.procedureCount := by
    rw [trace, declarations_append] at member
    rcases List.mem_append.mp member with old | new
    · exact describes.counted d old _ (by rw [same]; exact List.mem_cons_self)
    · have own := congrArg (fun d => d.1.length) (List.mem_singleton.mp new)
      rw [same, scope] at own
      simp at own
  omega

end Describes

section Uses

variable {g : GenState} {ribs : List Rib} {statement : StatementNode} {events later : List Event}

theorem mem_uses_of_split {before after : List Event} {scope : List Int} {construct : Construct}
    {name : Name} {result : Option Symbol} :
    ∀ {earlier : List Event}, (⟨earlier ++ before, scope, construct, name, result⟩ : Use) ∈
      usesAfter earlier (before ++ .use scope construct name result :: after) := by
  induction before with
  | nil =>
      intro earlier
      rw [List.append_nil]
      exact List.mem_cons_self
  | cons event before ih =>
      intro earlier
      have found := @ih (earlier ++ [event])
      rw [List.append_assoc] at found
      cases event with
      | use scope' construct' name' result' => exact List.mem_cons_of_mem _ found
      | _ => exact found

/-- Where all uses resolve, the parser finds for each name of a statement part what the name
stands for. -/
theorem Describes.finds (describes : Describes g ribs)
    (whole : events = (genBody statement g).trace ++ later)
    (resolved : ∀ u ∈ uses events, u.Resolves) {name : Name} (used : name ∈ statement.idents) :
    ∃ symbol, g.lookup name = some symbol ∧ Denotes ribs name symbol := by
  obtain ⟨new, grown, none, noted⟩ := (genBody_mentions statement g).grows
  rw [← statement.mentioned_names, List.mem_map] at used
  obtain ⟨⟨construct, name⟩, mentioned, rfl⟩ := used
  have inUses : g.useOf (construct, name) ∈ usesIn new := by
    rw [noted]
    exact List.mem_map_of_mem mentioned
  have member : .use g.scope construct name (g.lookup name) ∈ new := use_mem_usesIn.mp inUses
  obtain ⟨before, after, rfl⟩ := List.append_of_mem member
  have nothing : declarations before = [] := by
    rw [declarations_append] at none
    exact (List.append_eq_nil_iff.mp none).1
  have found : (⟨g.trace ++ before, g.scope, construct, name, g.lookup name⟩ : Use) ∈
      uses events := by
    have place := @mem_uses_of_split (g.trace ++ before) (after ++ later) g.scope construct name
      (g.lookup name) []
    rw [whole, grown, List.append_assoc, List.append_assoc]
    rw [List.append_assoc] at place
    exact place
  have resolves : ResolvesLexically (g.trace ++ before) g.scope name (g.lookup name) :=
    resolved _ found
  exact (describes.same rfl nothing rfl rfl rfl :
    Describes { g with trace := g.trace ++ before } ribs).denotes resolves

end Uses

end Pl0
