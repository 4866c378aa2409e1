import Pl0.ScopeRuns
import Mathlib.Data.List.Induction

set_option autoImplicit false

namespace Pl0

open StateExcept

/-- A name in the program, with the history before it and the answer it got. -/
structure Use where
  before : List Event
  scope : List Int
  construct : Construct
  name : Name
  result : Option Symbol

def Use.event (u : Use) : Event := .use u.scope u.construct u.name u.result

def usesAfter : List Event → List Event → List Use
  | _, [] => []
  | before, .use scope construct name result :: rest =>
      { before := before, scope := scope, construct := construct, name := name,
        result := result } ::
        usesAfter (before ++ [.use scope construct name result]) rest
  | before, event :: rest => usesAfter (before ++ [event]) rest

def uses (events : List Event) : List Use := usesAfter [] events

theorem mem_usesAfter {u : Use} {before events : List Event}
    (member : u ∈ usesAfter before events) :
    ∃ after, before ++ events = u.before ++ u.event :: after := by
  induction events generalizing before with
  | nil => cases member
  | cons event rest ih =>
      rw [List.append_cons]
      cases event with
      | use scope construct name result =>
          rcases List.mem_cons.mp member with rfl | later
          · exact ⟨rest, (List.append_cons _ _ _).symm⟩
          · exact ih later
      | _ => exact ih member

theorem mem_uses {u : Use} {events : List Event} (member : u ∈ uses events) :
    ∃ after, events = u.before ++ u.event :: after :=
  mem_usesAfter member

theorem Use.event_mem {u : Use} {events : List Event} (member : u ∈ uses events) :
    u.event ∈ events := by
  obtain ⟨after, split⟩ := mem_uses member
  rw [split]
  simp

theorem exists_usesAfter {before events : List Event} {scope : List Int} {construct : Construct}
    {name : Name} {result : Option Symbol} (member : .use scope construct name result ∈ events) :
    ∃ earlier, (⟨earlier, scope, construct, name, result⟩ : Use) ∈ usesAfter before events := by
  induction events generalizing before with
  | nil => cases member
  | cons event rest ih =>
      rcases List.mem_cons.mp member with rfl | later
      · exact ⟨before, List.mem_cons_self⟩
      · obtain ⟨earlier, found⟩ := @ih (before ++ [event]) later
        cases event with
        | use => exact ⟨earlier, List.mem_cons_of_mem _ found⟩
        | _ => exact ⟨earlier, found⟩

theorem exists_use {events : List Event} {scope : List Int} {construct : Construct} {name : Name}
    {result : Option Symbol} (member : .use scope construct name result ∈ events) :
    ∃ before, (⟨before, scope, construct, name, result⟩ : Use) ∈ uses events :=
  exists_usesAfter member

def Event.name? : Event → Option Name
  | .declare _ symbol => some symbol.name
  | .use _ _ name _ => some name
  | _ => none

/-- The names that a history declares or uses. -/
def namesOf (events : List Event) : List Name := events.filterMap Event.name?

/-- Different names of a history have different hashcodes in the driver's table. -/
def DistinctHashcodes (events : List Event) : Prop :=
  ∀ name ∈ namesOf events, ∀ name' ∈ namesOf events,
    hashcode (symTableInit 100) name = hashcode (symTableInit 100) name' → name = name'

theorem name_mem {event : Event} {events : List Event} (member : event ∈ events) {name : Name}
    (named : event.name? = some name) : name ∈ namesOf events :=
  List.mem_filterMap.mpr ⟨event, member, named⟩

namespace Use

def Resolves (u : Use) : Prop := ResolvesLexically u.before u.scope u.name u.result

instance (u : Use) : Decidable u.Resolves :=
  inferInstanceAs (Decidable (ResolvesLexically u.before u.scope u.name u.result))

/-- No block around the use declares the name before it. -/
def Undeclared (u : Use) : Prop := innermostBlock u.before u.name u.scope = none

/-- The table knows the name from nowhere, and the construct is one that checks this. -/
def Unknown (u : Use) : Prop := storedUnder u.before u.name = [] ∧ u.construct ≠ .assign

end Use

/-- In an accepted program every use resolves lexically; with a use that no block around
it declares, the parse returns a nonzero code. -/
structure LexicallyScoped (outcome : EStateM.Result Stop ParseState BlockNode) : Prop where
  resolves : ∀ block s, outcome = .ok block s → ∀ u ∈ uses s.gen.trace, u.Resolves
  refuses : ∀ u ∈ uses (stateOf outcome).gen.trace, u.Undeclared →
    ∃ code s, outcome = .error (.ret code) s ∧ code ≠ 0

theorem ValidHistory.init {events : List Event} {event : Event}
    (valid : ValidHistory (events ++ [event])) : ValidHistory events :=
  fun before e after split => valid before e (after ++ [event]) (by rw [split]; simp)

/-- The declarations are numbered in their order. -/
theorem ValidHistory.ids {events : List Event} (valid : ValidHistory events) :
    (declarations events).map (·.2.id) = List.range (declarations events).length := by
  induction events using List.reverseRecOn with
  | nil => rfl
  | append_singleton events event ih =>
      have before := ih valid.init
      have last := valid events event [] rfl
      cases event with
      | declare scope symbol =>
          rw [declarations_declare, List.map_append, before, List.length_append,
            List.length_singleton, List.range_succ, ← last.2]
          rfl
      | _ => simpa [declarations] using before

theorem ValidHistory.numbered {events : List Event} (valid : ValidHistory events) :
    Numbered events := by
  constructor
  · rintro ⟨block, symbol⟩ member
    obtain ⟨before, after, split⟩ := List.append_of_mem (mem_declarations.mp member)
    exact (valid before _ after split).1
  · intro d member d' member' same
    have nodup : ((declarations events).map (·.2.id)).Nodup := by
      rw [valid.ids]
      exact List.nodup_range
    have equal := List.inj_on_of_nodup_map nodup member member' (by rw [same])
    rw [equal]

theorem ValidHistory.of_append {events events' : List Event}
    (valid : ValidHistory (events ++ events')) : ValidHistory events :=
  fun before e after split => valid before e (after ++ events') (by rw [split]; simp)

/-- In a history of names with different hashcodes, no other name shares a bucket. -/
theorem use_alone {events : List Event} (distinct : DistinctHashcodes events) {u : Use}
    (member : u ∈ uses events) : ∀ d ∈ declarations u.before,
      hashcode (symTableInit 100) d.2.name = hashcode (symTableInit 100) u.name →
        d.2.name = u.name := by
  rintro ⟨block, symbol⟩ declared
  obtain ⟨after, split⟩ := mem_uses member
  have inHistory : Event.declare block symbol ∈ events := by
    rw [split]
    exact List.mem_append_left _ (mem_declarations.mp declared)
  exact distinct _ (name_mem inHistory rfl) _ (name_mem (u.event_mem member) rfl)

theorem use_result {events : List Event} (valid : ValidHistory events) {u : Use}
    (member : u ∈ uses events) :
    u.result = getSymbol (tableOf u.before) u.name (u.scope.length - 1) := by
  obtain ⟨after, split⟩ := mem_uses member
  exact valid u.before u.event after split

theorem resolves_iff {events : List Event} (valid : ValidHistory events)
    (distinct : DistinctHashcodes events) {u : Use} (member : u ∈ uses events) :
    u.Resolves ↔ Visible u.before u.scope u.name := by
  have numbered : Numbered u.before := by
    obtain ⟨after, split⟩ := mem_uses member
    rw [split] at valid
    exact valid.of_append.numbered
  unfold Use.Resolves
  rw [use_result valid member]
  exact resolvesLexically_iff numbered (use_alone distinct member) u.scope

theorem unsuited_of_unknown {events : List Event} (valid : ValidHistory events)
    (distinct : DistinctHashcodes events) {u : Use} (member : u ∈ uses events)
    (unknown : u.Unknown) : Unsuited u.event := by
  have none : u.result = none := by
    rw [use_result valid member, getSymbol_tableOf (use_alone distinct member), unknown.1]
    rfl
  rintro ⟨symbol, found, -⟩
  rw [none] at found
  cases found

theorem parse_triple (fuel : Nat) (tokens : List CurrentToken) :
    ValidHistory (stateOf (parse fuel tokens)).gen.trace ∧
      (Excused (stateOf (parse fuel tokens)) ∨ ∃ s, parse fuel tokens = .error (.ret (-1)) s) := by
  have start := initParse_inside tokens
  have keeps := keeps_programParse fuel [0]
  unfold parse
  cases run : programParse fuel (initParse tokens) with
  | ok block s =>
      obtain ⟨holds, excused⟩ := Triple.ok keeps start run
      exact ⟨holds.valid, .inl excused⟩
  | error stop s =>
      obtain ⟨valid, excused | rfl⟩ := Triple.error keeps start run
      · exact ⟨valid, .inl excused⟩
      · exact ⟨valid, .inr ⟨s, rfl⟩⟩

/-- After an unknown name the parse returns -1. -/
theorem parse_unknown {fuel : Nat} {tokens : List CurrentToken}
    (distinct : DistinctHashcodes (stateOf (parse fuel tokens)).gen.trace) {u : Use}
    (member : u ∈ uses (stateOf (parse fuel tokens)).gen.trace) (unknown : u.Unknown) :
    ∃ s, parse fuel tokens = .error (.ret (-1)) s := by
  obtain ⟨valid, excused | stopped⟩ := parse_triple fuel tokens
  · have unsuited := unsuited_of_unknown valid distinct member unknown
    exact absurd (excused _ (u.event_mem member) unsuited).1 unknown.2
  · exact stopped

/-- What a program with different hashcodes has to meet: at each use the table tells
the visible declaration apart, or knows nothing of the name. -/
def EachUseClear (events : List Event) : Prop :=
  ∀ u ∈ uses events, Visible u.before u.scope u.name ∨ u.Unknown

theorem lexicallyScoped_of_clear {fuel : Nat} {tokens : List CurrentToken}
    (distinct : DistinctHashcodes (stateOf (parse fuel tokens)).gen.trace)
    (clear : EachUseClear (stateOf (parse fuel tokens)).gen.trace) :
    LexicallyScoped (parse fuel tokens) := by
  obtain ⟨valid, -⟩ := parse_triple fuel tokens
  constructor
  · intro block s accepted u member
    rw [accepted] at distinct clear valid
    rcases clear u member with visible | unknown
    · exact (resolves_iff valid distinct member).mpr visible
    · rw [← stateOf_ok block s, ← accepted] at distinct member
      obtain ⟨s', stopped⟩ := parse_unknown distinct member unknown
      rw [accepted] at stopped
      cases stopped
  · intro u member undeclared
    rcases clear u member with ⟨block, visible⟩ | unknown
    · have innermost := visible.innermost
      rw [undeclared] at innermost
      cases innermost
    · obtain ⟨s, stopped⟩ := parse_unknown distinct member unknown
      exact ⟨-1, s, stopped, by decide⟩

theorem clear_of_lexicallyScoped {fuel : Nat} {tokens : List CurrentToken}
    (distinct : DistinctHashcodes (stateOf (parse fuel tokens)).gen.trace)
    {block : BlockNode} {s : ParseState} (accepted : parse fuel tokens = .ok block s)
    (lexical : LexicallyScoped (parse fuel tokens)) :
    EachUseClear (stateOf (parse fuel tokens)).gen.trace := by
  obtain ⟨valid, -⟩ := parse_triple fuel tokens
  intro u member
  have resolves : u.Resolves := by
    rw [accepted] at member
    exact lexical.resolves block s accepted u member
  exact .inl ((resolves_iff valid distinct member).mp resolves)

/-- For every program whose names have different hashcodes: it is lexically scoped when
each use is clear, and an accepted one only then. -/
theorem lexicallyScoped_iff {fuel : Nat} {tokens : List CurrentToken}
    (distinct : DistinctHashcodes (stateOf (parse fuel tokens)).gen.trace) :
    (EachUseClear (stateOf (parse fuel tokens)).gen.trace → LexicallyScoped (parse fuel tokens)) ∧
      ∀ block s, parse fuel tokens = .ok block s →
        (LexicallyScoped (parse fuel tokens) ↔
          EachUseClear (stateOf (parse fuel tokens)).gen.trace) :=
  ⟨lexicallyScoped_of_clear distinct, fun _ _ accepted =>
    ⟨clear_of_lexicallyScoped distinct accepted, lexicallyScoped_of_clear distinct⟩⟩

/-- `procedure p; var x; begin x := 1 end; begin x := 2 end.` -/
def hiddenVariable : List CurrentToken :=
  [.word .procsym, .ident [112], .word .semicolonsym, .word .varsym, .ident [120],
    .word .semicolonsym, .word .beginsym, .ident [120], .word .becomessym, .number 1,
    .word .endsym, .word .semicolonsym, .word .beginsym, .ident [120], .word .becomessym,
    .number 2, .word .endsym, .word .periodsym]

theorem hiddenVariable_names :
    namesOf (stateOf (parse 20 hiddenVariable)).gen.trace = [[112], [120], [120], [120]] := by
  rfl

theorem hiddenVariable_distinct :
    DistinctHashcodes (stateOf (parse 20 hiddenVariable)).gen.trace := by
  unfold DistinctHashcodes
  rw [hiddenVariable_names]
  decide

theorem lexicallyScoped_iff_hiddenVariable :
    (EachUseClear (stateOf (parse 20 hiddenVariable)).gen.trace →
        LexicallyScoped (parse 20 hiddenVariable)) ∧
      ∀ block s, parse 20 hiddenVariable = .ok block s →
        (LexicallyScoped (parse 20 hiddenVariable) ↔
          EachUseClear (stateOf (parse 20 hiddenVariable)).gen.trace) :=
  lexicallyScoped_iff hiddenVariable_distinct

/-- The use in the main block gets the symbol of the procedure, and the program is
accepted. -/
theorem hiddenVariable_accepted : ∃ block s, parse 20 hiddenVariable = .ok block s ∧
    (uses s.gen.trace).map (fun u => innermostBlock u.before u.name u.scope) =
      [some [1, 0], none] := by
  apply returned?_eq_some.mp
  rfl

theorem undeclared_name_resolves : ¬ ∀ (fuel : Nat) (tokens : List CurrentToken),
    DistinctHashcodes (stateOf (parse fuel tokens)).gen.trace →
      LexicallyScoped (parse fuel tokens) := by
  intro always
  have lexical := always 20 hiddenVariable hiddenVariable_distinct
  obtain ⟨block, s, accepted, blocks⟩ := hiddenVariable_accepted
  obtain ⟨first, rest, split, -, later⟩ := List.map_eq_cons_iff.mp blocks
  obtain ⟨u, rest', split', undeclared, -⟩ := List.map_eq_cons_iff.mp later
  have member : u ∈ uses s.gen.trace := by
    rw [split, split']
    simp
  have refused := lexical.refuses u (by rw [accepted]; exact member) undeclared
  obtain ⟨code, s', stopped, -⟩ := refused
  rw [accepted] at stopped
  cases stopped

end Pl0
