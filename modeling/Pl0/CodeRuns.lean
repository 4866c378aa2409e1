import Pl0.ControlFlow

set_option autoImplicit false

/- Runs of a machine in code that lies at consecutive indexes. -/

namespace ControlFlow

/-- What instructions do to the states of a machine. `place` is the index that a state is at;
an instruction that leads to no state returns. -/
structure Machine (ι σ : Type) where
  place : σ → Int
  turn : ι → σ → Option σ → Prop

namespace Machine

variable {ι σ : Type} (m : Machine ι σ)

/-- One turn in the code. -/
def Turns (code : List ι) (start : Int) (s : σ) (next : Option σ) : Prop :=
  ∃ ir, At code start (m.place s) ir ∧ m.turn ir s next

/-- A number of turns in the code, of which the last one may return. -/
inductive Runs (code : List ι) (start : Int) : Nat → σ → Option σ → Prop
  | stay (s : σ) : Runs code start 0 s (some s)
  | leave {s : σ} (left : m.Turns code start s none) : Runs code start 1 s none
  | turn {count : Nat} {s s' : σ} {o : Option σ} (first : m.Turns code start s (some s'))
      (rest : Runs code start count s' o) : Runs code start (count + 1) s o

def Leads (code : List ι) (start : Int) (s : σ) (o : Option σ) : Prop :=
  ∃ count, m.Runs code start count s o

/-- A run of the code from its start, to the index right behind it or to a return. -/
structure Exits (code : List ι) (start : Int) (s : σ) (o : Option σ) : Prop where
  entry : m.place s = start
  leads : m.Leads code start s o
  stop : ∀ s', o = some s' → m.place s' = start + code.length

/-- Whatever turns the machine makes in the code from `s`, it leaves the code, if at all, to
the index right behind it. -/
def ExitsBehind (code : List ι) (start : Int) (s : σ) : Prop :=
  ∀ count s' next, m.Runs code start count s (some s') → m.Turns code start s' next →
    ∃ s'', next = some s'' ∧ start ≤ m.place s'' ∧ m.place s'' ≤ start + code.length

/-- The turns go where `targets` says. -/
def Follows (targets : ι → Int → List (Option Int)) : Prop :=
  ∀ ir s next, m.turn ir s next → next.map m.place ∈ targets ir (m.place s)

variable {m} {code a b : List ι} {start start' : Int} {s s' : σ} {o : Option σ} {count : Nat}
  {targets : ι → Int → List (Option Int)}

theorem Turns.flows (follows : m.Follows targets) (turns : m.Turns code start s o) :
    Flows targets code start (m.place s) (o.map m.place) := by
  obtain ⟨ir, present, turn⟩ := turns
  exact ⟨ir, present, follows ir s o turn⟩

theorem Turns.mono (sub : ∀ i ir, At a start i ir → At b start' i ir)
    (turns : m.Turns a start s o) : m.Turns b start' s o := by
  obtain ⟨ir, present, turn⟩ := turns
  exact ⟨ir, sub _ ir present, turn⟩

theorem Turns.bounds (turns : m.Turns code start s o) :
    start ≤ m.place s ∧ m.place s < start + code.length := by
  obtain ⟨ir, present, -⟩ := turns
  exact present.bounds

/-- Inside a piece of the code, a turn is one of the piece. -/
theorem Turns.inside (sub : ∀ i ir, At a start i ir → At b start' i ir)
    (turns : m.Turns b start' s o) (low : start ≤ m.place s)
    (high : m.place s < start + a.length) : m.Turns a start s o := by
  obtain ⟨ir, present, turn⟩ := turns
  obtain ⟨own, ownPresent⟩ := exists_at low high
  obtain rfl := present.unique (sub _ _ ownPresent)
  exact ⟨ir, ownPresent, turn⟩

theorem Runs.mono (sub : ∀ i ir, At a start i ir → At b start' i ir)
    (runs : m.Runs a start count s o) : m.Runs b start' count s o := by
  induction runs with
  | stay s => exact .stay s
  | leave left => exact .leave (left.mono sub)
  | turn first _ ih => exact .turn (first.mono sub) ih

theorem Runs.trans {count' : Nat} (first : m.Runs code start count s (some s'))
    (second : m.Runs code start count' s' o) : m.Runs code start (count + count') s o := by
  generalize middle : some s' = between at first
  induction first with
  | stay s =>
      obtain rfl := Option.some.inj middle
      rw [Nat.zero_add]
      exact second
  | leave left => cases middle
  | @turn count s s1 o' one _ ih =>
      rw [Nat.add_right_comm]
      exact .turn one (ih middle)

/-- Behind the code there is no turn. -/
theorem Runs.ended (runs : m.Runs code start count s o) (behind : m.place s = start + code.length) :
    o = some s := by
  cases runs with
  | stay => rfl
  | leave left =>
      have inside := left.bounds
      omega
  | turn first =>
      have inside := first.bounds
      omega

/-- A run that goes on from an instruction begins with its turn. -/
theorem Runs.first {ir : ι} (runs : m.Runs code start count s o)
    (present : At code start (m.place s) ir) :
    o = some s ∨ (o = none ∧ m.turn ir s none) ∨
      ∃ count' s', count' < count ∧ m.turn ir s (some s') ∧ m.Runs code start count' s' o := by
  cases runs with
  | stay => exact .inl rfl
  | leave left =>
      obtain ⟨other, there, turn⟩ := left
      obtain rfl := present.unique there
      exact .inr (.inl ⟨rfl, turn⟩)
  | @turn count' _ s' _ one rest =>
      obtain ⟨other, there, turn⟩ := one
      obtain rfl := present.unique there
      exact .inr (.inr ⟨count', s', Nat.lt_succ_self _, turn, rest⟩)

theorem Leads.mono (sub : ∀ i ir, At a start i ir → At b start' i ir)
    (leads : m.Leads a start s o) : m.Leads b start' s o := by
  obtain ⟨count, runs⟩ := leads
  exact ⟨count, runs.mono sub⟩

theorem Leads.trans (first : m.Leads code start s (some s')) (second : m.Leads code start s' o) :
    m.Leads code start s o := by
  obtain ⟨count, before⟩ := first
  obtain ⟨count', after⟩ := second
  exact ⟨count + count', before.trans after⟩

theorem Turns.leads : ∀ {next : Option σ}, m.Turns code start s next → m.Leads code start s next
  | none, left => ⟨1, .leave left⟩
  | some s', one => ⟨1, .turn one (.stay s')⟩

theorem Exits.stopping (entry : m.place s = start) (leads : m.Leads code start s (some s'))
    (stop : m.place s' = start + code.length) : m.Exits code start s (some s') := by
  refine ⟨entry, leads, fun other is => ?_⟩
  obtain rfl := Option.some.inj is
  exact stop

theorem Exits.returning (entry : m.place s = start) (leads : m.Leads code start s none) :
    m.Exits code start s none :=
  ⟨entry, leads, fun _ is => nomatch is⟩

theorem Turns.closed (follows : m.Follows targets) (closed : Closed targets code start)
    (turns : m.Turns code start s (some s')) :
    start ≤ m.place s' ∧ m.place s' ≤ start + code.length :=
  closed _ _ (turns.flows follows)

theorem Runs.noReturn (follows : m.Follows targets) (quiet : NoReturn targets code)
    (runs : m.Runs code start count s o) : o ≠ none := by
  induction runs with
  | stay s => exact Option.some_ne_none s
  | leave left =>
      obtain ⟨ir, present, target⟩ := left.flows follows
      exact absurd target (quiet ir present.member _)
  | turn _ _ ih => exact ih

/-- A run that passes a closed piece of the code returns in the piece, or gets behind it and
goes on from there. -/
theorem Runs.split (follows : m.Follows targets) (closed : Closed targets a start)
    (sub : ∀ i ir, At a start i ir → At b start' i ir) (runs : m.Runs b start' count s o)
    (low : start ≤ m.place s) (high : m.place s ≤ start + a.length)
    (passes : ∀ s', o = some s' → start + a.length ≤ m.place s') :
    (o = none ∧ m.Runs a start count s none) ∨
      ∃ count1 count2 s1, count1 + count2 = count ∧ m.Runs a start count1 s (some s1) ∧
        m.place s1 = start + a.length ∧ m.Runs b start' count2 s1 o := by
  induction runs with
  | stay s =>
      have behind := passes s rfl
      exact .inr ⟨0, 0, s, rfl, .stay s, by omega, .stay s⟩
  | @leave s left =>
      by_cases last : m.place s = start + a.length
      · exact .inr ⟨0, 1, s, rfl, .stay s, last, .leave left⟩
      · exact .inl ⟨rfl, .leave (left.inside sub low (by omega))⟩
  | @turn count s s' o one rest ih =>
      by_cases last : m.place s = start + a.length
      · exact .inr ⟨0, count + 1, s, Nat.zero_add _, .stay s, last, .turn one rest⟩
      · have own := one.inside sub low (by omega)
        have bounds := own.closed follows closed
        rcases ih bounds.1 bounds.2 passes with ⟨none, inside⟩ |
          ⟨count1, count2, s1, total, inside, behind, more⟩
        · exact .inl ⟨none, .turn own inside⟩
        · exact .inr ⟨count1 + 1, count2, s1, by omega, .turn own inside, behind, more⟩

/-- A run from the start of a closed piece at the end of the code is one of the piece. -/
theorem Runs.exits (follows : m.Follows targets) (closed : Closed targets a start)
    (sub : ∀ i ir, At a start i ir → At b start' i ir) (runs : m.Runs b start' count s o)
    (entry : m.place s = start) (last : start + a.length = start' + b.length)
    (passes : ∀ s', o = some s' → m.place s' = start' + b.length) : m.Exits a start s o := by
  have behind : ∀ s', o = some s' → m.place s' = start + a.length := fun s' is => by
    rw [last]
    exact passes s' is
  refine ⟨entry, ?_, behind⟩
  rcases runs.split follows closed sub (by omega) (by omega)
    (fun s' is => Int.le_of_eq (behind s' is).symm) with ⟨rfl, inside⟩ |
      ⟨count1, count2, s1, -, inside, stop, more⟩
  · exact ⟨count, inside⟩
  · obtain rfl := more.ended (by omega)
    exact ⟨count1, inside⟩

theorem Exits.nil (entry : m.place s = start) : m.Exits ([] : List ι) start s (some s) := by
  refine .stopping entry ⟨0, .stay s⟩ ?_
  rw [entry, List.length_nil, Int.natCast_zero, Int.add_zero]

theorem Exits.append (first : m.Exits a start s (some s'))
    (second : m.Exits b (start + a.length) s' o) : m.Exits (a ++ b) start s o := by
  have left : m.Leads (a ++ b) start s (some s') :=
    first.leads.mono fun _ _ present => at_append.mpr (.inl present)
  have right : m.Leads (a ++ b) start s' o :=
    second.leads.mono fun _ _ present => at_append.mpr (.inr present)
  refine ⟨first.entry, left.trans right, fun s'' is => ?_⟩
  rw [List.length_append, Int.natCast_add, ← Int.add_assoc]
  exact second.stop s'' is

theorem Exits.left (first : m.Exits a start s none) (b : List ι) :
    m.Exits (a ++ b) start s none :=
  .returning first.entry (first.leads.mono fun _ _ present => at_append.mpr (.inl present))

/-- A run of two closed pieces returns in the first one, or runs the one and then the other. -/
theorem exits_append (follows : m.Follows targets) (first : Closed targets a start)
    (second : Closed targets b (start + a.length)) : m.Exits (a ++ b) start s o ↔
      (o = none ∧ m.Exits a start s none) ∨
        ∃ s1, m.Exits a start s (some s1) ∧ m.Exits b (start + a.length) s1 o := by
  constructor
  · rintro ⟨entry, ⟨count, runs⟩, stop⟩
    have total : start + (a ++ b).length = start + a.length + b.length := by
      rw [List.length_append, Int.natCast_add, ← Int.add_assoc]
    have beyond : ∀ s', o = some s' → start + a.length ≤ m.place s' := by
      intro s' is
      have behind := stop s' is
      omega
    rcases runs.split follows first (fun _ _ present => at_append.mpr (.inl present)) (by omega)
      (by omega) beyond with ⟨rfl, inside⟩ | ⟨count1, count2, s1, -, inside, middle, more⟩
    · exact .inl ⟨rfl, .returning entry ⟨count, inside⟩⟩
    · refine .inr ⟨s1, .stopping entry ⟨count1, inside⟩ middle, ?_⟩
      exact more.exits follows second (fun _ _ present => at_append.mpr (.inr present)) middle
        total.symm stop
  · rintro (⟨rfl, inside⟩ | ⟨s1, inside, more⟩)
    · exact inside.left b
    · exact inside.append more

theorem exitsBehind_iff (follows : m.Follows targets) (closed : Closed targets code start)
    (here : m.place s = start) : m.ExitsBehind code start s ↔ ¬ m.Exits code start s none := by
  constructor
  · rintro exits ⟨-, ⟨count, runs⟩, -⟩
    have last : ∃ count' s', m.Runs code start count' s (some s') ∧ m.Turns code start s' none := by
      clear exits here
      generalize is : none = o at runs
      induction runs with
      | stay => cases is
      | @leave s left => exact ⟨0, s, .stay s, left⟩
      | turn one _ ih =>
          obtain ⟨count', s', before, left⟩ := ih is
          exact ⟨count' + 1, s', .turn one before, left⟩
    obtain ⟨count', s', before, left⟩ := last
    obtain ⟨s'', impossible, -⟩ := exits count' s' none before left
    cases impossible
  · intro stays count s' next runs turns
    cases next with
    | none =>
        exact absurd (.returning here ⟨count + 1, runs.trans (.leave turns)⟩) stays
    | some s'' => exact ⟨s'', rfl, turns.closed follows closed⟩

end Machine

end ControlFlow
