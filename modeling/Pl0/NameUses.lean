import Pl0.ExpressionValue
import Pl0.LexicalScoping
import Pl0.ParseRuns
import Pl0.StatementExit

set_option autoImplicit false

namespace Pl0

/- The names in a piece of a program. -/
mutual
def FactorNode.idents : FactorNode → List Name
  | .ident name => [name]
  | .digit _ => []
  | .exp e => e.idents

def FactorExp.idents : FactorExp → List Name
  | .nil => []
  | .cons _ factor next => factor.idents ++ next.idents

def TermExp.idents : TermExp → List Name
  | .nil => []
  | .cons _ term next => term.idents ++ next.idents
end

def ConditionNode.idents : ConditionNode → List Name
  | .odd right => right.idents
  | .relOp _ left right => left.idents ++ right.idents

mutual
def StatementNode.idents : StatementNode → List Name
  | .empty => []
  | .assign name e => name :: e.idents
  | .begin list => list.idents
  | .ifS cond ifsts => cond.idents ++ ifsts.idents
  | .ifElse cond ifsts elsests => cond.idents ++ (ifsts.idents ++ elsests.idents)
  | .while cond sts => cond.idents ++ sts.idents
  | .read name => [name]
  | .write name => [name]
  | .call name => [name]

def StatementList.idents : StatementList → List Name
  | .nil => []
  | .cons sts next => sts.idents ++ next.idents
end

section Values

variable {env env' : Name → Option Int}

/- The value of an expression comes from its names. -/
mutual
theorem factorInt_congr : ∀ f : FactorNode, (∀ name ∈ f.idents, env name = env' name) →
    factorInt env f = factorInt env' f
  | .ident name, same => same name List.mem_cons_self
  | .digit _, _ => rfl
  | .exp e, same => termsInt_congr e same none

theorem factorsInt_congr : ∀ e : FactorExp, (∀ name ∈ e.idents, env name = env' name) →
    ∀ (preop : Token) (before : Option Int),
      factorsInt env e preop before = factorsInt env' e preop before
  | .nil, _, _, _ => rfl
  | .cons op factor next, same, preop, before => by
      have first := factorInt_congr factor fun name member =>
        same name (List.mem_append_left _ member)
      have rest := factorsInt_congr next fun name member =>
        same name (List.mem_append_right _ member)
      cases before <;> simp only [factorsInt, first, rest]

theorem termsInt_congr : ∀ e : TermExp, (∀ name ∈ e.idents, env name = env' name) →
    ∀ before : Option Int, termsInt env e before = termsInt env' e before
  | .nil, _, _ => rfl
  | .cons op term next, same, before => by
      have first := factorsInt_congr term fun name member =>
        same name (List.mem_append_left _ member)
      have rest := termsInt_congr next fun name member =>
        same name (List.mem_append_right _ member)
      cases before <;> simp only [termsInt, first, rest]
end

/- So does its exact value. -/
mutual
theorem factorValue_congr : ∀ f : FactorNode, (∀ name ∈ f.idents, env name = env' name) →
    factorValue env f = factorValue env' f
  | .ident name, same => same name List.mem_cons_self
  | .digit _, _ => rfl
  | .exp e, same => termsValue_congr e same none

theorem factorsValue_congr : ∀ e : FactorExp, (∀ name ∈ e.idents, env name = env' name) →
    ∀ before : Option Int, factorsValue env e before = factorsValue env' e before
  | .nil, _, _ => rfl
  | .cons op factor next, same, before => by
      have first := factorValue_congr factor fun name member =>
        same name (List.mem_append_left _ member)
      have rest := factorsValue_congr next fun name member =>
        same name (List.mem_append_right _ member)
      cases before <;> simp only [factorsValue, first, rest]

theorem termsValue_congr : ∀ e : TermExp, (∀ name ∈ e.idents, env name = env' name) →
    ∀ before : Option Int, termsValue env e before = termsValue env' e before
  | .nil, _, _ => rfl
  | .cons op term next, same, before => by
      have first := factorsValue_congr term fun name member =>
        same name (List.mem_append_left _ member)
      have rest := termsValue_congr next fun name member =>
        same name (List.mem_append_right _ member)
      cases before <;> simp only [termsValue, first, rest]
end

theorem conditionInt_congr (cond : ConditionNode)
    (same : ∀ name ∈ cond.idents, env name = env' name) :
    conditionInt env cond = conditionInt env' cond := by
  cases cond with
  | odd right => rw [conditionInt, conditionInt, expressionInt, expressionInt,
      termsInt_congr right same]
  | relOp op left right =>
      rw [conditionInt, conditionInt, expressionInt, expressionInt, expressionInt, expressionInt,
        termsInt_congr left fun name member => same name (List.mem_append_left _ member),
        termsInt_congr right fun name member => same name (List.mem_append_right _ member)]

theorem conditionValue_congr (cond : ConditionNode)
    (same : ∀ name ∈ cond.idents, env name = env' name) :
    conditionValue env cond = conditionValue env' cond := by
  cases cond with
  | odd right => rw [conditionValue, conditionValue, expressionValue, expressionValue,
      termsValue_congr right same]
  | relOp op left right =>
      rw [conditionValue, conditionValue, expressionValue, expressionValue, expressionValue,
        expressionValue,
        termsValue_congr left fun name member => same name (List.mem_append_left _ member),
        termsValue_congr right fun name member => same name (List.mem_append_right _ member)]

end Values

/- The names in a statement, each with the construct that looks it up. -/
mutual
def StatementNode.mentioned : StatementNode → List (Construct × Name)
  | .empty => []
  | .assign name e => (.assign, name) :: e.idents.map (.factor, ·)
  | .begin list => list.mentioned
  | .ifS cond ifsts => cond.idents.map (.factor, ·) ++ ifsts.mentioned
  | .ifElse cond ifsts elsests =>
      cond.idents.map (.factor, ·) ++ (ifsts.mentioned ++ elsests.mentioned)
  | .while cond sts => cond.idents.map (.factor, ·) ++ sts.mentioned
  | .read name => [(.read, name)]
  | .write name => [(.write, name)]
  | .call name => [(.call, name)]

def StatementList.mentioned : StatementList → List (Construct × Name)
  | .nil => []
  | .cons sts next => sts.mentioned ++ next.mentioned
end

theorem map_factor (names : List Name) :
    (names.map (Prod.mk Construct.factor)).map Prod.snd = names := by
  rw [List.map_map]
  exact List.map_id names

mutual
theorem StatementNode.mentioned_names : ∀ node : StatementNode,
    node.mentioned.map Prod.snd = node.idents
  | .empty | .read _ | .write _ | .call _ => rfl
  | .assign name e => congrArg (name :: ·) (map_factor e.idents)
  | .begin list => list.mentioned_names
  | .ifS cond ifsts => by
      rw [StatementNode.mentioned, List.map_append, map_factor, ifsts.mentioned_names]
      rfl
  | .ifElse cond ifsts elsests => by
      rw [StatementNode.mentioned, List.map_append, List.map_append, map_factor,
        ifsts.mentioned_names, elsests.mentioned_names]
      rfl
  | .while cond sts => by
      rw [StatementNode.mentioned, List.map_append, map_factor, sts.mentioned_names]
      rfl

theorem StatementList.mentioned_names : ∀ list : StatementList,
    list.mentioned.map Prod.snd = list.idents
  | .nil => rfl
  | .cons sts next => by
      rw [StatementList.mentioned, List.map_append, sts.mentioned_names, next.mentioned_names]
      rfl
end

/-- The uses of names among some events. -/
def usesIn (events : List Event) : List Event :=
  events.filter fun
    | .use .. => true
    | .declare .. | .access .. | .statement .. => false

theorem usesIn_append (events events' : List Event) :
    usesIn (events ++ events') = usesIn events ++ usesIn events' :=
  List.filter_append ..

theorem use_mem_usesIn {events : List Event} {scope : List Int} {construct : Construct}
    {name : Name} {result : Option Symbol} :
    .use scope construct name result ∈ usesIn events ↔
      .use scope construct name result ∈ events := by
  simp [usesIn]

/-- The use of a name in a state. -/
def GenState.useOf (g : GenState) (mention : Construct × Name) : Event :=
  .use g.scope mention.1 mention.2 (g.lookup mention.2)

/-- The history has grown by just these uses of names, each in the scope of `g` and with what
`g` finds for it, and by no declaration. -/
structure Mentions (g g' : GenState) (names : List (Construct × Name)) : Prop where
  scope : g'.scope = g.scope
  lookup : g'.lookup = g.lookup
  grows : ∃ events, g'.trace = g.trace ++ events ∧ declarations events = [] ∧
    usesIn events = names.map g.useOf

namespace Mentions

variable {g g' g'' : GenState} {names names' : List (Construct × Name)}

theorem trans (first : Mentions g g' names) (second : Mentions g' g'' names') :
    Mentions g g'' (names ++ names') := by
  obtain ⟨events, grown, none, noted⟩ := first.grows
  obtain ⟨events', grown', none', noted'⟩ := second.grows
  have same : g'.useOf = g.useOf := by
    funext mention
    unfold GenState.useOf
    rw [first.scope, first.lookup]
  refine ⟨second.scope.trans first.scope, second.lookup.trans first.lookup, events ++ events',
    by rw [grown', grown, List.append_assoc], by rw [declarations_append, none, none']; rfl, ?_⟩
  rw [usesIn_append, noted, noted', same, List.map_append]

/-- A step that uses no name. -/
theorem past (first : Mentions g g' names) (second : Mentions g' g'' []) : Mentions g g'' names :=
  (List.append_nil names) ▸ first.trans second

theorem same (scope : g'.scope = g.scope) (lookup : g'.lookup = g.lookup)
    (trace : ∃ events, g'.trace = g.trace ++ events ∧ declarations events = [] ∧
      usesIn events = []) : Mentions g g' [] :=
  ⟨scope, lookup, trace⟩

theorem quiet (scope : g'.scope = g.scope) (lookup : g'.lookup = g.lookup)
    (trace : g'.trace = g.trace) : Mentions g g' [] :=
  .same scope lookup ⟨[], by rw [trace, List.append_nil], rfl, rfl⟩

theorem use (g : GenState) (construct : Construct) (name : Name) :
    Mentions g (g.use construct name) [(construct, name)] :=
  ⟨rfl, rfl, [.use g.scope construct name (g.lookup name)], rfl, rfl, rfl⟩

theorem recorded (noted : Mentions g g' names) (body : Bool) (node : StatementNode) :
    Mentions g (g.recorded body node g') names :=
  noted.past (.same rfl rfl ⟨_, rfl, rfl, rfl⟩)

theorem leaveBranch (g : GenState) (j1 : Int) : Mentions g (g.leaveBranch j1) [] :=
  .quiet rfl rfl rfl

theorem endIf (g : GenState) (j2 : Int) : Mentions g (g.endIf j2) [] := .quiet rfl rfl rfl

theorem endWhile (g : GenState) (j2 c : Int) : Mentions g (g.endWhile j2 c) [] :=
  .quiet rfl rfl rfl

theorem calculate (g : GenState) (op : Token) : Mentions g (g.calculate op) [] := .quiet rfl rfl rfl

theorem access {g g' : GenState} (scope : g'.scope = g.scope) (lookup : g'.lookup = g.lookup)
    {event : Event} (trace : g'.trace = g.trace ++ [event]) (none : declarations [event] = [])
    (noUse : usesIn [event] = []) : Mentions g g' [] :=
  .same scope lookup ⟨[event], trace, none, noUse⟩

theorem conditionalJump (g : GenState) : Mentions g g.conditionalJump [] := .quiet rfl rfl rfl

theorem finishBegin (g : GenState) : Mentions g g.finishBegin [] := by
  unfold GenState.finishBegin
  split <;> exact .quiet rfl rfl rfl

end Mentions

theorem mentions_loadKnown (g : GenState) (sym : Option Symbol) :
    Mentions g (g.loadKnown sym) [] := by
  cases sym with
  | none => exact .quiet rfl rfl rfl
  | some sym =>
      unfold GenState.loadKnown
      cases kind : sym.kind with
      | varS =>
          simp only [kind]
          exact .access rfl rfl rfl rfl rfl
      | constS =>
          simp only [kind]
          exact .quiet rfl rfl rfl
      | procS =>
          simp only [kind]
          exact .quiet rfl rfl rfl

theorem mentions_negate (g : GenState) (preop : Token) : Mentions g (g.negate preop) [] := by
  cases preop <;> exact .quiet rfl rfl rfl

theorem mentions_nameKnown {g : GenState} {act : GenState → Symbol → GenState}
    (acts : ∀ g symbol, Mentions g (act g symbol) []) (sym : Option Symbol) :
    Mentions g (g.nameKnown act sym) [] := by
  cases sym with
  | none => exact .quiet rfl rfl rfl
  | some sym => exact acts g sym

mutual
theorem genFactor_mentions : ∀ (f : FactorNode) (g : GenState),
    Mentions g (genFactor f g) (f.idents.map (.factor, ·))
  | .ident name, g => (Mentions.use g .factor name).past (mentions_loadKnown _ _)
  | .digit _, _ => .quiet rfl rfl rfl
  | .exp e, g => genTerms_mentions e true g

theorem genFactors_mentions : ∀ (e : FactorExp) (sign : Option Token) (g : GenState),
    Mentions g (genFactors e sign g) (e.idents.map (.factor, ·))
  | .nil, none, _ => .quiet rfl rfl rfl
  | .nil, some _, _ => .quiet rfl rfl rfl
  | .cons _ factor next, some preop, g => by
      rw [FactorExp.idents, List.map_append]
      exact ((genFactor_mentions factor g).past (mentions_negate _ preop)).trans
        (genFactors_mentions next none _)
  | .cons op factor next, none, g => by
      rw [FactorExp.idents, List.map_append]
      exact ((genFactor_mentions factor g).past (.calculate _ op)).trans
        (genFactors_mentions next none _)

theorem genTerms_mentions : ∀ (e : TermExp) (first : Bool) (g : GenState),
    Mentions g (genTerms e first g) (e.idents.map (.factor, ·))
  | .nil, false, _ => .quiet rfl rfl rfl
  | .nil, true, _ => .quiet rfl rfl rfl
  | .cons op term next, true, g => by
      rw [TermExp.idents, List.map_append]
      exact (genFactors_mentions term (some op) g).trans (genTerms_mentions next false _)
  | .cons op term next, false, g => by
      rw [TermExp.idents, List.map_append]
      exact ((genFactors_mentions term (some .unset) g).past (.calculate _ op)).trans
        (genTerms_mentions next false _)
end

theorem genCondition_mentions (cond : ConditionNode) (g : GenState) :
    Mentions g (genCondition cond g) (cond.idents.map (.factor, ·)) := by
  cases cond with
  | odd right => exact (genTerms_mentions right true g).past (.quiet rfl rfl rfl)
  | relOp op left right =>
      rw [ConditionNode.idents, List.map_append]
      exact ((genTerms_mentions left true g).trans (genTerms_mentions right true _)).past
        (.quiet rfl rfl rfl)

theorem mentions_storeKnown (g : GenState) (sym : Option Symbol) :
    Mentions g (g.storeKnown sym) [] := by
  cases sym with
  | none => exact .quiet rfl rfl rfl
  | some sym => exact .access rfl rfl rfl rfl rfl

mutual
theorem genStatement_mentions : ∀ (node : StatementNode) (g : GenState),
    Mentions g (genStatement node g) node.mentioned
  | .empty, g => .quiet rfl rfl rfl
  | .assign name e, g =>
      ((Mentions.use g .assign name).trans (genTerms_mentions e true _)).past
        (mentions_storeKnown _ _)
  | .begin list, g => (genStatements_mentions list g).past (.finishBegin _)
  | .ifS cond ifsts, g => by
      have test := (genCondition_mentions cond g).past (.conditionalJump (genCondition cond g))
      have branch := (genStatement_mentions ifsts (genCondition cond g).conditionalJump).recorded
        false ifsts
      have left := branch.past (Mentions.leaveBranch _ (genCondition cond g).codeLength)
      exact (test.trans left).past (.endIf _ _)
  | .ifElse cond ifsts elsests, g => by
      have test := (genCondition_mentions cond g).past (.conditionalJump (genCondition cond g))
      have branch := (genStatement_mentions ifsts (genCondition cond g).conditionalJump).recorded
        false ifsts
      have left := branch.past (Mentions.leaveBranch _ (genCondition cond g).codeLength)
      have other := fun between => (genStatement_mentions elsests between).recorded false elsests
      exact (test.trans (left.trans (other _))).past (.endIf _ _)
  | .while cond sts, g => by
      have test := (genCondition_mentions cond g).past (.conditionalJump (genCondition cond g))
      have body := (genStatement_mentions sts (genCondition cond g).conditionalJump).recorded
        false sts
      have left := body.past (Mentions.leaveBranch _ (genCondition cond g).codeLength)
      exact (test.trans left).past (.endWhile _ _ _)
  | .read name, g =>
      (Mentions.use g .read name).past
        (@mentions_nameKnown _ GenState.readSymbol (fun _ _ => .access rfl rfl rfl rfl rfl) _)
  | .write name, g =>
      (Mentions.use g .write name).past
        (@mentions_nameKnown _ GenState.writeSymbol (fun _ _ => .access rfl rfl rfl rfl rfl) _)
  | .call name, g =>
      (Mentions.use g .call name).past
        (@mentions_nameKnown _ GenState.callSymbol (fun _ _ => .access rfl rfl rfl rfl rfl) _)

theorem genStatements_mentions : ∀ (list : StatementList) (g : GenState),
    Mentions g (genStatements list g) list.mentioned
  | .nil, _ => .quiet rfl rfl rfl
  | .cons sts next, g =>
      ((genStatement_mentions sts g).recorded false sts).trans (genStatements_mentions next _)
end

/-- The statement part of a block has a use of each of its names in the history. -/
theorem genBody_mentions (statement : StatementNode) (g : GenState) :
    Mentions g (genBody statement g) statement.mentioned :=
  (genStatement_mentions statement g).recorded true statement

end Pl0
