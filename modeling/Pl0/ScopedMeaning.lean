import Pl0.FrameStack
import Pl0.ProcedureNumbering
import Pl0.StatementMeaning

set_option autoImplicit false

namespace Pl0

/- What the tree of a program with procedures means. A name stands for what the innermost
block around it declares, and every call makes an activation of its own for the variables of
the procedure. -/

/-- What a block declares; of its procedures those declared so far. -/
structure Rib where
  constDecl : List ConstDeclNode
  varDecl : List VarDeclNode
  procs : List Procedure

namespace Rib

def varNames (rib : Rib) : List Name := rib.varDecl.map (·.ident)

def names (rib : Rib) : List Name :=
  rib.constDecl.map (·.ident) ++ rib.varNames ++ rib.procs.map (·.ident)

/-- What the procedure behind `before` sees of the block around it. -/
def upTo (rib : Rib) (before : List Procedure) (p : Procedure) : Rib :=
  { rib with procs := before ++ [p] }

end Rib

def BlockNode.rib (block : BlockNode) : Rib :=
  ⟨block.constDecl, block.varDecl, block.procDef.direct⟩

/-- From the innermost block on that declares the name. -/
def visible {α : Type} (names : α → List Name) (name : Name) (chain : List α) : List α :=
  chain.dropWhile fun a => !(names a).contains name

/-- A block around the code that runs, and which of the activations is its own. -/
structure Layer where
  rib : Rib
  place : Nat

/-- An activation of a block. A variable has no value before the first one is assigned. -/
structure Activation where
  vars : List VarDeclNode
  value : Name → Option Int

/-- The words of its frame: four for the control, and one for each variable. -/
def Activation.words (a : Activation) : Nat := a.vars.length + 4

/-- The activations, the oldest first, the numbers still to be read, and those printed. -/
structure Memory where
  activations : List Activation
  input : List Int
  output : List Int

namespace Memory

/-- Before a run; the variables of the main block are 0. -/
def start (block : BlockNode) (input : List Int) : Memory :=
  { activations := [⟨block.varDecl, fun _ => some 0⟩], input := input, output := [] }

def set (m : Memory) (place : Nat) (name : Name) (v : Int) : Memory :=
  { m with activations := m.activations.modify place fun a =>
      { a with value := Function.update a.value name (some v) } }

def enter (m : Memory) (vars : List VarDeclNode) : Memory :=
  { m with activations := m.activations ++ [⟨vars, fun _ => none⟩] }

def leave (m : Memory) : Memory :=
  { m with activations := m.activations.dropLast }

def sizes (m : Memory) : List Nat := m.activations.map Activation.words

end Memory

/-- The value of a name, where it is a constant or a variable that has one. -/
def valueOf (env : List Layer) (m : Memory) (name : Name) : Option Int :=
  match visible (·.rib.names) name env with
  | [] => none
  | layer :: _ =>
      match layer.rib.constDecl.find? fun k => k.ident = name with
      | some k => some k.numer
      | none =>
          if layer.rib.varNames.contains name then
            (m.activations[layer.place]?).bind fun a => a.value name
          else none

/-- The layers in which the body of a called procedure runs. -/
def called (layer : Layer) (outer : List Layer) (before : List Procedure) (p : Procedure)
    (place : Nat) : List Layer :=
  ⟨p.body.rib, place⟩ :: ⟨layer.rib.upTo before p, layer.place⟩ :: outer

section Statements

variable (a : Arithmetic) (fits : List Activation → Prop)

/-- The terminating runs of a statement in its layers, as long as the activations fit. -/
inductive Performs : List Layer → StatementNode → Memory → Memory → Prop
  | empty (env : List Layer) (m : Memory) : Performs env .empty m m
  | assign {env outer : List Layer} {layer : Layer} {name : Name} {e : TermExp} {v : Int}
      {m : Memory} (seen : visible (·.rib.names) name env = layer :: outer)
      (declared : name ∈ layer.rib.varNames) (value : a.expression (valueOf env m) e = some v) :
      Performs env (.assign name e) m (m.set layer.place name v)
  | done (env : List Layer) (m : Memory) : Performs env (.begin .nil) m m
  | next {env : List Layer} {sts : StatementNode} {rest : StatementList} {m m' m'' : Memory}
      (first : Performs env sts m m') (more : Performs env (.begin rest) m' m'') :
      Performs env (.begin (.cons sts rest)) m m''
  | ifHolds {env : List Layer} {cond : ConditionNode} {ifsts : StatementNode} {m m' : Memory}
      (test : a.condition (valueOf env m) cond = some true) (branch : Performs env ifsts m m') :
      Performs env (.ifS cond ifsts) m m'
  | ifFails {env : List Layer} {cond : ConditionNode} {ifsts : StatementNode} {m : Memory}
      (test : a.condition (valueOf env m) cond = some false) :
      Performs env (.ifS cond ifsts) m m
  | thenBranch {env : List Layer} {cond : ConditionNode} {ifsts elsests : StatementNode}
      {m m' : Memory} (test : a.condition (valueOf env m) cond = some true)
      (branch : Performs env ifsts m m') : Performs env (.ifElse cond ifsts elsests) m m'
  | elseBranch {env : List Layer} {cond : ConditionNode} {ifsts elsests : StatementNode}
      {m m' : Memory} (test : a.condition (valueOf env m) cond = some false)
      (branch : Performs env elsests m m') : Performs env (.ifElse cond ifsts elsests) m m'
  | leave {env : List Layer} {cond : ConditionNode} {sts : StatementNode} {m : Memory}
      (test : a.condition (valueOf env m) cond = some false) : Performs env (.while cond sts) m m
  | again {env : List Layer} {cond : ConditionNode} {sts : StatementNode} {m m' m'' : Memory}
      (test : a.condition (valueOf env m) cond = some true) (body : Performs env sts m m')
      (rest : Performs env (.while cond sts) m' m'') : Performs env (.while cond sts) m m''
  | read {env outer : List Layer} {layer : Layer} {name : Name} {v : Int} {input : List Int}
      {m : Memory} (seen : visible (·.rib.names) name env = layer :: outer)
      (declared : name ∈ layer.rib.varNames) (more : m.input = v :: input) :
      Performs env (.read name) m ({ m with input := input }.set layer.place name v)
  | write {env : List Layer} {name : Name} {v : Int} {m : Memory}
      (value : valueOf env m name = some v) :
      Performs env (.write name) m { m with output := m.output ++ [v] }
  | call {env outer : List Layer} {layer : Layer} {before after : List Procedure} {p : Procedure}
      {m m' : Memory} (seen : visible (·.rib.names) p.ident env = layer :: outer)
      (declared : layer.rib.procs = before ++ p :: after)
      (room : fits (m.enter p.body.varDecl).activations)
      (body : Performs (called layer outer before p m.activations.length) p.body.statement
        (m.enter p.body.varDecl) m') :
      Performs env (.call p.ident) m m'.leave

end Statements

/-- The machine has a frame for each activation in its stack, and a place for each call. -/
def RoomFor (activations : List Activation) : Prop :=
  (activations.length : Int) ≤ maxLexiLevels ∧
    ((activations.map Activation.words).sum : Int) < maxStackHeight

instance (activations : List Activation) : Decidable (RoomFor activations) :=
  inferInstanceAs (Decidable (_ ∧ _))

section Executions

variable {a a' : Arithmetic} {fits fits' : List Activation → Prop} {env : List Layer}
  {node : StatementNode} {m m' : Memory}

/-- A run needs no more than the values and the room that it had. -/
theorem Performs.widen
    (expression : ∀ env e v, a.expression env e = some v → a'.expression env e = some v)
    (condition : ∀ env cond holds, a.condition env cond = some holds →
      a'.condition env cond = some holds)
    (room : ∀ activations, fits activations → fits' activations)
    (performs : Performs a fits env node m m') : Performs a' fits' env node m m' := by
  induction performs with
  | empty env m => exact .empty env m
  | assign seen declared value => exact .assign seen declared (expression _ _ _ value)
  | done env m => exact .done env m
  | next _ _ ihFirst ihMore => exact .next ihFirst ihMore
  | ifHolds test _ ih => exact .ifHolds (condition _ _ _ test) ih
  | ifFails test => exact .ifFails (condition _ _ _ test)
  | thenBranch test _ ih => exact .thenBranch (condition _ _ _ test) ih
  | elseBranch test _ ih => exact .elseBranch (condition _ _ _ test) ih
  | leave test => exact .leave (condition _ _ _ test)
  | again test _ _ ihBody ihRest => exact .again (condition _ _ _ test) ihBody ihRest
  | read seen declared more => exact .read seen declared more
  | write value => exact .write value
  | call seen declared fit _ ih => exact .call seen declared (room _ fit) ih

theorem intArithmetic_condition_exact {env : Name → Option Int} {cond : ConditionNode}
    {holds : Bool} (value : intArithmetic.condition env cond = some holds) :
    exactArithmetic.condition env cond = some holds := by
  change (if conditionInt env cond then conditionValue env cond else none) = some holds at value
  by_cases small : conditionInt env cond
  · rw [if_pos small] at value
    exact value
  · rw [if_neg small] at value
    cases value

/-- A run within the machine is a run of the source, which knows no bounds. -/
theorem Performs.exact (performs : Performs intArithmetic RoomFor env node m m') :
    Performs exactArithmetic (fun _ => True) env node m m' :=
  performs.widen (fun _ _ _ value => expressionInt_value value)
    (fun _ _ _ value => intArithmetic_condition_exact value) fun _ _ => trivial

end Executions

end Pl0
