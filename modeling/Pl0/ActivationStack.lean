import Mathlib.Data.List.Chain
import Pl0.FrameLayout
import Pl0.ScopedNames
import Pl0.StatementExecution
import Pl0.StaticLinks

set_option autoImplicit false

namespace Pl0

open StateExcept

/-- Variables that lie behind the four control words, each with a name of its own. -/
structure Laid (vars : List VarDeclNode) : Prop where
  addresses : vars.map (·.addr) = addressesFrom 4 vars.length
  names : (vars.map (·.ident)).Nodup

section Laid

variable {vars : List VarDeclNode} {v w : VarDeclNode}

/-- The cell of a variable in its frame. -/
theorem Laid.cell (laid : Laid vars) (member : v ∈ vars) :
    ∃ cell : Nat, v.addr = cell ∧ 4 ≤ cell ∧ cell < vars.length + 4 := by
  have place := List.mem_map_of_mem (f := (·.addr)) member
  rw [laid.addresses] at place
  obtain ⟨i, inside, addr⟩ := List.mem_map.mp place
  have bound := List.mem_range.mp inside
  exact ⟨4 + i, by rw [← addr]; rfl, by omega, by omega⟩

theorem Laid.ext_addr (laid : Laid vars) (member : v ∈ vars) (member' : w ∈ vars)
    (same : v.addr = w.addr) : v = w := by
  have nodup : (vars.map (·.addr)).Nodup := by
    rw [laid.addresses]
    exact addressesFrom_nodup _ _
  exact List.inj_on_of_nodup_map nodup member member' same

theorem Laid.ext_ident (laid : Laid vars) (member : v ∈ vars) (member' : w ∈ vars)
    (same : v.ident = w.ident) : v = w :=
  List.inj_on_of_nodup_map laid.names member member' same

end Laid

namespace Memory

variable {m m' : Memory} {k k' : Nat} {a a' : Activation}

/-- Where the frame of an activation begins in the stack. -/
def base (m : Memory) (k : Nat) : Int := FrameStack.start 1 m.sizes k

/-- The variables of each activation, whatever their values. -/
def shape (m : Memory) : List (List VarDeclNode) := m.activations.map (·.vars)

theorem base_zero (m : Memory) : m.base 0 = 1 := rfl

theorem sizes_of_shape (same : m'.shape = m.shape) : m'.sizes = m.sizes := by
  have words : ∀ m : Memory, m.sizes = m.shape.map fun vars => vars.length + 4 := by
    intro m
    unfold sizes shape
    rw [List.map_map]
    rfl
  rw [words, words, same]

theorem base_of_shape (same : m'.shape = m.shape) (k : Nat) : m'.base k = m.base k := by
  unfold base
  rw [sizes_of_shape same]

theorem length_of_shape (same : m'.shape = m.shape) :
    m'.activations.length = m.activations.length := by
  have lengths := congrArg List.length same
  unfold shape at lengths
  rwa [List.length_map, List.length_map] at lengths

theorem roomFor_of_shape (same : m'.shape = m.shape) :
    RoomFor m'.activations ↔ RoomFor m.activations := by
  have sizes := sizes_of_shape same
  unfold Memory.sizes at sizes
  unfold RoomFor
  rw [sizes, length_of_shape same]

/-- An activation of the same shape has the same variables. -/
theorem activation_of_shape (same : m'.shape = m.shape) (here : m.activations[k]? = some a) :
    ∃ a', m'.activations[k]? = some a' ∧ a'.vars = a.vars := by
  have told : m'.shape[k]? = some a.vars := by
    rw [same]
    unfold shape
    rw [List.getElem?_map, here]
    rfl
  unfold shape at told
  rw [List.getElem?_map] at told
  obtain ⟨a', there, vars⟩ := Option.map_eq_some_iff.mp told
  exact ⟨a', there, vars⟩

theorem sizes_getElem? (here : m.activations[k]? = some a) : m.sizes[k]? = some a.words := by
  unfold sizes
  rw [List.getElem?_map, here]
  rfl

/-- A word of a frame lies in the stack. -/
theorem word_inside (fits : RoomFor m.activations) (here : m.activations[k]? = some a) {word : Nat}
    (inside : word < a.words) : 0 ≤ m.base k + word ∧ m.base k + word < maxStackHeight := by
  have below := FrameStack.cell_lt 1 (sizes_getElem? here) inside
  have room : (m.sizes.sum : Int) < maxStackHeight := fits.2
  unfold base
  omega

/-- The words of two frames are apart. -/
theorem words_apart (here : m.activations[k]? = some a) {word : Nat} (inside : word < a.words)
    (there : m.activations[k']? = some a') {word' : Nat} (inside' : word' < a'.words)
    (same : m.base k + word = m.base k' + word') : k = k' ∧ word = word' := by
  unfold base at same
  exact FrameStack.apart 1 (sizes_getElem? here) inside (sizes_getElem? there) inside'
    (by exact_mod_cast same)

/-- A word of a frame lies in front of the next one. -/
theorem word_lt_top (here : m.activations[k]? = some a) {word : Nat} (inside : word < a.words) :
    m.base k + word ≤ m.sizes.sum := by
  have below := FrameStack.cell_lt 1 (sizes_getElem? here) inside
  unfold base
  omega

theorem set_activation (m : Memory) (place : Nat) (name : Name) (v : Int) (k : Nat) :
    (m.set place name v).activations[k]? = (m.activations[k]?).map fun a =>
      if place = k then { a with value := Function.update a.value name (some v) } else a := by
  unfold set
  rw [List.getElem?_modify]
  by_cases same : place = k <;> simp [same]

theorem set_shape (m : Memory) (place : Nat) (name : Name) (v : Int) :
    (m.set place name v).shape = m.shape := by
  apply List.ext_getElem?
  intro k
  unfold shape
  rw [List.getElem?_map, List.getElem?_map, set_activation, Option.map_map]
  congr 1
  funext a
  by_cases same : place = k <;> simp [same]

theorem enter_sizes (m : Memory) (vars : List VarDeclNode) :
    (m.enter vars).sizes = m.sizes ++ [vars.length + 4] := by
  unfold sizes enter
  rw [List.map_append]
  rfl

/-- A new activation does not move the older ones. -/
theorem enter_base (vars : List VarDeclNode) (inside : k ≤ m.activations.length) :
    (m.enter vars).base k = m.base k := by
  unfold base
  rw [enter_sizes, FrameStack.start_append]
  unfold sizes
  rwa [List.length_map]

theorem enter_base_new (m : Memory) (vars : List VarDeclNode) :
    (m.enter vars).base m.activations.length = m.sizes.sum + 1 := by
  rw [enter_base vars (Nat.le_refl _)]
  have last := FrameStack.start_length 1 m.sizes
  unfold base
  rw [show m.activations.length = m.sizes.length from (List.length_map _).symm, last]
  omega

theorem enter_shape (m : Memory) (vars : List VarDeclNode) :
    (m.enter vars).shape = m.shape ++ [vars] := by
  unfold shape enter
  rw [List.map_append]
  rfl

theorem leave_shape (m : Memory) : m.leave.shape = m.shape.dropLast := by
  unfold shape leave
  rw [List.map_dropLast]

end Memory

/-- A run leaves the activations as they are, but for their values. -/
theorem Performs.shape {a : Arithmetic} {fits : List Activation → Prop} {env : List Layer}
    {node : StatementNode} {m m' : Memory} (performs : Performs a fits env node m m') :
    m'.shape = m.shape := by
  induction performs with
  | empty | done | ifFails | leave | write => rfl
  | assign => exact Memory.set_shape _ _ _ _
  | next _ _ ihFirst ihMore => exact ihMore.trans ihFirst
  | ifHolds _ _ ih | thenBranch _ _ ih | elseBranch _ _ ih => exact ih
  | again _ _ _ ihBody ihRest => exact ihRest.trans ihBody
  | read seen declared more => exact Memory.set_shape _ _ _ _
  | call _ _ _ _ ih => rw [Memory.leave_shape, ih, Memory.enter_shape, List.dropLast_concat]

namespace Rib

variable {rib : Rib} {symbol : Symbol}

/-- The declarations of a block that tell its names apart. -/
theorem nodup_parts (distinct : rib.names.Nodup) :
    (rib.constDecl.map (·.ident)).Nodup ∧ rib.varNames.Nodup ∧ (rib.procs.map (·.ident)).Nodup ∧
      (∀ k ∈ rib.constDecl, ∀ v ∈ rib.varDecl, k.ident ≠ v.ident) ∧
      (∀ k ∈ rib.constDecl, ∀ p ∈ rib.procs, k.ident ≠ p.ident) ∧
      ∀ v ∈ rib.varDecl, ∀ p ∈ rib.procs, v.ident ≠ p.ident := by
  obtain ⟨data, procs, apart⟩ := List.nodup_append.mp distinct
  obtain ⟨consts, vars, between⟩ := List.nodup_append.mp data
  refine ⟨consts, vars, procs, ?_, ?_, ?_⟩
  · intro k member v member'
    exact between _ (List.mem_map_of_mem member) _ (List.mem_map_of_mem member')
  · intro k member p member'
    exact apart _ (List.mem_append_left _ (List.mem_map_of_mem member)) _
      (List.mem_map_of_mem member')
  · intro v member p member'
    exact apart _ (List.mem_append_right _ (List.mem_map_of_mem member)) _
      (List.mem_map_of_mem member')

theorem declares_const (distinct : rib.names.Nodup) (declares : rib.Declares symbol)
    {k : ConstDeclNode} (member : k ∈ rib.constDecl) (named : k.ident = symbol.name) :
    symbol.kind = .constS ∧ symbol.val = k.numer := by
  obtain ⟨consts, -, -, constVar, constProc, -⟩ := nodup_parts distinct
  cases declares with
  | const member' named' kind val =>
      rw [List.inj_on_of_nodup_map consts member member' (named.trans named'.symm)]
      exact ⟨kind, val⟩
  | var member' named' => exact absurd (named.trans named'.symm) (constVar _ member _ member')
  | proc member' named' => exact absurd (named.trans named'.symm) (constProc _ member _ member')

theorem declares_var (distinct : rib.names.Nodup) (declares : rib.Declares symbol)
    {v : VarDeclNode} (member : v ∈ rib.varDecl) (named : v.ident = symbol.name) :
    symbol.kind = .varS ∧ symbol.addr = v.addr := by
  obtain ⟨-, vars, -, constVar, -, varProc⟩ := nodup_parts distinct
  cases declares with
  | const member' named' => exact absurd (named'.trans named.symm) (constVar _ member' _ member)
  | var member' named' kind addr =>
      rw [List.inj_on_of_nodup_map vars member member' (named.trans named'.symm)]
      exact ⟨kind, addr⟩
  | proc member' named' => exact absurd (named.trans named'.symm) (varProc _ member _ member')

theorem declares_proc (distinct : rib.names.Nodup) (declares : rib.Declares symbol)
    {p : Procedure} (member : p ∈ rib.procs) (named : p.ident = symbol.name) :
    symbol.kind = .procS ∧ symbol.addr = p.addr := by
  obtain ⟨-, -, procs, -, constProc, varProc⟩ := nodup_parts distinct
  cases declares with
  | const member' named' => exact absurd (named'.trans named.symm) (constProc _ member' _ member)
  | var member' named' => exact absurd (named'.trans named.symm) (varProc _ member' _ member)
  | proc member' named' kind addr =>
      rw [List.inj_on_of_nodup_map procs member member' (named.trans named'.symm)]
      exact ⟨kind, addr⟩

end Rib

theorem visible_map (env : List Layer) (name : Name) :
    visible Rib.names name (env.map (·.rib)) =
      (visible (·.rib.names) name env).map (·.rib) := by
  unfold visible
  rw [List.dropWhile_map]
  rfl

/-- The layer of the block that a symbol was declared in. -/
theorem Denotes.layer {env : List Layer} {name : Name} {symbol : Symbol}
    (denotes : Denotes (env.map (·.rib)) name symbol) : ∃ before layer outer,
      env = before ++ layer :: outer ∧ visible (·.rib.names) name env = layer :: outer ∧
        layer.rib.Declares symbol ∧ symbol.name = name ∧ symbol.level = outer.length := by
  obtain ⟨named, rib, ribs, seen, declares, level⟩ := denotes
  rw [visible_map] at seen
  obtain ⟨layer, outer, here, rfl, rfl⟩ := List.map_eq_cons_iff.mp seen
  obtain ⟨before, split⟩ := List.dropWhile_suffix (l := env)
    fun layer => !(layer.rib.names).contains name
  change before ++ visible (·.rib.names) name env = env at split
  rw [here] at split
  refine ⟨before, layer, outer, split.symm, here, declares, named, ?_⟩
  rw [level, List.length_map]

/-- The machine has a frame for each activation, with the values of its variables, and the
static links lead through the layers. -/
structure Carries (env : List Layer) (m : Memory) (vm : VirtualMachine) : Prop where
  fits : RoomFor m.activations
  current : ∃ layer outer, env = layer :: outer ∧ layer.place + 1 = m.activations.length ∧
    vm.bp = m.base layer.place
  sp : vm.sp = m.sizes.sum
  frameLevel : vm.frameLevel + 1 = m.activations.length
  layers : ∀ layer ∈ env, ∃ a, m.activations[layer.place]? = some a ∧ a.vars = layer.rib.varDecl
  laid : ∀ a ∈ m.activations, Laid a.vars
  cells : ∀ (k : Nat) (a : Activation), m.activations[k]? = some a → ∀ v ∈ a.vars,
    ∀ x, a.value v.ident = some x → vm.stack (m.base k + v.addr) = x
  linked : env.IsChain fun inner outer =>
    vm.stack (m.base inner.place + 1) = m.base outer.place
  input : vm.input = m.input
  output : vm.output = m.output

section Carries

variable {env before outer : List Layer} {layer : Layer} {m m' : Memory}
  {vm vm' : VirtualMachine} {c : CodeContext} {names : List Name} {name : Name}

theorem Carries.staticLink_eq (carries : Carries env m vm) {inner next : Layer}
    (member : inner ∈ env) (link : vm.stack (m.base inner.place + 1) = m.base next.place) :
    staticLink vm (m.base inner.place) = some (m.base next.place) := by
  obtain ⟨a, here, -⟩ := carries.layers inner member
  have inside : 1 < a.words := by
    unfold Activation.words
    omega
  have bounds := Memory.word_inside carries.fits here inside
  rw [staticLink_eq_some bounds, link]

/-- So many static links lead to the activation of the layer. -/
theorem Carries.reaches (carries : Carries env m vm) (split : env = before ++ layer :: outer) :
    base vm before.length vm.bp = .ok (m.base layer.place) := by
  obtain ⟨first, rest, shape, -, bp⟩ := carries.current
  have chain : (env.map fun l => m.base l.place).IsChain fun b next =>
    staticLink vm b = some next := by
    rw [List.isChain_map]
    exact carries.linked.imp_of_mem_imp fun inner next member _ link =>
      carries.staticLink_eq member link
  have there : (env.map fun l => m.base l.place)[before.length]? = some (m.base layer.place) := by
    rw [List.getElem?_map, split, List.getElem?_append_right (Nat.le_refl _), Nat.sub_self]
    rfl
  rw [shape, List.map_cons] at chain there
  rw [bp]
  exact baseLoop_of_follow (StaticChain.follow_of_isChain chain there)

/-- The control words of the frames are as they were. -/
def KeepsFrames (m : Memory) (vm vm' : VirtualMachine) : Prop :=
  ∀ k < m.activations.length, ∀ word : Nat, word < 4 →
    vm'.stack (m.base k + word) = vm.stack (m.base k + word)

theorem KeepsFrames.of_stack (same : vm'.stack = vm.stack) : KeepsFrames m vm vm' := by
  intro k _ word _
  rw [same]

theorem KeepsFrames.trans {vm'' : VirtualMachine} (first : KeepsFrames m vm vm')
    (second : KeepsFrames m vm' vm'') : KeepsFrames m vm vm'' :=
  fun k inside word low => (second k inside word low).trans (first k inside word low)

theorem KeepsFrames.of_shape (keeps : KeepsFrames m vm vm') (same : m'.shape = m.shape) :
    KeepsFrames m' vm vm' := by
  intro k inside word low
  rw [Memory.base_of_shape same]
  exact keeps k (by rwa [Memory.length_of_shape same] at inside) word low

/-- The values of the variables have changed, but the frames are where they were. -/
theorem Carries.moved (carries : Carries env m vm) (shape : m'.shape = m.shape)
    (keeps : KeepsFrames m vm vm') (bp : vm'.bp = vm.bp) (sp : vm'.sp = vm.sp)
    (frameLevel : vm'.frameLevel = vm.frameLevel)
    (cells : ∀ (k : Nat) (a : Activation), m'.activations[k]? = some a → ∀ v ∈ a.vars,
      ∀ x, a.value v.ident = some x → vm'.stack (m.base k + v.addr) = x)
    (input : vm'.input = m'.input) (output : vm'.output = m'.output) : Carries env m' vm' where
  fits := (Memory.roomFor_of_shape shape).mpr carries.fits
  current := by
    obtain ⟨layer, outer, split, last, there⟩ := carries.current
    refine ⟨layer, outer, split, ?_, ?_⟩
    · rw [last, Memory.length_of_shape shape]
    · rw [bp, there, Memory.base_of_shape shape]
  sp := by rw [sp, carries.sp, Memory.sizes_of_shape shape]
  frameLevel := by rw [frameLevel, carries.frameLevel, Memory.length_of_shape shape]
  layers := by
    intro layer member
    obtain ⟨a, here, vars⟩ := carries.layers layer member
    obtain ⟨a', there, same⟩ := Memory.activation_of_shape shape here
    exact ⟨a', there, same.trans vars⟩
  laid := by
    intro a member
    obtain ⟨k, here⟩ := List.getElem?_of_mem member
    obtain ⟨a', there, same⟩ := Memory.activation_of_shape shape.symm here
    rw [← same]
    exact carries.laid a' (List.mem_of_getElem? there)
  cells := by
    intro k a here v member x value
    rw [Memory.base_of_shape shape]
    exact cells k a here v member x value
  linked := carries.linked.imp_of_mem_imp fun inner next member _ link => by
    obtain ⟨a, here, -⟩ := carries.layers inner member
    have kept := keeps inner.place (List.getElem?_eq_some_iff.mp here).1 1 (by decide)
    rw [Memory.base_of_shape shape, Memory.base_of_shape shape]
    exact kept.trans link
  input := input
  output := output

/-- What lies above the frames does not matter. -/
theorem Carries.congr (carries : Carries env m vm)
    (stack : ∀ place ≤ (m.sizes.sum : Int), vm'.stack place = vm.stack place)
    (bp : vm'.bp = vm.bp) (sp : vm'.sp = vm.sp) (frameLevel : vm'.frameLevel = vm.frameLevel)
    (input : vm'.input = vm.input) (output : vm'.output = vm.output) : Carries env m vm' := by
  refine carries.moved rfl ?_ bp sp frameLevel ?_ (input.trans carries.input)
    (output.trans carries.output)
  · intro k inside word low
    have here := List.getElem?_eq_getElem inside
    exact stack _ (Memory.word_lt_top here (Nat.lt_of_lt_of_le low (Nat.le_add_left _ _)))
  · intro k a here v member x value
    obtain ⟨cell, addr, -, inside⟩ := (carries.laid a (List.mem_of_getElem? here)).cell member
    rw [stack _ (by rw [addr]; exact Memory.word_lt_top here inside)]
    exact carries.cells k a here v member x value

/-- A variable gets a value. -/
theorem Carries.set (carries : Carries env m vm) (member : layer ∈ env) {v : VarDeclNode}
    (declared : v ∈ layer.rib.varDecl) {x : Int}
    (stack : vm'.stack = Function.update vm.stack (m.base layer.place + v.addr) x)
    (bp : vm'.bp = vm.bp) (sp : vm'.sp = vm.sp) (frameLevel : vm'.frameLevel = vm.frameLevel)
    (input : vm'.input = vm.input) (output : vm'.output = vm.output) :
    Carries env (m.set layer.place v.ident x) vm' ∧ KeepsFrames m vm vm' := by
  obtain ⟨own, ownHere, ownVars⟩ := carries.layers layer member
  have ownLaid := carries.laid own (List.mem_of_getElem? ownHere)
  rw [← ownVars] at declared
  obtain ⟨cell, addr, low, high⟩ := ownLaid.cell declared
  have keeps : KeepsFrames m vm vm' := by
    intro k inside word small
    have here := List.getElem?_eq_getElem inside
    rw [stack, Function.update_of_ne]
    intro same
    rw [addr] at same
    have word' := (Memory.words_apart here (Nat.lt_of_lt_of_le small (Nat.le_add_left _ _))
      ownHere high same).2
    omega
  refine ⟨carries.moved (Memory.set_shape _ _ _ _) keeps bp sp frameLevel ?_
    (input.trans carries.input) (output.trans carries.output), keeps⟩
  intro k a here w other y value
  rw [Memory.set_activation] at here
  obtain ⟨b, before, rfl⟩ := Option.map_eq_some_iff.mp here
  have laid := carries.laid b (List.mem_of_getElem? before)
  have old : b.value w.ident = some y → w ∈ b.vars → vm.stack (m.base k + w.addr) = y :=
    fun value inside => carries.cells k b before w inside y value
  rw [stack]
  by_cases place : layer.place = k
  · subst place
    rw [ownHere, Option.some.injEq] at before
    subst before
    rw [if_pos rfl] at other value
    have changed : Function.update own.value v.ident (some x) w.ident = some y := value
    by_cases same : w.ident = v.ident
    · rw [same, Function.update_self, Option.some.injEq] at changed
      rw [ownLaid.ext_ident other declared same, Function.update_self, changed]
    · rw [Function.update_of_ne same] at changed
      rw [Function.update_of_ne]
      · exact old changed other
      · intro equal
        exact same (congrArg _ (ownLaid.ext_addr other declared (Int.add_left_cancel equal)))
  · rw [if_neg place] at other value
    obtain ⟨cell', addr', -, high'⟩ := laid.cell other
    rw [Function.update_of_ne]
    · exact old value other
    · intro equal
      rw [addr, addr'] at equal
      exact place (Memory.words_apart before high' ownHere high equal).1.symm

/-- A call: the new frame lies above the others, and is linked to the one of the layer that
declares the procedure. -/
theorem Carries.enter (carries : Carries env m vm) (split : env = before ++ layer :: outer)
    {known : List Procedure} {p : Procedure} (fits : RoomFor (m.enter p.body.varDecl).activations)
    (laid : Laid p.body.varDecl)
    (stack : ∀ place ≤ (m.sizes.sum : Int), vm'.stack place = vm.stack place)
    (link : vm'.stack (m.sizes.sum + 2) = m.base layer.place)
    (bp : vm'.bp = m.sizes.sum + 1) (sp : vm'.sp = vm.sp + (p.body.varDecl.length + 4))
    (frameLevel : vm'.frameLevel = vm.frameLevel + 1)
    (input : vm'.input = vm.input) (output : vm'.output = vm.output) :
    Carries (called layer outer known p m.activations.length) (m.enter p.body.varDecl) vm' where
  fits := fits
  current := by
    refine ⟨_, _, rfl, ?_, ?_⟩
    · unfold Memory.enter
      rw [List.length_append]
      rfl
    · rw [bp, Memory.enter_base_new]
  sp := by
    rw [sp, carries.sp, Memory.enter_sizes, List.sum_append, List.sum_singleton]
    omega
  frameLevel := by
    rw [frameLevel, carries.frameLevel]
    unfold Memory.enter
    rw [List.length_append]
    rfl
  layers := by
    have old : ∀ l ∈ layer :: outer, ∃ a, (m.enter p.body.varDecl).activations[l.place]? = some a ∧
        a.vars = l.rib.varDecl := by
      intro l member
      obtain ⟨a, here, vars⟩ := carries.layers l (by
        rw [split]
        exact List.mem_append_right _ member)
      refine ⟨a, ?_, vars⟩
      unfold Memory.enter
      rw [List.getElem?_append_left (List.getElem?_eq_some_iff.mp here).1, here]
    intro l member
    rcases List.mem_cons.mp member with rfl | around
    · refine ⟨⟨p.body.varDecl, fun _ => none⟩, ?_, rfl⟩
      unfold Memory.enter
      rw [List.getElem?_append_right (Nat.le_refl _), Nat.sub_self]
      rfl
    · rcases List.mem_cons.mp around with rfl | further
      · exact old layer List.mem_cons_self
      · exact old l (List.mem_cons_of_mem _ further)
  laid := by
    intro a member
    rcases List.mem_append.mp member with old | new
    · exact carries.laid a old
    · rw [List.mem_singleton.mp new]
      exact laid
  cells := by
    intro k a here v member x value
    unfold Memory.enter at here
    by_cases older : k < m.activations.length
    · rw [List.getElem?_append_left older] at here
      obtain ⟨cell, addr, -, inside⟩ := (carries.laid a (List.mem_of_getElem? here)).cell member
      rw [Memory.enter_base _ (Nat.le_of_lt older),
        stack _ (by rw [addr]; exact Memory.word_lt_top here inside)]
      exact carries.cells k a here v member x value
    · rw [List.getElem?_append_right (by omega)] at here
      rw [List.mem_singleton.mp (List.mem_of_getElem? here)] at value
      cases value
  linked := by
    have suffix : (layer :: outer).IsChain fun inner next =>
        vm.stack (m.base inner.place + 1) = m.base next.place :=
      carries.linked.suffix ⟨before, split.symm⟩
    have place : ∀ l ∈ layer :: outer, l.place < m.activations.length := by
      intro l member
      obtain ⟨a, here, -⟩ := carries.layers l (by
        rw [split]
        exact List.mem_append_right _ member)
      exact (List.getElem?_eq_some_iff.mp here).1
    have moved : (layer :: outer).IsChain fun inner next =>
        vm'.stack ((m.enter p.body.varDecl).base inner.place + 1) =
          (m.enter p.body.varDecl).base next.place := by
      refine suffix.imp_of_mem_imp fun inner next member member' old => ?_
      have here := List.getElem?_eq_getElem (place inner member)
      have below : m.base inner.place + 1 ≤ m.sizes.sum :=
        Memory.word_lt_top here (Nat.lt_of_lt_of_le (by decide : 1 < 4) (Nat.le_add_left _ _))
      rw [Memory.enter_base _ (Nat.le_of_lt (place inner member)),
        Memory.enter_base _ (Nat.le_of_lt (place next member')), stack _ below]
      exact old
    refine List.isChain_cons_cons.mpr ⟨?_, List.isChain_cons.mpr (List.isChain_cons.mp moved)⟩
    have new := Memory.enter_base_new m p.body.varDecl
    have older := Memory.enter_base (m := m) p.body.varDecl
      (Nat.le_of_lt (place layer List.mem_cons_self))
    change vm'.stack ((m.enter p.body.varDecl).base m.activations.length + 1) =
      (m.enter p.body.varDecl).base layer.place
    rw [new, older, Int.add_assoc]
    exact link
  input := input.trans carries.input
  output := output.trans carries.output

/-- The way back: the frames of the caller are as they were, with the values that the callee
left. -/
theorem Carries.leave {env' : List Layer} {vars : List VarDeclNode} {vm'' : VirtualMachine}
    (carries : Carries env m vm) (inner : Carries env' m' vm')
    (shape : m'.shape = (m.enter vars).shape) (keeps : KeepsFrames m vm vm')
    (stack : vm''.stack = vm'.stack) (bp : vm''.bp = vm.bp) (sp : vm''.sp = vm.sp)
    (frameLevel : vm''.frameLevel = vm.frameLevel)
    (input : vm''.input = vm'.input) (output : vm''.output = vm'.output) :
    Carries env m'.leave vm'' := by
  have same : m'.leave.shape = m.shape := by
    rw [Memory.leave_shape, shape, Memory.enter_shape, List.dropLast_concat]
  have kept : KeepsFrames m vm vm'' := keeps.trans (.of_stack stack)
  refine carries.moved same kept bp sp frameLevel ?_ (input.trans inner.input)
    (output.trans inner.output)
  intro k a here v member x value
  have inside : k < m.activations.length := by
    rw [← Memory.length_of_shape same]
    exact (List.getElem?_eq_some_iff.mp here).1
  have there : m'.activations[k]? = some a := by
    unfold Memory.leave at here
    rw [List.getElem?_dropLast] at here
    split at here
    · exact here
    · cases here
  have place : m'.base k = m.base k := by
    rw [Memory.base_of_shape shape, Memory.enter_base vars (Nat.le_of_lt inside)]
  rw [stack, ← place]
  exact inner.cells k a there v member x value

end Carries

end Pl0
