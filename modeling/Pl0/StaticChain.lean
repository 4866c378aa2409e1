import Mathlib.Data.List.Basic

set_option autoImplicit false

/- Activations of nested blocks that are linked to an activation of the block around
them. Activations are known by a place, and blocks by a key; nothing here depends on
either, or on the machine that keeps the links. -/

namespace StaticChain

variable {ν κ : Type}

/-- Follow `n` links. -/
def follow (link : ν → Option ν) : Nat → ν → Option ν
  | 0, b => some b
  | n + 1, b => (link b).bind (follow link n)

/-- The links from `b` on lead through live activations of the blocks of a chain. -/
inductive Display (link : ν → Option ν) (live : List (ν × κ)) : ν → List κ → Prop
  | outermost {b : ν} {k : κ} (here : (b, k) ∈ live) : Display link live b [k]
  | nested {b next : ν} {k : κ} {chain : List κ} (here : (b, k) ∈ live)
      (linked : link b = some next) (outer : Display link live next chain) :
      Display link live b (k :: chain)

/-- Every activation has its display among itself and the older ones. A block is known
by its chain, which is one of `chains`. -/
def Nested (link : ν → Option ν) (chains : List (List κ)) : List (ν × κ) → Prop
  | [] => True
  | (b, k) :: older =>
      (∃ chain ∈ chains, chain.head? = some k ∧ Display link ((b, k) :: older) b chain) ∧
        Nested link chains older

variable {link link' : ν → Option ν} {live live' : List (ν × κ)} {chains : List (List κ)}

theorem Display.here {b : ν} {chain : List κ} (display : Display link live b chain) :
    ∃ k, chain.head? = some k ∧ (b, k) ∈ live := by
  cases display with
  | outermost here => exact ⟨_, rfl, here⟩
  | nested here => exact ⟨_, rfl, here⟩

theorem Display.mono {b : ν} {chain : List κ} (display : Display link live b chain)
    (grows : ∀ a ∈ live, a ∈ live') (same : ∀ a ∈ live, link' a.1 = link a.1) :
    Display link' live' b chain := by
  induction display with
  | outermost here => exact .outermost (grows _ here)
  | nested here linked _ ih => exact .nested (grows _ here) ((same _ here).trans linked) ih

/-- The `n`-th link leads to an activation of the `n`-th block of the chain. -/
theorem Display.follow {b : ν} {chain : List κ} (display : Display link live b chain) {n : Nat}
    (inside : n < chain.length) : ∃ b' k, StaticChain.follow link n b = some b' ∧ (b', k) ∈ live ∧
      chain[n]? = some k ∧ Display link live b' (chain.drop n) := by
  induction n generalizing b chain with
  | zero =>
      obtain ⟨k, head, here⟩ := display.here
      refine ⟨b, k, rfl, here, ?_, display⟩
      rw [← head, List.head?_eq_getElem?]
  | succ n ih =>
      cases display with
      | outermost here =>
          rw [List.length_singleton] at inside
          omega
      | nested here linked outer =>
          rw [List.length_cons] at inside
          obtain ⟨b', k, followed, there, key, rest⟩ := ih outer (by omega)
          refine ⟨b', k, ?_, there, key, rest⟩
          rw [StaticChain.follow, linked]
          exact followed

/-- Places that are linked one to the next. -/
theorem follow_of_isChain {places : List ν} {b b' : ν} {n : Nat}
    (linked : (b :: places).IsChain fun a next => link a = some next)
    (there : (b :: places)[n]? = some b') : follow link n b = some b' := by
  induction n generalizing b places with
  | zero => exact there
  | succ n ih =>
      cases places with
      | nil => cases there
      | cons next rest =>
          obtain ⟨here, behind⟩ := List.isChain_cons_cons.mp linked
          rw [follow, here]
          exact ih behind there

/-- Inside the chain only the links of live activations are followed. -/
theorem Display.follow_congr {b : ν} {chain : List κ}
    (display : Display link live b chain) {n : Nat}
    (inside : n < chain.length) (same : ∀ a ∈ live, link' a.1 = link a.1) :
    StaticChain.follow link' n b = StaticChain.follow link n b := by
  induction n generalizing b chain with
  | zero => rfl
  | succ n ih =>
      cases display with
      | outermost here =>
          rw [List.length_singleton] at inside
          omega
      | nested here linked outer =>
          rw [List.length_cons] at inside
          have rest := ih outer (by omega)
          rw [StaticChain.follow, StaticChain.follow, same _ here, linked]
          exact rest

theorem Nested.congr (nested : Nested link chains live) (same : ∀ a ∈ live, link' a.1 = link a.1) :
    Nested link' chains live := by
  induction live with
  | nil => trivial
  | cons a older ih =>
      obtain ⟨⟨chain, member, head, display⟩, below⟩ := nested
      exact ⟨⟨chain, member, head, display.mono (fun _ => id) same⟩,
        ih below fun a older => same a (List.mem_cons_of_mem _ older)⟩

theorem Nested.display (nested : Nested link chains live) {b : ν} {k : κ} (here : (b, k) ∈ live) :
    ∃ chain ∈ chains, chain.head? = some k ∧ Display link live b chain := by
  induction live with
  | nil => cases here
  | cons a older ih =>
      rcases List.mem_cons.mp here with rfl | below
      · exact nested.1
      · obtain ⟨chain, member, head, display⟩ := ih nested.2 below
        exact ⟨chain, member, head, display.mono (fun _ => List.mem_cons_of_mem _) fun _ _ => rfl⟩

/-- A call from `b` into a block that lies in the `n`-th block around the caller: the new
activation is linked to where `n` links lead. -/
theorem Nested.call (nested : Nested link chains live) {b new : ν} {k : κ} {chain : List κ}
    (caller : Display link live b chain) {n : Nat} (inside : n < chain.length)
    (declared : k :: chain.drop n ∈ chains) (linked : link' new = follow link n b)
    (same : ∀ a ∈ live, link' a.1 = link a.1) : Nested link' chains ((new, k) :: live) := by
  refine ⟨⟨k :: chain.drop n, declared, rfl, ?_⟩, nested.congr same⟩
  obtain ⟨b', _, followed, -, -, outer⟩ := caller.follow inside
  exact .nested List.mem_cons_self (linked.trans followed)
    (outer.mono (fun _ => List.mem_cons_of_mem _) same)

end StaticChain
