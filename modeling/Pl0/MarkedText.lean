import Mathlib.Data.List.Basic

set_option autoImplicit false

/- Texts whose symbols are marked with the role they play, and what becomes of them when
symbols are replaced as their roles permit. Nothing here depends on the symbols or on the
roles. -/
namespace MarkedText

variable {α μ : Type}

/-- `permits mark symbol alt next`: a symbol with this mark may be replaced by `alt` in
front of `next`. -/
abbrev Permits (α μ : Type) := μ → α → List α → List α → Prop

/-- The text is a marked text with some of its symbols replaced, in front of `rest`. -/
inductive Rewrites (permits : Permits α μ) : List (α × μ) → List α → List α → Prop
  | nil (rest : List α) : Rewrites permits [] [] rest
  | cons {symbol : α} {mark : μ} {marked : List (α × μ)} {alt text rest : List α}
      (permitted : permits mark symbol alt (text ++ rest))
        (others : Rewrites permits marked text rest) :
      Rewrites permits ((symbol, mark) :: marked) (alt ++ text) rest

variable {permits : Permits α μ} {marked first second : List (α × μ)} {text rest : List α}

theorem rewrites_nil : Rewrites permits [] text rest ↔ text = [] := by
  constructor
  · intro rewrites
    cases rewrites
    rfl
  · rintro rfl
    exact .nil rest

theorem rewrites_cons {symbol : α} {mark : μ} :
    Rewrites permits ((symbol, mark) :: marked) text rest ↔
    ∃ alt later, text = alt ++ later ∧ permits mark symbol alt (later ++ rest) ∧
      Rewrites permits marked later rest := by
  constructor
  · intro rewrites
    cases rewrites with
    | cons permitted others => exact ⟨_, _, rfl, permitted, others⟩
  · rintro ⟨alt, later, rfl, permitted, others⟩
    exact .cons permitted others

theorem rewrites_append : Rewrites permits (first ++ second) text rest ↔
    ∃ before after, text = before ++ after ∧ Rewrites permits first before (after ++ rest) ∧
      Rewrites permits second after rest := by
  induction first generalizing text with
  | nil =>
      simp only [List.nil_append, rewrites_nil]
      constructor
      · intro rewrites
        exact ⟨[], text, rfl, rfl, rewrites⟩
      · rintro ⟨before, after, rfl, rfl, rewrites⟩
        exact rewrites
  | cons pair first ih =>
      obtain ⟨symbol, mark⟩ := pair
      rw [List.cons_append, rewrites_cons]
      constructor
      · rintro ⟨alt, later, rfl, permitted, others⟩
        obtain ⟨before, after, rfl, left, right⟩ := ih.mp others
        refine ⟨alt ++ before, after, (List.append_assoc _ _ _).symm, .cons ?_ left, right⟩
        rw [← List.append_assoc]
        exact permitted
      · rintro ⟨before, after, rfl, left, right⟩
        obtain ⟨alt, later, rfl, permitted, others⟩ := rewrites_cons.mp left
        refine ⟨alt, later ++ after, List.append_assoc _ _ _, ?_,
          ih.mpr ⟨later, after, rfl, others, right⟩⟩
        rw [List.append_assoc]
        exact permitted

/-- Where only the symbol itself is permitted, nothing is replaced. -/
theorem Rewrites.exact
    (keeps : ∀ mark symbol alt next, permits mark symbol alt next → alt = [symbol])
    (rewrites : Rewrites permits marked text rest) : text = marked.map Prod.fst := by
  induction rewrites with
  | nil rest => rfl
  | cons permitted others ih =>
      rw [keeps _ _ _ _ permitted, ih]
      rfl

/-- Where the symbol itself is always permitted, a text may stay as it is. -/
theorem rewrites_same (keeps : ∀ mark symbol next, permits mark symbol [symbol] next)
    (marked : List (α × μ)) (rest : List α) : Rewrites permits marked
      (marked.map Prod.fst) rest := by
  induction marked with
  | nil => exact .nil rest
  | cons pair marked ih => exact .cons (keeps _ _ _) ih

theorem Rewrites.mono {permits' : Permits α μ}
    (more : ∀ mark symbol alt next, permits mark symbol alt next → permits' mark symbol alt next)
    (rewrites : Rewrites permits marked text rest) : Rewrites permits' marked text rest := by
  induction rewrites with
  | nil rest => exact .nil rest
  | cons permitted others ih => exact .cons (more _ _ _ _ permitted) ih

section Counts

variable {counts : α → Bool}

/-- Replacements that keep a count keep it in the text. -/
theorem Rewrites.countP_same (rewrites : Rewrites permits marked text rest)
    (same : ∀ pair ∈ marked, ∀ alt next, permits pair.2 pair.1 alt next →
      alt.countP counts = [pair.1].countP counts) :
    text.countP counts = (marked.map Prod.fst).countP counts := by
  induction rewrites with
  | nil rest => rfl
  | @cons symbol mark marked alt text rest permitted others ih =>
      obtain ⟨here, later⟩ := List.forall_mem_cons.mp same
      rw [List.countP_append, here _ _ permitted, ih later, ← List.countP_append]
      rfl

/-- Where each replacement lowers a count, a text is the same or counts less. -/
theorem Rewrites.countP_lower (rewrites : Rewrites permits marked text rest)
    (lower : ∀ pair ∈ marked, ∀ alt next, permits pair.2 pair.1 alt next →
      alt = [pair.1] ∨ alt.countP counts < [pair.1].countP counts) :
    text = marked.map Prod.fst ∨ text.countP counts < (marked.map Prod.fst).countP counts := by
  induction rewrites with
  | nil rest => exact .inl rfl
  | @cons symbol mark marked alt text rest permitted others ih =>
      obtain ⟨here, later⟩ := List.forall_mem_cons.mp lower
      have whole : ((symbol, mark) :: marked).map Prod.fst = [symbol] ++ marked.map Prod.fst := rfl
      rw [whole, List.countP_append, List.countP_append]
      have first : alt = [symbol] ∨ alt.countP counts < [symbol].countP counts := here _ _ permitted
      rcases first with rfl | less
      · rcases ih later with rfl | less'
        · exact .inl rfl
        · exact .inr (by omega)
      · have most : text.countP counts ≤ (marked.map Prod.fst).countP counts := by
          rcases ih later with rfl | less'
          · exact Nat.le_refl _
          · exact Nat.le_of_lt less'
        exact .inr (by omega)

end Counts

/-- One symbol of the text is replaced. -/
def Edited (permits : Permits α μ) (marked : List (α × μ)) (text : List α) : Prop :=
  ∃ before symbol mark after alt, marked = before ++ (symbol, mark) :: after ∧
    text = before.map Prod.fst ++ alt ++ after.map Prod.fst ∧
    permits mark symbol alt (after.map Prod.fst)

theorem Edited.mono {permits' : Permits α μ}
    (more : ∀ mark symbol alt next, permits mark symbol alt next → permits' mark symbol alt next)
    (edited : Edited permits marked text) : Edited permits' marked text := by
  obtain ⟨before, symbol, mark, after, alt, parts, same, permitted⟩ := edited
  exact ⟨before, symbol, mark, after, alt, parts, same, more _ _ _ _ permitted⟩

theorem Edited.rewrites (keeps : ∀ mark symbol next, permits mark symbol [symbol] next)
    (edited : Edited permits marked text) : Rewrites permits marked text [] := by
  obtain ⟨before, symbol, mark, after, alt, rfl, rfl, permitted⟩ := edited
  rw [List.append_assoc]
  refine rewrites_append.mpr ⟨_, _, rfl, rewrites_same keeps before _, .cons ?_ ?_⟩
  · rw [List.append_nil]
    exact permitted
  · exact rewrites_same keeps after []

end MarkedText
