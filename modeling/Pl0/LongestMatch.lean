import Mathlib.Data.List.Basic

set_option autoImplicit false

/- Splitting a text into the longest words of a language. Nothing here depends
on the language. -/
namespace LongestMatch

variable {α : Type} {language : List α → Prop}

/-- `word` is the longest word of `language` that `word ++ rest` starts with. -/
structure Longest (language : List α → Prop) (word rest : List α) : Prop where
  accepted : language word
  nonempty : word ≠ []
  longest : ∀ longer shorter, word ++ rest = longer ++ shorter → language longer →
    longer.length ≤ word.length

/-- The maximal-munch tokenization: cut off the longest word, over and over. -/
inductive Tokenizes (language : List α → Prop) : List α → List (List α) → Prop
  | nil : Tokenizes language [] []
  | cons {word rest : List α} {words : List (List α)} (longest : Longest language word rest)
      (others : Tokenizes language rest words) :
      Tokenizes language (word ++ rest) (word :: words)

/-- The longest word cannot be extended inside the text. -/
theorem Longest.not_extends {word rest more : List α} (longest : Longest language word rest)
    {next : α} (whole : rest = next :: more) : ¬ language (word ++ [next]) := by
  intro extended
  have bound :=
    longest.longest (word ++ [next]) more (by rw [whole, List.append_assoc]; rfl) extended
  rw [List.length_append] at bound
  exact absurd bound (by simp)

/-- A word is the longest one where it cannot go on with what comes next. -/
theorem longest_of_ends {word rest : List α} (accepted : language word) (nonempty : word ≠ [])
    (ends : ∀ next ∈ rest.head?, ∀ more, ¬ language (word ++ next :: more)) :
    Longest language word rest where
  accepted := accepted
  nonempty := nonempty
  longest := by
    intro longer shorter same longerAccepted
    obtain ⟨more, rfl, behind⟩ | ⟨less, rfl, -⟩ := List.append_eq_append_iff.mp same
    · cases more with
      | nil => simp
      | cons next more =>
          have first : next ∈ rest.head? := by simp [behind]
          exact absurd longerAccepted (ends next first more)
    · simp

theorem Tokenizes.flatten {text : List α} {words : List (List α)}
    (tokenizes : Tokenizes language text words) : words.flatten = text := by
  induction tokenizes with
  | nil => rfl
  | cons _ _ ih => rw [List.flatten_cons, ih]

/-- A text has one maximal-munch tokenization. -/
theorem Tokenizes.unique {text : List α} {first second : List (List α)}
    (one : Tokenizes language text first) (two : Tokenizes language text second) :
    first = second := by
  induction one generalizing second with
  | nil =>
      generalize whole : ([] : List α) = text at two
      cases two with
      | nil => rfl
      | cons longest _ =>
          have empty := (List.append_eq_nil_iff.mp whole.symm).1
          exact absurd empty longest.nonempty
  | @cons word rest words longest others ih =>
      generalize whole : word ++ rest = text at two
      cases two with
      | nil =>
          have empty := (List.append_eq_nil_iff.mp whole).1
          exact absurd empty longest.nonempty
      | @cons word' rest' words' longest' others' =>
          have atMost := longest'.longest word rest whole.symm longest.accepted
          have atLeast := longest.longest word' rest' whole longest'.accepted
          obtain ⟨rfl, rfl⟩ := List.append_inj whole (Nat.le_antisymm atMost atLeast)
          rw [ih others']

end LongestMatch
