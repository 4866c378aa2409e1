import Mathlib.Data.List.Basic

set_option autoImplicit false

/- Grammars whose productions are EBNF expressions. Nothing here depends on the terminals,
the nonterminals or the symbols of the texts. -/
namespace Ebnf

inductive Expr (T N : Type)
  | terminal (t : T)
  | nonterminal (n : N)
  | sequence (parts : List (Expr T N))
  | oneOf (choices : List (Expr T N))
  | optional (body : Expr T N)
  | many (body : Expr T N)

variable {T N α : Type}

/-- What an expression stands for when `fits` says which symbols a terminal stands for, and
`P` which texts a nonterminal stands for. -/
inductive Holds (fits : T → α → Prop) (P : N → List α → Prop) : Expr T N → List α → Prop
  | terminal {t : T} {a : α} (fit : fits t a) : Holds fits P (.terminal t) [a]
  | nonterminal {n : N} {text : List α} (is : P n text) : Holds fits P (.nonterminal n) text
  | sequenceNil : Holds fits P (.sequence []) []
  | sequenceCons {part : Expr T N} {parts : List (Expr T N)} {first rest : List α}
      (head : Holds fits P part first) (tail : Holds fits P (.sequence parts) rest) :
      Holds fits P (.sequence (part :: parts)) (first ++ rest)
  | oneOf {choices : List (Expr T N)} {choice : Expr T N} {text : List α}
      (member : choice ∈ choices) (chosen : Holds fits P choice text) :
      Holds fits P (.oneOf choices) text
  | optionalNone {body : Expr T N} : Holds fits P (.optional body) []
  | optionalSome {body : Expr T N} {text : List α} (present : Holds fits P body text) :
      Holds fits P (.optional body) text
  | manyNil {body : Expr T N} : Holds fits P (.many body) []
  | manyCons {body : Expr T N} {first rest : List α} (head : Holds fits P body first)
      (tail : Holds fits P (.many body) rest) : Holds fits P (.many body) (first ++ rest)

/-- The texts of the nonterminals of a grammar: the least ones that its productions close. -/
inductive Derives (fits : T → α → Prop) (rules : N → Expr T N) : Expr T N → List α → Prop
  | terminal {t : T} {a : α} (fit : fits t a) : Derives fits rules (.terminal t) [a]
  | nonterminal {n : N} {text : List α} (body : Derives fits rules (rules n) text) :
      Derives fits rules (.nonterminal n) text
  | sequenceNil : Derives fits rules (.sequence []) []
  | sequenceCons {part : Expr T N} {parts : List (Expr T N)} {first rest : List α}
      (head : Derives fits rules part first) (tail : Derives fits rules (.sequence parts) rest) :
      Derives fits rules (.sequence (part :: parts)) (first ++ rest)
  | oneOf {choices : List (Expr T N)} {choice : Expr T N} {text : List α}
      (member : choice ∈ choices) (chosen : Derives fits rules choice text) :
      Derives fits rules (.oneOf choices) text
  | optionalNone {body : Expr T N} : Derives fits rules (.optional body) []
  | optionalSome {body : Expr T N} {text : List α} (present : Derives fits rules body text) :
      Derives fits rules (.optional body) text
  | manyNil {body : Expr T N} : Derives fits rules (.many body) []
  | manyCons {body : Expr T N} {first rest : List α} (head : Derives fits rules body first)
      (tail : Derives fits rules (.many body) rest) :
      Derives fits rules (.many body) (first ++ rest)

variable {fits : T → α → Prop} {rules : N → Expr T N} {P : N → List α → Prop}

/-- The induction rule of a grammar: whatever the productions close holds of the texts. -/
theorem Derives.holds (closed : ∀ n text, Holds fits P (rules n) text → P n text) {e : Expr T N}
    {text : List α} (derives : Derives fits rules e text) : Holds fits P e text := by
  induction derives with
  | terminal fit => exact .terminal fit
  | nonterminal body ih => exact .nonterminal (closed _ _ ih)
  | sequenceNil => exact .sequenceNil
  | sequenceCons head tail ihHead ihTail => exact .sequenceCons ihHead ihTail
  | oneOf member chosen ih => exact .oneOf member ih
  | optionalNone => exact .optionalNone
  | optionalSome present ih => exact .optionalSome ih
  | manyNil => exact .manyNil
  | manyCons head tail ihHead ihTail => exact .manyCons ihHead ihTail

/-- The nonterminals of a derivation may be derived apart. -/
theorem Holds.derives (derived : ∀ n text, P n text → Derives fits rules (.nonterminal n) text)
    {e : Expr T N} {text : List α} (holds : Holds fits P e text) : Derives fits rules e text := by
  induction holds with
  | terminal fit => exact .terminal fit
  | nonterminal is => exact derived _ _ is
  | sequenceNil => exact .sequenceNil
  | sequenceCons head tail ihHead ihTail => exact .sequenceCons ihHead ihTail
  | oneOf member chosen ih => exact .oneOf member ih
  | optionalNone => exact .optionalNone
  | optionalSome present ih => exact .optionalSome ih
  | manyNil => exact .manyNil
  | manyCons head tail ihHead ihTail => exact .manyCons ihHead ihTail

/-- A text derived from its rewriting, when no terminal tells a symbol from its image. -/
theorem Derives.of_map {f : α → α} (same : ∀ t a, fits t (f a) → fits t a) {e : Expr T N}
    {text : List α} (derives : Derives fits rules e (text.map f)) : Derives fits rules e text := by
  generalize whole : text.map f = image at derives
  induction derives generalizing text with
  | terminal fit =>
      obtain ⟨a, rfl, rfl⟩ := List.map_eq_singleton_iff.mp whole
      exact .terminal (same _ _ fit)
  | nonterminal body ih => exact .nonterminal (ih whole)
  | sequenceNil =>
      rw [List.map_eq_nil_iff.mp whole]
      exact .sequenceNil
  | sequenceCons head tail ihHead ihTail =>
      obtain ⟨first, rest, rfl, left, right⟩ := List.map_eq_append_iff.mp whole
      exact .sequenceCons (ihHead left) (ihTail right)
  | oneOf member chosen ih => exact .oneOf member (ih whole)
  | optionalNone =>
      rw [List.map_eq_nil_iff.mp whole]
      exact .optionalNone
  | optionalSome present ih => exact .optionalSome (ih whole)
  | manyNil =>
      rw [List.map_eq_nil_iff.mp whole]
      exact .manyNil
  | manyCons head tail ihHead ihTail =>
      obtain ⟨first, rest, rfl, left, right⟩ := List.map_eq_append_iff.mp whole
      exact .manyCons (ihHead left) (ihTail right)

theorem holds_terminal {t : T} {text : List α} :
    Holds fits P (.terminal t) text ↔ ∃ a, text = [a] ∧ fits t a := by
  constructor
  · intro holds
    cases holds with
    | terminal fit => exact ⟨_, rfl, fit⟩
  · rintro ⟨a, rfl, fit⟩
    exact .terminal fit

theorem holds_nonterminal {n : N} {text : List α} :
    Holds fits P (.nonterminal n) text ↔ P n text := by
  constructor
  · intro holds
    cases holds with
    | nonterminal is => exact is
  · exact .nonterminal

theorem holds_sequence_nil {text : List α} : Holds fits P (.sequence []) text ↔ text = [] := by
  constructor
  · intro holds
    cases holds
    rfl
  · rintro rfl
    exact .sequenceNil

theorem holds_sequence_cons {part : Expr T N} {parts : List (Expr T N)} {text : List α} :
    Holds fits P (.sequence (part :: parts)) text ↔ ∃ first rest, text = first ++ rest ∧
      Holds fits P part first ∧ Holds fits P (.sequence parts) rest := by
  constructor
  · intro holds
    cases holds with
    | sequenceCons head tail => exact ⟨_, _, rfl, head, tail⟩
  · rintro ⟨first, rest, rfl, head, tail⟩
    exact .sequenceCons head tail

theorem holds_oneOf {choices : List (Expr T N)} {text : List α} :
    Holds fits P (.oneOf choices) text ↔ ∃ choice ∈ choices, Holds fits P choice text := by
  constructor
  · intro holds
    cases holds with
    | oneOf member chosen => exact ⟨_, member, chosen⟩
  · rintro ⟨choice, member, chosen⟩
    exact .oneOf member chosen

theorem holds_optional {body : Expr T N} {text : List α} :
    Holds fits P (.optional body) text ↔ text = [] ∨ Holds fits P body text := by
  constructor
  · intro holds
    cases holds with
    | optionalNone => exact .inl rfl
    | optionalSome present => exact .inr present
  · rintro (rfl | present)
    · exact .optionalNone
    · exact .optionalSome present

theorem holds_many {body : Expr T N} {text : List α} : Holds fits P (.many body) text ↔
    ∃ texts : List (List α), text = texts.flatten ∧ ∀ part ∈ texts, Holds fits P body part := by
  constructor
  · intro holds
    generalize whole : Expr.many body = e at holds
    induction holds with
    | manyNil => exact ⟨[], rfl, by simp⟩
    | manyCons head tail _ ih =>
        cases whole
        obtain ⟨texts, rfl, parts⟩ := ih rfl
        exact ⟨_ :: texts, rfl, List.forall_mem_cons.mpr ⟨head, parts⟩⟩
    | _ => cases whole
  · rintro ⟨texts, rfl, parts⟩
    induction texts with
    | nil => exact .manyNil
    | cons first texts ih =>
        obtain ⟨head, others⟩ := List.forall_mem_cons.mp parts
        exact .manyCons head (ih others)

end Ebnf
