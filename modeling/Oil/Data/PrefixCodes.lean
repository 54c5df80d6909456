import Mathlib.Data.List.Infix
import Mathlib.Data.Set.Defs

namespace Oil.Data

/-! # Prefix codes

No word of a prefix code begins another one, so symbols whose words are written one after the
other can be told apart.  The same holds of words with a separator between them, where the words
with the separator behind them are a prefix code. -/

variable {σ α : Type}

structure PrefixCode (symbols : Set σ) (code : σ → List α) : Prop where
  nonempty : ∀ symbol ∈ symbols, code symbol ≠ []
  apart : ∀ front ∈ symbols, ∀ symbol ∈ symbols, code front <+: code symbol → front = symbol

variable {symbols : Set σ} {code : σ → List α} {text text' : List σ}

theorem PrefixCode.flatMap_inj (prefixes : PrefixCode symbols code) (inside : ∀ symbol ∈ text, symbol ∈ symbols)
    (inside' : ∀ symbol ∈ text', symbol ∈ symbols) (same : text.flatMap code = text'.flatMap code) : text = text' := by
  induction text generalizing text' with
  | nil =>
      cases text' with
      | nil => rfl
      | cons first rest =>
          have empty : code first = [] := (List.append_eq_nil_iff.mp same.symm).1
          exact absurd empty (prefixes.nonempty first (inside' first (.head _)))
  | cons first rest ih =>
      obtain ⟨firstIn, restIn⟩ := List.forall_mem_cons.mp inside
      cases text' with
      | nil =>
          have empty : code first = [] := (List.append_eq_nil_iff.mp same).1
          exact absurd empty (prefixes.nonempty first firstIn)
      | cons first' rest' =>
          obtain ⟨firstIn', restIn'⟩ := List.forall_mem_cons.mp inside'
          rw [List.flatMap_cons, List.flatMap_cons] at same
          have begins : first = first' := by
            rcases List.prefix_or_prefix_of_prefix (List.prefix_append (code first) (rest.flatMap code))
              (same ▸ List.prefix_append (code first') (rest'.flatMap code)) with shorter | longer
            · exact prefixes.apart first firstIn first' firstIn' shorter
            · exact (prefixes.apart first' firstIn' first firstIn longer).symm
          subst begins
          rw [ih restIn restIn' (List.append_cancel_left same)]

theorem intercalate_append_separator (separator : α) {words : List (List α)} (nonempty : words ≠ []) :
    [separator].intercalate words ++ [separator] = words.flatMap (· ++ [separator]) := by
  induction words with
  | nil => contradiction
  | cons first rest ih =>
      cases rest with
      | nil => simp
      | cons second rest =>
          rw [List.flatMap_cons, ← ih (List.cons_ne_nil second rest), List.intercalate_cons_cons]
          simp only [List.append_assoc]

/-- Joining the words is injective where they are a prefix code with the separator behind them. -/
theorem PrefixCode.intercalate_inj {separator : α}
    (prefixes : PrefixCode symbols fun symbol => code symbol ++ [separator]) (nonempty : text ≠ [])
    (nonempty' : text' ≠ []) (inside : ∀ symbol ∈ text, symbol ∈ symbols)
    (inside' : ∀ symbol ∈ text', symbol ∈ symbols)
    (same : [separator].intercalate (text.map code) = [separator].intercalate (text'.map code)) : text = text' := by
  have written {text : List σ} (nonempty : text ≠ []) :
      [separator].intercalate (text.map code) ++ [separator] =
        text.flatMap fun symbol => code symbol ++ [separator] := by
    rw [intercalate_append_separator separator (by simpa using nonempty), List.flatMap_map]
  refine prefixes.flatMap_inj inside inside' ?_
  rw [← written nonempty, ← written nonempty', same]

end Oil.Data
