import Mathlib.Data.List.Basic

namespace Oil.Data

/-! # Words between blanks

The words of a text are its longest pieces without blanks, in their order. -/

variable {α : Type} {isBlank : α → Bool} {text word rest : List α} {c : α}

def wordsBetween (isBlank : α → Bool) (text : List α) : List (List α) := (text.splitOnP isBlank).filter (· ≠ [])

@[simp] theorem wordsBetween_nil : wordsBetween isBlank [] = [] := by simp [wordsBetween]

theorem wordsBetween_blank (blank : isBlank c = true) :
    wordsBetween isBlank (c :: rest) = wordsBetween isBlank rest := by
  have front := List.splitOnP_append_cons [] rest blank
  rw [List.nil_append] at front
  rw [wordsBetween, front, List.filter_append]
  simp [wordsBetween]

theorem wordsBetween_dropWhile (text : List α) :
    wordsBetween isBlank (text.dropWhile isBlank) = wordsBetween isBlank text := by
  induction text with
  | nil => rfl
  | cons c text ih =>
      cases blank : isBlank c with
      | true => rw [List.dropWhile_cons_of_pos blank, ih, wordsBetween_blank blank]
      | false => rw [List.dropWhile_cons_of_neg (by simp [blank])]

theorem wordsBetween_word (nonempty : word ≠ []) (inside : ∀ c ∈ word, isBlank c = false) :
    wordsBetween isBlank word = [word] := by
  rw [wordsBetween, List.splitOnP_eq_singleton inside]
  simp [nonempty]

theorem wordsBetween_cons (nonempty : word ≠ []) (inside : ∀ c ∈ word, isBlank c = false) (blank : isBlank c = true) :
    wordsBetween isBlank (word ++ c :: rest) = word :: wordsBetween isBlank rest := by
  rw [wordsBetween, List.splitOnP_append_cons_of_forall_mem inside c blank]
  simp [wordsBetween, nonempty]

end Oil.Data
