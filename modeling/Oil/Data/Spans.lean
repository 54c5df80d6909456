import Mathlib.Data.List.DropRight

namespace Oil.Data

/-! # Spans of like characters

Where a text is put together from pieces whose characters tell them apart, the pieces can
be read back. -/

variable {α : Type} {p : α → Bool} {front back front' back' : List α}

theorem takeWhile_span (inside : ∀ x ∈ front, p x = true) (stops : ∀ x, back.head? = some x → p x = false) :
    (front ++ back).takeWhile p = front := by
  rw [List.takeWhile_append_of_pos inside]
  cases back with
  | nil => rw [List.takeWhile_nil, List.append_nil]
  | cons x back => rw [List.takeWhile_cons_of_neg (by simp [stops x rfl]), List.append_nil]

/-- The front piece, and with it the rest, is the longest span of its kind. -/
theorem front_span_unique (same : front ++ back = front' ++ back')
    (inside : ∀ x ∈ front, p x = true) (stops : ∀ x, back.head? = some x → p x = false)
    (inside' : ∀ x ∈ front', p x = true) (stops' : ∀ x, back'.head? = some x → p x = false) :
    front = front' ∧ back = back' := by
  have fronts : front = front' := by
    rw [← takeWhile_span inside stops, same, takeWhile_span inside' stops']
  subst fronts
  exact ⟨rfl, List.append_cancel_left same⟩

theorem back_span_unique (same : front ++ back = front' ++ back')
    (inside : ∀ x ∈ back, p x = true) (stops : ∀ x, front.getLast? = some x → p x = false)
    (inside' : ∀ x ∈ back', p x = true) (stops' : ∀ x, front'.getLast? = some x → p x = false) :
    front = front' ∧ back = back' := by
  have mirrored : back.reverse ++ front.reverse = back'.reverse ++ front'.reverse := by
    rw [← List.reverse_append, same, List.reverse_append]
  obtain ⟨backs, fronts⟩ := front_span_unique mirrored (by simpa using inside)
    (by simpa only [List.head?_reverse] using stops) (by simpa using inside')
    (by simpa only [List.head?_reverse] using stops')
  exact ⟨List.reverse_inj.mp fronts, List.reverse_inj.mp backs⟩

/-- Stripping what surrounds a text that neither begins nor ends with it. -/
theorem strip_span {core : List α} (inside : ∀ x ∈ front, p x = true) (inside' : ∀ x ∈ back, p x = true)
    (starts : ∀ x, core.head? = some x → p x = false) (ends : ∀ x, core.getLast? = some x → p x = false) :
    ((front ++ (core ++ back)).dropWhile p).rdropWhile p = core := by
  rw [List.dropWhile_append_of_pos inside]
  cases core with
  | nil =>
      rw [List.nil_append, ← List.append_nil back, List.dropWhile_append_of_pos inside']
      rfl
  | cons x core =>
      rw [List.cons_append, List.dropWhile_cons_of_neg (by simp [starts x rfl]), ← List.cons_append,
        List.rdropWhile, List.reverse_append, List.dropWhile_append_of_pos (by simpa using inside')]
      cases mirrored : (x :: core).reverse with
      | nil => simp at mirrored
      | cons y rest =>
          have last : (x :: core).getLast? = some y := by
            rw [← List.head?_reverse, mirrored]
            rfl
          rw [List.dropWhile_cons_of_neg (by simp [ends y last]), ← mirrored, List.reverse_reverse]

end Oil.Data
