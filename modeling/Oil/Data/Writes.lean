import Mathlib.Data.List.Perm.Basic

namespace Oil.Data

variable {α : Type} {p : α → Bool} {values : List α} {index : Nat} {old : α}

/-- Writing one element changes the selected elements only by that element: `rest`
is what the other positions contribute, before and after. -/
theorem filter_set_perm (found : values[index]? = some old) (p : α → Bool) (new : α) :
    ∃ rest, (values.filter p).Perm ((if p old then [old] else []) ++ rest) ∧
      ((values.set index new).filter p).Perm ((if p new then [new] else []) ++ rest) := by
  obtain ⟨bound, same⟩ := List.getElem?_eq_some_iff.mp found
  subst same
  have before := (List.getElem_cons_eraseIdx_perm bound).symm.filter p
  have after := (List.set_perm_cons_eraseIdx bound new).filter p
  refine ⟨(values.eraseIdx index).filter p, ?_, ?_⟩
  · rw [List.filter_cons] at before
    split at before
    case isTrue selected => rwa [if_pos selected, List.singleton_append]
    case isFalse unselected => rwa [if_neg unselected, List.nil_append]
  · rw [List.filter_cons] at after
    split at after
    case isTrue selected => rwa [if_pos selected, List.singleton_append]
    case isFalse unselected => rwa [if_neg unselected, List.nil_append]

theorem filter_set_add (new : α) (found : values[index]? = some old) (unselected : p old = false)
    (selected : p new = true) :
    ((values.set index new).filter p).Perm (new :: values.filter p) := by
  obtain ⟨rest, before, after⟩ := filter_set_perm found p new
  simp only [unselected, selected, Bool.false_eq_true, ↓reduceIte, List.nil_append,
    List.singleton_append] at before after
  exact after.trans (before.symm.cons new)

theorem filter_set_drop (new : α) (found : values[index]? = some old) (selected : p old = true)
    (unselected : p new = false) :
    (values.filter p).Perm (old :: (values.set index new).filter p) := by
  obtain ⟨rest, before, after⟩ := filter_set_perm found p new
  simp only [unselected, selected, Bool.false_eq_true, ↓reduceIte, List.nil_append,
    List.singleton_append] at before after
  exact before.trans (after.symm.cons old)

theorem filter_set_replace (new : α) (found : values[index]? = some old) (selected : p old = true)
    (selectedNew : p new = true) :
    ∃ rest, (values.filter p).Perm (old :: rest) ∧
      ((values.set index new).filter p).Perm (new :: rest) := by
  simpa [selected, selectedNew] using filter_set_perm found p new

theorem countP_set_add (found : values[index]? = some old) (p : α → Bool) (new : α) :
    (values.set index new).countP p + (if p old then 1 else 0) =
      values.countP p + (if p new then 1 else 0) := by
  obtain ⟨rest, before, after⟩ := filter_set_perm found p new
  have single (value : α) : (if p value then [value] else []).length = if p value then 1 else 0 := by
    split <;> rfl
  have countBefore := before.length_eq
  have countAfter := after.length_eq
  rw [List.length_append, single, ← List.countP_eq_length_filter] at countBefore countAfter
  omega

end Oil.Data
