import Mathlib.Data.List.MinMax

namespace Oil.Data

/-! # Keeping the best entry

A scan that replaces its choice by every candidate of strictly lower cost ends with the
first of the cheapest candidates. -/

section Best

variable {α τ : Type} [LinearOrder τ]

structure Best (α τ : Type) where
  choice : Option α
  bound : τ

def Best.keep (candidate : α → Bool) (cost : α → τ) (best : Best α τ) (entry : α) : Best α τ :=
  if candidate entry = true ∧ cost entry < best.bound then ⟨some entry, cost entry⟩ else best

theorem argAux_of_lt {cost : α → τ} {entry chosen : α} (cheaper : cost entry < cost chosen) :
    List.argAux (fun b c => cost b < cost c) (some chosen) entry = some entry := if_pos cheaper

theorem argAux_of_not_lt {cost : α → τ} {entry chosen : α} (dearer : ¬ cost entry < cost chosen) :
    List.argAux (fun b c => cost b < cost c) (some chosen) entry = some chosen := if_neg dearer

/-- From a choice below the bound on, the scan is that of `List.argmin` over the candidates below it. -/
theorem Best.scan_from_choice (candidate : α → Bool) (cost : α → τ) (entries : List α) {chosen : α}
    {bound : τ} (below : cost chosen < bound) :
    (entries.foldl (Best.keep candidate cost) ⟨some chosen, cost chosen⟩).choice =
      (entries.filter fun entry => candidate entry && decide (cost entry < bound)).foldl
        (List.argAux fun b c => cost b < cost c) (some chosen) := by
  induction entries generalizing chosen with
  | nil => rfl
  | cons entry entries ih =>
      rw [List.foldl_cons, Best.keep]
      by_cases cheaper : cost entry < cost chosen
      · by_cases fits : candidate entry = true
        · rw [if_pos ⟨fits, cheaper⟩, List.filter_cons_of_pos (by simp [fits, cheaper.trans below]),
            List.foldl_cons, argAux_of_lt cheaper]
          exact ih (cheaper.trans below)
        · rw [if_neg (fits ·.1), List.filter_cons_of_neg (by simp [fits])]
          exact ih below
      · rw [if_neg (cheaper ·.2), ih below, List.filter_cons]
        split
        · rw [List.foldl_cons, argAux_of_not_lt cheaper]
        · rfl

/-- A scan without a choice yet ends with the first of the cheapest candidates below its bound. -/
theorem Best.scan_choice (candidate : α → Bool) (cost : α → τ) (entries : List α) (bound : τ) :
    (entries.foldl (Best.keep candidate cost) ⟨none, bound⟩).choice =
      (entries.filter fun entry => candidate entry && decide (cost entry < bound)).argmin cost := by
  induction entries with
  | nil => rfl
  | cons entry entries ih =>
      rw [List.foldl_cons, Best.keep]
      by_cases keeps : candidate entry = true ∧ cost entry < bound
      · rw [if_pos keeps, List.filter_cons_of_pos (by simpa using keeps),
          Best.scan_from_choice candidate cost entries keeps.2]
        rfl
      · rw [if_neg keeps, List.filter_cons_of_neg (by simpa using keeps)]
        exact ih

end Best

end Oil.Data
