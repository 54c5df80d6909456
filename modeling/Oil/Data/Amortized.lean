import Mathlib.Algebra.BigOperators.Group.List.Basic
import Mathlib.Algebra.Ring.Nat

namespace Oil.Data

/-! # Amortized work

Each step of a run does some work.  A potential pays for it when no step does more than its
credit and what it takes off the potential. -/

variable {σ α : Type} (step : σ → α → Option σ) (work : σ → α → Nat)

/-- The work of all the steps of a run, as far as it goes. -/
def totalWork : σ → List α → Nat
  | _, [] => 0
  | s, a :: as =>
      match step s a with
      | none => work s a
      | some next => work s a + totalWork next as

variable {step work} {potential : σ → Nat} {credit : α → Nat} {s : σ} {as : List α}

/-- The rule of the potential method.  The invariant may speak of the actions still to come. -/
theorem totalWork_le (I : σ → List α → Prop)
    (pays : ∀ s a as, I s (a :: as) → ∃ next, step s a = some next ∧ I next as ∧
      work s a + potential next ≤ potential s + credit a)
    (start : I s as) : totalWork step work s as ≤ potential s + (as.map credit).sum := by
  induction as generalizing s with
  | nil => exact Nat.zero_le _
  | cons a as ih =>
      obtain ⟨next, stepped, kept, paid⟩ := pays s a as start
      have rest := ih kept
      rw [totalWork, stepped, List.map_cons, List.sum_cons]
      dsimp only
      omega

end Oil.Data
