import Mathlib.Data.Nat.ModEq
import Mathlib.Data.Nat.Bitwise
import Mathlib.Data.Nat.Prime.Basic
import Mathlib.Data.Fintype.EquivFin
import Mathlib.Tactic.Ring

namespace Oil.Data

/-! # Triangular probing

A probe sequence starts at some slot and advances by 1, 2, 3, ... slots, masked
to a table whose size is a power of two.  `probePath` is the slot of each probe
and `probeLoop` is the loop a client runs along it.  The two facts a client needs
are that the first `2 ^ shift` probes meet every slot, and an invariant rule for
the loop. -/

/-- The slot of probe number `k`, for a table whose index mask is `mask`. -/
def probePath (mask start : Nat) : Nat → Nat
  | 0 => start
  | k + 1 => (probePath mask start k + (k + 1)) &&& mask

theorem two_mul_triangle (k : Nat) : 2 * (k * (k + 1) / 2) = k * (k + 1) :=
  Nat.mul_div_cancel' (Nat.even_mul_succ_self k).two_dvd

theorem triangle_succ (k : Nat) :
    (k + 1) * (k + 1 + 1) / 2 = k * (k + 1) / 2 + (k + 1) := by
  have lower := two_mul_triangle k
  have upper := two_mul_triangle (k + 1)
  have expand : (k + 1) * (k + 1 + 1) = k * (k + 1) + 2 * (k + 1) := by ring
  omega

theorem probePath_eq_mod (shift : Nat) {start : Nat} (inside : start < 2 ^ shift) (k : Nat) :
    probePath (2 ^ shift - 1) start k = (start + k * (k + 1) / 2) % 2 ^ shift := by
  induction k with
  | zero => simpa [probePath] using (Nat.mod_eq_of_lt inside).symm
  | succ k ih =>
      rw [probePath, ih, Nat.and_two_pow_sub_one_eq_mod, Nat.mod_add_mod, triangle_succ]
      congr 1
      omega

theorem probePath_lt {mask start : Nat} (inside : start ≤ mask) (k : Nat) :
    probePath mask start k ≤ mask := by
  cases k with
  | zero => exact inside
  | succ k => exact Nat.and_le_right

/-- Two triangular numbers that agree modulo `2 ^ shift` come from the same
index, as long as both indices stay below `2 ^ shift`. -/
theorem triangle_injective {shift i j : Nat} (less : i < j) (bound : j < 2 ^ shift)
    (same : i * (i + 1) / 2 ≡ j * (j + 1) / 2 [MOD 2 ^ shift]) : False := by
  obtain ⟨d, rfl⟩ := Nat.exists_eq_add_of_lt less
  have lower := two_mul_triangle i
  have upper := two_mul_triangle (i + d + 1)
  -- twice the difference factors into two numbers of different parity
  have factored : 2 * ((i + d + 1) * (i + d + 1 + 1) / 2 - i * (i + 1) / 2) =
      (d + 1) * (2 * i + d + 2) := by
    have expand : (i + d + 1) * (i + d + 1 + 1) =
        i * (i + 1) + (d + 1) * (2 * i + d + 2) := by ring
    omega
  have ordered : i * (i + 1) / 2 ≤ (i + d + 1) * (i + d + 1 + 1) / 2 :=
    Nat.div_le_div_right (Nat.mul_le_mul (by omega) (by omega))
  have divides : 2 ^ (shift + 1) ∣ (d + 1) * (2 * i + d + 2) := by
    rw [← factored, Nat.pow_succ']
    exact Nat.mul_dvd_mul_left 2 ((Nat.modEq_iff_dvd' ordered).mp same)
  have power : 2 ^ (shift + 1) = 2 * 2 ^ shift := Nat.pow_succ'
  rcases Nat.even_or_odd (d + 1) with even | odd
  · have oddSum : Odd (2 * i + d + 2) := by
      obtain ⟨half, split⟩ := even
      exact ⟨i + half, by omega⟩
    have coprime : Nat.Coprime (2 ^ (shift + 1)) (2 * i + d + 2) :=
      Nat.Coprime.pow_left _ (Nat.coprime_two_left.mpr oddSum)
    have small := Nat.le_of_dvd (by omega) (coprime.dvd_of_dvd_mul_right divides)
    omega
  · have coprime : Nat.Coprime (2 ^ (shift + 1)) (d + 1) :=
      Nat.Coprime.pow_left _ (Nat.coprime_two_left.mpr odd)
    have small := Nat.le_of_dvd (by omega) (coprime.dvd_of_dvd_mul_left divides)
    omega

theorem probePath_injective {shift start i j : Nat} (inside : start < 2 ^ shift)
    (left : i < 2 ^ shift) (right : j < 2 ^ shift)
    (same : probePath (2 ^ shift - 1) start i = probePath (2 ^ shift - 1) start j) : i = j := by
  rw [probePath_eq_mod shift inside, probePath_eq_mod shift inside] at same
  have triangles : i * (i + 1) / 2 ≡ j * (j + 1) / 2 [MOD 2 ^ shift] :=
    Nat.ModEq.add_left_cancel' start same
  rcases Nat.lt_trichotomy i j with less | equal | greater
  · exact (triangle_injective less right triangles).elim
  · exact equal
  · exact (triangle_injective greater left triangles.symm).elim

theorem probePath_surjective {shift start slot : Nat} (inside : start < 2 ^ shift)
    (bound : slot < 2 ^ shift) : ∃ k < 2 ^ shift, probePath (2 ^ shift - 1) start k = slot := by
  let visit : Fin (2 ^ shift) → Fin (2 ^ shift) := fun k =>
    ⟨probePath (2 ^ shift - 1) start k, by
      have := probePath_lt (Nat.le_sub_one_of_lt inside) k
      omega⟩
  have injective : Function.Injective visit := fun i j same =>
    Fin.ext (probePath_injective inside i.isLt j.isLt (Fin.mk.inj same))
  obtain ⟨k, hit⟩ := Finite.surjective_of_injective injective ⟨slot, bound⟩
  exact ⟨k, k.isLt, congrArg Fin.val hit⟩

/-- Walk the probe path from slot `index`, `step` probes into the walk, carrying
`state`.  `visit` either ends the walk, moves on, or fails; the walk also fails
after `fuel` probes. -/
def probeLoop {σ α : Type} (mask : Nat) (visit : σ → Nat → Option (α ⊕ σ)) :
    (fuel index step : Nat) → σ → Option α
  | 0, _, _, _ => none
  | fuel + 1, index, step, state =>
      match visit state index with
      | none => none
      | some (.inl result) => some result
      | some (.inr next) => probeLoop mask visit fuel ((index + (step + 1)) &&& mask) (step + 1) next

/-- The invariant rule.  If `inv k` holds of the state before probe `k`, no probe
before the limit fails, and some probe within the limit must end the walk, then
the walk ends, at a probe where the invariant held. -/
theorem probeLoop_ends {σ α : Type} {limit last : Nat} (mask start : Nat)
    (visit : σ → Nat → Option (α ⊕ σ)) (state : σ) (inv : Nat → σ → Prop)
    (initial : inv 0 state)
    (preserved : ∀ k s, k ≤ last → inv k s → ∃ outcome,
      visit s (probePath mask start k) = some outcome ∧
      ∀ next, outcome = .inr next → k < last ∧ inv (k + 1) next)
    (within : last < limit) :
    ∃ k ≤ last, ∃ s result, inv k s ∧
      visit s (probePath mask start k) = some (.inl result) ∧
      probeLoop mask visit limit start 0 state = some result := by
  suffices walk : ∀ fuel k s, k ≤ last → last < k + fuel → inv k s →
      ∃ k' ≤ last, ∃ s' result, inv k' s' ∧
        visit s' (probePath mask start k') = some (.inl result) ∧
        probeLoop mask visit fuel (probePath mask start k) k s = some result from
    walk limit 0 state (Nat.zero_le _) (by omega) initial
  intro fuel
  induction fuel with
  | zero =>
      intro k s inside enough
      omega
  | succ fuel ih =>
      intro k s inside enough holds
      obtain ⟨outcome, visited, moves⟩ := preserved k s inside holds
      cases outcome with
      | inl result => exact ⟨k, inside, s, result, holds, visited, by simp only [probeLoop, visited]⟩
      | inr next =>
          obtain ⟨before, kept⟩ := moves next rfl
          obtain ⟨k', bound, s', result, reached, ended, returned⟩ := ih (k + 1) next (by omega) (by omega) kept
          refine ⟨k', bound, s', result, reached, ended, ?_⟩
          simp only [probeLoop, visited]
          exact returned

end Oil.Data
