import Mathlib.Algebra.Order.Group.Abs
import Mathlib.Algebra.Order.Ring.Int
import Mathlib.Data.Nat.Size

namespace Oil.Data

/-! # Rounded sums

An algorithm is written once, with a hook through which the result of every operation goes,
and is exact where the hook changes nothing. -/

section Numbers

/-- The number with so many significant bits that is nearest to `n`, the even one of two. -/
def roundNat (bits n : Nat) : Nat :=
  let unit := 2 ^ (n.size - bits)
  let quotient := n / unit
  let rest := n % unit
  if 2 * rest < unit ∨ 2 * rest = unit ∧ quotient % 2 = 0 then quotient * unit else (quotient + 1) * unit

def roundInt (bits : Nat) (x : Int) : Int := x.sign * roundNat bits x.natAbs

example : roundNat 53 (2 ^ 53 + 1) = 2 ^ 53 ∧ roundNat 53 (2 ^ 53 + 3) = 2 ^ 53 + 4 := by decide +kernel

variable {bits n : Nat} {x : Int}

theorem roundNat_of_lt (small : n < 2 ^ bits) : roundNat bits n = n := by
  have unit : n.size - bits = 0 := Nat.sub_eq_zero_of_le (Nat.size_le.mpr small)
  simp [roundNat, unit, Nat.mod_one]

theorem roundNat_eq_zero_iff (positive : 0 < bits) : roundNat bits n = 0 ↔ n = 0 := by
  rcases Nat.lt_or_ge n (2 ^ bits) with small | large
  · rw [roundNat_of_lt small]
  · have more : bits < n.size := Nat.lt_size.mpr large
    have quotient : 0 < n / 2 ^ (n.size - bits) := by
      refine Nat.div_pos ?_ (Nat.two_pow_pos _)
      calc 2 ^ (n.size - bits)
        _ ≤ 2 ^ (n.size - 1) := Nat.pow_le_pow_right (by decide) (by omega)
        _ ≤ n := Nat.lt_size.mp (by omega)
    have unit := Nat.two_pow_pos (n.size - bits)
    have nonzero : n ≠ 0 := by
      have := Nat.two_pow_pos bits
      omega
    refine iff_of_false ?_ nonzero
    rw [roundNat]
    split
    · exact (Nat.mul_pos quotient unit).ne'
    · exact (Nat.mul_pos (Nat.succ_pos _) unit).ne'

theorem roundInt_of_lt (small : x.natAbs < 2 ^ bits) : roundInt bits x = x := by
  rw [roundInt, roundNat_of_lt small, Int.sign_mul_natAbs]

end Numbers

section Sums

variable {K : Type} [Ring K] [LinearOrder K] {round : K → K} {pairs : List (K × K)} {start : K}

/-- Only zero is rounded to zero, and nothing from above it to below. -/
structure KeepsSign (round : K → K) : Prop where
  zero_iff : ∀ x, round x = 0 ↔ x = 0
  nonneg : ∀ x, 0 ≤ x → 0 ≤ round x

theorem keepsSign_roundInt {bits : Nat} (positive : 0 < bits) : KeepsSign (roundInt bits) := by
  constructor
  · intro x
    rw [roundInt, Int.mul_eq_zero, Int.sign_eq_zero_iff_zero, Int.natCast_eq_zero, roundNat_eq_zero_iff positive,
      Int.natAbs_eq_zero, or_self]
  · intro x nonneg
    exact Int.mul_nonneg (Int.sign_nonneg_iff.mpr nonneg) (Int.natCast_nonneg _)

/-- A running sum of distances. -/
def addDistances (round : K → K) (start : K) (pairs : List (K × K)) : K :=
  pairs.foldl (fun sum pair => round (sum + |round (round pair.1 - round pair.2)|)) start

theorem addDistances_exact (start : K) (pairs : List (K × K)) :
    addDistances id start pairs = start + (pairs.map fun pair => |pair.1 - pair.2|).sum := by
  induction pairs generalizing start with
  | nil => simp [addDistances]
  | cons pair pairs ih =>
      rw [List.map_cons, List.sum_cons, ← add_assoc, ← ih]
      rfl

variable [IsStrictOrderedRing K]

/-- A sum of distances is zero exactly if nothing differs after it was rounded. -/
theorem KeepsSign.addDistances (keeps : KeepsSign round) (nonneg : 0 ≤ start) (pairs : List (K × K)) :
    0 ≤ addDistances round start pairs ∧
      (addDistances round start pairs = 0 ↔ start = 0 ∧ ∀ pair ∈ pairs, round pair.1 = round pair.2) := by
  induction pairs generalizing start with
  | nil => exact ⟨nonneg, by simp [Data.addDistances]⟩
  | cons pair pairs ih =>
      have distance := abs_nonneg (round (round pair.1 - round pair.2))
      obtain ⟨below, zero⟩ := ih (keeps.nonneg _ (add_nonneg nonneg distance))
      refine ⟨below, zero.trans ?_⟩
      rw [keeps.zero_iff, add_eq_zero_iff_of_nonneg nonneg distance, abs_eq_zero, keeps.zero_iff, sub_eq_zero,
        List.forall_mem_cons, and_assoc]

end Sums

end Oil.Data
