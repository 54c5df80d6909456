import Mathlib.Algebra.Order.Field.Basic
import Mathlib.Tactic.Abel
import Mathlib.Tactic.FieldSimp
import Mathlib.Tactic.Linarith
import Mathlib.Tactic.Positivity
import Mathlib.Tactic.Ring

namespace Oil.Data

/-! # Weighted samples

Values of an ordered field with the numbers of times they occur.  A value that does not
occur has no part in the sums. -/

section Lists

theorem sum_set_add {M : Type} [AddCommMonoid M] {xs : List M} {x : M} {i : Nat} (found : xs[i]? = some x) (y : M) :
    (xs.set i y).sum + x = xs.sum + y := by
  induction xs generalizing i with
  | nil => simp at found
  | cons z xs ih =>
      cases i with
      | zero =>
          obtain rfl := Option.some.inj found
          rw [List.set_cons_zero, List.sum_cons, List.sum_cons]
          abel
      | succ i => rw [List.set_cons_succ, List.sum_cons, List.sum_cons, add_assoc, ih found, add_assoc]

variable {K : Type} [Field K] [LinearOrder K] [IsStrictOrderedRing K] {xs ys : List K}

/-- Lists of one length, of which every element of one is less than every element of the other. -/
theorem sum_lt_sum_of_forall_lt (sameLength : xs.length = ys.length) (positive : 0 < xs.length)
    (less : ∀ x ∈ xs, ∀ y ∈ ys, x < y) : xs.sum < ys.sum := by
  induction xs generalizing ys with
  | nil => simp at positive
  | cons x xs ih =>
      cases ys with
      | nil => simp at sameLength
      | cons y ys =>
          have first := less x (.head _) y (.head _)
          rw [List.sum_cons, List.sum_cons]
          cases xs with
          | nil =>
              obtain rfl : ys = [] := List.eq_nil_of_length_eq_zero (by simpa using sameLength.symm)
              simpa using first
          | cons z zs =>
              have rest := ih (by simpa using sameLength) (by simp)
                fun u memberU v memberV => less u (.tail _ memberU) v (.tail _ memberV)
              exact add_lt_add first rest

end Lists

section Parts

variable {K : Type} {bins : List (K × Nat)} {bin : K × Nat} {i : Nat}

/-- How many samples there are. -/
def weight (bins : List (K × Nat)) : Nat := (bins.map Prod.snd).sum

/-- How many values occur. -/
def occupied (bins : List (K × Nat)) : Nat := bins.countP fun bin => 0 < bin.2

@[simp] theorem weight_nil : weight ([] : List (K × Nat)) = 0 := rfl
@[simp] theorem weight_cons : weight (bin :: bins) = bin.2 + weight bins := rfl

theorem weight_set (found : bins[i]? = some bin) (new : K × Nat) :
    weight (bins.set i new) + bin.2 = weight bins + new.2 := by
  rw [weight, List.map_set]
  exact sum_set_add (by rw [List.getElem?_map, found, Option.map_some]) _

theorem weight_append (bins more : List (K × Nat)) : weight (bins ++ more) = weight bins + weight more := by
  rw [weight, List.map_append, List.sum_append, weight, weight]

theorem weight_eq_zero_iff : weight bins = 0 ↔ ∀ bin ∈ bins, bin.2 = 0 := by
  induction bins with
  | nil => simp
  | cons bin bins ih => rw [weight_cons, Nat.add_eq_zero_iff, ih, List.forall_mem_cons]

theorem occupied_pos_iff : 0 < occupied bins ↔ 0 < weight bins := by
  rw [occupied, List.countP_pos_iff, Nat.pos_iff_ne_zero, ne_eq, weight_eq_zero_iff]
  simp [Nat.pos_iff_ne_zero]

theorem occupied_dropped {value : K} {count : Nat} (found : bins[i]? = some (value, count)) (occurs : 0 < count) :
    occupied (bins.set i (value, 0)) + 1 = occupied bins := by
  obtain ⟨inside, atIndex⟩ := List.getElem?_eq_some_iff.mp found
  have part : 0 < occupied bins :=
    List.countP_pos_iff.mpr ⟨_, List.getElem_mem inside, by rw [atIndex]; exact decide_eq_true occurs⟩
  rw [occupied] at part
  rw [occupied, occupied, List.countP_set inside, atIndex]
  simp only [occurs, decide_true, if_true, Nat.lt_irrefl, decide_false, Bool.false_eq_true, if_false]
  omega

variable [Field K]

def total (bins : List (K × Nat)) : K := (bins.map fun bin => bin.1 * (bin.2 : K)).sum

def squares (bins : List (K × Nat)) : K := (bins.map fun bin => bin.1 * bin.1 * (bin.2 : K)).sum

@[simp] theorem total_nil : total ([] : List (K × Nat)) = 0 := rfl
@[simp] theorem total_cons : total (bin :: bins) = bin.1 * (bin.2 : K) + total bins := rfl
@[simp] theorem squares_nil : squares ([] : List (K × Nat)) = 0 := rfl
@[simp] theorem squares_cons : squares (bin :: bins) = bin.1 * bin.1 * (bin.2 : K) + squares bins := rfl

theorem total_set (found : bins[i]? = some bin) (new : K × Nat) :
    total (bins.set i new) + bin.1 * (bin.2 : K) = total bins + new.1 * (new.2 : K) := by
  rw [total, List.map_set]
  exact sum_set_add (by rw [List.getElem?_map, found, Option.map_some]) _

theorem total_append (bins more : List (K × Nat)) : total (bins ++ more) = total bins + total more := by
  rw [total, List.map_append, List.sum_append, total, total]

theorem total_of_no_weight (empty : weight bins = 0) : total bins = 0 := by
  rw [weight_eq_zero_iff] at empty
  induction bins with
  | nil => rfl
  | cons bin bins ih =>
      obtain ⟨absent, rest⟩ := List.forall_mem_cons.mp empty
      rw [total_cons, absent, ih rest]
      simp

end Parts

section Bounds

variable {K : Type} [Field K] [LinearOrder K] [IsStrictOrderedRing K] {bins : List (K × Nat)} {m : K}

theorem le_total (bound : ∀ bin ∈ bins, 0 < bin.2 → m ≤ bin.1) : weight bins * m ≤ total bins := by
  induction bins with
  | nil => simp
  | cons bin bins ih =>
      have rest := ih fun other member => bound other (.tail _ member)
      have first : bin.2 * m ≤ bin.1 * (bin.2 : K) := by
        rcases Nat.eq_zero_or_pos bin.2 with absent | occurs
        · simp [absent]
        · rw [mul_comm]
          exact mul_le_mul_of_nonneg_right (bound bin (.head _) occurs) (Nat.cast_nonneg _)
      rw [total_cons, weight_cons, Nat.cast_add]
      linarith

theorem total_nonneg (nonneg : ∀ bin ∈ bins, 0 ≤ bin.1) : 0 ≤ total bins := by
  induction bins with
  | nil => simp
  | cons bin bins ih =>
      have rest := ih fun other member => nonneg other (.tail _ member)
      have first : 0 ≤ bin.1 * (bin.2 : K) := mul_nonneg (nonneg bin (.head _)) (Nat.cast_nonneg _)
      rw [total_cons]
      linarith

theorem distances_nonneg (bins : List (K × Nat)) (m : K) :
    0 ≤ squares bins - 2 * m * total bins + m * m * weight bins := by
  induction bins with
  | nil => simp
  | cons bin bins ih =>
      have first : 0 ≤ (bin.1 - m) * (bin.1 - m) * (bin.2 : K) :=
        mul_nonneg (mul_self_nonneg _) (Nat.cast_nonneg _)
      rw [squares_cons, total_cons, weight_cons, Nat.cast_add]
      linarith

theorem deviations_nonneg (positive : 0 < weight bins) :
    0 ≤ squares bins - total bins * total bins / weight bins := by
  have count : (weight bins : K) ≠ 0 := Nat.cast_ne_zero.mpr (by omega)
  have distances := distances_nonneg bins (total bins / weight bins)
  have same : squares bins - 2 * (total bins / weight bins) * total bins +
      total bins / weight bins * (total bins / weight bins) * weight bins =
      squares bins - total bins * total bins / weight bins := by
    field_simp
    ring
  rwa [same] at distances

end Bounds

end Oil.Data
