import Oil.Data.Weighted
import Oil.Test.Profiler.Model

namespace Oil.Test

open Oil.Data

section Sums

variable {K : Type} [Field K] [LinearOrder K]

theorem sumUp_sums (i : Nat) (hist : List (K × Nat)) (sums : Sums K) :
    (sumUp i hist sums).s2 = sums.s2 + squares hist ∧ (sumUp i hist sums).sum = sums.sum + total hist ∧
    (sumUp i hist sums).n = sums.n + weight hist := by
  induction hist generalizing i sums with
  | nil => simp [sumUp]
  | cons bin hist ih =>
      obtain ⟨s2, sum, n⟩ := ih (i + 1) (sums.take i bin)
      rw [sumUp, s2, sum, n, squares_cons, total_cons, weight_cons]
      exact ⟨add_assoc _ _ _, add_assoc _ _ _, Nat.add_assoc _ _ _⟩

theorem pass_sums (hist : List (K × Nat)) (sum : K) :
    (pass hist sum).s2 = squares hist ∧ (pass hist sum).sum = sum + total hist ∧ (pass hist sum).n = weight hist := by
  obtain ⟨s2, sum, n⟩ := sumUp_sums 0 hist { s2 := 0, sum, n := 0, maxI := none }
  exact ⟨s2.trans (zero_add _), sum, n.trans (Nat.zero_add _)⟩

end Sums

section Largest

variable {K : Type} [LinearOrder K] {hist : List (K × Nat)}

/-- The bin in use with the largest time, if there is one in use. -/
def Largest (hist : List (K × Nat)) : Option (Nat × K) → Prop
  | none => ∀ bin ∈ hist, bin.2 = 0
  | some (i, time) =>
      (∃ count, hist[i]? = some (time, count) ∧ 0 < count) ∧ ∀ bin ∈ hist, 0 < bin.2 → bin.1 ≤ time

theorem Largest.keep {entry : Nat × K} {bin : K × Nat} (largest : Largest hist (some entry))
    (bound : 0 < bin.2 → bin.1 ≤ entry.2) : Largest (hist ++ [bin]) (some entry) := by
  obtain ⟨⟨count, found, occurs⟩, before⟩ := largest
  obtain ⟨inside, _⟩ := List.getElem?_eq_some_iff.mp found
  refine ⟨⟨count, by rw [List.getElem?_append_left inside, found], occurs⟩, fun other member counts => ?_⟩
  rcases List.mem_append.mp member with earlier | last
  · exact before other earlier counts
  · obtain rfl := List.mem_singleton.mp last
    exact bound counts

theorem Largest.switch {bin : K × Nat} (occurs : 0 < bin.2) (before : ∀ other ∈ hist, 0 < other.2 → other.1 ≤ bin.1) :
    Largest (hist ++ [bin]) (some (hist.length, bin.1)) := by
  refine ⟨⟨bin.2, by simp, occurs⟩, fun other member counts => ?_⟩
  rcases List.mem_append.mp member with earlier | last
  · exact before other earlier counts
  · obtain rfl := List.mem_singleton.mp last
    exact le_refl _

variable [Field K]

theorem Largest.take {sums : Sums K} (largest : Largest hist sums.maxI) (bin : K × Nat) :
    Largest (hist ++ [bin]) (sums.take hist.length bin).maxI := by
  rw [Sums.take]
  cases current : sums.maxI with
  | none =>
      rw [current] at largest
      dsimp only
      split
      case isTrue occurs =>
        exact .switch occurs fun other member counts => absurd (largest other member) (Nat.ne_of_gt counts)
      case isFalse absent =>
        intro other member
        rcases List.mem_append.mp member with before | last
        · exact largest other before
        · obtain rfl := List.mem_singleton.mp last
          omega
  | some entry =>
      rw [current] at largest
      dsimp only
      split
      case isTrue occurs =>
        split
        case isTrue larger =>
          exact .switch occurs fun other member counts => (largest.2 other member counts).trans (le_of_lt larger)
        case isFalse smaller => exact largest.keep fun _ => not_lt.mp smaller
      case isFalse absent => exact largest.keep fun occurs => absurd occurs absent

theorem sumUp_largest (seen hist : List (K × Nat)) {sums : Sums K} (largest : Largest seen sums.maxI) :
    Largest (seen ++ hist) (sumUp seen.length hist sums).maxI := by
  induction hist generalizing seen sums with
  | nil => rwa [List.append_nil]
  | cons bin hist ih =>
      have next := ih (seen ++ [bin]) (largest.take bin)
      rwa [List.append_assoc, List.length_append, List.length_singleton] at next

theorem pass_largest (hist : List (K × Nat)) (sum : K) : Largest hist (pass hist sum).maxI :=
  sumUp_largest [] hist nofun

end Largest

section Root

variable {K : Type} [Field K] [LinearOrder K] [IsStrictOrderedRing K]

/-- Where there is a root, `Sums.Off` is the comparison of the source, with zero for a quotient that
is undefined. -/
theorem off_iff {sums : Sums K} {time root : K} (positive : 0 < sums.n) (nonneg : 0 ≤ root)
    (square : root * root = sums.radicand) :
    sums.Off time ↔ 4 < (time - sums.ave) / (root / (sums.n - 1)) := by
  by_cases one : sums.n = 1
  · simp [Sums.Off, one]
  rcases nonneg.eq_or_lt with rfl | nonzero
  · simp [Sums.Off, ← square]
  have defined : 0 < sums.radicand := square ▸ mul_pos nonzero nonzero
  have more : (0 : K) < sums.n - 1 := by
    have atLeast : (2 : K) ≤ sums.n := by exact_mod_cast (by omega : 2 ≤ sums.n)
    linarith
  have quotient : (time - sums.ave) / (root / (sums.n - 1)) = (time - sums.ave) * (sums.n - 1) / root := by
    field_simp
  rw [quotient, lt_div_iff₀ nonzero, Sums.Off]
  constructor
  · rintro ⟨_, above, squares⟩
    have positiveProduct : 0 < (time - sums.ave) * (sums.n - 1) := mul_pos above more
    nlinarith
  · intro far
    have positiveProduct : 0 < (time - sums.ave) * (sums.n - 1) := by linarith
    exact ⟨⟨one, defined⟩, (mul_pos_iff_of_pos_right more).mp positiveProduct, by nlinarith⟩

end Root

section Loop

variable {K : Type} [Field K] [LinearOrder K] {hist : List (K × Nat)} {sum time : K} {i : Nat}

/-- No bin is so far off that the first pass drops it. -/
def Settles (hist : List (K × Nat)) : Prop :=
  ∀ i time, (pass hist 0).maxI = some (i, time) → ¬ (pass hist 0).Off time

theorem pass_ave (hist : List (K × Nat)) (sum : K) : (pass hist sum).ave = (sum + total hist) / weight hist := by
  obtain ⟨_, sums, n⟩ := pass_sums hist sum
  rw [Sums.ave, sums, n]

theorem dropped_nonneg {count : Nat} (found : hist[i]? = some (time, count)) (times : ∀ bin ∈ hist, 0 ≤ bin.1) :
    ∀ bin ∈ hist.set i (time, 0), 0 ≤ bin.1 := by
  intro bin member
  rcases List.mem_or_eq_of_mem_set member with before | rfl
  · exact times bin before
  · exact times (time, count) (List.mem_of_getElem? found)

theorem endLoop_settled {passes : Nat} (positive : 0 < passes) (inUse : 0 < weight hist) (settled : Settles hist) :
    endLoop passes hist 0 = some (total hist / weight hist, hist) := by
  obtain ⟨passes, rfl⟩ : ∃ n, passes = n + 1 := ⟨passes - 1, by omega⟩
  have largest := pass_largest hist 0
  rw [endLoop]
  cases current : (pass hist 0).maxI with
  | none =>
      rw [current] at largest
      have empty := weight_eq_zero_iff.mpr largest
      omega
  | some entry =>
      dsimp only
      rw [if_neg (settled _ _ current), pass_ave, zero_add]

variable [IsStrictOrderedRing K]

/-- A bin that is dropped is not the only one in use. -/
theorem weight_dropped (nonneg : 0 ≤ sum) {count : Nat} (found : hist[i]? = some (time, count)) (occurs : 0 < count)
    (off : (pass hist sum).Off time) : 0 < weight (hist.set i (time, 0)) := by
  by_contra nothing
  have empty : weight (hist.set i (time, 0)) = 0 := by omega
  have counts := weight_set found (time, 0)
  have sums := total_set found (time, 0)
  rw [empty, Nat.zero_add, Nat.add_zero] at counts
  rw [total_of_no_weight empty, zero_add, Nat.cast_zero, mul_zero, add_zero] at sums
  have positive : (0 : K) < count := Nat.cast_pos.mpr occurs
  have above := off.2.1
  rw [pass_ave, ← counts, ← sums, add_div, mul_div_cancel_right₀ _ (ne_of_gt positive)] at above
  have carried : 0 ≤ sum / count := div_nonneg nonneg (le_of_lt positive)
  linarith

/-- The loop comes to an end, and what a pass takes over only raises the average. -/
theorem endLoop_returns (passes : Nat) (times : ∀ bin ∈ hist, 0 ≤ bin.1) (nonneg : 0 ≤ sum)
    (inUse : 0 < weight hist) (enough : occupied hist ≤ passes) :
    ∃ ave left, endLoop passes hist sum = some (ave, left) ∧ (sum + total hist) / weight hist ≤ ave := by
  induction passes generalizing hist sum with
  | zero =>
      have some_used := occupied_pos_iff.mpr inUse
      omega
  | succ passes ih =>
      have largest := pass_largest hist sum
      obtain ⟨_, sums, _⟩ := pass_sums hist sum
      rw [endLoop]
      cases current : (pass hist sum).maxI with
      | none =>
          rw [current] at largest
          have empty := weight_eq_zero_iff.mpr largest
          omega
      | some entry =>
          obtain ⟨i, time⟩ := entry
          rw [current] at largest
          obtain ⟨⟨count, found, occurs⟩, _⟩ := largest
          dsimp only
          split
          case isFalse settled => exact ⟨_, hist, rfl, le_of_eq (pass_ave hist sum).symm⟩
          case isTrue off =>
            have kept := weight_dropped nonneg found occurs off
            have fewer := occupied_dropped found occurs
            have counts := weight_set found (time, 0)
            have carried : 0 ≤ (pass hist sum).sum := by
              rw [sums]
              exact add_nonneg nonneg (total_nonneg times)
            have rest := total_nonneg (dropped_nonneg found times)
            obtain ⟨ave, left, returned, above⟩ := ih (dropped_nonneg found times) carried kept (by omega)
            refine ⟨ave, left, returned, le_trans ?_ above⟩
            rw [sums] at carried ⊢
            refine div_le_div₀ (by linarith) (by linarith) (Nat.cast_pos.mpr kept) (Nat.cast_le.mpr ?_)
            dsimp only at counts
            omega

/-- Times no more than four seconds apart are never dropped. -/
theorem settles_of_close {low : K} (inUse : 0 < weight hist)
    (close : ∀ bin ∈ hist, 0 < bin.2 → low ≤ bin.1 ∧ bin.1 ≤ low + 4) : Settles hist := by
  intro i time current off
  have largest := pass_largest hist 0
  rw [current] at largest
  obtain ⟨⟨count, found, occurs⟩, _⟩ := largest
  obtain ⟨s2, sums, n⟩ := pass_sums hist 0
  obtain ⟨_, above, far⟩ := off
  have positive : (1 : K) ≤ weight hist := by exact_mod_cast inUse
  have upper := (close _ (List.mem_of_getElem? found) occurs).2
  have average : low ≤ (pass hist 0).ave := by
    rw [pass_ave, zero_add, le_div_iff₀ (by linarith), mul_comm]
    exact le_total fun bin member counts => (close bin member counts).1
  have spread : (weight hist : K) * weight hist ≤ (pass hist 0).radicand := by
    have deviations := deviations_nonneg inUse
    rw [Sums.radicand, s2, sums, n, zero_add]
    linarith
  have distance : (time - (pass hist 0).ave) * ((weight hist : K) - 1) ≤ 4 * weight hist := by
    have each : (time - (pass hist 0).ave) * ((weight hist : K) - 1) ≤ 4 * ((weight hist : K) - 1) :=
      mul_le_mul_of_nonneg_right (by linarith) (by linarith)
    linarith
  have nonneg : 0 ≤ (time - (pass hist 0).ave) * ((weight hist : K) - 1) :=
    mul_nonneg (le_of_lt above) (by linarith)
  rw [n] at far
  have product := mul_self_le_mul_self nonneg distance
  linarith

end Loop

end Oil.Test
