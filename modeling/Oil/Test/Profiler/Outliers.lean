import Oil.Test.Profiler.Passes
import Oil.Test.Profiler.Recording

namespace Oil.Test

open Oil.Data

/-! # Outliers

Every pass of `oil_profiler_end` but the last drops the bin with the largest time.  The
sum of a pass is carried over into the next one. -/

section Reached

variable {K : Type} [Field K] [LinearOrder K] {bins hist left : List (K × Nat)} {sum time ave : K} {i number : Nat}

/-- A pass that finds no bin to drop. -/
def Final (hist : List (K × Nat)) (sum : K) : Prop :=
  ∀ i time, (pass hist sum).maxI = some (i, time) → ¬ (pass hist sum).Off time

/-- The passes over a histogram by their numbers, each with the histogram and the sum it starts from. -/
inductive Passes (bins : List (K × Nat)) : (number : Nat) → (hist : List (K × Nat)) → (sum : K) → Prop
  | first : Passes bins 1 bins 0
  | next {number : Nat} {hist : List (K × Nat)} {sum : K} {i : Nat} {time : K} (reached : Passes bins number hist sum)
      (largest : (pass hist sum).maxI = some (i, time)) (off : (pass hist sum).Off time) :
      Passes bins (number + 1) (hist.set i (time, 0)) (pass hist sum).sum

theorem largest_found (largest : (pass hist sum).maxI = some (i, time)) :
    ∃ count, hist[i]? = some (time, count) ∧ 0 < count := by
  have found := pass_largest hist sum
  rw [largest] at found
  exact found.1

namespace Passes

/-- With every pass but the first, there is one bin less in use. -/
theorem occupied (reached : Passes bins number hist sum) : number + occupied hist = Data.occupied bins + 1 := by
  induction reached with
  | first => omega
  | next _ largest _ ih =>
      obtain ⟨count, found, occurs⟩ := largest_found largest
      have fewer := occupied_dropped found occurs
      omega

theorem positive (reached : Passes bins number hist sum) : 0 < number := by
  cases reached <;> omega

theorem eq_first (reached : Passes bins 1 hist sum) : hist = bins ∧ sum = 0 := by
  generalize one : 1 = number at reached
  cases reached with
  | first => exact ⟨rfl, rfl⟩
  | next reached _ _ =>
      have := reached.positive
      omega

/-- The loop ends with a final pass. -/
theorem ends (reached : Passes bins number hist sum) {passes : Nat}
    (returned : endLoop passes hist sum = some (ave, left)) :
    ∃ last carried, Passes bins last left carried ∧ Final left carried ∧ ave = (pass left carried).ave := by
  induction passes generalizing number hist sum with
  | zero => contradiction
  | succ passes ih =>
      rw [endLoop] at returned
      cases largest : (pass hist sum).maxI with
      | none =>
          rw [largest] at returned
          contradiction
      | some entry =>
          rw [largest] at returned
          dsimp only at returned
          split at returned
          case isTrue off => exact ih (reached.next largest off) returned
          case isFalse kept =>
            obtain ⟨rfl, rfl⟩ := Prod.mk.inj (Option.some.inj returned)
            refine ⟨number, sum, reached, fun i time same => ?_, rfl⟩
            rw [largest, Option.some.injEq] at same
            rwa [same] at kept

end Passes

/-- Where no bin was dropped, there was one pass. -/
theorem final_of_nothing_dropped {passes : Nat} (returned : endLoop passes hist 0 = some (ave, hist)) :
    Final hist 0 ∧ ave = total hist / weight hist := by
  obtain ⟨last, carried, reached, final, mean⟩ := Passes.first.ends returned
  have one : last = 1 := by
    have := reached.occupied
    omega
  subst one
  obtain ⟨_, rfl⟩ := reached.eq_first
  refine ⟨final, ?_⟩
  rw [mean, pass_ave, zero_add]

end Reached

section Sound

variable {K : Type} [Field K] [LinearOrder K] {bins hist left : List (K × Nat)} {sum time : K} {i number : Nat}

/-- What a pass starts from: at least one sample, and neither a time nor the sum below zero. -/
structure Sound (hist : List (K × Nat)) (sum : K) : Prop where
  times : ∀ bin ∈ hist, 0 ≤ bin.1
  sum : 0 ≤ sum
  inUse : 0 < weight hist

theorem largest_of_inUse (inUse : 0 < weight hist) : ∃ i time, (pass hist sum).maxI = some (i, time) := by
  have largest := pass_largest hist sum
  cases current : (pass hist sum).maxI with
  | none =>
      rw [current] at largest
      have empty := weight_eq_zero_iff.mpr largest
      omega
  | some entry => exact ⟨entry.1, entry.2, rfl⟩

/-- A history of samples that are not negative. -/
theorem sound_of_record {precise : K} {samples : List K} {iterations : Nat} {data : ProfilerData K}
    (recorded : record precise samples (oilProfilerBegin iterations) = some data) (sampled : samples ≠ [])
    (nonneg : ∀ x ∈ samples, 0 ≤ x) :
    Sound data.hist 0 ∧ occupied data.hist ≤ data.iterations := by
  obtain ⟨rfl, room⟩ := filled_of_record_begin recorded
  refine ⟨⟨fun bin member => ?_, le_refl 0, ?_⟩, ?_⟩
  · rcases List.mem_append.mp member with inBins | unused
    · exact nonneg _ (histogram_values precise samples bin inBins)
    · rw [List.eq_of_mem_replicate unused]
  · rw [(filled_sums iterations _).1, histogram_weight]
    exact List.length_pos_iff.mpr sampled
  · calc occupied (ProfilerData.filled iterations (histogram precise samples)).hist
      _ ≤ (ProfilerData.filled iterations (histogram precise samples)).hist.length := List.countP_le_length
      _ = iterations := filled_length room

variable [IsStrictOrderedRing K]

namespace Sound

theorem drop (sound : Sound hist sum) (largest : (pass hist sum).maxI = some (i, time))
    (off : (pass hist sum).Off time) : Sound (hist.set i (time, 0)) (pass hist sum).sum := by
  obtain ⟨count, found, occurs⟩ := largest_found largest
  refine ⟨dropped_nonneg found sound.times, ?_, weight_dropped sound.sum found occurs off⟩
  rw [(pass_sums hist sum).2.1]
  exact add_nonneg sound.sum (total_nonneg sound.times)

/-- What is off is above zero, so a pass that drops it carries something over. -/
theorem carries (sound : Sound hist sum) (largest : (pass hist sum).maxI = some (i, time))
    (off : (pass hist sum).Off time) : 0 < (pass hist sum).sum := by
  obtain ⟨count, found, occurs⟩ := largest_found largest
  have totals := total_set found (time, 0)
  have rest := total_nonneg (dropped_nonneg found sound.times)
  have average : 0 ≤ (pass hist sum).ave := by
    rw [pass_ave]
    exact div_nonneg (add_nonneg sound.sum (total_nonneg sound.times)) (Nat.cast_nonneg _)
  have above : 0 < time := by linarith [off.2.1]
  have part : 0 < time * (count : K) := mul_pos above (Nat.cast_pos.mpr occurs)
  rw [Nat.cast_zero, mul_zero, add_zero] at totals
  rw [(pass_sums hist sum).2.1]
  linarith [sound.sum]

/-- The loop stops within as many passes as there are bins in use. -/
theorem endLoop_returns (sound : Sound hist sum) {passes : Nat} (enough : occupied hist ≤ passes) :
    ∃ ave left, endLoop passes hist sum = some (ave, left) := by
  obtain ⟨ave, left, returned, _⟩ := Oil.Test.endLoop_returns passes sound.times sound.sum sound.inUse enough
  exact ⟨ave, left, returned⟩

end Sound

theorem Passes.sound (reached : Passes bins number hist sum) (start : Sound bins 0) : Sound hist sum := by
  induction reached with
  | first => exact start
  | next _ largest off ih => exact ih.drop largest off

theorem Passes.carries (reached : Passes bins number hist sum) (start : Sound bins 0) :
    (hist = bins ∧ sum = 0) ∨ 0 < sum := by
  cases reached with
  | first => exact .inl ⟨rfl, rfl⟩
  | next before largest off => exact .inr ((before.sound start).carries largest off)

end Sound

section Reported

variable {K : Type} [Field K] [LinearOrder K] [IsStrictOrderedRing K] {precise : K} {samples : List K}
  {iterations : Nat} {data : ProfilerData K} {hist : List (K × Nat)}

/-- The loop of `oil_profiler_end` makes no more passes than there are bins in use, each with a
largest time to read and a number of samples to divide by, and then stops. -/
theorem passes_bounded (recorded : record precise samples (oilProfilerBegin iterations) = some data)
    (sampled : samples ≠ []) (nonneg : ∀ x ∈ samples, 0 ≤ x) :
    (∀ number hist sum, Passes data.hist number hist sum →
      number ≤ occupied data.hist ∧ 0 < (pass hist sum).n ∧
        ∃ maxI time count, (pass hist sum).maxI = some (maxI, time) ∧ hist[maxI]? = some (time, count) ∧ 0 < count) ∧
    ∃ number hist sum, Passes data.hist number hist sum ∧ Final hist sum ∧
      oilProfilerEnd data = some ((pass hist sum).ave, hist) := by
  obtain ⟨start, enough⟩ := sound_of_record recorded sampled nonneg
  constructor
  · intro number hist sum reached
    have sound := reached.sound start
    have used := occupied_pos_iff.mpr sound.inUse
    have dropped := reached.occupied
    obtain ⟨i, time, largest⟩ := largest_of_inUse sound.inUse
    obtain ⟨count, found, occurs⟩ := largest_found largest
    refine ⟨by omega, ?_, i, time, count, largest, found, occurs⟩
    rw [(pass_sums hist sum).2.2]
    exact sound.inUse
  · obtain ⟨ave, left, returned⟩ := start.endLoop_returns enough
    obtain ⟨number, carried, reached, final, rfl⟩ := Passes.first.ends returned
    exact ⟨number, left, carried, reached, final, returned⟩

/-- Two of the short iterations differ, but share a bin; the long one is dropped. -/
def outlierSamples : List ℚ := [0, 1 / 10 ^ 8, 0, 0, 0, 100]

def outlierData : ProfilerData ℚ := ⟨6, 2, [(0, 5), (100, 1), (0, 0), (0, 0), (0, 0), (0, 0)]⟩

theorem outlierData_recorded : record oilTimerPrecise outlierSamples (oilProfilerBegin 6) = some outlierData := by
  decide +kernel

theorem passes_bounded_outlier : (∃ hist sum, Passes outlierData.hist 2 hist sum) ∧
    (∀ number hist sum, Passes outlierData.hist number hist sum → number ≤ 2) ∧
    ∃ number hist sum, Passes outlierData.hist number hist sum ∧ Final hist sum ∧
      oilProfilerEnd outlierData = some ((pass hist sum).ave, hist) := by
  obtain ⟨bounded, ended⟩ := passes_bounded outlierData_recorded (by decide) (by decide +kernel)
  have largest : (pass outlierData.hist 0).maxI = some (1, 100) := by decide +kernel
  have off : (pass outlierData.hist 0).Off 100 := by decide +kernel
  exact ⟨⟨_, _, .next .first largest off⟩, fun number hist sum reached => (bounded number hist sum reached).1, ended⟩

/-- A time is above the mean of a histogram by more than four times what the profiler takes for the
deviation. -/
def FarOff (bins : List (K × Nat)) (time : K) : Prop :=
  let n : K := weight bins
  let mean := total bins / n
  let spread := squares bins - total bins * total bins / n + n * n
  (weight bins ≠ 1 ∧ 0 < spread) ∧ mean < time ∧
    (4 * 4 : Nat) * spread < (time - mean) * (n - 1) * ((time - mean) * (n - 1))

/-- The first pass drops a bin where some bin is far off, for then the largest one is, too. -/
theorem final_iff (inUse : 0 < weight hist) : Final hist 0 ↔ ∀ bin ∈ hist, 0 < bin.2 → ¬ FarOff hist bin.1 := by
  obtain ⟨s2, sums, n⟩ := pass_sums hist 0
  have off_eq (time : K) : (pass hist 0).Off time ↔ FarOff hist time := by
    have squared : ((4 * 4 : Nat) : K) = 4 * 4 := by norm_num
    rw [Sums.Off, Sums.radicand, pass_ave, s2, sums, n, zero_add, sub_pos, FarOff, squared]
  obtain ⟨i, time, largest⟩ := largest_of_inUse inUse
  have found := pass_largest hist 0
  rw [largest] at found
  obtain ⟨⟨count, here, occurs⟩, above⟩ := found
  constructor
  · intro final bin member counts farOff
    obtain ⟨defined, higher, far⟩ := farOff
    have bound := above bin member counts
    have more : (0 : K) ≤ weight hist - 1 := by
      have atLeast : (1 : K) ≤ weight hist := by exact_mod_cast inUse
      linarith
    have distance : (bin.1 - total hist / weight hist) * (weight hist - 1) ≤
        (time - total hist / weight hist) * (weight hist - 1) := mul_le_mul_of_nonneg_right (by linarith) more
    have nonneg : 0 ≤ (bin.1 - total hist / weight hist) * (weight hist - 1) := mul_nonneg (by linarith) more
    refine final i time largest ((off_eq time).mpr ⟨defined, by linarith, far.trans_le ?_⟩)
    exact mul_self_le_mul_self nonneg distance
  · intro near j other same off
    rw [largest, Option.some.injEq, Prod.mk.injEq] at same
    obtain ⟨rfl, rfl⟩ := same
    exact near (time, count) (List.mem_of_getElem? here) occurs ((off_eq time).mp off)

/-- What is reported is the mean of the bins that are left, exactly if no bin was far off: the sum
of a pass that drops one is not. -/
theorem average_of_left_iff (recorded : record precise samples (oilProfilerBegin iterations) = some data)
    (sampled : samples ≠ []) (nonneg : ∀ x ∈ samples, 0 ≤ x) :
    ∃ ave left, oilProfilerEnd data = some (ave, left) ∧
      (ave = total left / weight left ↔ ∀ bin ∈ data.hist, 0 < bin.2 → ¬ FarOff data.hist bin.1) := by
  obtain ⟨start, enough⟩ := sound_of_record recorded sampled nonneg
  obtain ⟨ave, left, returned⟩ := start.endLoop_returns enough
  refine ⟨ave, left, returned, ?_⟩
  rw [← final_iff start.inUse]
  constructor
  · intro mean
    obtain ⟨number, carried, reached, final, average⟩ := Passes.first.ends returned
    rcases reached.carries start with ⟨rfl, rfl⟩ | carries
    · exact final
    · have count : (0 : K) < weight left := Nat.cast_pos.mpr (reached.sound start).inUse
      rw [average, pass_ave, add_div, add_eq_right] at mean
      exact absurd mean (ne_of_gt (div_pos carries count))
  · intro final
    have used := occupied_pos_iff.mpr start.inUse
    have settled := endLoop_settled (Nat.lt_of_lt_of_le used enough) start.inUse final
    obtain ⟨rfl, rfl⟩ := Prod.mk.inj (Option.some.inj (returned.symm.trans settled))
    rfl

/-- The mean of merged bins is reported, and that of an outlier's histogram is not. -/
theorem average_of_left_iff_merged :
    (∃ data : ProfilerData ℚ, record (1 / 10) [1, 2, 21 / 20] (oilProfilerBegin 4) = some data ∧
      data.hist = [(1, 2), (2, 1), (0, 0), (0, 0)] ∧ ∀ bin ∈ data.hist, 0 < bin.2 → ¬ FarOff data.hist bin.1) ∧
    ∃ bin ∈ outlierData.hist, 0 < bin.2 ∧ FarOff outlierData.hist bin.1 := by
  have merged : record (1 / 10) [1, 2, 21 / 20] (oilProfilerBegin 4) =
      some ⟨4, 2, [(1, 2), (2, 1), (0, 0), ((0 : ℚ), 0)]⟩ := by decide +kernel
  have mean : oilProfilerEnd ⟨4, 2, [(1, 2), (2, 1), (0, 0), ((0 : ℚ), 0)]⟩ =
      some (4 / 3, [(1, 2), (2, 1), (0, 0), (0, 0)]) := by decide +kernel
  have carried : oilProfilerEnd outlierData = some (20, [(0, 5), (100, 0), (0, 0), (0, 0), (0, 0), (0, 0)]) := by
    decide +kernel
  obtain ⟨ave, left, returned, onMerged⟩ := average_of_left_iff merged (by decide) (by decide +kernel)
  obtain ⟨rfl, rfl⟩ := Prod.mk.inj (Option.some.inj (returned.symm.trans mean))
  obtain ⟨ave, left, returned, onOutlier⟩ := average_of_left_iff outlierData_recorded (by decide) (by decide +kernel)
  obtain ⟨rfl, rfl⟩ := Prod.mk.inj (Option.some.inj (returned.symm.trans carried))
  have apart : ¬ (20 : ℚ) = total [(0, 5), (100, 0), (0, 0), (0, 0), (0, 0), ((0 : ℚ), 0)] /
      weight [(0, 5), (100, 0), (0, 0), (0, 0), (0, 0), ((0 : ℚ), 0)] := by decide +kernel
  refine ⟨⟨_, merged, rfl, onMerged.mp (by decide +kernel)⟩, ?_⟩
  by_contra near
  exact apart (onOutlier.mpr fun bin member occurs farOff => near ⟨bin, member, occurs, farOff⟩)

/-- Five iterations that take no time and one of a hundred seconds: the last one is dropped, and
the others are said to have taken twenty seconds each. -/
theorem dropped_outlier_stays :
    ¬ ∀ (iterations : Nat) (samples : List ℚ) (data : ProfilerData ℚ) (ave : ℚ) (left : List (ℚ × Nat)),
      0 < samples.length → samples.length ≤ iterations → (∀ x ∈ samples, 0 ≤ x) →
      record oilTimerPrecise samples (oilProfilerBegin iterations) = some data →
      oilProfilerEnd data = some (ave, left) → ave = total left / weight left := by
  intro always
  have recorded : record oilTimerPrecise [0, 0, 0, 0, 0, 100] (oilProfilerBegin 6) =
      some ⟨6, 2, [(0, 5), (100, 1), (0, 0), (0, 0), (0, 0), ((0 : ℚ), 0)]⟩ := by decide +kernel
  have returned : oilProfilerEnd ⟨6, 2, [(0, 5), (100, 1), (0, 0), (0, 0), (0, 0), ((0 : ℚ), 0)]⟩ =
      some (20, [(0, 5), (100, 0), (0, 0), (0, 0), (0, 0), (0, 0)]) := by decide +kernel
  have mean := always _ _ _ _ _ (by decide) (by decide) (by decide +kernel) recorded returned
  simp at mean

end Reported

end Oil.Test
