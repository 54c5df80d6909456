import Oil.Test.Profiler.Outliers

namespace Oil.Test

open Oil.Data

/-! # How precise a measurement is -/

variable {K : Type} [Field K] [LinearOrder K] {precise : K} {samples : List K} {iterations : Nat}

/-- What the profiler has kept of the samples.  A sample is paired with the position of the bin it
was counted in. -/
structure HistoryKept (precise : K) (samples : List K) (data : ProfilerData K) : Prop where
  room : data.histN ≤ data.iterations ∧ data.hist.length = data.iterations
  counts : (data.hist.map Prod.snd).sum = samples.length
  apart : (data.hist.take data.histN).Pairwise fun a b => precise ≤ |b.1 - a.1|
  placed : ∃ placed : List (K × Nat), placed.map Prod.fst = samples ∧ (∀ pair ∈ placed, pair.2 < data.histN) ∧
    CountedIn precise data.hist placed
  dropsNothing : (∃ ave, oilProfilerEnd data = some (ave, data.hist)) ↔
    ∀ bin ∈ data.hist, 0 < bin.2 → ¬ FarOff data.hist bin.1
  average : (∀ bin ∈ data.hist, 0 < bin.2 → ¬ FarOff data.hist bin.1) →
    ∃ ave, oilProfilerEnd data = some (ave, data.hist) ∧ |ave - samples.sum / samples.length| < precise

/-- The unused entries count nothing. -/
theorem countedIn_filled {bins placed : List (K × Nat)} (counted : CountedIn precise bins placed) :
    (∀ pair ∈ placed, pair.2 < bins.length) ∧
      CountedIn precise (ProfilerData.filled iterations bins).hist placed := by
  obtain ⟨close, counts⟩ := counted
  have inside : ∀ pair ∈ placed, pair.2 < bins.length := by
    intro pair member
    obtain ⟨bin, found, _⟩ := close pair member
    exact (List.getElem?_eq_some_iff.mp found).1
  refine ⟨inside, fun pair member => ?_, fun i bin found => ?_⟩
  · obtain ⟨bin, found, near⟩ := close pair member
    exact ⟨bin, (List.getElem?_append_left (inside pair member)).trans found, near⟩
  · rcases Nat.lt_or_ge i bins.length with used | unused
    · exact counts i bin ((List.getElem?_append_left used).symm.trans found)
    · rw [ProfilerData.filled, List.getElem?_append_right unused] at found
      rw [List.eq_of_mem_replicate (List.mem_of_getElem? found)]
      refine (List.count_eq_zero.mpr fun member => ?_).symm
      obtain ⟨pair, inPlaced, rfl⟩ := List.mem_map.mp member
      exact absurd (inside pair inPlaced) (Nat.not_lt.mpr unused)

variable [IsStrictOrderedRing K]

/-- The loop of `oil_profiler_end` drops no bin exactly if none is far off, and then there is an
average of them all. -/
theorem filled_settles {bins : List (K × Nat)} (inUse : 0 < weight bins) (room : bins.length ≤ iterations) :
    ((∃ ave, oilProfilerEnd (.filled iterations bins) = some (ave, (ProfilerData.filled iterations bins).hist)) ↔
      ∀ bin ∈ (ProfilerData.filled iterations bins).hist, 0 < bin.2 →
        ¬ FarOff (ProfilerData.filled iterations bins).hist bin.1) ∧
    ((∀ bin ∈ (ProfilerData.filled iterations bins).hist, 0 < bin.2 →
        ¬ FarOff (ProfilerData.filled iterations bins).hist bin.1) →
      oilProfilerEnd (.filled iterations bins) =
        some (total bins / weight bins, (ProfilerData.filled iterations bins).hist)) := by
  obtain ⟨sumWeight, sumTotal⟩ := filled_sums iterations bins
  have used : 0 < weight (ProfilerData.filled iterations bins).hist := by rwa [sumWeight]
  have entries : 0 < bins.length := by
    cases bins with
    | nil => exact absurd inUse (Nat.lt_irrefl 0)
    | cons bin bins => exact Nat.succ_pos _
  have settled (near : ∀ bin ∈ (ProfilerData.filled iterations bins).hist, 0 < bin.2 →
      ¬ FarOff (ProfilerData.filled iterations bins).hist bin.1) :
      oilProfilerEnd (.filled iterations bins) =
        some (total bins / weight bins, (ProfilerData.filled iterations bins).hist) := by
    have returned := endLoop_settled (Nat.lt_of_lt_of_le entries room) used ((final_iff used).mpr near)
    rwa [sumWeight, sumTotal] at returned
  refine ⟨⟨fun ⟨ave, returned⟩ => ?_, fun near => ⟨_, settled near⟩⟩, settled⟩
  exact (final_iff used).mp (final_of_nothing_dropped returned).1

/-- Up to as many samples as there are iterations are kept without a write past the histogram, each
within the precision of the timer, and so is their mean where no bin is dropped. -/
theorem record_precise (positive : 0 < precise) (sampled : samples ≠ []) (room : samples.length ≤ iterations) :
    ∃ data, record precise samples (oilProfilerBegin iterations) = some data ∧ data.iterations = iterations ∧
      HistoryKept precise samples data := by
  have recorded := histogram_recorded positive samples
  have sumWeight := (filled_sums iterations (histogram precise samples)).1
  have fits : (histogram precise samples).length ≤ iterations := recorded.length.trans room
  have inUse : 0 < weight (histogram precise samples) := by
    rw [recorded.weight]
    exact List.length_pos_iff.mpr sampled
  obtain ⟨dropsNothing, settled⟩ := filled_settles inUse fits
  refine ⟨_, record_begin precise room, rfl, ⟨fits, filled_length fits⟩, ?_, ?_, ?_, dropsNothing, fun near => ?_⟩
  · exact sumWeight.trans recorded.weight
  · rw [ProfilerData.filled, List.take_left]
    exact recorded.apart
  · obtain ⟨placed, all, counted⟩ := histogram_counted positive samples
    exact ⟨placed, all, countedIn_filled counted⟩
  · have count : (0 : K) < samples.length := Nat.cast_pos.mpr (List.length_pos_iff.mpr sampled)
    have close := recorded.total_near sampled
    refine ⟨_, settled near, ?_⟩
    rw [recorded.weight, ← sub_div, abs_div, abs_of_pos count, div_lt_iff₀ count, mul_comm]
    exact close

/-- Two of the three samples share a bin. -/
theorem record_precise_two : ∃ (data : ProfilerData ℚ) (ave : ℚ),
    record (1 / 10) [1, 2, 21 / 20] (oilProfilerBegin 4) = some data ∧
      oilProfilerEnd data = some (ave, data.hist) ∧ |ave - (1 + 2 + 21 / 20) / 3| < 1 / 10 := by
  obtain ⟨data, recorded, _, kept⟩ := record_precise (by norm_num : (0 : ℚ) < 1 / 10)
    (by simp : [(1 : ℚ), 2, 21 / 20] ≠ []) (by decide : _ ≤ 4)
  have bins : record (1 / 10) [1, 2, 21 / 20] (oilProfilerBegin 4) =
      some ⟨4, 2, [(1, 2), (2, 1), (0, 0), ((0 : ℚ), 0)]⟩ := by decide +kernel
  obtain rfl := Option.some.inj (recorded.symm.trans bins)
  have returned : oilProfilerEnd ⟨4, 2, [(1, 2), (2, 1), (0, 0), ((0 : ℚ), 0)]⟩ =
      some (4 / 3, [(1, 2), (2, 1), (0, 0), ((0 : ℚ), 0)]) := by decide +kernel
  obtain ⟨ave, same, close⟩ := kept.average (kept.dropsNothing.mp ⟨_, returned⟩)
  refine ⟨_, ave, recorded, same, ?_⟩
  norm_num [abs_lt] at close ⊢
  exact close

end Oil.Test
