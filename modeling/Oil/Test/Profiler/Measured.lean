import Oil.Test.Profiler.Passes
import Oil.Test.Profiler.Recording
import Oil.Test.Profiler.Timer

namespace Oil.Test

open Oil.Data

/-! # Measurements of two functions

What the unit of the timer, and the sums that go from pass to pass, do to the order in which
two functions are measured. -/

/-- The seconds that went by in all iterations of a test. -/
def secondsCrossed (readings : List TimerReading) : Int := (readings.map TimerReading.seconds).sum

variable {K : Type} [Field K] [LinearOrder K]

/-- The bins of a test. -/
def sampled (readings : List TimerReading) : List (K × Nat) :=
  histogram oilTimerPrecise (readings.map oilTimerElapsedDefault)

/-- The loop at the end of the test makes one pass. -/
def DropsNothing (K : Type) [Field K] [LinearOrder K] (readings : List TimerReading) : Prop :=
  ∀ data : ProfilerData K, profile readings = some data → Settles data.hist

theorem profile_eq (readings : List TimerReading) :
    (profile readings : Option (ProfilerData K)) = some (.filled readings.length (sampled readings)) :=
  record_begin oilTimerPrecise (by rw [List.length_map])

variable [IsStrictOrderedRing K]

theorem oilTimerPrecise_pos : (0 : K) < oilTimerPrecise := by
  rw [oilTimerPrecise]
  positivity

theorem sampled_recorded (readings : List TimerReading) :
    Recorded oilTimerPrecise (readings.map oilTimerElapsedDefault) (sampled readings : List (K × Nat)) :=
  histogram_recorded oilTimerPrecise_pos _

/-- Every iteration counts with the time of one that took as many seconds. -/
theorem counted_readings {readings pool : List TimerReading} {placed : List (K × K)}
    (places : placed.map Prod.fst = readings.map oilTimerElapsedDefault)
    (close : ∀ pair ∈ placed, |pair.1 - pair.2| < oilTimerPrecise ∧ pair.2 ∈ pool.map oilTimerElapsedDefault) :
    ∃ counted : List TimerReading, counted.map TimerReading.seconds = readings.map TimerReading.seconds ∧
      (∀ reading ∈ counted, reading ∈ pool) ∧ placed.map Prod.snd = counted.map oilTimerElapsedDefault := by
  induction placed generalizing readings with
  | nil =>
      cases readings with
      | nil => exact ⟨[], rfl, fun _ member => absurd member List.not_mem_nil, rfl⟩
      | cons reading readings => simp at places
  | cons pair placed ih =>
      cases readings with
      | nil => simp at places
      | cons reading readings =>
          obtain ⟨first, rest⟩ := List.cons.inj places
          obtain ⟨counted, seconds, pooled, times⟩ := ih rest fun other member => close other (.tail _ member)
          obtain ⟨near, taken⟩ := close pair (.head _)
          obtain ⟨other, inPool, same⟩ := List.mem_map.mp taken
          rw [first, ← same] at near
          refine ⟨other :: counted, ?_, ?_, ?_⟩
          · rw [List.map_cons, List.map_cons, seconds, seconds_of_close near]
          · exact List.forall_mem_cons.mpr ⟨inPool, pooled⟩
          · rw [List.map_cons, List.map_cons, times, same]

/-- What the histogram of a test adds up to. -/
theorem sampled_total (readings : List TimerReading) :
    ∃ counted : List TimerReading, counted.map TimerReading.seconds = readings.map TimerReading.seconds ∧
      (∀ reading ∈ counted, reading ∈ readings) ∧
      total (sampled readings) = (counted.map oilTimerElapsedDefault : List K).sum := by
  have recorded := sampled_recorded (K := K) readings
  obtain ⟨placed, places, close, sums⟩ := recorded.placed
  obtain ⟨counted, seconds, pooled, times⟩ := counted_readings places fun pair member => by
    obtain ⟨near, inBins⟩ := close pair member
    obtain ⟨bin, member, same⟩ := List.mem_map.mp inBins
    exact ⟨near, same ▸ recorded.values bin member⟩
  exact ⟨counted, seconds, pooled, by rw [sums, times]⟩

theorem elapsed_sum (readings : List TimerReading) :
    (readings.map oilTimerElapsedDefault : List K).sum =
      (10 ^ 9 - 1) * secondsCrossed readings + (readings.map TimerReading.duration).sum := by
  induction readings with
  | nil => simp [secondsCrossed]
  | cons reading readings ih =>
      rw [secondsCrossed] at ih ⊢
      rw [List.map_cons, List.sum_cons, ih, elapsed_eq, List.map_cons, List.sum_cons, List.map_cons, List.sum_cons,
        Int.cast_add]
      ring

theorem durations_near (readings : List TimerReading) :
    (secondsCrossed readings : K) - readings.length ≤ (readings.map TimerReading.duration).sum ∧
    (readings.map TimerReading.duration : List K).sum ≤ secondsCrossed readings + readings.length := by
  induction readings with
  | nil => simp [secondsCrossed]
  | cons reading readings ih =>
      obtain ⟨lower, upper⟩ := duration_near (K := K) reading
      rw [secondsCrossed] at ih ⊢
      rw [List.map_cons, List.sum_cons, List.map_cons, List.sum_cons, List.length_cons, Int.cast_add, Nat.cast_succ]
      constructor <;> linarith

theorem filled_times {bin : K × Nat} (readings : List TimerReading)
    (member : bin ∈ (ProfilerData.filled readings.length (sampled readings)).hist) :
    (∃ reading ∈ readings, oilTimerElapsedDefault reading = bin.1) ∨ bin = (0, 0) := by
  rcases List.mem_append.mp member with used | unused
  · exact .inl (List.mem_map.mp ((sampled_recorded readings).values bin used))
  · exact .inr (List.eq_of_mem_replicate unused)

theorem filled_weight (readings : List TimerReading) :
    weight (ProfilerData.filled readings.length (sampled readings : List (K × Nat))).hist = readings.length := by
  rw [(filled_sums _ _).1, (sampled_recorded readings).weight, List.length_map]

/-- A test is measured at its mean or above, and at its mean where the loop makes one pass. -/
theorem measure_returns {readings : List TimerReading} (positive : 0 < readings.length) :
    ∃ x : K, measure readings = some x ∧ total (sampled readings) / (readings.length : K) ≤ x ∧
      (DropsNothing K readings → x = total (sampled readings) / (readings.length : K)) := by
  have sums := (filled_sums readings.length (sampled readings : List (K × Nat))).2
  have weights := filled_weight (K := K) readings
  have length := (sampled_recorded (K := K) readings).length
  rw [List.length_map] at length
  have nonneg : ∀ bin ∈ (ProfilerData.filled readings.length (sampled readings : List (K × Nat))).hist,
      0 ≤ bin.1 := by
    intro bin member
    rcases filled_times readings member with ⟨reading, _, same⟩ | unused
    · rw [← same]
      exact elapsed_nonneg reading
    · rw [unused]
  have enough : occupied (ProfilerData.filled readings.length (sampled readings : List (K × Nat))).hist ≤
      readings.length := List.countP_le_length.trans (le_of_eq (filled_length length))
  obtain ⟨x, left, returned, above⟩ := endLoop_returns readings.length nonneg (le_refl 0) (by omega) enough
  rw [zero_add, sums, weights] at above
  refine ⟨x, ?_, above, fun dropsNothing => ?_⟩
  · rw [measure, profile_eq, Option.bind_some, oilProfilerEnd]
    exact congrArg (Option.map Prod.fst) returned
  · have settled := endLoop_settled positive (by omega) (dropsNothing _ (profile_eq readings))
    rw [returned, Option.some.injEq, Prod.mk.injEq, sums, weights] at settled
    exact settled.1

theorem same_length {counted readings : List TimerReading}
    (seconds : counted.map TimerReading.seconds = readings.map TimerReading.seconds) :
    counted.length = readings.length ∧ secondsCrossed counted = secondsCrossed readings := by
  have lengths := congrArg List.length seconds
  rw [List.length_map, List.length_map] at lengths
  exact ⟨lengths, congrArg List.sum seconds⟩

variable {A B : List TimerReading}

theorem total_lt (sameCount : A.length = B.length) (positive : 0 < A.length)
    (faster : ∀ a ∈ A, ∀ b ∈ B, (a.duration : K) < b.duration) (seconds : secondsCrossed A ≤ secondsCrossed B) :
    (total (sampled A) : K) < total (sampled B) := by
  obtain ⟨countedA, secondsA, pooledA, totalA⟩ := sampled_total (K := K) A
  obtain ⟨countedB, secondsB, pooledB, totalB⟩ := sampled_total (K := K) B
  obtain ⟨lengthA, crossedA⟩ := same_length secondsA
  obtain ⟨lengthB, crossedB⟩ := same_length secondsB
  have durations : (countedA.map TimerReading.duration : List K).sum < (countedB.map TimerReading.duration).sum := by
    refine sum_lt_sum_of_forall_lt ?_ ?_ fun x memberA y memberB => ?_
    · rw [List.length_map, List.length_map, lengthA, lengthB, sameCount]
    · rwa [List.length_map, lengthA]
    · obtain ⟨a, inA, rfl⟩ := List.mem_map.mp memberA
      obtain ⟨b, inB, rfl⟩ := List.mem_map.mp memberB
      exact faster a (pooledA a inA) b (pooledB b inB)
  have crossed : (secondsCrossed A : K) ≤ secondsCrossed B := Int.cast_le.mpr seconds
  rw [totalA, totalB, elapsed_sum, elapsed_sum, crossedA, crossedB]
  linarith

/-- Half a second too much in each iteration does not make up for a second. -/
theorem seconds_le_of_total_lt (sameCount : A.length = B.length) (bounded : A.length ≤ 5 * 10 ^ 8)
    (less : (total (sampled A) : K) < total (sampled B)) : secondsCrossed A ≤ secondsCrossed B := by
  obtain ⟨countedA, secondsA, _, totalA⟩ := sampled_total (K := K) A
  obtain ⟨countedB, secondsB, _, totalB⟩ := sampled_total (K := K) B
  obtain ⟨lengthA, crossedA⟩ := same_length secondsA
  obtain ⟨lengthB, crossedB⟩ := same_length secondsB
  obtain ⟨lower, _⟩ := durations_near (K := K) countedA
  obtain ⟨_, upper⟩ := durations_near (K := K) countedB
  have count : (A.length : K) ≤ 5 * 10 ^ 8 := by exact_mod_cast bounded
  rw [totalA, totalB, elapsed_sum, elapsed_sum, crossedA, crossedB] at less
  rw [crossedA, lengthA] at lower
  rw [crossedB, lengthB, ← sameCount] at upper
  by_contra more
  have next : (secondsCrossed B : K) + 1 ≤ secondsCrossed A := by exact_mod_cast not_le.mp more
  linarith

/-- Iterations that take as many seconds, whatever their nanoseconds, are all kept. -/
theorem dropsNothing_of_same_seconds {readings : List TimerReading} (positive : 0 < readings.length) {seconds : Int}
    (same : ∀ reading ∈ readings, reading.seconds = seconds) : DropsNothing K readings := by
  intro data profiled
  obtain rfl := Option.some.inj ((profile_eq readings).symm.trans profiled)
  have close : ∀ bin ∈ (ProfilerData.filled readings.length (sampled readings : List (K × Nat))).hist, 0 < bin.2 →
      10 ^ 9 * (seconds : K) - 1 ≤ bin.1 ∧ bin.1 ≤ 10 ^ 9 * (seconds : K) - 1 + 4 := by
    intro bin member occurs
    rcases filled_times readings member with ⟨reading, inReadings, time⟩ | unused
    · obtain ⟨lower, upper⟩ := duration_near (K := K) reading
      rw [same reading inReadings] at lower upper
      rw [← time, elapsed_eq, same reading inReadings]
      constructor <;> linarith
    · rw [unused] at occurs
      exact absurd occurs (Nat.lt_irrefl 0)
  exact settles_of_close (by rwa [filled_weight]) close

/-- Two tests of as many iterations, where each of the first took less than each of the second.
The first is measured lower if its loop drops no bin and it crosses no more seconds, and where
the loop of the second drops no bin only if it crosses no more seconds. -/
theorem faster_measures_lower (sameCount : A.length = B.length) (positive : 0 < A.length)
    (faster : ∀ a ∈ A, ∀ b ∈ B, (a.duration : K) < b.duration) :
    ∃ x y : K, measure A = some x ∧ measure B = some y ∧
      (DropsNothing K A → secondsCrossed A ≤ secondsCrossed B → x < y) ∧
      (DropsNothing K B → A.length ≤ 5 * 10 ^ 8 → x < y → secondsCrossed A ≤ secondsCrossed B) := by
  obtain ⟨x, measuredA, lowerA, meanA⟩ := measure_returns (K := K) positive
  obtain ⟨y, measuredB, lowerB, meanB⟩ := measure_returns (K := K) (sameCount ▸ positive)
  have count : (0 : K) < A.length := Nat.cast_pos.mpr positive
  rw [← sameCount] at lowerB meanB
  refine ⟨x, y, measuredA, measuredB, fun dropsNothing seconds => ?_, fun dropsNothing bounded less => ?_⟩
  · calc x
      _ = total (sampled A) / (A.length : K) := meanA dropsNothing
      _ < total (sampled B) / (A.length : K) :=
        div_lt_div_of_pos_right (total_lt sameCount positive faster seconds) count
      _ ≤ y := lowerB
  · rw [meanB dropsNothing] at less
    exact seconds_le_of_total_lt sameCount bounded ((div_lt_div_iff_of_pos_right count).mp (lowerA.trans_lt less))

-- Dropping the one iteration of two seconds doubles the sum of the others: the average is above both.
example : ((record 1 (2 * 10 ^ 9 :: List.replicate 5 (10 ^ 9)) (oilProfilerBegin 6)).bind oilProfilerEnd).map Prod.fst =
    some (24 * 10 ^ 8 : ℚ) := by decide +kernel

/-- A reading that starts so many nanoseconds past a second. -/
def readingOf (nsec : Int) (valid : 0 ≤ nsec ∧ nsec < 10 ^ 9) (stop : Timespec)
    (ordered : 0 < stop.sec ∨ 0 = stop.sec ∧ nsec ≤ stop.nsec) : TimerReading :=
  ⟨⟨0, nsec, valid⟩, stop, ordered⟩

/-- A tenth of a second, from one second into the next. -/
def overSecond : TimerReading := readingOf 900000000 (by decide) ⟨1, 0, by decide⟩ (by decide)

/-- Half a second. -/
def halfSecond : TimerReading := readingOf 0 (by decide) ⟨0, 500000000, by decide⟩ (by decide)

/-- A tenth of a second. -/
def tenthSecond : TimerReading := readingOf 0 (by decide) ⟨0, 100000000, by decide⟩ (by decide)

/-- A tenth of a second and fifty nanoseconds, which the histogram does not tell from a tenth. -/
def nearTenth : TimerReading := readingOf 0 (by decide) ⟨0, 100000050, by decide⟩ (by decide)

/-- A second. -/
def fullSecond : TimerReading := readingOf 0 (by decide) ⟨1, 0, by decide⟩ (by decide)

theorem faster_measures_lower_thrice : ∃ x y : ℚ,
    measure [tenthSecond, nearTenth, tenthSecond] = some x ∧ measure [halfSecond, fullSecond, halfSecond] = some y ∧
    (sampled [tenthSecond, nearTenth, tenthSecond] : List (ℚ × Nat)).length = 1 ∧ x < y := by
  have faster : ∀ a ∈ [tenthSecond, nearTenth, tenthSecond], ∀ b ∈ [halfSecond, fullSecond, halfSecond],
      (a.duration : ℚ) < b.duration := by decide +kernel
  have sameSeconds : ∀ reading ∈ [tenthSecond, nearTenth, tenthSecond], reading.seconds = 0 := by decide
  have kept : DropsNothing ℚ [tenthSecond, nearTenth, tenthSecond] :=
    dropsNothing_of_same_seconds (by decide) sameSeconds
  obtain ⟨x, y, measuredA, measuredB, lower, _⟩ := faster_measures_lower
    (by decide : [tenthSecond, nearTenth, tenthSecond].length = [halfSecond, fullSecond, halfSecond].length)
    (by decide) faster
  exact ⟨x, y, measuredA, measuredB, by decide +kernel, lower kept (by decide)⟩

/-- The faster of two functions loses, when its iteration runs from one second into the next. -/
theorem faster_measures_higher :
    ¬ ∀ A B : List TimerReading, A.length = B.length → 0 < A.length →
        (∀ a ∈ A, ∀ b ∈ B, (a.duration : ℚ) < b.duration) →
        ∃ x y : ℚ, measure A = some x ∧ measure B = some y ∧ x < y := by
  intro order
  have measuredA : measure [overSecond] = some (9999999991 / 10 : ℚ) := by decide +kernel
  have measuredB : measure [halfSecond] = some (1 / 2 : ℚ) := by decide +kernel
  obtain ⟨x, y, measured, measured', less⟩ := order [overSecond] [halfSecond] rfl (by decide) (by decide +kernel)
  rw [measuredA, Option.some.injEq] at measured
  rw [measuredB, Option.some.injEq] at measured'
  rw [← measured, ← measured'] at less
  norm_num at less

end Oil.Test
