import Mathlib.Algebra.Order.Field.Basic
import Mathlib.Data.Int.Cast.Lemmas
import Mathlib.Tactic.Linarith
import Mathlib.Tactic.NormNum
import Mathlib.Tactic.Positivity
import Mathlib.Tactic.Ring
import Oil.Test.Profiler.Model

namespace Oil.Test

/-! # Readings across a second

The timer counts a second between two readings as 10^9, and a nanosecond as the 10^-9 it is. -/

variable {K : Type} [Field K] [LinearOrder K] [IsStrictOrderedRing K] {reading other : TimerReading}

theorem elapsed_eq (reading : TimerReading) :
    (oilTimerElapsedDefault reading : K) = (10 ^ 9 - 1) * reading.seconds + reading.duration := by
  rw [oilTimerElapsedDefault, TimerReading.duration, TimerReading.seconds]
  ring

theorem duration_near (reading : TimerReading) :
    (reading.seconds : K) - 1 < reading.duration ∧ (reading.duration : K) < reading.seconds + 1 := by
  have lower : (-(10 ^ 9 : Int) : Int) < reading.stop.nsec - reading.start.nsec := by
    have start := reading.start.valid
    have stop := reading.stop.valid
    omega
  have upper : reading.stop.nsec - reading.start.nsec < (10 ^ 9 : Int) := by
    have start := reading.start.valid
    have stop := reading.stop.valid
    omega
  have lowerK : (-(10 ^ 9) : K) < ((reading.stop.nsec - reading.start.nsec : Int) : K) := by exact_mod_cast lower
  have upperK : ((reading.stop.nsec - reading.start.nsec : Int) : K) < 10 ^ 9 := by exact_mod_cast upper
  have unit : (0 : K) < 10 ^ 9 := by positivity
  rw [TimerReading.duration]
  constructor
  · have fraction : -1 < ((reading.stop.nsec - reading.start.nsec : Int) : K) / 10 ^ 9 := by
      rw [lt_div_iff₀ unit]
      linarith
    linarith
  · have fraction : ((reading.stop.nsec - reading.start.nsec : Int) : K) / 10 ^ 9 < 1 := by
      rw [div_lt_iff₀ unit]
      linarith
    linarith

theorem elapsed_nonneg (reading : TimerReading) : (0 : K) ≤ oilTimerElapsedDefault reading := by
  have start := reading.start.valid
  have stop := reading.stop.valid
  rcases reading.ordered with before | ⟨same, ordered⟩
  · obtain ⟨lower, _⟩ := duration_near (K := K) reading
    have second : (1 : K) ≤ reading.seconds := by
      have atLeast : 1 ≤ reading.seconds := by rw [TimerReading.seconds]; omega
      exact_mod_cast atLeast
    rw [elapsed_eq]
    nlinarith
  · have zero : reading.stop.sec - reading.start.sec = 0 := by omega
    have fraction : (0 : K) ≤ ((reading.stop.nsec - reading.start.nsec : Int) : K) := by
      exact_mod_cast (by omega : (0 : Int) ≤ reading.stop.nsec - reading.start.nsec)
    rw [oilTimerElapsedDefault, zero]
    positivity

/-- A second more outweighs whatever the nanoseconds say. -/
theorem elapsed_lt_of_seconds_lt (less : reading.seconds < other.seconds) :
    (oilTimerElapsedDefault reading : K) + 1 ≤ oilTimerElapsedDefault other := by
  obtain ⟨_, upper⟩ := duration_near (K := K) reading
  obtain ⟨lower, _⟩ := duration_near (K := K) other
  have next : (reading.seconds : K) + 1 ≤ other.seconds := by exact_mod_cast less
  rw [elapsed_eq, elapsed_eq]
  nlinarith

theorem seconds_of_close
    (close : |(oilTimerElapsedDefault reading : K) - oilTimerElapsedDefault other| < oilTimerPrecise) :
    reading.seconds = other.seconds := by
  have small : (oilTimerPrecise : K) < 1 := by rw [oilTimerPrecise]; norm_num
  obtain ⟨lower, upper⟩ := abs_lt.mp close
  rcases lt_trichotomy reading.seconds other.seconds with less | same | more
  · have apart := elapsed_lt_of_seconds_lt (K := K) less
    linarith
  · exact same
  · have apart := elapsed_lt_of_seconds_lt (K := K) more
    linarith

end Oil.Test
