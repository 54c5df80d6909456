import Mathlib.Algebra.Order.Field.Basic
import Mathlib.Algebra.Ring.Int.Defs

namespace Oil.Test

/-! # The default profiler

The time each iteration of a tested function takes goes into a histogram, and what the
profiler reports at the end is an average over it.  Times are elements of an ordered field,
so the arithmetic is exact.  The definitions go by the names of the functions of
`oilprofiler.c` and `oilutil.c`. -/

/-- `struct timespec`. -/
structure Timespec where
  sec : Int
  nsec : Int
  valid : 0 ≤ nsec ∧ nsec < 10 ^ 9
deriving DecidableEq

/-- What the timer of an iteration holds after it: its start, and a stop not before that. -/
structure TimerReading where
  start : Timespec
  stop : Timespec
  ordered : start.sec < stop.sec ∨ start.sec = stop.sec ∧ start.nsec ≤ stop.nsec
deriving DecidableEq

/-- `struct _profiler_data`: `hist` holds `hist_time` and `hist_count`, allocated with as many
entries as there are iterations. -/
structure ProfilerData (K : Type) where
  iterations : Nat
  histN : Nat
  hist : List (K × Nat)
deriving DecidableEq

variable {K : Type} [Field K] [LinearOrder K]

def oilTimerElapsedDefault (reading : TimerReading) : K :=
  ((reading.stop.sec - reading.start.sec : Int) : K) * 1 * 10 ^ 9 +
    ((reading.stop.nsec - reading.start.nsec : Int) : K) / 10 ^ 9

/-- The seconds between two readings, without their nanoseconds. -/
def TimerReading.seconds (reading : TimerReading) : Int := reading.stop.sec - reading.start.sec

/-- The time between two readings, in seconds. -/
def TimerReading.duration (reading : TimerReading) : K :=
  (reading.seconds : K) + ((reading.stop.nsec - reading.start.nsec : Int) : K) / 10 ^ 9

/-- `precise` of the timer. -/
def oilTimerPrecise : K := 1 / 10 ^ 7

def oilProfilerBegin (iterations : Nat) : ProfilerData K where
  iterations := iterations
  histN := 0
  hist := List.replicate iterations (0, 0)

/-- `oil_profiler_stop`, with what the timer says elapsed; no result where it writes past the
end of the histogram. -/
def oilProfilerStop (precise elapsed : K) (data : ProfilerData K) : Option (ProfilerData K) :=
  match (data.hist.take data.histN).findIdx? fun bin => |elapsed - bin.1| < precise with
  | some i => some { data with hist := data.hist.modify i fun bin => (bin.1, bin.2 + 1) }
  | none =>
      if data.histN < data.hist.length then
        some { data with histN := data.histN + 1, hist := data.hist.set data.histN (elapsed, 1) }
      else none

/-- The iterations of a tested function, one after the other. -/
def record (precise : K) : List K → ProfilerData K → Option (ProfilerData K)
  | [], data => some data
  | elapsed :: samples, data => (oilProfilerStop precise elapsed data).bind (record precise samples)

/-- The accumulators of a pass of `oil_profiler_end`.  `maxI` is `max_i` with its time, none
where it is still -1. -/
structure Sums (K : Type) where
  s2 : K
  sum : K
  n : Nat
  maxI : Option (Nat × K)

/-- The body of the loop of a pass, for the bin at index `i`. -/
def Sums.take (sums : Sums K) (i : Nat) (bin : K × Nat) : Sums K where
  s2 := sums.s2 + bin.1 * bin.1 * (bin.2 : K)
  sum := sums.sum + bin.1 * (bin.2 : K)
  n := sums.n + bin.2
  maxI :=
    if bin.2 > 0 then
      match sums.maxI with
      | none => some (i, bin.1)
      | some (maxI, time) => if bin.1 > time then some (i, bin.1) else some (maxI, time)
    else sums.maxI

/-- The loop of a pass, from index `i` on. -/
def sumUp : (i : Nat) → (hist : List (K × Nat)) → Sums K → Sums K
  | _, [], sums => sums
  | i, bin :: hist, sums => sumUp (i + 1) hist (sums.take i bin)

/-- A pass of `oil_profiler_end`, which takes over the sum of the passes before it. -/
def pass (hist : List (K × Nat)) (sum : K) : Sums K := sumUp 0 hist { s2 := 0, sum, n := 0, maxI := none }

def Sums.ave (sums : Sums K) : K := sums.sum / sums.n

/-- What is under the root in `std`. -/
def Sums.radicand (sums : Sums K) : K := sums.s2 - sums.sum * sums.sum / sums.n + (sums.n : K) * sums.n

/-- `off > 4.0`, where `off` is the distance of the largest time from the average over the root
over `n - 1`; false where a quotient or the root is undefined. -/
def Sums.Off (sums : Sums K) (time : K) : Prop :=
  (sums.n ≠ 1 ∧ 0 < sums.radicand) ∧ 0 < time - sums.ave ∧
    4 * 4 * sums.radicand < (time - sums.ave) * ((sums.n : K) - 1) * ((time - sums.ave) * ((sums.n : K) - 1))

instance (sums : Sums K) (time : K) : Decidable (sums.Off time) := inferInstanceAs (Decidable ((_ ∧ _) ∧ _))

/-- The loop of `oil_profiler_end`, for so many passes at most: the average, and the histogram
it leaves.  No result where there is no largest time, or where the passes do not suffice. -/
def endLoop : (passes : Nat) → (hist : List (K × Nat)) → (sum : K) → Option (K × List (K × Nat))
  | 0, _, _ => none
  | passes + 1, hist, sum =>
      let sums := pass hist sum
      match sums.maxI with
      | none => none
      | some (maxI, time) =>
          if sums.Off time then endLoop passes (hist.set maxI (time, 0)) sums.sum else some (sums.ave, hist)

/-- `oil_profiler_end`, which drops a bin in every pass but the last. -/
def oilProfilerEnd (data : ProfilerData K) : Option (K × List (K × Nat)) := endLoop data.iterations data.hist 0

/-- The profiler after a test whose iterations left these readings. -/
def profile (readings : List TimerReading) : Option (ProfilerData K) :=
  record oilTimerPrecise (readings.map oilTimerElapsedDefault) (oilProfilerBegin readings.length)

/-- What the profiler reports of a test. -/
def measure (readings : List TimerReading) : Option K :=
  (profile readings).bind fun data => (oilProfilerEnd data).map Prod.fst

end Oil.Test
