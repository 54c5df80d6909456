import Oil.Data.Histogram
import Oil.Test.Profiler.Model

namespace Oil.Test

open Oil.Data

variable {K : Type} [Field K] {bins : List (K × Nat)} {iterations : Nat}

/-- The arrays of a histogram with so many entries, of which the first are in use. -/
def ProfilerData.filled (iterations : Nat) (bins : List (K × Nat)) : ProfilerData K where
  iterations := iterations
  histN := bins.length
  hist := bins ++ List.replicate (iterations - bins.length) (0, 0)

/-- The entries that are not in use have no part in the sums. -/
theorem filled_sums (iterations : Nat) (bins : List (K × Nat)) :
    weight (ProfilerData.filled iterations bins).hist = weight bins ∧
    total (ProfilerData.filled iterations bins).hist = total bins := by
  have unused : weight (List.replicate (iterations - bins.length) ((0 : K), 0)) = 0 :=
    weight_eq_zero_iff.mpr fun bin member => by rw [List.eq_of_mem_replicate member]
  constructor
  · rw [ProfilerData.filled, weight_append, unused, Nat.add_zero]
  · rw [ProfilerData.filled, total_append, total_of_no_weight unused, add_zero]

theorem filled_length (room : bins.length ≤ iterations) :
    (ProfilerData.filled iterations bins).hist.length = iterations := by
  rw [ProfilerData.filled, List.length_append, List.length_replicate]
  omega

theorem modify_append_left {α : Type} {xs ys : List α} {i : Nat} (inside : i < xs.length) (f : α → α) :
    (xs ++ ys).modify i f = xs.modify i f ++ ys := by
  induction xs generalizing i with
  | nil => simp at inside
  | cons x xs ih =>
      cases i with
      | zero => rfl
      | succ i => simp only [List.cons_append, List.modify_succ_cons, ih (by simpa using inside)]

variable [LinearOrder K]

/-- `oil_profiler_stop` adds a sample to the histogram, where that leaves no more bins than there
are iterations. -/
theorem oilProfilerStop_filled (precise x : K) (room : bins.length ≤ iterations) :
    oilProfilerStop precise x (.filled iterations bins) =
      if (addSample precise x bins).length ≤ iterations then some (.filled iterations (addSample precise x bins))
      else none := by
  have used : (ProfilerData.filled iterations bins).hist.take (ProfilerData.filled iterations bins).histN = bins :=
    List.take_left
  rw [addSample_eq, oilProfilerStop, used]
  cases search : bins.findIdx? fun bin => |x - bin.1| < precise with
  | some i =>
      obtain ⟨inside, _⟩ := List.findIdx?_eq_some_iff_getElem.mp search
      dsimp only
      rw [if_pos (by rwa [List.length_modify])]
      simp only [ProfilerData.filled, modify_append_left inside, List.length_modify]
  | none =>
      have entries : (ProfilerData.filled iterations bins).hist.length = iterations := filled_length room
      dsimp only
      rw [entries, List.length_append, List.length_singleton]
      by_cases fits : bins.length < iterations
      · obtain ⟨free, more⟩ : ∃ free, iterations - bins.length = free + 1 := ⟨iterations - bins.length - 1, by omega⟩
        have less : iterations - (bins.length + 1) = free := by omega
        rw [if_pos (by exact fits), if_pos (by omega)]
        simp only [ProfilerData.filled, more, List.set_append_right _ _ (Nat.le_refl _), Nat.sub_self,
          List.replicate_succ, List.set_cons_zero, List.length_append, List.length_singleton, less, List.append_assoc,
          List.singleton_append]
      · rw [if_neg (by exact fits), if_neg (by omega)]

/-- The iterations of a run fill the histogram, and no bin lies outside it. -/
theorem record_filled (precise : K) (samples : List K) (room : bins.length + samples.length ≤ iterations) :
    record precise samples (.filled iterations bins) =
      some (.filled iterations (samples.foldl (fun bins x => addSample precise x bins) bins)) := by
  induction samples generalizing bins with
  | nil => rfl
  | cons x samples ih =>
      rw [List.length_cons] at room
      have longer := addSample_length precise x bins
      rw [record, oilProfilerStop_filled precise x (by omega), if_pos (by omega), Option.bind_some, ih (by omega),
        List.foldl_cons]

theorem record_begin (precise : K) {samples : List K} (room : samples.length ≤ iterations) :
    record precise samples (oilProfilerBegin iterations) = some (.filled iterations (histogram precise samples)) :=
  record_filled precise samples (by rw [List.length_nil, Nat.zero_add]; exact room : [].length + _ ≤ _)

/-- However many samples there were, what was recorded of them is their histogram. -/
theorem filled_of_record {precise : K} {samples : List K} {data : ProfilerData K} (room : bins.length ≤ iterations)
    (recorded : record precise samples (.filled iterations bins) = some data) :
    data = .filled iterations (samples.foldl (fun bins x => addSample precise x bins) bins) ∧
      (samples.foldl (fun bins x => addSample precise x bins) bins).length ≤ iterations := by
  induction samples generalizing bins with
  | nil => exact ⟨(Option.some.inj recorded).symm, room⟩
  | cons x samples ih =>
      rw [record, oilProfilerStop_filled precise x room] at recorded
      split at recorded
      case isTrue fits => exact ih fits recorded
      case isFalse => contradiction

theorem filled_of_record_begin {precise : K} {samples : List K} {data : ProfilerData K}
    (recorded : record precise samples (oilProfilerBegin iterations) = some data) :
    data = .filled iterations (histogram precise samples) ∧ (histogram precise samples).length ≤ iterations :=
  filled_of_record (Nat.zero_le iterations) recorded

end Oil.Test
