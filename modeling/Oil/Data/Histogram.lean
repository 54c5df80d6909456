import Oil.Data.Weighted

namespace Oil.Data

/-! # Histograms that merge close samples

A sample joins the first bin whose time it is close to, and opens a bin of its own where
there is none.  A bin keeps the value of the sample that opened it. -/

variable {K : Type} [Field K] [LinearOrder K] {precise x : K} {samples : List K} {bins : List (K × Nat)}

def addSample (precise x : K) : List (K × Nat) → List (K × Nat)
  | [] => [(x, 1)]
  | bin :: bins => if |x - bin.1| < precise then (bin.1, bin.2 + 1) :: bins else bin :: addSample precise x bins

def histogram (precise : K) (samples : List K) : List (K × Nat) :=
  samples.foldl (fun bins x => addSample precise x bins) []

/-- What a histogram says about the samples it has taken in. -/
structure Recorded (precise : K) (samples : List K) (bins : List (K × Nat)) : Prop where
  length : bins.length ≤ samples.length
  weight : weight bins = samples.length
  occurs : ∀ bin ∈ bins, 0 < bin.2
  values : ∀ bin ∈ bins, bin.1 ∈ samples
  apart : bins.Pairwise fun a b => precise ≤ |b.1 - a.1|
  placed : ∃ placed : List (K × K), placed.map Prod.fst = samples ∧
    (∀ pair ∈ placed, |pair.1 - pair.2| < precise ∧ pair.2 ∈ bins.map Prod.fst) ∧
    total bins = (placed.map Prod.snd).sum

/-- Samples with the positions of the bins they were counted in. -/
structure CountedIn (precise : K) (bins : List (K × Nat)) (placed : List (K × Nat)) : Prop where
  close : ∀ pair ∈ placed, ∃ bin, bins[pair.2]? = some bin ∧ |pair.1 - bin.1| < precise
  counts : ∀ i bin, bins[i]? = some bin → bin.2 = (placed.map Prod.snd).count i

section Step

theorem addSample_eq (precise x : K) (bins : List (K × Nat)) :
    addSample precise x bins =
      match bins.findIdx? fun bin => |x - bin.1| < precise with
      | some i => bins.modify i fun bin => (bin.1, bin.2 + 1)
      | none => bins ++ [(x, 1)] := by
  induction bins with
  | nil => rfl
  | cons bin bins ih =>
      rw [addSample, List.findIdx?_cons]
      by_cases close : |x - bin.1| < precise
      · simp only [close, if_true, decide_true]
        rfl
      · simp only [close, if_false, decide_false, Bool.false_eq_true, ih]
        cases bins.findIdx? fun bin => |x - bin.1| < precise <;> rfl

theorem addSample_length (precise x : K) (bins : List (K × Nat)) :
    (addSample precise x bins).length ≤ bins.length + 1 := by
  induction bins with
  | nil => simp [addSample]
  | cons bin bins ih =>
      rw [addSample]
      split
      · simp
      · simpa using ih

theorem addSample_weight (precise x : K) (bins : List (K × Nat)) :
    weight (addSample precise x bins) = weight bins + 1 := by
  induction bins with
  | nil => rfl
  | cons bin bins ih =>
      rw [addSample]
      split
      · rw [weight_cons, weight_cons]
        omega
      · rw [weight_cons, weight_cons, ih]
        omega

theorem mem_addSample {bin : K × Nat} (member : bin ∈ addSample precise x bins) :
    bin = (x, 1) ∨ ∃ old ∈ bins, old.1 = bin.1 ∧ old.2 ≤ bin.2 := by
  induction bins with
  | nil => exact .inl (List.mem_singleton.mp member)
  | cons first bins ih =>
      rw [addSample] at member
      split at member
      · rcases List.mem_cons.mp member with rfl | later
        · exact .inr ⟨first, .head _, rfl, Nat.le_succ _⟩
        · exact .inr ⟨bin, .tail _ later, rfl, Nat.le_refl _⟩
      · rcases List.mem_cons.mp member with rfl | later
        · exact .inr ⟨bin, .head _, rfl, Nat.le_refl _⟩
        · rcases ih later with opened | ⟨old, inRest, same⟩
          · exact .inl opened
          · exact .inr ⟨old, .tail _ inRest, same⟩

theorem addSample_keeps {value : K} (member : value ∈ bins.map Prod.fst) :
    value ∈ (addSample precise x bins).map Prod.fst := by
  induction bins with
  | nil => simp at member
  | cons bin bins ih =>
      rw [addSample]
      rw [List.map_cons, List.mem_cons] at member
      split
      · simpa using member
      · rcases member with rfl | later
        · exact .head _
        · exact .tail _ (ih later)

theorem addSample_apart (apart : bins.Pairwise fun a b => precise ≤ |b.1 - a.1|) :
    (addSample precise x bins).Pairwise fun a b => precise ≤ |b.1 - a.1| := by
  induction bins with
  | nil => exact List.pairwise_singleton _ _
  | cons bin bins ih =>
      obtain ⟨fromFirst, rest⟩ := List.pairwise_cons.mp apart
      rw [addSample]
      split
      · exact List.pairwise_cons.mpr ⟨fromFirst, rest⟩
      case isFalse far =>
        refine List.pairwise_cons.mpr ⟨fun other member => ?_, ih rest⟩
        rcases mem_addSample member with rfl | ⟨old, inRest, same, _⟩
        · exact not_lt.mp far
        · rw [← same]
          exact fromFirst old inRest

theorem histogram_append_singleton (precise : K) (samples : List K) (x : K) :
    histogram precise (samples ++ [x]) = addSample precise x (histogram precise samples) := by
  rw [histogram, List.foldl_append, List.foldl_cons, List.foldl_nil, histogram]

theorem histogram_weight (precise : K) (samples : List K) : weight (histogram precise samples) = samples.length := by
  induction samples using List.reverseRecOn with
  | nil => rfl
  | append_singleton samples x ih =>
      rw [histogram_append_singleton, addSample_weight, ih, List.length_append, List.length_singleton]

theorem histogram_values (precise : K) (samples : List K) : ∀ bin ∈ histogram precise samples, bin.1 ∈ samples := by
  induction samples using List.reverseRecOn with
  | nil => exact nofun
  | append_singleton samples x ih =>
      intro bin member
      rw [histogram_append_singleton] at member
      rcases mem_addSample member with rfl | ⟨old, inOld, same, _⟩
      · exact List.mem_append_right _ (List.mem_singleton_self x)
      · exact same ▸ List.mem_append_left _ (ih old inOld)

theorem Recorded.empty (precise : K) : Recorded precise [] [] :=
  ⟨Nat.le_refl _, rfl, nofun, nofun, .nil, [], rfl, nofun, rfl⟩

namespace CountedIn

variable {placed : List (K × Nat)}

theorem inside (counted : CountedIn precise bins placed) {i : Nat} (member : i ∈ placed.map Prod.snd) :
    i < bins.length := by
  obtain ⟨pair, inPlaced, rfl⟩ := List.mem_map.mp member
  obtain ⟨bin, found, _⟩ := counted.close pair inPlaced
  exact (List.getElem?_eq_some_iff.mp found).1

/-- The bins stay where they are, and one of them is close to the new sample. -/
theorem close_append (counted : CountedIn precise bins placed) {after : List (K × Nat)} {x : K} {i : Nat}
    (kept : ∀ (j : Nat) (bin : K × Nat), bins[j]? = some bin → ∃ next, after[j]? = some next ∧ next.1 = bin.1)
    (here : ∃ bin, after[i]? = some bin ∧ |x - bin.1| < precise) :
    ∀ pair ∈ placed ++ [(x, i)], ∃ bin, after[pair.2]? = some bin ∧ |pair.1 - bin.1| < precise := by
  intro pair member
  rcases List.mem_append.mp member with before | last
  · obtain ⟨bin, found, near⟩ := counted.close pair before
    obtain ⟨next, foundNext, same⟩ := kept _ bin found
    exact ⟨next, foundNext, same ▸ near⟩
  · obtain rfl := List.mem_singleton.mp last
    exact here

/-- A sample that is close to a bin makes for one more in it. -/
theorem add_close (counted : CountedIn precise bins placed) {x : K} {i : Nat} {bin : K × Nat}
    (found : bins[i]? = some bin) (near : |x - bin.1| < precise) :
    CountedIn precise (bins.modify i fun bin => (bin.1, bin.2 + 1)) (placed ++ [(x, i)]) := by
  constructor
  case close =>
    refine counted.close_append (fun j old before => ?_) ?_
    · rw [List.getElem?_modify, before]
      refine ⟨_, rfl, ?_⟩
      split <;> rfl
    · rw [List.getElem?_modify_eq, found]
      exact ⟨_, rfl, near⟩
  case counts =>
    intro j next after
    rw [List.getElem?_modify] at after
    obtain ⟨old, before, rfl⟩ := Option.map_eq_some_iff.mp after
    rw [List.map_append, List.count_append, List.map_singleton, List.count_singleton, ← counted.counts j old before]
    by_cases same : i = j <;> simp [same]

end CountedIn

variable [IsStrictOrderedRing K]

theorem addSample_total (positive : 0 < precise) (x : K) (bins : List (K × Nat)) :
    ∃ value ∈ (addSample precise x bins).map Prod.fst, |x - value| < precise ∧
      total (addSample precise x bins) = total bins + value := by
  induction bins with
  | nil => exact ⟨x, .head _, by simpa using positive, by simp [addSample]⟩
  | cons bin bins ih =>
      rw [addSample]
      split
      case isTrue close =>
        refine ⟨bin.1, .head _, close, ?_⟩
        rw [total_cons, total_cons, Nat.cast_succ]
        ring
      case isFalse far =>
        obtain ⟨value, member, close, sum⟩ := ih
        refine ⟨value, .tail _ member, close, ?_⟩
        rw [total_cons, total_cons, sum]
        ring

theorem Recorded.add (recorded : Recorded precise samples bins) (positive : 0 < precise) (x : K) :
    Recorded precise (samples ++ [x]) (addSample precise x bins) := by
  obtain ⟨length, count, occurs, values, apart, placed, places, close, sum⟩ := recorded
  obtain ⟨value, member, closeTo, grown⟩ := addSample_total positive x bins
  constructor
  case length =>
    have longer := addSample_length precise x bins
    rw [List.length_append, List.length_singleton]
    omega
  case weight => rw [addSample_weight, count, List.length_append, List.length_singleton]
  case occurs =>
    intro bin inBins
    rcases mem_addSample inBins with rfl | ⟨old, inOld, _, fewer⟩
    · exact Nat.one_pos
    · exact Nat.lt_of_lt_of_le (occurs old inOld) fewer
  case values =>
    intro bin inBins
    rcases mem_addSample inBins with rfl | ⟨old, inOld, same, _⟩
    · exact List.mem_append_right _ (List.mem_singleton_self x)
    · exact same ▸ List.mem_append_left _ (values old inOld)
  case apart => exact addSample_apart apart
  case placed =>
    refine ⟨placed ++ [(x, value)], by simp [places], fun pair inPlaced => ?_, by simp [grown, sum]⟩
    rcases List.mem_append.mp inPlaced with before | last
    · obtain ⟨near, kept⟩ := close pair before
      exact ⟨near, addSample_keeps kept⟩
    · obtain rfl := List.mem_singleton.mp last
      exact ⟨closeTo, member⟩

theorem histogram_recorded (positive : 0 < precise) (samples : List K) :
    Recorded precise samples (histogram precise samples) := by
  induction samples using List.reverseRecOn with
  | nil => exact .empty precise
  | append_singleton samples x ih =>
      rw [histogram_append_singleton]
      exact ih.add positive x

namespace CountedIn

variable {placed : List (K × Nat)}

/-- A bin of its own is close to a sample. -/
theorem add_new (counted : CountedIn precise bins placed) (positive : 0 < precise) (x : K) :
    CountedIn precise (bins ++ [(x, 1)]) (placed ++ [(x, bins.length)]) := by
  constructor
  case close =>
    refine counted.close_append (fun j old before => ⟨old, ?_, rfl⟩) ⟨(x, 1), by simp, by simpa using positive⟩
    rw [List.getElem?_append_left (List.getElem?_eq_some_iff.mp before).1, before]
  case counts =>
    intro j next after
    rw [List.map_append, List.count_append, List.map_singleton, List.count_singleton]
    rcases Nat.lt_or_ge j bins.length with before | last
    · rw [List.getElem?_append_left before] at after
      simp [counted.counts j next after, Nat.ne_of_gt before]
    · have absent : (placed.map Prod.snd).count j = 0 :=
        List.count_eq_zero.mpr fun member => absurd (counted.inside member) (Nat.not_lt.mpr last)
      rw [List.getElem?_append_right last, List.getElem?_singleton] at after
      split at after
      case isTrue first =>
        obtain rfl := Option.some.inj after
        have same : bins.length = j := by omega
        simp [absent, same]
      case isFalse => contradiction

/-- Another sample makes for one more in one bin, and leaves the times of the bins as they are. -/
theorem add (counted : CountedIn precise bins placed) (positive : 0 < precise) (x : K) :
    ∃ i, CountedIn precise (addSample precise x bins) (placed ++ [(x, i)]) := by
  rw [addSample_eq]
  cases search : bins.findIdx? fun bin => |x - bin.1| < precise with
  | some i =>
      obtain ⟨inside, near, _⟩ := List.findIdx?_eq_some_iff_getElem.mp search
      exact ⟨i, counted.add_close (List.getElem?_eq_getElem inside) (of_decide_eq_true near)⟩
  | none => exact ⟨bins.length, counted.add_new positive x⟩

end CountedIn

theorem histogram_counted (positive : 0 < precise) (samples : List K) :
    ∃ placed, placed.map Prod.fst = samples ∧ CountedIn precise (histogram precise samples) placed := by
  induction samples using List.reverseRecOn with
  | nil => exact ⟨[], rfl, nofun, fun i bin found => by simp [histogram] at found⟩
  | append_singleton samples x ih =>
      obtain ⟨placed, rfl, counted⟩ := ih
      obtain ⟨i, counted⟩ := counted.add positive x
      rw [histogram_append_singleton]
      exact ⟨placed ++ [(x, i)], by simp, counted⟩

theorem sums_near {pairs : List (K × K)} (close : ∀ pair ∈ pairs, |pair.1 - pair.2| < precise) :
    |(pairs.map Prod.snd).sum - (pairs.map Prod.fst).sum| ≤ pairs.length * precise := by
  induction pairs with
  | nil => simp
  | cons pair pairs ih =>
      have first := close pair (.head _)
      have rest := ih fun other member => close other (.tail _ member)
      rw [abs_lt] at first
      rw [abs_le] at rest ⊢
      simp only [List.map_cons, List.sum_cons, List.length_cons, Nat.cast_add, Nat.cast_one]
      constructor <;> linarith

/-- Every sample is off by less than `precise` in the sum. -/
theorem Recorded.total_near (recorded : Recorded precise samples bins) (sampled : samples ≠ []) :
    |total bins - samples.sum| < samples.length * precise := by
  obtain ⟨placed, rfl, close, sum⟩ := recorded.placed
  cases placed with
  | nil => contradiction
  | cons pair placed =>
      have first := (close pair (.head _)).1
      have rest := sums_near fun other member => (close other (.tail _ member)).1
      rw [sum]
      rw [abs_lt] at first ⊢
      rw [abs_le] at rest
      simp only [List.map_cons, List.sum_cons, List.length_cons, List.length_map, Nat.cast_add, Nat.cast_one]
      constructor <;> linarith

end Step

end Oil.Data
