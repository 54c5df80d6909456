import Oil.Test.Config.Model
import Oil.Test.Tester.Covered
import Oil.Test.Tester.DefaultChecker

namespace Oil.Test

open Oil.Data ConfigStack

/-! # What the sample generator leaves

`oil_checker_sample_generator` stores the elements of the arrays that the tested function may
read, and keeps the tolerance for the check of the result. -/

/-- `low_tolerance` behind the loop. -/
def lowTolerance (params : List OilParameter) : Bool :=
  params.foldl (fun low p => if p.isPointer = true ∧ p.cType = .f64p ∧ p.cType = .f32p then false else low) true

structure Sampling (σ : Type) where
  stores : List (List (Int × UInt8))
  rand : σ
  tolerance : Gdouble

section Generator

variable {σ : Type} (draw : OilType → σ → (Nat → UInt8) × σ)

/-- `oil_checker_sample_generator`, with this configuration on top of the stack. -/
def sampleGenerator (f : OilTestConfig) (params : List OilParameter) (r : σ) : Option (Sampling σ) :=
  (oilCheckerSampleGenerator draw params r).map fun (stores, rand) =>
    { stores, rand, tolerance := if lowTolerance params then f.toleranceLow else f.toleranceHigh }

end Generator

/-- The arrays that the sample is for. -/
def OilParameter.IsSampled (p : OilParameter) : Prop :=
  p.isPointer = true ∧ (p.argClass = .src ∨ p.argClass = .inplace)

instance (p : OilParameter) : Decidable p.IsSampled := inferInstanceAs (Decidable (_ ∧ _))

def OilParameter.IsFloating (p : OilParameter) : Prop :=
  p.isPointer = true ∧ (p.cType = .f32p ∨ p.cType = .f64p)

instance (p : OilParameter) : Decidable p.IsFloating := inferInstanceAs (Decidable (_ ∧ _))

/-- What a buffer holds after the stores. -/
def written (contents : Int → UInt8) (stores : List (Int × UInt8)) : Int → UInt8 :=
  stores.foldl (fun contents store => Function.update contents store.1 store.2) contents

/-- Only elements of the sampled arrays are written, all other bytes keep their contents, and the
tolerance is the one for the types of the arrays. -/
structure SampledWell {σ : Type} (f : OilTestConfig) (params : List OilParameter) (sampling : Sampling σ) : Prop where
  elements : List.Forall₂ (fun p stores => ∀ store ∈ stores, p.IsSampled ∧ ElementByte p store.1)
    params sampling.stores
  kept : List.Forall₂ (fun p stores => ∀ contents offset, ¬ (p.IsSampled ∧ ElementByte p offset) →
    written contents stores offset = contents offset) params sampling.stores
  tolerance : sampling.tolerance = if ∃ p ∈ params, p.IsFloating then f.toleranceHigh else f.toleranceLow

/-- No row starts beyond the `gint`s.  With a stride of -2³¹ all rows start where the first or the
second does. -/
def RowStartsFit (p : OilParameter) : Prop :=
  p.preN ≤ 0 ∨ p.stride = -2 ^ 31 ∨ ∀ i : Nat, i < p.postN → InGint (i * p.stride)

section Rows

variable {start stride rows chunk offset : Int}

theorem gint_of_above {value : Int} (above : 2 ^ 31 ≤ value) (once : value < 2 ^ 32 + 2 ^ 31) :
    gint value = value - 2 ^ 32 := by
  have same : gint (value - 2 ^ 32) = gint value := Int.sub_bmod_right value (2 ^ 32)
  rw [← same]
  exact gint_of_inGint ⟨by omega, by omega⟩

theorem gint_of_below {value : Int} (below : value < -2 ^ 31) (once : -2 ^ 32 - 2 ^ 31 ≤ value) :
    gint value = value + 2 ^ 32 := by
  have same : gint (value + 2 ^ 32) = gint value := Int.add_bmod_right value (2 ^ 32)
  rw [← same]
  exact gint_of_inGint ⟨by omega, by omega⟩

/-- Each row starts where the first or the second does. -/
theorem gint_mul_lowest (i : Nat) : ∃ j : Int, (0 ≤ j ∧ j ≤ i) ∧ gint (i * -2 ^ 31) = j * -2 ^ 31 := by
  have twice : (i : Int) * -2 ^ 31 = (i % 2 : Int) * -2 ^ 31 - (2 ^ 32 : Nat) * (i / 2 : Int) := by omega
  refine ⟨(i % 2 : Int), by omega, ?_⟩
  rw [twice, gint, Int.sub_mul_bmod_self_left]
  exact gint_of_inGint ⟨by omega, by omega⟩

/-- The first row that starts beyond the `gint`s leaves the block at the other end. -/
theorem inGint_row (positive : 0 < chunk) (strideFits : InGint stride) (notLowest : stride ≠ -2 ^ 31)
    (covered : ∀ i : Nat, i < rows → ∀ offset, start + gint (i * stride) ≤ offset →
      offset < start + gint (i * stride) + chunk → InRows start stride rows chunk offset)
    (i : Nat) (row : i < rows) : InGint (i * stride) := by
  induction i with
  | zero => exact ⟨by simp, by simp⟩
  | succ i ih =>
      obtain ⟨lower, upper⟩ := strideFits
      obtain ⟨before, behind⟩ := ih (by omega)
      have next : ((i + 1 : Nat) : Int) * stride = i * stride + stride := by
        rw [Int.natCast_add, Int.natCast_one, Int.add_mul, Int.one_mul]
      have inBlock := covered (i + 1) row
      rw [next] at inBlock ⊢
      refine ⟨?_, ?_⟩
      · by_contra below
        rw [gint_of_below (by omega) (by omega)] at inBlock
        obtain ⟨other, ⟨nonneg, _⟩, _, to_other⟩ := inBlock (start + (i * stride + stride + 2 ^ 32) + chunk - 1)
          (by omega) (by omega)
        have : other * stride ≤ 0 := Int.mul_nonpos_of_nonneg_of_nonpos nonneg (by omega)
        omega
      · by_contra above
        rw [gint_of_above (by omega) (by omega)] at inBlock
        obtain ⟨other, ⟨nonneg, _⟩, from_other, _⟩ := inBlock (start + (i * stride + stride - 2 ^ 32))
          (by omega) (by omega)
        have : 0 ≤ other * stride := Int.mul_nonneg nonneg (by omega)
        omega

/-- Wrapped around, the rows stay in their block exactly if none of them wraps, or if the stride is half
the range. -/
theorem wrapped_rows_iff (start : Int) (positive : 0 < chunk) (strideFits : InGint stride) :
    (∀ i : Nat, i < rows → ∀ offset, start + gint (i * stride) ≤ offset →
        offset < start + gint (i * stride) + chunk → InRows start stride rows chunk offset) ↔
      stride = -2 ^ 31 ∨ ∀ i : Nat, i < rows → InGint (i * stride) := by
  constructor
  · intro covered
    by_cases lowest : stride = -2 ^ 31
    · exact .inl lowest
    · exact .inr (inGint_row positive strideFits lowest covered)
  · intro either i row offset lower upper
    cases either with
    | inl lowest =>
        subst lowest
        obtain ⟨j, ⟨nonneg, le⟩, same⟩ := gint_mul_lowest i
        rw [same] at lower upper
        exact ⟨j, ⟨nonneg, by omega⟩, lower, upper⟩
    | inr fits =>
        rw [gint_of_inGint (fits i row)] at lower upper
        exact ⟨i, ⟨by omega, row⟩, lower, upper⟩

end Rows

section Writes

variable {σ : Type} {draw : OilType → σ → (Nat → UInt8) × σ} {p : OilParameter} {params : List OilParameter}

theorem written_of_not_mem (contents : Int → UInt8) {stores : List (Int × UInt8)} {offset : Int}
    (other : ∀ store ∈ stores, store.1 ≠ offset) : written contents stores offset = contents offset := by
  induction stores generalizing contents with
  | nil => rfl
  | cons store stores ih =>
      obtain ⟨elsewhere, rest⟩ := List.forall_mem_cons.mp other
      rw [written, List.foldl_cons, ← written, ih _ rest, Function.update_of_ne elsewhere.symm]

theorem sampleStores_elements_iff {stores : List (Int × UInt8)} {r : σ} (sampled : p.IsSampled)
    (strideFits : InGint p.stride) (wrote : sampleStores draw p r = some stores) :
    (∀ store ∈ stores, ElementByte p store.1) ↔ RowStartsFit p := by
  rw [sampleStores, if_pos ⟨sampled.1, sampled.2⟩, oilRandizeArrayDefault, Option.map_map] at wrote
  obtain ⟨width, known, rfl⟩ := Option.map_eq_some_iff.mp wrote
  obtain ⟨size, wide⟩ := elementWidth_eq known
  have offsets := fillRows_offsets draw p.cType width p.header p.stride p.preN.toNat p.postN.toNat 0 r
  rw [← List.forall_mem_map (f := Prod.fst) (P := ElementByte p), Function.comp_apply, offsets]
  simp only [List.mem_flatMap, List.mem_range, mem_spansFrom, inRows_full (Int.natCast_nonneg width), Nat.zero_add,
    elementByte_iff_inRows, size]
  rcases Int.lt_or_le 0 p.preN with filled | empty
  · have positive : 0 < (width : Int) * p.preN := Int.mul_pos (by omega) filled
    rw [Int.toNat_of_nonneg (Int.le_of_lt filled), Int.mul_comm p.preN, RowStartsFit,
      or_iff_right (Int.not_le.mpr filled), ← wrapped_rows_iff p.header positive strideFits]
    constructor
    · intro elements i row offset lower upper
      exact elements offset ⟨i, by omega, lower, upper⟩
    · intro elements offset inRow
      obtain ⟨i, row, lower, upper⟩ := inRow
      exact elements i (by omega) offset lower upper
  · refine iff_of_true ?_ (.inl empty)
    intro offset inRow
    obtain ⟨i, _, lower, upper⟩ := inRow
    rw [Int.toNat_of_nonpos empty, Int.natCast_zero, Int.zero_mul] at upper
    omega

/-- The stores for each parameter are those for it alone. -/
theorem sampleStores_of_returned {r : σ} {stores : List (List (Int × UInt8))} {rand : σ}
    (returned : oilCheckerSampleGenerator draw params r = some (stores, rand)) :
    List.Forall₂ (fun p stores => ∃ r, sampleStores draw p r = some stores) params stores := by
  induction params generalizing r stores with
  | nil =>
      obtain ⟨rfl, rfl⟩ := Prod.mk.inj (Option.some.inj returned)
      exact .nil
  | cons p params ih =>
      rw [oilCheckerSampleGenerator] at returned
      split at returned
      case isTrue sampled =>
        simp only [Option.bind_eq_bind, Option.bind_eq_some_iff] at returned
        obtain ⟨⟨first, next⟩, filled, ⟨rest, last⟩, ran, same⟩ := returned
        obtain ⟨rfl, rfl⟩ := Prod.mk.inj (Option.some.inj same)
        refine .cons ⟨r, ?_⟩ (ih ran)
        rw [sampleStores, if_pos sampled, filled]
        rfl
      case isFalse other =>
        simp only [Option.bind_eq_bind, Option.bind_eq_some_iff] at returned
        obtain ⟨⟨rest, last⟩, ran, same⟩ := returned
        obtain ⟨rfl, rfl⟩ := Prod.mk.inj (Option.some.inj same)
        refine .cons ⟨r, ?_⟩ (ih ran)
        rw [sampleStores, if_neg other]

theorem stores_of_sampleStores {stores : List (Int × UInt8)} {r : σ} (strideFits : InGint p.stride)
    (wrote : sampleStores draw p r = some stores) :
    (∀ store ∈ stores, p.IsSampled ∧ ElementByte p store.1) ↔ (p.IsSampled → RowStartsFit p) := by
  by_cases sampled : p.IsSampled
  · simp only [sampled, true_and, forall_const]
    exact sampleStores_elements_iff sampled strideFits wrote
  · have nothing : stores = [] := by
      have other : ¬ (p.isPointer = true ∧ (p.argClass = .src ∨ p.argClass = .inplace)) := sampled
      rw [sampleStores, if_neg other] at wrote
      exact (Option.some.inj wrote).symm
    subst nothing
    simp [sampled]

theorem forall₂_iff_of_related {A B : Type} {related holds : A → B → Prop} {wanted : A → Prop} {as : List A}
    {bs : List B} (pairs : List.Forall₂ related as bs) (same : ∀ a ∈ as, ∀ b, related a b → (holds a b ↔ wanted a)) :
    List.Forall₂ holds as bs ↔ ∀ a ∈ as, wanted a := by
  induction pairs with
  | nil => simp
  | @cons a b as bs first _ ih =>
      obtain ⟨here, there⟩ := List.forall_mem_cons.mp same
      rw [List.forall₂_cons, List.forall_mem_cons, here b first, ih there]

theorem lowTolerance_eq_true (params : List OilParameter) : lowTolerance params = true := by
  have kept (p : OilParameter) : ¬ (p.isPointer = true ∧ p.cType = .f64p ∧ p.cType = .f32p) := by
    intro both
    obtain ⟨_, double, float⟩ := both
    exact absurd (double.symm.trans float) (by decide)
  rw [lowTolerance]
  induction params with
  | nil => rfl
  | cons p params ih => rw [List.foldl_cons, if_neg (kept p), ih]

/-- The sample is written where it should be, and the tolerance is the right one, exactly if no row
starts beyond the `gint`s, and the tolerances are the same where there are floating point numbers. -/
theorem sampled_well_iff {f : OilTestConfig} {r : σ} {sampling : Sampling σ}
    (strideFits : ∀ p ∈ params, InGint p.stride) (returned : sampleGenerator draw f params r = some sampling) :
    SampledWell f params sampling ↔
      (∀ p ∈ params, p.IsSampled → RowStartsFit p) ∧
        ((∃ p ∈ params, p.IsFloating) → f.toleranceHigh = f.toleranceLow) := by
  obtain ⟨⟨stores, rand⟩, ran, rfl⟩ := Option.map_eq_some_iff.mp returned
  have elements : List.Forall₂ (fun p stores => ∀ store ∈ stores, p.IsSampled ∧ ElementByte p store.1) params stores ↔
      ∀ p ∈ params, p.IsSampled → RowStartsFit p :=
    forall₂_iff_of_related (sampleStores_of_returned ran) fun p member _ ⟨_, wrote⟩ =>
      stores_of_sampleStores (strideFits p member) wrote
  have low : lowTolerance params = true := lowTolerance_eq_true params
  constructor
  · intro well
    refine ⟨elements.mp well.elements, fun floating => ?_⟩
    have tolerance := well.tolerance
    rw [if_pos floating, low, if_pos rfl] at tolerance
    exact tolerance.symm
  · intro condition
    obtain ⟨fit, same⟩ := condition
    have inside := elements.mpr fit
    refine ⟨inside, inside.imp fun p stores within contents offset other => ?_, ?_⟩
    · exact written_of_not_mem contents fun store member there => other (there ▸ within store member)
    · dsimp only
      rw [low, if_pos rfl]
      split
      case isTrue floating => exact (same floating).symm
      case isFalse => rfl

end Writes

def zeros (_ : OilType) (_ : Unit) : (Nat → UInt8) × Unit := (fun _ => 0, ())

/-- An array of one element that the function reads. -/
def single (cType : OilType) : OilParameter :=
  { isPointer := true, cType, argClass := .src, preN := 1, postN := 1 }

theorem sampled_well_int :
    ∃ sampling, sampleGenerator zeros (State.firstFrame 0 0) [single .s16p] () = some sampling ∧
      SampledWell (State.firstFrame 0 0) [single .s16p] sampling := by
  have returns : (sampleGenerator zeros (State.firstFrame 0 0) [single .s16p] ()).isSome := rfl
  obtain ⟨sampling, returned⟩ := Option.isSome_iff_exists.mp returns
  have integers : ¬ ∃ p ∈ [single .s16p], p.IsFloating := by decide
  refine ⟨sampling, returned, (sampled_well_iff (by decide) returned).mpr ⟨?_, fun floating => ?_⟩⟩
  case refine_2 => exact absurd floating integers
  intro p member _
  rw [List.mem_singleton.mp member]
  refine .inr (.inr fun i row => ?_)
  have first : i = 0 := by
    have : (i : Int) < 1 := row
    omega
  rw [first]
  decide

/-- The default tolerance for an array of `float` is the low one. -/
theorem float_low_tolerance : ¬ ∀ (f : OilTestConfig) (params : List OilParameter) (sampling : Sampling Unit),
    sampleGenerator zeros f params () = some sampling → SampledWell f params sampling := by
  intro well
  have tolerance := (well (State.firstFrame 0 0) [single .f32p] _ rfl).tolerance
  revert tolerance
  decide +kernel

end Oil.Test
