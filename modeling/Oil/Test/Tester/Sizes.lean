import Oil.Test.Tester.Covered
import Oil.Test.Tester.Relaid

namespace Oil.Test

/-! # The arithmetic of a layout

The parser keeps a length in a `glong` and the layout in a `gint`, and neither they nor the
configuration bound it. -/

variable {config : TestConfig} {guards : ArgType → Int8} {params : List OilParameter}
  {p s laid : OilParameter} {pair : ArgType × ArgType} {i j : Nat}

/-- The values that `oil_test_config_vset` lets in. -/
structure TestConfig.Admissible (config : TestConfig) : Prop where
  header : 0 ≤ config.testHeader
  footer : 0 ≤ config.testFooter
  m : 0 ≤ config.testM
  n : 0 ≤ config.testN

/-- The values `_calc_layout_of_array` goes through, in its order, if it computed in the integers. -/
def layoutSteps (config : TestConfig) (p : OilParameter) : List Int :=
  let preN := lengthOf config p.prestrideVar p.prestrideLength
  let postN := lengthOf config p.poststrideVar p.poststrideLength
  let stride := p.chunkSize config
  [p.prestrideLength, preN, stride, p.poststrideLength, postN, stride * postN,
    stride * postN + config.testHeader, stride * postN + config.testHeader + config.testFooter]

/-- What became of an array and its companion stride is what the integers give: no step left the
`gint`s, and the buffer has room for all elements. -/
structure LaidOutExactly (config : TestConfig) (p s laid : OilParameter) : Prop where
  steps : ∀ value ∈ layoutSteps config p, gint value = value
  layout : laid.layout = wantedLayout config (some s) p
  nonneg : 0 ≤ laid.size
  covers : ∀ offset, ElementByte laid offset → 0 ≤ offset ∧ offset < laid.size

/-- The lengths of an array, the bytes of a row and those of the buffer are below 2³¹. -/
structure SizesFit (config : TestConfig) (p : OilParameter) : Prop where
  preN : lengthOf config p.prestrideVar p.prestrideLength < 2 ^ 31
  postN : lengthOf config p.poststrideVar p.poststrideLength < 2 ^ 31
  row : p.chunkSize config < 2 ^ 31
  buffer : p.chunkSize config * lengthOf config p.poststrideVar p.poststrideLength +
    config.testHeader + config.testFooter < 2 ^ 31

section Fitting

theorem gint_eq_iff {value : Int} : gint value = value ↔ InGint value := by
  refine ⟨fun same => ?_, gint_of_inGint⟩
  have lower : -((2 ^ 32 : Nat) / 2 : Int) ≤ gint value := Int.le_bmod (by decide)
  have upper : gint value < ((2 ^ 32 : Nat) + 1) / 2 := Int.bmod_lt (by decide)
  rw [same] at lower upper
  exact ⟨by omega, by omega⟩

/-- A length is no longer than with the count of its variable. -/
theorem le_lengthOf (admissible : config.Admissible) (var length : Int) : length ≤ lengthOf config var length := by
  obtain ⟨_, _, m, n⟩ := admissible
  rw [lengthOf]
  split
  · omega
  · split <;> omega

/-- The values grow in each step, so the last ones bound them all. -/
theorem sizesFit_iff (admissible : config.Admissible) (fresh : p.Fresh) :
    SizesFit config p ↔ ∀ value ∈ layoutSteps config p, gint value = value := by
  obtain ⟨preLength, postLength⟩ := fresh.lengths
  have preN := lengthOf_nonneg p.prestrideVar admissible.m admissible.n preLength
  have postN := lengthOf_nonneg p.poststrideVar admissible.m admissible.n postLength
  have preMore := le_lengthOf admissible p.prestrideVar p.prestrideLength
  have postMore := le_lengthOf admissible p.poststrideVar p.poststrideLength
  have row : 0 ≤ p.chunkSize config := Int.mul_nonneg (by cases p.cType <;> decide) preN
  have elements := Int.mul_nonneg row postN
  have header := admissible.header
  have footer := admissible.footer
  simp only [layoutSteps, List.forall_mem_cons, gint_eq_iff, InGint]
  constructor
  · intro fit
    obtain ⟨preFits, postFits, rowFits, bufferFits⟩ := fit
    refine ⟨⟨?_, ?_⟩, ⟨?_, ?_⟩, ⟨?_, ?_⟩, ⟨?_, ?_⟩, ⟨?_, ?_⟩, ⟨?_, ?_⟩, ⟨?_, ?_⟩, ⟨?_, ?_⟩, List.forall_mem_nil _⟩ <;> omega
  · intro steps
    obtain ⟨_, preFits, rowFits, _, postFits, _, _, bufferFits, _⟩ := steps
    exact ⟨preFits.2, postFits.2, rowFits.2, bufferFits.2⟩

theorem fits_of_steps (steps : ∀ value ∈ layoutSteps config p, gint value = value) (noStride : s.value = 0) :
    (wantedLayout config (some s) p).Fits := by
  simp only [layoutSteps, List.forall_mem_cons, gint_eq_iff] at steps
  obtain ⟨_, preN, row, _, postN, _, _, buffer, _⟩ := steps
  rw [Int.add_comm _ config.testHeader] at buffer
  simp only [wantedLayout, Option.map_some, Option.getD_some, noStride, ne_eq, not_true_eq_false, if_false]
  exact ⟨preN, postN, row, buffer⟩

/-- The arithmetic of a layout is that of the integers exactly where the lengths, a row and the
buffer stay below 2³¹. -/
theorem laid_out_exactly_iff {prototype : List Char} (accepted : oilPrototypeParse prototype = some params)
    (admissible : config.Admissible) (paired : Paired params pair i j) (found : params[i]? = some p)
    (foundStride : params[j]? = some s) (after : (calcSampleLayout config guards params)[i]? = some laid) :
    LaidOutExactly config p s laid ↔ SizesFit config p := by
  have fresh := oilPrototypeParse_fresh accepted p (List.mem_of_getElem? found)
  have noStride := (oilPrototypeParse_fresh accepted s (List.mem_of_getElem? foundStride)).value
  obtain rfl := Option.some.inj
    ((calcSampleLayout_paired config guards paired found foundStride).1.symm.trans after)
  rw [sizesFit_iff admissible fresh]
  constructor
  · exact LaidOutExactly.steps
  · intro steps
    have fits := fits_of_steps steps noStride
    have layout := calcLayoutOfArray_layout (guards pair.1) fresh.known fits
    have cType := (calcLayoutOfArray_undecided cType_undecided config (guards pair.1) p s).1
    have sane := sane_of_layout admissible.header admissible.footer admissible.m admissible.n fresh noStride fits cType
      layout
    have rows : oilTypeSizeof (calcLayoutOfArray config (guards pair.1) p s).1.cType *
        (calcLayoutOfArray config (guards pair.1) p s).1.preN ≤
          (calcLayoutOfArray config (guards pair.1) p s).1.stride := by
      have stride := congrArg Layout.stride layout
      have preN := congrArg Layout.preN layout
      simp only [OilParameter.layout, wantedLayout, Option.map_some, Option.getD_some, noStride, ne_eq,
        not_true_eq_false, if_false] at stride preN
      refine Int.le_of_eq ?_
      rw [stride, preN, cType]
    exact ⟨steps, layout, sane.size_nonneg.2.2.2, fun _ element => element.inside sane rows⟩

theorem laid_out_exactly_8x8 : ∃ params p s laid, oilPrototypeParse "uint8_t *d_8x8, int ds".toList = some params ∧
    params[0]? = some p ∧ params[1]? = some s ∧
    (calcSampleLayout ⟨256, 256, 100, 100, 10⟩ (fun _ => 0) params)[0]? = some laid ∧
    LaidOutExactly ⟨256, 256, 100, 100, 10⟩ p s laid := by
  have accepted : oilPrototypeParse "uint8_t *d_8x8, int ds".toList =
      some ((oilPrototypeParse "uint8_t *d_8x8, int ds".toList).getD []) := by decide +kernel
  have array : ((oilPrototypeParse "uint8_t *d_8x8, int ds".toList).getD [])[0]? =
      some (((oilPrototypeParse "uint8_t *d_8x8, int ds".toList).getD []).getD 0 {}) := by decide +kernel
  have stride : ((oilPrototypeParse "uint8_t *d_8x8, int ds".toList).getD [])[1]? =
      some (((oilPrototypeParse "uint8_t *d_8x8, int ds".toList).getD []).getD 1 {}) := by decide +kernel
  have paired : Paired ((oilPrototypeParse "uint8_t *d_8x8, int ds".toList).getD []) (.dest1, .dstr1) 0 1 :=
    ⟨by decide, by decide +kernel, by decide +kernel⟩
  have fits : SizesFit ⟨256, 256, 100, 100, 10⟩
      (((oilPrototypeParse "uint8_t *d_8x8, int ds".toList).getD []).getD 0 {}) :=
    ⟨by decide +kernel, by decide +kernel, by decide +kernel, by decide +kernel⟩
  obtain ⟨laid, after⟩ : ∃ laid, (calcSampleLayout ⟨256, 256, 100, 100, 10⟩ (fun _ => 0)
      ((oilPrototypeParse "uint8_t *d_8x8, int ds".toList).getD []))[0]? = some laid :=
    ⟨_, (calcSampleLayout_paired _ _ paired array stride).1⟩
  have admissible : TestConfig.Admissible ⟨256, 256, 100, 100, 10⟩ := ⟨by decide, by decide, by decide, by decide⟩
  exact ⟨_, _, _, laid, accepted, array, stride, after,
    (laid_out_exactly_iff accepted admissible paired array stride after).mpr fits⟩

/-- A row of 2³² + 1 elements gets a buffer of one byte. -/
theorem length_truncated :
    ¬ ∀ (config : TestConfig) (guards : ArgType → Int8) (prototype : List Char) (params : List OilParameter)
      (pair : ArgType × ArgType) (i j : Nat) (p s laid : OilParameter), config.Admissible →
      (InGint config.testHeader ∧ InGint config.testFooter ∧ InGint config.testM ∧ InGint config.testN) →
      oilPrototypeParse prototype = some params → Paired params pair i j → params[i]? = some p →
      params[j]? = some s → (calcSampleLayout config guards params)[i]? = some laid →
      LaidOutExactly config p s laid := by
  intro always
  have accepted : oilPrototypeParse "uint8_t *d_4294967297x1, int ds".toList =
      some ((oilPrototypeParse "uint8_t *d_4294967297x1, int ds".toList).getD []) := by decide +kernel
  have exactly := always ⟨0, 0, 0, 0, 1⟩ (fun _ => 0) _ _ (.dest1, .dstr1) 0 1
    (((oilPrototypeParse "uint8_t *d_4294967297x1, int ds".toList).getD []).getD 0 {})
    (((oilPrototypeParse "uint8_t *d_4294967297x1, int ds".toList).getD []).getD 1 {})
    ((calcSampleLayout ⟨0, 0, 0, 0, 1⟩ (fun _ => 0)
      ((oilPrototypeParse "uint8_t *d_4294967297x1, int ds".toList).getD [])).getD 0 {})
    ⟨by decide, by decide, by decide, by decide⟩ (by decide) accepted
    ⟨by decide, by decide +kernel, by decide +kernel⟩ (by decide +kernel) (by decide +kernel) (by decide +kernel)
  have layout := exactly.layout
  revert layout
  decide +kernel

end Fitting

end Oil.Test
