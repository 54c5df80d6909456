import Oil.Test.Tester.Reference
import Oil.Test.Tester.Relaid

namespace Oil.Test

/-! # The counts a tested function is told

The configured `n` and `m` enter twice: in the layout of the arrays and as the scale
arguments that tell the function how long these are. -/

variable {config : TestConfig} {guards : ArgType → Int8} {params : List OilParameter} {p : OilParameter} {i : Nat}

/-- The scale arguments are the counts that the arrays were laid out with. -/
structure CountsAgree (config : TestConfig) (guards : ArgType → Int8) (params : List OilParameter) : Prop where
  n : ∀ (i : Nat) (p : OilParameter), params[i]? = some p → p.isPointer = false → p.argType = .n →
    (mayAllocMemOfParams (calcSampleLayout config guards params))[i]? = some (.scale config.testN)
  m : ∀ (i : Nat) (p : OilParameter), params[i]? = some p → p.isPointer = false → p.argType = .m →
    (mayAllocMemOfParams (calcSampleLayout config guards params))[i]? = some (.scale config.testM)
  arrays : ∀ p ∈ laidOutArrays (calcSampleLayout config guards params),
    p.preN = gint (lengthOf config p.prestrideVar p.prestrideLength) ∧
    p.postN = gint (lengthOf config p.poststrideVar p.poststrideLength)

theorem laidOut_counts (config : TestConfig) (guards : ArgType → Int8)
    (laidOut : p ∈ laidOutArrays (calcSampleLayout config guards params)) :
    p.preN = gint (lengthOf config p.prestrideVar p.prestrideLength) ∧
      p.postN = gint (lengthOf config p.poststrideVar p.poststrideLength) := by
  obtain ⟨pair, array, stride, pairedAfter, after⟩ := mem_laidOutArrays.mp laidOut
  have paired := (paired_calcSampleLayout config guards).mp pairedAfter
  obtain ⟨q, found, _⟩ := rearrange_some paired.arrayAt
  obtain ⟨s, foundStride, _⟩ := rearrange_some paired.strideAt
  have laid := (calcSampleLayout_paired config guards paired found foundStride).1
  obtain rfl := Option.some.inj (after.symm.trans laid)
  have known := paired.known found
  have layout := congrArg Prod.fst (calcLayoutOfArray_decided config (guards pair.1) known s).1
  have specs := (calcLayoutOfArray_undecided (layoutWith_undecided config) config (guards pair.1) q s).1
  have same := layout.trans (congrFun specs _).symm
  exact ⟨congrArg Layout.preN same, congrArg Layout.postN same⟩

/-- A count is handed over as it was in the parameter, but for the last `n`. -/
theorem scale_handed (config : TestConfig) (guards : ArgType → Int8) (found : params[i]? = some p)
    (scale : p.isPointer = false) (count : p.argType = .n ∨ p.argType = .m) :
    (mayAllocMemOfParams (calcSampleLayout config guards params))[i]? =
      some (.scale (if rearrange params .n = some i then config.testN else p.value)) := by
  have unpaired : ∀ pair ∈ layoutPairs, (pair.1 ≠ .n ∧ pair.1 ≠ .m) ∧ pair.2 ≠ .n ∧ pair.2 ≠ .m := by decide
  have alone : ∀ pair array stride, Paired params pair array stride → array ≠ i ∧ stride ≠ i := by
    rintro pair array stride ⟨listed, arrayAt, strideAt⟩
    obtain ⟨⟨arrayN, arrayM⟩, strideN, strideM⟩ := unpaired pair listed
    refine ⟨rearrange_ne found arrayAt ?_, rearrange_ne found strideAt ?_⟩
    · rcases count with n | m
      · exact n ▸ arrayN
      · exact m ▸ arrayM
    · rcases count with n | m
      · exact n ▸ strideN
      · exact m ▸ strideM
  rw [mayAllocMemOfParams, List.getElem?_map, calcSampleLayout_unpaired config guards alone, found, Option.map_some,
    Option.map_some]
  split <;> simp [mayAllocArg, scale]

/-- The function is told the configured counts exactly if every `n` but the last one, and every `m`,
holds the count already. -/
theorem counts_agree_iff (config : TestConfig) (guards : ArgType → Int8) (params : List OilParameter) :
    CountsAgree config guards params ↔ ∀ (i : Nat) (p : OilParameter), params[i]? = some p → p.isPointer = false →
      (p.argType = .n → rearrange params .n ≠ some i → p.value = config.testN) ∧
      (p.argType = .m → p.value = config.testM) := by
  have notLast {i : Nat} {p : OilParameter} (found : params[i]? = some p) (m : p.argType = .m) :
      rearrange params .n ≠ some i := fun last => rearrange_ne found last (by simp [m]) rfl
  constructor
  · rintro ⟨n, m, _⟩ i p found scale
    refine ⟨fun isN notLastN => ?_, fun isM => ?_⟩
    · have handed := (scale_handed config guards found scale (.inl isN)).symm.trans (n i p found scale isN)
      rw [if_neg notLastN, Option.some.injEq, Arg.scale.injEq] at handed
      exact handed
    · have handed := (scale_handed config guards found scale (.inr isM)).symm.trans (m i p found scale isM)
      rw [if_neg (notLast found isM), Option.some.injEq, Arg.scale.injEq] at handed
      exact handed
  · intro held
    refine ⟨fun i p found scale isN => ?_, fun i p found scale isM => ?_, fun p => laidOut_counts config guards⟩
    · rw [scale_handed config guards found scale (.inl isN)]
      split
      · rfl
      case isFalse notLastN => rw [(held i p found scale).1 isN notLastN]
    · rw [scale_handed config guards found scale (.inr isM), if_neg (notLast found isM), (held i p found scale).2 isM]

/-- The argument for `m` stays what it was in the parameter.  In a prototype it is taken for
another `n`, and then it is `n` that is not handed over. -/
theorem counts_disagree :
    (¬ ∀ (config : TestConfig) (guards : ArgType → Int8) (params : List OilParameter),
      (∃ p ∈ params, p.isPointer = false ∧ p.argType = .n) → (∃ p ∈ params, p.isPointer = false ∧ p.argType = .m) →
      CountsAgree config guards params) ∧
    ∃ params, oilPrototypeParse "uint8_t *d_nxm, int ds, int n, int m".toList = some params ∧
      ¬ CountsAgree ⟨16, 16, 4, 8, 10⟩ (fun _ => 0) params := by
  constructor
  · intro agree
    have handed := (agree ⟨16, 16, 4, 8, 10⟩ (fun _ => 0)
      [{ cType := .int, argType := .n }, { cType := .int, argType := .m }] (by decide) (by decide)).m 1 _ rfl rfl rfl
    revert handed
    decide
  · have accepted : oilPrototypeParse "uint8_t *d_nxm, int ds, int n, int m".toList =
        some ((oilPrototypeParse "uint8_t *d_nxm, int ds, int n, int m".toList).getD []) := by decide +kernel
    refine ⟨_, accepted, fun agree => ?_⟩
    have handed := agree.n 2 { parameter := "int n".toList, cType := .int, argType := .n } (by decide +kernel) rfl rfl
    revert handed
    decide +kernel

end Oil.Test
