import Oil.Test.Tester.Bounds

namespace Oil.Test

/-! # Laying out a second time

The parameters stay with the class, so a second optimisation of a class lays out what the
first one left.  A stride that was computed then passes for a given one. -/

variable {config first second : TestConfig} {guards : ArgType → Int8} {params : List OilParameter}
  {p s : OilParameter} {pair : ArgType × ArgType} {i j : Nat}

/-- The arrays that `_calc_sample_layout` lays out. -/
def laidOutArrays (params : List OilParameter) : List OilParameter :=
  layoutPairs.filterMap fun pair => do
    let array ← rearrange params pair.1
    let _ ← rearrange params pair.2
    params[array]?

/-- The elements of a row lie in front of the next row. -/
def RowsFit (params : List OilParameter) : Prop :=
  ∀ p ∈ laidOutArrays params, oilTypeSizeof p.cType * p.preN ≤ p.stride

instance (params : List OilParameter) : Decidable (RowsFit params) := inferInstanceAs (Decidable (∀ p ∈ _, _))

theorem mem_laidOutArrays : p ∈ laidOutArrays params ↔
    ∃ pair array stride, Paired params pair array stride ∧ params[array]? = some p := by
  rw [laidOutArrays, List.mem_filterMap]
  constructor
  · rintro ⟨pair, listed, found⟩
    obtain ⟨array, arrayAt, found⟩ := Option.bind_eq_some_iff.mp found
    obtain ⟨stride, strideAt, found⟩ := Option.bind_eq_some_iff.mp found
    exact ⟨pair, array, stride, ⟨listed, arrayAt, strideAt⟩, found⟩
  · rintro ⟨pair, array, stride, ⟨listed, arrayAt, strideAt⟩, found⟩
    refine ⟨pair, listed, ?_⟩
    rw [arrayAt, strideAt]
    exact found

section Relaid

variable (first second) (guards guardsAgain guardsOnce : ArgType → Int8)

theorem rearrange_congr {other : List OilParameter} (same : other.map (·.argType) = params.map (·.argType))
    (argType : ArgType) :
    rearrange other argType = rearrange params argType := by
  have types (params : List OilParameter) : rearrange params argType = (params.map (·.argType)).zipIdx.foldl
      (fun found entry => if entry.1 = argType then some entry.2 else found) none := by
    rw [rearrange, List.zipIdx_map, List.foldl_map]
    rfl
  rw [types, types, same]

theorem argType_undecided : Undecided (·.argType) := fun _ _ _ _ _ _ _ _ _ => rfl

theorem layoutWith_undecided (config : TestConfig) : Undecided (layoutWith config) := fun _ _ _ _ _ _ _ _ _ => rfl

theorem chunkSize_undecided (config : TestConfig) : Undecided (OilParameter.chunkSize config) :=
  fun _ _ _ _ _ _ _ _ _ => rfl

theorem rearrange_calcSampleLayout (argType : ArgType) :
    rearrange (calcSampleLayout first guards params) argType = rearrange params argType :=
  rearrange_congr (calcSampleLayout_map argType_undecided first guards params) argType

theorem paired_calcSampleLayout :
    Paired (calcSampleLayout first guards params) pair i j ↔ Paired params pair i j := by
  constructor
  · rintro ⟨listed, arrayAt, strideAt⟩
    rw [rearrange_calcSampleLayout] at arrayAt strideAt
    exact ⟨listed, arrayAt, strideAt⟩
  · rintro ⟨listed, arrayAt, strideAt⟩
    exact ⟨listed, by rw [rearrange_calcSampleLayout, arrayAt], by rw [rearrange_calcSampleLayout, strideAt]⟩

/-- The stride that a second layout works with, where the first one computed it. -/
def secondStride (p : OilParameter) : Int :=
  if p.chunkSize first ≠ 0 then p.chunkSize first else p.chunkSize second

theorem calcLayoutOfArray_again (guard guardAgain : Int8) (known : p.argType ≠ .unknown) (noStride : s.value = 0)
    (fitsFirst : InGint (p.chunkSize first)) (fitsSecond : InGint (p.chunkSize second)) :
    let laid := calcLayoutOfArray first guard p s
    (calcLayoutOfArray second guardAgain laid.1 laid.2).1.decided =
        (layoutWith second p (secondStride first second p), p.value) ∧
      (calcLayoutOfArray second guardAgain laid.1 laid.2).2.decided = (s.layout, secondStride first second p) := by
  have strideFirst : strideValue first p s = p.chunkSize first := by
    rw [strideValue, if_neg (not_not_intro noStride), gint_of_inGint fitsFirst]
  obtain ⟨array, stride⟩ := calcLayoutOfArray_decided first guard known s
  rw [strideFirst] at stride
  have knownAgain : (calcLayoutOfArray first guard p s).1.argType ≠ .unknown :=
    (calcLayoutOfArray_undecided argType_undecided first guard p s).1 ▸ known
  obtain ⟨arrayAgain, strideAgain⟩ := calcLayoutOfArray_decided second guardAgain knownAgain
    (calcLayoutOfArray first guard p s).2
  have specs := (calcLayoutOfArray_undecided (layoutWith_undecided second) first guard p s).1
  have chunk := (calcLayoutOfArray_undecided (chunkSize_undecided second) first guard p s).1
  have valueAgain : strideValue second (calcLayoutOfArray first guard p s).1 (calcLayoutOfArray first guard p s).2 =
      secondStride first second p := by
    rw [strideValue, show (calcLayoutOfArray first guard p s).2.value = _ from congrArg Prod.snd stride, chunk,
      gint_of_inGint fitsSecond]
    rfl
  refine ⟨arrayAgain.trans ?_, strideAgain.trans ?_⟩
  · rw [valueAgain, specs, show (calcLayoutOfArray first guard p s).1.value = _ from congrArg Prod.snd array]
  · rw [valueAgain, show (calcLayoutOfArray first guard p s).2.layout = _ from congrArg Prod.fst stride]

theorem secondStride_eq_iff : secondStride first second p = p.chunkSize second ↔
    p.chunkSize first = 0 ∨ p.chunkSize first = p.chunkSize second := by
  rw [secondStride]
  split <;> simp_all

theorem layoutWith_inj {one other : Int} (oneFits : InGint one) (otherFits : InGint other)
    (same : layoutWith config p one = layoutWith config p other) : one = other := by
  have strides : gint one = gint other := congrArg Layout.stride same
  rwa [gint_of_inGint oneFits, gint_of_inGint otherFits] at strides

/-- The lengths and sizes of every array that is laid out fit in a `gint`; the strides of a fresh
prototype are not given. -/
def LayoutsFit (config : TestConfig) (params : List OilParameter) : Prop :=
  ∀ p ∈ laidOutArrays params, (wantedLayout config none p).Fits

instance (config : TestConfig) (params : List OilParameter) : Decidable (LayoutsFit config params) :=
  inferInstanceAs (Decidable (∀ p ∈ _, _))

theorem LayoutsFit.chunkSize (fits : LayoutsFit config params) (laidOut : p ∈ laidOutArrays params) :
    InGint (p.chunkSize config) := by
  obtain ⟨_, _, stride, _⟩ := fits p laidOut
  rwa [wantedLayout, Option.map_none, Option.getD_none, if_neg (not_not_intro rfl)] at stride

theorem Paired.known (paired : Paired params pair i j) (found : params[i]? = some p) : p.argType ≠ .unknown := by
  have types : ∀ pair ∈ layoutPairs, pair.1 ≠ .unknown := by decide
  obtain ⟨q, foundQ, same⟩ := rearrange_some paired.arrayAt
  obtain rfl : q = p := Option.some.inj (foundQ.symm.trans found)
  exact same ▸ types pair paired.listed

theorem Paired.once (paired : Paired params pair i j) (found : params[i]? = some p) (foundStride : params[j]? = some s)
    (noStride : s.value = 0) (fits : InGint (p.chunkSize config)) :
    (calcSampleLayout config guards params)[i]?.map OilParameter.decided =
        some (layoutWith config p (p.chunkSize config), p.value) ∧
      (calcSampleLayout config guards params)[j]?.map OilParameter.decided = some (s.layout, p.chunkSize config) := by
  obtain ⟨array, stride⟩ := calcSampleLayout_paired config guards paired found foundStride
  have decided := calcLayoutOfArray_decided config (guards pair.1) (paired.known found) s
  rw [strideValue, if_neg (not_not_intro noStride), gint_of_inGint fits] at decided
  rw [array, stride, Option.map_some, Option.map_some, decided.1, decided.2]
  exact ⟨rfl, rfl⟩

theorem Paired.again (paired : Paired params pair i j) (found : params[i]? = some p) (foundStride : params[j]? = some s)
    (noStride : s.value = 0) (fitsFirst : InGint (p.chunkSize first)) (fitsSecond : InGint (p.chunkSize second)) :
    (calcSampleLayout second guardsAgain (calcSampleLayout first guards params))[i]?.map OilParameter.decided =
        some (layoutWith second p (secondStride first second p), p.value) ∧
      (calcSampleLayout second guardsAgain (calcSampleLayout first guards params))[j]?.map OilParameter.decided =
        some (s.layout, secondStride first second p) := by
  obtain ⟨array, stride⟩ := calcSampleLayout_paired first guards paired found foundStride
  obtain ⟨arrayAgain, strideAgain⟩ := calcSampleLayout_paired second guardsAgain
    ((paired_calcSampleLayout first guards).mpr paired) array stride
  have decided := calcLayoutOfArray_again first second (guards pair.1) (guardsAgain pair.1) (paired.known found)
    noStride fitsFirst fitsSecond
  rw [arrayAgain, strideAgain, Option.map_some, Option.map_some, decided.1, decided.2]
  exact ⟨rfl, rfl⟩

theorem unpaired_again (alone : ∀ pair array stride, Paired params pair array stride → array ≠ i ∧ stride ≠ i) :
    (calcSampleLayout second guardsAgain (calcSampleLayout first guards params))[i]?.map OilParameter.decided =
      (calcSampleLayout second guardsOnce params)[i]?.map OilParameter.decided := by
  rw [calcSampleLayout_unpaired second guardsAgain fun pair array stride paired =>
      alone pair array stride ((paired_calcSampleLayout first guards).mp paired),
    calcSampleLayout_unpaired first guards alone, calcSampleLayout_unpaired second guardsOnce alone]
  simp only [rearrange_calcSampleLayout, Option.map_map]
  congr 1
  funext p
  simp only [Function.comp_apply]
  split <;> rfl

/-- The two parameters of a pair agree with fresh ones exactly if the stride is the one these get. -/
theorem Paired.again_iff (noValues : ∀ p ∈ params, p.value = 0) (fitsFirst : LayoutsFit first params)
    (fitsSecond : LayoutsFit second params) (paired : Paired params pair i j) (found : params[i]? = some p) :
    ((calcSampleLayout second guardsAgain (calcSampleLayout first guards params))[i]?.map OilParameter.decided =
        (calcSampleLayout second guardsOnce params)[i]?.map OilParameter.decided ↔
      secondStride first second p = p.chunkSize second) ∧
    ((calcSampleLayout second guardsAgain (calcSampleLayout first guards params))[j]?.map OilParameter.decided =
        (calcSampleLayout second guardsOnce params)[j]?.map OilParameter.decided ↔
      secondStride first second p = p.chunkSize second) := by
  obtain ⟨s, foundStride, _⟩ := rearrange_some paired.strideAt
  have laidOut := mem_laidOutArrays.mpr ⟨pair, i, j, paired, found⟩
  have noStride := noValues s (List.mem_of_getElem? foundStride)
  have firstFits := fitsFirst.chunkSize laidOut
  have secondFits := fitsSecond.chunkSize laidOut
  have strideFits : InGint (secondStride first second p) := by
    rw [secondStride]
    split
    · exact firstFits
    · exact secondFits
  obtain ⟨once, onceStride⟩ := paired.once guardsOnce found foundStride noStride secondFits
  obtain ⟨again, againStride⟩ :=
    paired.again first second guards guardsAgain found foundStride noStride firstFits secondFits
  rw [once, again, onceStride, againStride, Option.some.injEq, Option.some.injEq, Prod.mk.injEq, Prod.mk.injEq]
  refine ⟨⟨fun same => layoutWith_inj strideFits secondFits same.1, fun same => ⟨by rw [same], rfl⟩⟩, ?_⟩
  exact and_iff_right rfl

/-- A second layout decides what a layout of fresh parameters would exactly if it would compute the
strides that the first one computed, but for those that came out as zero. -/
theorem relaid_decided_iff (noValues : ∀ p ∈ params, p.value = 0) (fitsFirst : LayoutsFit first params)
    (fitsSecond : LayoutsFit second params) :
    (calcSampleLayout second guardsAgain (calcSampleLayout first guards params)).map OilParameter.decided =
        (calcSampleLayout second guardsOnce params).map OilParameter.decided ↔
      ∀ p ∈ laidOutArrays params, p.chunkSize first = 0 ∨ p.chunkSize first = p.chunkSize second := by
  simp only [← secondStride_eq_iff]
  constructor
  · intro same p laidOut
    obtain ⟨pair, array, stride, paired, found⟩ := mem_laidOutArrays.mp laidOut
    have here := congrArg (fun decided : List (Layout × Int) => decided[array]?) same
    simp only [List.getElem?_map] at here
    exact (paired.again_iff first second guards guardsAgain guardsOnce noValues fitsFirst fitsSecond found).1.mp here
  · intro condition
    apply List.ext_getElem?
    intro i
    rw [List.getElem?_map, List.getElem?_map]
    by_cases touched : ∃ pair array stride, Paired params pair array stride ∧ (array = i ∨ stride = i)
    · obtain ⟨pair, array, stride, paired, here⟩ := touched
      obtain ⟨p, found, _⟩ := rearrange_some paired.arrayAt
      have same := condition p (mem_laidOutArrays.mpr ⟨pair, array, stride, paired, found⟩)
      have again := paired.again_iff first second guards guardsAgain guardsOnce noValues fitsFirst fitsSecond found
      rcases here with rfl | rfl
      · exact again.1.mpr same
      · exact again.2.mpr same
    · exact unpaired_again first second guards guardsAgain guardsOnce fun pair array stride paired =>
        ⟨fun same => touched ⟨pair, array, stride, paired, .inl same⟩,
          fun same => touched ⟨pair, array, stride, paired, .inr same⟩⟩

theorem rowsFit_again_iff (noValues : ∀ p ∈ params, p.value = 0) (fitsFirst : LayoutsFit first params)
    (fitsSecond : LayoutsFit second params) :
    RowsFit (calcSampleLayout second guardsAgain (calcSampleLayout first guards params)) ↔
      ∀ p ∈ laidOutArrays params, p.chunkSize first = 0 ∨ p.chunkSize second ≤ p.chunkSize first := by
  have row {pair : ArgType × ArgType} {array stride : Nat} {p p' : OilParameter}
      (paired : Paired params pair array stride) (found : params[array]? = some p)
      (again : (calcSampleLayout second guardsAgain (calcSampleLayout first guards params))[array]? = some p') :
      oilTypeSizeof p'.cType * p'.preN ≤ p'.stride ↔
        p.chunkSize first = 0 ∨ p.chunkSize second ≤ p.chunkSize first := by
    obtain ⟨s, foundStride, _⟩ := rearrange_some paired.strideAt
    have laidOut := mem_laidOutArrays.mpr ⟨pair, array, stride, paired, found⟩
    have decided := (paired.again first second guards guardsAgain found foundStride
      (noValues s (List.mem_of_getElem? foundStride)) (fitsFirst.chunkSize laidOut) (fitsSecond.chunkSize laidOut)).1
    have types := congrArg (fun types : List OilType => types[array]?)
      ((calcSampleLayout_map cType_undecided second guardsAgain (calcSampleLayout first guards params)).trans
        (calcSampleLayout_map cType_undecided first guards params))
    simp only [List.getElem?_map, again, found, Option.map_some, Option.some.injEq] at decided types
    have layout : p'.layout = layoutWith second p (secondStride first second p) := congrArg Prod.fst decided
    have preN : p'.preN = lengthOf second p.prestrideVar p.prestrideLength :=
      (congrArg Layout.preN layout).trans (gint_of_inGint (fitsSecond p laidOut).1)
    have strideEq : p'.stride = gint (secondStride first second p) := congrArg Layout.stride layout
    have firstFits := fitsFirst.chunkSize laidOut
    have secondFits := fitsSecond.chunkSize laidOut
    rw [types, preN, strideEq, ← OilParameter.chunkSize, secondStride]
    split
    case isTrue computed => rw [gint_of_inGint firstFits, or_iff_right computed]
    case isFalse zero =>
      rw [gint_of_inGint secondFits]
      exact iff_of_true (Int.le_refl _) (.inl (not_not.mp zero))
  constructor
  · intro rows p laidOut
    obtain ⟨pair, array, stride, paired, found⟩ := mem_laidOutArrays.mp laidOut
    have pairedAgain :=
      (paired_calcSampleLayout second guardsAgain).mpr ((paired_calcSampleLayout first guards).mpr paired)
    obtain ⟨p', again, _⟩ := rearrange_some pairedAgain.arrayAt
    exact (row paired found again).mp (rows p' (mem_laidOutArrays.mpr ⟨pair, array, stride, pairedAgain, again⟩))
  · intro condition p' laidOutAgain
    obtain ⟨pair, array, stride, pairedAgain, again⟩ := mem_laidOutArrays.mp laidOutAgain
    have paired :=
      (paired_calcSampleLayout first guards).mp ((paired_calcSampleLayout second guardsAgain).mp pairedAgain)
    obtain ⟨p, found, _⟩ := rearrange_some paired.arrayAt
    exact (row paired found again).mpr (condition p (mem_laidOutArrays.mpr ⟨pair, array, stride, paired, found⟩))

end Relaid

/-- Laid out under one configuration and then under another, the parameters of an accepted prototype
are as if laid out under the second alone, and rows do not overlap, exactly if no array needs
another stride than the one computed the first time, except where that was zero. -/
theorem relaid_as_fresh_iff (first second : TestConfig) (guards guardsAgain guardsOnce : ArgType → Int8)
    {prototype : List Char} {params : List OilParameter} (accepted : oilPrototypeParse prototype = some params)
    (fitsFirst : LayoutsFit first params) (fitsSecond : LayoutsFit second params) :
    (calcSampleLayout second guardsAgain (calcSampleLayout first guards params)).map OilParameter.decided =
        (calcSampleLayout second guardsOnce params).map OilParameter.decided ∧
      RowsFit (calcSampleLayout second guardsAgain (calcSampleLayout first guards params)) ↔
    ∀ p ∈ laidOutArrays params, p.chunkSize first = 0 ∨ p.chunkSize first = p.chunkSize second := by
  have noValues : ∀ p ∈ params, p.value = 0 := fun p member => (oilPrototypeParse_fresh accepted p member).value
  rw [relaid_decided_iff first second guards guardsAgain guardsOnce noValues fitsFirst fitsSecond,
    rowsFit_again_iff first second guards guardsAgain noValues fitsFirst fitsSecond]
  exact and_iff_left_of_imp fun condition p laidOut =>
    (condition p laidOut).imp id fun same => Int.le_of_eq same.symm

def rowsOfN : List OilParameter := (oilPrototypeParse "uint8_t *d_nx4, int ds, int n".toList).getD []

theorem rowsOfN_accepted : oilPrototypeParse "uint8_t *d_nx4, int ds, int n".toList = some rowsOfN := by decide +kernel

theorem relaid_as_fresh_iff_guards :
    (calcSampleLayout ⟨32, 32, 0, 8, 10⟩ (fun _ => 2) (calcSampleLayout ⟨16, 16, 0, 8, 10⟩ (fun _ => 1) rowsOfN)).map
        OilParameter.decided =
      (calcSampleLayout ⟨32, 32, 0, 8, 10⟩ (fun _ => 3) rowsOfN).map OilParameter.decided ∧
    RowsFit (calcSampleLayout ⟨32, 32, 0, 8, 10⟩ (fun _ => 2)
      (calcSampleLayout ⟨16, 16, 0, 8, 10⟩ (fun _ => 1) rowsOfN)) :=
  (relaid_as_fresh_iff ⟨16, 16, 0, 8, 10⟩ ⟨32, 32, 0, 8, 10⟩ (fun _ => 1) (fun _ => 2) (fun _ => 3) rowsOfN_accepted
    (by decide +kernel) (by decide +kernel)).mpr (by decide +kernel)

/-- With twice as many elements to a row, a computed stride is too small the second time. -/
theorem computed_stride_kept :
    ¬ ∀ (first second : TestConfig) (guards guardsAgain guardsOnce : ArgType → Int8) (prototype : List Char)
      (params : List OilParameter), oilPrototypeParse prototype = some params →
      LayoutsFit first params → LayoutsFit second params →
      (calcSampleLayout second guardsAgain (calcSampleLayout first guards params)).map OilParameter.decided =
          (calcSampleLayout second guardsOnce params).map OilParameter.decided ∧
        RowsFit (calcSampleLayout second guardsAgain (calcSampleLayout first guards params)) := by
  intro asFresh
  have rows := (asFresh ⟨16, 16, 0, 8, 10⟩ ⟨16, 16, 0, 16, 10⟩ (fun _ => 0) (fun _ => 0) (fun _ => 0) _ rowsOfN
    rowsOfN_accepted (by decide +kernel) (by decide +kernel)).2
  revert rows
  decide +kernel

end Oil.Test
