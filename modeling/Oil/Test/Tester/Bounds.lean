import Oil.Test.Tester.Reference

namespace Oil.Test

variable {p s : OilParameter} {params : List OilParameter} {bytes : List UInt8}

/-- The parts of a laid-out array are not negative, add up to its size, and hold its elements'
bytes in a `gint`. -/
structure OilParameter.Sane (p : OilParameter) : Prop where
  header : 0 ≤ p.header
  footer : 0 ≤ p.footer
  preN : 0 ≤ p.preN
  postN : 0 ≤ p.postN
  stride : 0 ≤ p.stride
  chunkFits : InGint (oilTypeSizeof p.cType * p.preN)
  strideFits : InGint p.stride
  size : p.size = p.header + p.stride * p.postN + p.footer

section Checks

theorem byteAt_inside (bytes : List UInt8) {offset : Int} (lower : 0 ≤ offset) (upper : offset < bytes.length) :
    ∃ byte, byteAt bytes offset = some byte := by
  have bound : offset.toNat < bytes.length := by omega
  exact ⟨bytes[offset.toNat], by rw [byteAt, if_pos lower, List.getElem?_eq_getElem bound]⟩

theorem checkGuardLoop_inside (guard : Int8) (left : Nat) {offset : Int} (lower : 0 ≤ offset)
    (upper : offset + left ≤ bytes.length) : ∃ intact, checkGuardLoop bytes guard left offset = some intact := by
  induction left generalizing offset with
  | zero => exact ⟨true, rfl⟩
  | succ left ih =>
      obtain ⟨byte, read⟩ := byteAt_inside bytes lower (by omega)
      simp only [checkGuardLoop, read, Option.bind_eq_bind, Option.bind_some]
      split
      · exact ⟨false, rfl⟩
      · exact ih (by omega) (by omega)

/-- A guard that lies inside the buffer is compared with no byte outside it. -/
theorem checkGuard_inside (bytes : List UInt8) (guard : Int8) (offset size : Int)
    (inside : 0 < size → 0 ≤ offset ∧ offset + size ≤ bytes.length) :
    ∃ intact, checkGuard bytes offset size guard = some intact := by
  rcases Int.lt_or_le 0 size with positive | nothing
  · obtain ⟨lower, upper⟩ := inside positive
    exact checkGuardLoop_inside guard size.toNat lower (by omega)
  · rw [checkGuard, Int.toNat_of_nonpos nothing]
    exact ⟨true, rfl⟩

/-- The loop over the holes ends: each round leaves one stride less to the footer. -/
theorem checkHoles_inside (bytes : List UInt8) {chunkSize holeSize : Int} (strides rounds : Nat) {a : Int}
    (fuel : strides < rounds)
    (stride : 0 ≤ p.stride) (footer : 0 ≤ p.footer) (chunk : 0 ≤ chunkSize)
    (hole : chunkSize + holeSize = p.stride) (lower : 0 ≤ a)
    (ends : a + p.stride * strides = p.size - p.footer) (length : p.size = bytes.length) :
    ∃ intact, checkHoles p bytes chunkSize holeSize rounds a = some intact := by
  induction strides generalizing rounds a with
  | zero =>
      obtain ⟨rounds, rfl⟩ : ∃ n, rounds = n + 1 := ⟨rounds - 1, by omega⟩
      rw [checkHoles, if_neg (by simpa using ends)]
      exact ⟨true, rfl⟩
  | succ strides ih =>
      obtain ⟨rounds, rfl⟩ : ∃ n, rounds = n + 1 := ⟨rounds - 1, by omega⟩
      have remaining : p.stride * (strides + 1 : Nat) = p.stride + p.stride * strides := by
        rw [Int.natCast_add, Int.natCast_one, Int.mul_add, Int.mul_one, Int.add_comm]
      have rest : 0 ≤ p.stride * strides := Int.mul_nonneg stride (Int.natCast_nonneg _)
      rw [checkHoles]
      split
      · obtain ⟨intact, checked⟩ :=
          checkGuard_inside bytes p.guard (a + chunkSize) holeSize fun _ => ⟨by omega, by omega⟩
        simp only [checked, Option.bind_eq_bind, Option.bind_some]
        cases intact with
        | false => exact ⟨false, rfl⟩
        | true => exact ih rounds (by omega) (by omega) (by omega)
      · exact ⟨true, rfl⟩

theorem OilParameter.Sane.size_nonneg (sane : p.Sane) :
    0 ≤ p.stride * p.postN ∧ p.header ≤ p.size ∧ p.footer ≤ p.size ∧ 0 ≤ p.size := by
  obtain ⟨header, footer, _, postN, stride, _, _, size⟩ := sane
  have elements : 0 ≤ p.stride * p.postN := Int.mul_nonneg stride postN
  omega

theorem OilParameter.Sane.strides (sane : p.Sane) :
    ∃ strides : Nat, strides < p.size.toNat + 1 ∧ p.header + p.stride * strides = p.size - p.footer := by
  obtain ⟨elements, _, _, _⟩ := sane.size_nonneg
  obtain ⟨header, footer, _, postN, stride, _, _, size⟩ := sane
  by_cases still : p.stride = 0
  · exact ⟨0, by omega, by rw [size, still]; omega⟩
  · refine ⟨p.postN.toNat, ?_, by rw [Int.toNat_of_nonneg postN]; omega⟩
    have each : 1 * p.postN ≤ p.stride * p.postN := Int.mul_le_mul_of_nonneg_right (by omega) postN
    omega

theorem checkArg_inside (sane : p.isPointer = true → p.Sane) (src : Arg) {data : Arg}
    (shaped : data.shape = (mayAllocArg p).shape) : ∃ intact, checkArg p src data = some intact := by
  cases src with
  | scale value => exact ⟨true, rfl⟩
  | buffer srcBytes =>
      cases data with
      | scale value => exact ⟨true, rfl⟩
      | buffer bytes =>
          rw [checkArg]
          split
          · exact ⟨true, rfl⟩
          case isFalse pointer =>
            rw [Bool.not_eq_false] at pointer
            split
            · exact ⟨_, rfl⟩
            simp only [mayAllocArg, if_pos pointer, Arg.shape, List.length_replicate, Sum.inl.injEq] at shaped
            have sane := sane pointer
            obtain ⟨elements, headerFits, footerFits, nonneg⟩ := sane.size_nonneg
            obtain ⟨strides, fuel, ends⟩ := sane.strides
            have length : p.size = bytes.length := by omega
            have chunk : gint (oilTypeSizeof p.cType * p.preN) = oilTypeSizeof p.cType * p.preN :=
              gint_of_inGint sane.chunkFits
            have chunkNonneg : 0 ≤ oilTypeSizeof p.cType * p.preN :=
              Int.mul_nonneg (by cases p.cType <;> decide) sane.preN
            have hole : gint (p.stride - oilTypeSizeof p.cType * p.preN) =
                p.stride - oilTypeSizeof p.cType * p.preN := by
              obtain ⟨_, chunkUpper⟩ := sane.chunkFits
              obtain ⟨_, strideUpper⟩ := sane.strideFits
              have strideNonneg := sane.stride
              exact gint_of_inGint ⟨by omega, by omega⟩
            have parts : oilTypeSizeof p.cType * p.preN + (p.stride - oilTypeSizeof p.cType * p.preN) = p.stride := by
              omega
            obtain ⟨headerIntact, headerRead⟩ :=
              checkGuard_inside bytes p.guard 0 p.header fun _ => ⟨Int.le_refl 0, by omega⟩
            obtain ⟨holesIntact, holesRead⟩ := checkHoles_inside bytes strides (p.size.toNat + 1) fuel
              sane.stride sane.footer chunkNonneg parts sane.header ends length
            obtain ⟨footerIntact, footerRead⟩ := checkGuard_inside bytes p.guard (p.size - p.footer) p.footer
              fun _ => ⟨by omega, by omega⟩
            simp only [chunk, hole, headerRead, holesRead, footerRead, Option.bind_eq_bind, Option.bind_some]
            cases headerIntact with
            | false => exact ⟨false, rfl⟩
            | true =>
                split
                · contradiction
                · split
                  · cases holesIntact with
                    | false => exact ⟨false, rfl⟩
                    | true => exact ⟨footerIntact, rfl⟩
                  · exact ⟨footerIntact, rfl⟩

theorem checkViolation_inside (sane : ∀ p ∈ params, p.isPointer = true → p.Sane) (srcData : List Arg)
    {data : List Arg}
    (allocated : Allocated params data) : ∃ intact, checkViolation params srcData data = some intact := by
  induction params generalizing srcData data with
  | nil => exact ⟨true, rfl⟩
  | cons p params ih =>
      cases srcData with
      | nil => exact ⟨true, rfl⟩
      | cons src srcData =>
          cases data with
          | nil => exact ⟨true, rfl⟩
          | cons arg data =>
              obtain ⟨shaped, allocatedRest⟩ := List.cons.inj allocated
              obtain ⟨intact, checked⟩ := checkArg_inside (sane p (.head _)) src shaped
              obtain ⟨rest, checkedRest⟩ := ih (fun q member => sane q (.tail _ member)) srcData allocatedRest
              cases intact with
              | false => exact ⟨false, by simp [checkViolation, checked]⟩
              | true => exact ⟨rest, by simp [checkViolation, checked, checkedRest]⟩

theorem checkReference_ends {F T : Type} [Zero T] (env : Environment) (clsData : OilClassData F T) (func : F)
    (sane : ∀ p ∈ params, p.isPointer = true → p.Sane) :
    ∃ result, checkReference env clsData func (Fixture.setUp clsData params) = some result := by
  obtain ⟨sampled, allocated, _⟩ := Fixture.setUp_allocated clsData params
  have ran := referenceLoop_allocated (clsData.call func) env.config.iterations.toNat sampled allocated
  obtain ⟨intact, verdict⟩ := checkViolation_inside sane (referenceLoop params (clsData.call func)
    env.config.iterations.toNat (Fixture.setUp clsData params : Fixture T).srcSample
    (Fixture.setUp clsData params : Fixture T).refSample).1 ran.2
  rw [checkReference]
  dsimp only
  split
  · exact ⟨_, rfl⟩
  · simp only [Fixture.setUp] at verdict ⊢
    simp only [verdict, Option.bind_eq_bind, Option.bind_some]
    split <;> exact ⟨_, rfl⟩

end Checks

section Attached

variable {config : TestConfig} {guards : ArgType → Int8}

/-- Neither a layout nor a value decides `f`. -/
def Undecided {β : Type} (f : OilParameter → β) : Prop :=
  ∀ p preN postN stride header footer size guard value,
    f { p with preN, postN, stride, header, footer, size, guard, value } = f p

theorem calcLayoutOfArray_undecided {β : Type} {f : OilParameter → β} (undecided : Undecided f) (config : TestConfig)
    (guard : Int8) (p s : OilParameter) :
    f (calcLayoutOfArray config guard p s).1 = f p ∧ f (calcLayoutOfArray config guard p s).2 = f s := by
  rw [calcLayoutOfArray]
  split
  · exact ⟨rfl, rfl⟩
  · exact ⟨undecided p _ _ _ _ _ _ _ p.value, undecided s s.preN s.postN s.stride s.header s.footer s.size s.guard _⟩

theorem cType_undecided : Undecided (·.cType) := fun _ _ _ _ _ _ _ _ _ => rfl

theorem companion_mem {p s : OilParameter} (found : companion params p = some s) : s ∈ params := by
  obtain ⟨strideType, _, search⟩ := Option.bind_eq_some_iff.mp found
  exact List.mem_of_find?_eq_some search

theorem lengthOf_nonneg (var : Int) {length : Int} (m : 0 ≤ config.testM) (n : 0 ≤ config.testN)
    (nonneg : 0 ≤ length) : 0 ≤ lengthOf config var length := by
  rw [lengthOf]
  split
  · omega
  · split <;> omega

theorem map_set_of_same {α β : Type} {f : α → β} {xs : List α} {i : Nat} {x y : α}
    (found : xs[i]? = some x) (same : f y = f x) : (xs.map f).set i (f y) = xs.map f := by
  have mapped : (xs.map f)[i]? = some (f y) := by rw [List.getElem?_map, found, Option.map_some, same]
  obtain ⟨inside, value⟩ := List.getElem?_eq_some_iff.mp mapped
  rw [← value, List.set_getElem_self]

theorem calcSampleLayout_map {β : Type} {f : OilParameter → β} (undecided : Undecided f) (config : TestConfig)
    (guards : ArgType → Int8) (params : List OilParameter) :
    (calcSampleLayout config guards params).map f = params.map f := by
  have pairs (list : List (ArgType × ArgType)) (current : List OilParameter) :
      (list.foldl (layoutPair config guards (rearrange params)) current).map f = current.map f := by
    induction list generalizing current with
    | nil => rfl
    | cons pair list ih =>
        rw [List.foldl_cons, ih, layoutPair]
        split
        · split
          case h_1 array stride _ _ p s foundArray foundStride =>
            obtain ⟨sameArray, sameStride⟩ := calcLayoutOfArray_undecided undecided config (guards pair.1) p s
            rw [List.map_set, List.map_set, map_set_of_same foundArray sameArray,
              map_set_of_same foundStride sameStride]
          case h_2 => rfl
        · rfl
  rw [calcSampleLayout]
  split
  · rw [← pairs layoutPairs params]
    apply List.ext_getElem?
    intro i
    rw [List.getElem?_map, List.getElem?_map, List.getElem?_modify, Option.map_eq_map, Option.map_map]
    congr 1
    funext p
    simp only [Function.comp_apply]
    split
    · exact undecided p p.preN p.postN p.stride p.header p.footer p.size p.guard config.testN
    · rfl
  · exact pairs layoutPairs params

theorem calcSampleLayout_isPointer (config : TestConfig) (guards : ArgType → Int8) (params : List OilParameter) :
    (calcSampleLayout config guards params).map (·.isPointer) = params.map (·.isPointer) :=
  calcSampleLayout_map (fun _ _ _ _ _ _ _ _ _ => rfl) config guards params

/-- A parameter of which nothing is laid out yet is an empty array. -/
theorem OilParameter.Fresh.sane (fresh : p.Fresh) : p.Sane := by
  obtain ⟨header, footer, preN, postN, stride, size, _⟩ := fresh.layout
  constructor <;> simp [header, footer, preN, postN, stride, size, InGint]

/-- An array laid out as it asks for, with a computed stride, is well laid out. -/
theorem sane_of_layout {laid : OilParameter} (header : 0 ≤ config.testHeader) (footer : 0 ≤ config.testFooter)
    (m : 0 ≤ config.testM) (n : 0 ≤ config.testN) (fresh : p.Fresh) (noStride : s.value = 0)
    (fits : (wantedLayout config (some s) p).Fits) (cType : laid.cType = p.cType)
    (layout : laid.layout = wantedLayout config (some s) p) : laid.Sane := by
  have preNonneg := lengthOf_nonneg p.prestrideVar m n fresh.lengths.1
  have postNonneg := lengthOf_nonneg p.poststrideVar m n fresh.lengths.2
  have elementNonneg : 0 ≤ oilTypeSizeof p.cType := by cases p.cType <;> decide
  obtain ⟨_, _, strideFits, _⟩ := fits
  simp only [OilParameter.layout, wantedLayout, Option.map_some, Option.getD_some, noStride, ne_eq,
    not_true_eq_false, if_false, Layout.mk.injEq] at layout strideFits
  obtain ⟨preN, postN, strideEq, headerEq, footerEq, size⟩ := layout
  constructor
  case header => omega
  case footer => omega
  case preN => omega
  case postN => omega
  case stride => rw [strideEq]; exact Int.mul_nonneg elementNonneg preNonneg
  case chunkFits => rw [cType, preN]; exact strideFits
  case strideFits => rw [strideEq]; exact strideFits
  case size => rw [size, headerEq, strideEq, postN, footerEq]

/-- The arrays of an accepted prototype are well laid out, where their sizes fit. -/
theorem calcSampleLayout_sane (config : TestConfig) (guards : ArgType → Int8) {prototype : List Char}
    (accepted : oilPrototypeParse prototype = some params)
    (distinct : DistinctTypes params) (header : 0 ≤ config.testHeader) (footer : 0 ≤ config.testFooter)
    (m : 0 ≤ config.testM) (n : 0 ≤ config.testN)
    (fits : ∀ p ∈ params, p.isPointer = true → (wantedLayout config (companion params p) p).Fits) :
    ∀ p ∈ calcSampleLayout config guards params, p.isPointer = true → p.Sane := by
  intro p' member array
  have fresh := oilPrototypeParse_fresh accepted
  obtain ⟨i, after⟩ := List.getElem?_of_mem member
  have pointers := congrArg (fun flags : List Bool => flags[i]?) (calcSampleLayout_isPointer config guards params)
  simp only [List.getElem?_map, after, Option.map_some] at pointers
  obtain ⟨p, found, same⟩ := Option.map_eq_some_iff.mp pointers.symm
  rw [array] at same
  have inParams := List.mem_of_getElem? found
  have laidOut := calcSampleLayout_array config guards distinct (fresh p inParams) same found
  rw [after, Option.some.injEq] at laidOut
  cases stride : companion params p with
  | none =>
      rw [stride] at laidOut
      exact laidOut ▸ (fresh p inParams).sane
  | some s =>
      have fitsP := fits p inParams same
      rw [stride] at laidOut fitsP
      subst laidOut
      exact sane_of_layout header footer m n (fresh p inParams) (fresh s (companion_mem stride)).value fitsP
        (calcLayoutOfArray_undecided cType_undecided config (guards p.argType) p s).1
        (calcLayoutOfArray_layout (guards p.argType) (fresh p inParams).known fitsP)

end Attached

end Oil.Test
