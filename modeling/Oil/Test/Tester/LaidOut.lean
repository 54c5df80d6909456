import Oil.Test.Tester.Layout

namespace Oil.Test

variable {config : TestConfig} {guards : ArgType → Int8} {params : List OilParameter}
  {p s : OilParameter} {i : Nat} {argType : ArgType}

def DistinctTypes (params : List OilParameter) : Prop := (params.map (·.argType)).Nodup

section Rearranging

theorem foldl_last_cases (argType : ArgType) (entries : List (OilParameter × Nat)) (found : Option Nat) :
    (entries.foldl (fun found entry => if entry.1.argType = argType then some entry.2 else found) found = found ∧
      ∀ entry ∈ entries, entry.1.argType ≠ argType) ∨
    ∃ p i, (p, i) ∈ entries ∧ p.argType = argType ∧
      entries.foldl (fun found entry => if entry.1.argType = argType then some entry.2 else found) found =
        some i := by
  induction entries generalizing found with
  | nil => exact .inl ⟨rfl, fun _ member => absurd member List.not_mem_nil⟩
  | cons entry entries ih =>
      rw [List.foldl_cons]
      by_cases fits : entry.1.argType = argType
      · rw [if_pos fits]
        rcases ih (some entry.2) with ⟨same, _⟩ | ⟨q, j, member, fitsQ, ends⟩
        · exact .inr ⟨entry.1, entry.2, List.mem_cons_self, fits, same⟩
        · exact .inr ⟨q, j, .tail _ member, fitsQ, ends⟩
      · rw [if_neg fits]
        rcases ih found with ⟨same, others⟩ | ⟨q, j, member, fitsQ, ends⟩
        · refine .inl ⟨same, fun other member => ?_⟩
          rcases List.mem_cons.mp member with rfl | later
          · exact fits
          · exact others other later
        · exact .inr ⟨q, j, .tail _ member, fitsQ, ends⟩

theorem rearrange_some (found : rearrange params argType = some i) :
    ∃ p, params[i]? = some p ∧ p.argType = argType := by
  rcases foldl_last_cases argType params.zipIdx none with ⟨same, _⟩ | ⟨p, j, member, fits, ends⟩
  · rw [rearrange, same] at found
    contradiction
  · rw [rearrange, ends, Option.some.injEq] at found
    exact ⟨p, found ▸ List.mem_zipIdx_iff_getElem?.mp member, fits⟩

theorem rearrange_none (unfound : rearrange params argType = none) : ∀ p ∈ params, p.argType ≠ argType := by
  rcases foldl_last_cases argType params.zipIdx none with ⟨_, others⟩ | ⟨p, j, _, _, ends⟩
  · intro p member
    obtain ⟨i, found⟩ := List.getElem?_of_mem member
    exact others (p, i) (List.mem_zipIdx_iff_getElem?.mpr found)
  · rw [rearrange, ends] at unfound
    contradiction

theorem rearrange_eq (distinct : DistinctTypes params) (found : params[i]? = some p) :
    rearrange params p.argType = some i := by
  cases result : rearrange params p.argType with
  | none => exact absurd rfl (rearrange_none result p (List.mem_of_getElem? found))
  | some j =>
      obtain ⟨q, foundQ, same⟩ := rearrange_some result
      obtain ⟨boundI, atI⟩ := List.getElem?_eq_some_iff.mp found
      obtain ⟨boundJ, atJ⟩ := List.getElem?_eq_some_iff.mp foundQ
      congr 1
      have boundI' : i < (params.map (·.argType)).length := by simpa using boundI
      have boundJ' : j < (params.map (·.argType)).length := by simpa using boundJ
      have sameType : (params.map (·.argType))[j] = (params.map (·.argType))[i] := by
        rw [List.getElem_map, List.getElem_map, atI, atJ, same]
      exact (List.getElem_inj distinct).mp sameType

theorem rearrange_ne {argType : ArgType} {j : Nat} (found : params[i]? = some p)
    (leads : rearrange params argType = some j) (differs : argType ≠ p.argType) : j ≠ i := by
  rintro rfl
  obtain ⟨q, foundQ, same⟩ := rearrange_some leads
  rw [found, Option.some.injEq] at foundQ
  exact differs (foundQ ▸ same.symm)

theorem find?_eq_rearrange (distinct : DistinctTypes params) (argType : ArgType) :
    params.find? (fun s => s.argType = argType) = (rearrange params argType).bind fun j => params[j]? := by
  cases search : params.find? fun s => s.argType = argType with
  | none =>
      cases leads : rearrange params argType with
      | none => rfl
      | some j =>
          obtain ⟨s, found, same⟩ := rearrange_some leads
          have differs := List.find?_eq_none.mp search s (List.mem_of_getElem? found)
          exact absurd (decide_eq_true same) differs
  | some s =>
      have same : s.argType = argType := by simpa using List.find?_some search
      obtain ⟨j, found⟩ := List.getElem?_of_mem (List.mem_of_find?_eq_some search)
      rw [← same, rearrange_eq distinct found, Option.bind_some, found]

end Rearranging

section Pairs

theorem layoutPairs_distinct : (layoutPairs.flatMap fun pair => [pair.1, pair.2]).Nodup := by decide

/-- The type of an array is the first of one pair, its companion stride's the second. -/
theorem pair_of_array (fresh : p.Fresh) (array : p.isPointer = true) :
    ∃ strideType, (p.argType, strideType) ∈ layoutPairs := by
  obtain ⟨directed, noStride⟩ := fresh.array array
  have table : ∀ entry ∈ argTypeMap, entry.2.1 ≠ .scale → entry.2.2.1 = false →
      ∃ pair ∈ layoutPairs, pair.1 = entry.1 := by decide
  have known := fresh.known
  rw [fresh.argType, argTypeParse, noStride] at known ⊢
  cases found : argTypeMap.find? fun entry =>
      p.argClass = entry.2.1 && false = entry.2.2.1 && p.index = entry.2.2.2 with
  | none =>
      rw [found] at known
      exact absurd rfl known
  | some entry =>
      have fits := List.find?_some found
      simp only [Bool.and_eq_true, decide_eq_true_eq] at fits
      obtain ⟨pair, member, same⟩ :=
        table entry (List.mem_of_find?_eq_some found) (fits.1.1 ▸ directed) fits.1.2.symm
      refine ⟨pair.2, ?_⟩
      rw [Option.map_some, Option.getD_some, ← same]
      exact member

def companionType (argType : ArgType) : Option ArgType :=
  (layoutPairs.find? fun pair => pair.1 = argType).map Prod.snd

/-- The stride parameter that goes with an array parameter, if the prototype has one. -/
def companion (params : List OilParameter) (array : OilParameter) : Option OilParameter :=
  (companionType array.argType).bind fun strideType => params.find? fun s => s.argType = strideType

theorem companionType_of_pair {pair : ArgType × ArgType} (member : pair ∈ layoutPairs) :
    companionType pair.1 = some pair.2 := by
  revert pair
  decide

theorem companion_of_pair {pair : ArgType × ArgType} (member : pair ∈ layoutPairs)
    (same : p.argType = pair.1) :
    companion params p = params.find? fun s => s.argType = pair.2 := by
  rw [companion, same, companionType_of_pair member]
  rfl

/-- Two parameters, by their positions, that are laid out together. -/
structure Paired (params : List OilParameter) (pair : ArgType × ArgType) (array stride : Nat) : Prop where
  listed : pair ∈ layoutPairs
  arrayAt : rearrange params pair.1 = some array
  strideAt : rearrange params pair.2 = some stride

theorem rearrange_apart {one other : ArgType} {i j : Nat} (oneAt : rearrange params one = some i)
    (otherAt : rearrange params other = some j) (differ : one ≠ other) : i ≠ j := by
  obtain ⟨q, found, same⟩ := rearrange_some otherAt
  exact rearrange_ne found oneAt (same ▸ differ)

theorem foldl_layoutPair_apart (config : TestConfig) (guards : ArgType → Int8) (rearranged : ArgType → Option Nat)
    {pairs : List (ArgType × ArgType)} (current : List OilParameter)
    (apart : ∀ pair ∈ pairs, ∀ array stride, rearranged pair.1 = some array → rearranged pair.2 = some stride →
      array ≠ i ∧ stride ≠ i) :
    (pairs.foldl (layoutPair config guards rearranged) current)[i]? = current[i]? := by
  induction pairs generalizing current with
  | nil => rfl
  | cons pair pairs ih =>
      rw [List.foldl_cons, ih _ fun other member => apart other (.tail _ member), layoutPair]
      split
      case h_2 => rfl
      case h_1 array stride arrayAt strideAt =>
        obtain ⟨notArray, notStride⟩ := apart pair (.head _) array stride arrayAt strideAt
        split
        · rw [List.getElem?_set_ne notStride, List.getElem?_set_ne notArray]
        · rfl

theorem mem_flatMap_pair {t : ArgType} (pairs : List (ArgType × ArgType))
    (apart : t ∉ pairs.flatMap fun pair => [pair.1, pair.2]) :
    ∀ pair ∈ pairs, t ≠ pair.1 ∧ t ≠ pair.2 := by
  intro pair member
  constructor
  · rintro rfl
    exact apart (List.mem_flatMap.mpr ⟨pair, member, by simp⟩)
  · rintro rfl
    exact apart (List.mem_flatMap.mpr ⟨pair, member, by simp⟩)

/-- No type of a pair is in any other pair. -/
theorem layoutPairs_split {pair : ArgType × ArgType} (member : pair ∈ layoutPairs) :
    ∃ before after, layoutPairs = before ++ pair :: after ∧ pair.1 ≠ pair.2 ∧
      (∀ other ∈ before, (pair.1 ≠ other.1 ∧ pair.1 ≠ other.2) ∧ pair.2 ≠ other.1 ∧ pair.2 ≠ other.2) ∧
      ∀ other ∈ after, (pair.1 ≠ other.1 ∧ pair.1 ≠ other.2) ∧ pair.2 ≠ other.1 ∧ pair.2 ≠ other.2 := by
  obtain ⟨before, after, parts⟩ := List.append_of_mem member
  have apart := layoutPairs_distinct
  rw [parts, List.flatMap_append, List.flatMap_cons] at apart
  simp only [List.nodup_append, List.nodup_cons, List.mem_append, List.mem_cons] at apart
  obtain ⟨_, ⟨⟨notSame, _⟩, _, inPair⟩, fromBefore⟩ := apart
  refine ⟨before, after, parts, fun same => notSame (.inl same), fun other inBefore => ⟨?_, ?_⟩,
    fun other inAfter => ⟨?_, ?_⟩⟩
  · exact mem_flatMap_pair before (fun inTypes => fromBefore _ inTypes _ (.inl (.inl rfl)) rfl) other inBefore
  · exact mem_flatMap_pair before (fun inTypes => fromBefore _ inTypes _ (.inl (.inr (.inl rfl))) rfl) other inBefore
  · exact mem_flatMap_pair after (fun inTypes => inPair _ (.inl rfl) _ inTypes rfl) other inAfter
  · exact mem_flatMap_pair after (fun inTypes => inPair _ (.inr (.inl rfl)) _ inTypes rfl) other inAfter

/-- Of all pairs, only their own touches the two parameters of a pair. -/
theorem foldl_layoutPairs_paired (config : TestConfig) (guards : ArgType → Int8) {pair : ArgType × ArgType} {j : Nat}
    (paired : Paired params pair i j) (found : params[i]? = some p) (foundStride : params[j]? = some s) :
    (layoutPairs.foldl (layoutPair config guards (rearrange params)) params)[i]? =
        some (calcLayoutOfArray config (guards pair.1) p s).1 ∧
      (layoutPairs.foldl (layoutPair config guards (rearrange params)) params)[j]? =
        some (calcLayoutOfArray config (guards pair.1) p s).2 := by
  obtain ⟨listed, arrayAt, strideAt⟩ := paired
  obtain ⟨before, after, parts, differ, inBefore, inAfter⟩ := layoutPairs_split listed
  have apart {pairs : List (ArgType × ArgType)} {t : ArgType} {k : Nat} (at' : rearrange params t = some k)
      (others : ∀ other ∈ pairs, t ≠ other.1 ∧ t ≠ other.2) (current : List OilParameter) :
      (pairs.foldl (layoutPair config guards (rearrange params)) current)[k]? = current[k]? :=
    foldl_layoutPair_apart config guards _ current fun other member a b otherArray otherStride =>
      ⟨(rearrange_apart at' otherArray (others other member).1).symm,
        (rearrange_apart at' otherStride (others other member).2).symm⟩
  have foundBefore := (apart arrayAt (fun other member => (inBefore other member).1) params).trans found
  have strideBefore := (apart strideAt (fun other member => (inBefore other member).2) params).trans foundStride
  rw [parts, List.foldl_append, List.foldl_cons, apart arrayAt fun other member => (inAfter other member).1,
    apart strideAt fun other member => (inAfter other member).2, layoutPair, arrayAt, strideAt]
  dsimp only
  rw [foundBefore, strideBefore]
  obtain ⟨bound, _⟩ := List.getElem?_eq_some_iff.mp foundBefore
  obtain ⟨boundStride, _⟩ := List.getElem?_eq_some_iff.mp strideBefore
  constructor
  · rw [List.getElem?_set_ne (rearrange_apart arrayAt strideAt differ).symm, List.getElem?_set_self bound]
  · rw [List.getElem?_set_self (by rwa [List.length_set])]

theorem calcSampleLayout_getElem? (config : TestConfig) (guards : ArgType → Int8) (params : List OilParameter)
    (i : Nat) :
    (calcSampleLayout config guards params)[i]? =
      (layoutPairs.foldl (layoutPair config guards (rearrange params)) params)[i]?.map fun p =>
        if rearrange params .n = some i then { p with value := config.testN } else p := by
  rw [calcSampleLayout]
  split
  case h_2 missing =>
    simp only [missing, reduceCtorEq, ↓reduceIte, Option.map_id']
  case h_1 n scaleAt =>
    simp only [List.getElem?_modify, scaleAt, Option.map_eq_map, Option.some.injEq]

/-- After `_calc_sample_layout` two paired parameters are what one call of `_calc_layout_of_array`
made of them. -/
theorem calcSampleLayout_paired (config : TestConfig) (guards : ArgType → Int8) {pair : ArgType × ArgType} {j : Nat}
    (paired : Paired params pair i j) (found : params[i]? = some p) (foundStride : params[j]? = some s) :
    (calcSampleLayout config guards params)[i]? = some (calcLayoutOfArray config (guards pair.1) p s).1 ∧
      (calcSampleLayout config guards params)[j]? = some (calcLayoutOfArray config (guards pair.1) p s).2 := by
  obtain ⟨laidOut, strideLaidOut⟩ := foldl_layoutPairs_paired config guards paired found foundStride
  obtain ⟨listed, arrayAt, strideAt⟩ := paired
  have notScale : ∀ pair ∈ layoutPairs, pair.1 ≠ .n ∧ pair.2 ≠ .n := by decide
  rw [calcSampleLayout_getElem?, calcSampleLayout_getElem?, laidOut, strideLaidOut, Option.map_some, Option.map_some,
    if_neg fun scaleAt => rearrange_apart arrayAt scaleAt (notScale pair listed).1 rfl,
    if_neg fun scaleAt => rearrange_apart strideAt scaleAt (notScale pair listed).2 rfl]
  exact ⟨rfl, rfl⟩

/-- A parameter without a partner stays as it was, but for the last `n`. -/
theorem calcSampleLayout_unpaired (config : TestConfig) (guards : ArgType → Int8)
    (alone : ∀ pair array stride, Paired params pair array stride → array ≠ i ∧ stride ≠ i) :
    (calcSampleLayout config guards params)[i]? = params[i]?.map fun p =>
      if rearrange params .n = some i then { p with value := config.testN } else p := by
  rw [calcSampleLayout_getElem?, foldl_layoutPair_apart config guards (rearrange params) params
    fun pair listed array stride arrayAt strideAt => alone pair array stride ⟨listed, arrayAt, strideAt⟩]

/-- After `_calc_sample_layout` an array is what one call of `_calc_layout_of_array` made of
it, if it has a companion stride, and as before otherwise. -/
theorem calcSampleLayout_array (config : TestConfig) (guards : ArgType → Int8) (distinct : DistinctTypes params)
    (fresh : p.Fresh) (array : p.isPointer = true) (found : params[i]? = some p) :
    (calcSampleLayout config guards params)[i]? = some
      (match companion params p with
        | some s => (calcLayoutOfArray config (guards p.argType) p s).1
        | none => p) := by
  obtain ⟨strideType, listed⟩ := pair_of_array fresh array
  have arrayAt := rearrange_eq distinct found
  rw [companion_of_pair listed rfl, find?_eq_rearrange distinct]
  dsimp only
  cases strideAt : rearrange params strideType with
  | some j =>
      obtain ⟨s, foundStride, _⟩ := rearrange_some strideAt
      rw [Option.bind_some, foundStride]
      exact (calcSampleLayout_paired config guards ⟨listed, arrayAt, strideAt⟩ found foundStride).1
  | none =>
      obtain ⟨_, _, parts, differ, inBefore, inAfter⟩ := layoutPairs_split listed
      have notScale : ∀ pair ∈ layoutPairs, pair.1 ≠ .n := by decide
      have others : ∀ other ∈ layoutPairs,
          other = (p.argType, strideType) ∨ p.argType ≠ other.1 ∧ p.argType ≠ other.2 := by
        intro other member
        rw [parts] at member
        rcases List.mem_append.mp member with before | rest
        · exact .inr (inBefore other before).1
        · rcases List.mem_cons.mp rest with same | after
          · exact .inl same
          · exact .inr (inAfter other after).1
      rw [calcSampleLayout_unpaired config guards, found, Option.map_some, if_neg]
      · rfl
      · exact fun scaleAt => rearrange_ne found scaleAt (notScale _ listed).symm rfl
      · rintro other a b ⟨member, otherArray, otherStride⟩
        rcases others other member with rfl | ⟨notArray, notStride⟩
        · rw [strideAt] at otherStride
          contradiction
        · exact ⟨rearrange_ne found otherArray notArray.symm, rearrange_ne found otherStride notStride.symm⟩

end Pairs

section Wanted

structure Layout where
  preN : Int
  postN : Int
  stride : Int
  header : Int
  footer : Int
  size : Int
deriving DecidableEq

def OilParameter.layout (p : OilParameter) : Layout := ⟨p.preN, p.postN, p.stride, p.header, p.footer, p.size⟩

/-- A length specification, given the configured `n` and `m`. -/
def lengthOf (config : TestConfig) (var length : Int) : Int :=
  if var = 1 then length + config.testN else if var = 2 then length + config.testM else length

/-- The layout an array parameter asks for, with or without a companion stride. -/
def wantedLayout (config : TestConfig) (stride : Option OilParameter) (p : OilParameter) : Layout :=
  let preN := lengthOf config p.prestrideVar p.prestrideLength
  let postN := lengthOf config p.poststrideVar p.poststrideLength
  let given := (stride.map (·.value)).getD 0
  let stride := if given ≠ 0 then given else oilTypeSizeof p.cType * preN
  { preN, postN, stride, header := config.testHeader, footer := config.testFooter
    size := config.testHeader + stride * postN + config.testFooter }

def InGint (value : Int) : Prop := -2 ^ 31 ≤ value ∧ value < 2 ^ 31

instance (value : Int) : Decidable (InGint value) := inferInstanceAs (Decidable (_ ∧ _))

/-- The lengths and the size of a layout fit in a `gint`. -/
def Layout.Fits (layout : Layout) : Prop :=
  InGint layout.preN ∧ InGint layout.postN ∧ InGint layout.stride ∧ InGint layout.size

instance (layout : Layout) : Decidable layout.Fits := inferInstanceAs (Decidable (_ ∧ _))

theorem gint_of_inGint {value : Int} (fits : InGint value) : gint value = value := by
  obtain ⟨lower, upper⟩ := fits
  exact Int.bmod_eq_of_le (by omega) (by omega)

theorem gint_gint_add (a b : Int) : gint (gint a + b) = gint (a + b) := Int.bmod_add_bmod

theorem gint_gint (value : Int) : gint (gint value) = gint value := Int.bmod_bmod

theorem gint_mul_gint (a b : Int) : gint (a * gint b) = gint (a * b) := Int.mul_bmod_bmod

theorem gint_lengthOf (config : TestConfig) (var length : Int) :
    (if var = 1 then gint (gint length + config.testN)
      else if var = 2 then gint (gint length + config.testM)
      else gint length) = gint (lengthOf config var length) := by
  rw [lengthOf]
  split
  · exact gint_gint_add _ _
  · split
    · exact gint_gint_add _ _
    · rfl

/-- The bytes of one row of elements, which a computed stride is set to. -/
def OilParameter.chunkSize (config : TestConfig) (p : OilParameter) : Int :=
  oilTypeSizeof p.cType * lengthOf config p.prestrideVar p.prestrideLength

/-- What is decided about a parameter, but for the random guard. -/
def OilParameter.decided (p : OilParameter) : Layout × Int := (p.layout, p.value)

/-- The stride of an array, given or computed. -/
def strideValue (config : TestConfig) (p s : OilParameter) : Int :=
  if s.value ≠ 0 then s.value else gint (p.chunkSize config)

/-- An array laid out with this stride, in the arithmetic of `gint`. -/
def layoutWith (config : TestConfig) (p : OilParameter) (value : Int) : Layout :=
  let postN := lengthOf config p.poststrideVar p.poststrideLength
  { preN := gint (lengthOf config p.prestrideVar p.prestrideLength), postN := gint postN, stride := gint value
    header := config.testHeader, footer := config.testFooter
    size := gint (gint value * postN + config.testHeader + config.testFooter) }

/-- Everything `_calc_layout_of_array` decides. -/
theorem calcLayoutOfArray_decided (config : TestConfig) (guard : Int8) (known : p.argType ≠ .unknown)
    (s : OilParameter) :
    (calcLayoutOfArray config guard p s).1.decided = (layoutWith config p (strideValue config p s), p.value) ∧
      (calcLayoutOfArray config guard p s).2.decided = (s.layout, strideValue config p s) := by
  rw [calcLayoutOfArray, if_neg known]
  simp only [OilParameter.decided, OilParameter.layout, layoutWith, strideValue, OilParameter.chunkSize, gint_lengthOf]
  split <;> simp only [gint_gint, gint_mul_gint, gint_gint_add, Int.add_assoc, and_self]

theorem calcLayoutOfArray_layout (guard : Int8) (known : p.argType ≠ .unknown)
    (fits : (wantedLayout config (some s) p).Fits) :
    (calcLayoutOfArray config guard p s).1.layout = wantedLayout config (some s) p := by
  obtain ⟨pre, post, stride, size⟩ := fits
  simp only [wantedLayout, Option.map_some, Option.getD_some] at pre post stride size
  have value : strideValue config p s = if s.value ≠ 0 then s.value
      else oilTypeSizeof p.cType * lengthOf config p.prestrideVar p.prestrideLength := by
    rw [strideValue, OilParameter.chunkSize]
    split
    · rfl
    case isFalse missing =>
      rw [if_neg missing] at stride
      exact gint_of_inGint stride
  have layout : (calcLayoutOfArray config guard p s).1.layout = layoutWith config p (strideValue config p s) :=
    congrArg Prod.fst (calcLayoutOfArray_decided config guard known s).1
  rw [layout, layoutWith, value, gint_of_inGint pre,
    gint_of_inGint post, gint_of_inGint stride, Int.add_comm _ config.testHeader, gint_of_inGint size]
  rfl

/-- After `_calc_sample_layout` every array parameter is laid out as it asks for. -/
def ArraysLaidOut (config : TestConfig) (guards : ArgType → Int8) (params : List OilParameter) : Prop :=
  ∀ (i : Nat) (p p' : OilParameter), params[i]? = some p → p.isPointer = true →
    (calcSampleLayout config guards params)[i]? = some p' →
    p'.layout = wantedLayout config (companion params p) p

/-- The arrays of an accepted prototype are laid out as they ask for, exactly if every array has a
companion stride or asks for an empty layout. -/
theorem arrays_laid_out_iff (config : TestConfig) (guards : ArgType → Int8) {prototype : List Char}
    {params : List OilParameter} (accepted : oilPrototypeParse prototype = some params)
    (distinct : DistinctTypes params)
    (fits : ∀ p ∈ params, p.isPointer = true → (wantedLayout config (companion params p) p).Fits) :
    ArraysLaidOut config guards params ↔
      ∀ p ∈ params, p.isPointer = true → (companion params p).isSome = true ∨
        lengthOf config p.prestrideVar p.prestrideLength = 0 ∧
        lengthOf config p.poststrideVar p.poststrideLength = 0 ∧
        config.testHeader = 0 ∧ config.testFooter = 0 := by
  have fresh := oilPrototypeParse_fresh accepted
  constructor
  · intro laidOut p member array
    obtain ⟨i, found⟩ := List.getElem?_of_mem member
    have after := calcSampleLayout_array config guards distinct
      (fresh p member) array found
    cases stride : companion params p with
    | some s => exact .inl rfl
    | none =>
        right
        rw [stride] at after
        have same := laidOut i p p found array after
        obtain ⟨header, footer, preN, postN, _⟩ := (fresh p member).layout
        rw [stride, OilParameter.layout, wantedLayout, Layout.mk.injEq, preN, postN, header, footer] at same
        exact ⟨same.1.symm, same.2.1.symm, same.2.2.2.1.symm, same.2.2.2.2.1.symm⟩
  · intro condition i p p' found array after
    have member := List.mem_of_getElem? found
    rw [calcSampleLayout_array config guards distinct (fresh p member) array found, Option.some.injEq] at after
    have fitsP := fits p member array
    have conditionP := condition p member array
    cases stride : companion params p with
    | some s =>
        rw [stride] at after fitsP
        rw [← after]
        exact calcLayoutOfArray_layout _ (fresh p member).known fitsP
    | none =>
        rw [stride] at after conditionP
        rcases conditionP with missing | ⟨preN, postN, header, footer⟩
        · contradiction
        · obtain ⟨headerZero, footerZero, preZero, postZero, strideZero, sizeZero, _⟩ := (fresh p member).layout
          rw [← after, OilParameter.layout, wantedLayout, preN, postN, header, footer, headerZero, footerZero,
            preZero, postZero, strideZero, sizeZero]
          simp

theorem arrays_laid_out_iff_strided :
    ArraysLaidOut ⟨256, 256, 100, 100, 10⟩ (fun _ => 0)
      ((oilPrototypeParse "uint8_t *d_8x8, int ds".toList).getD []) := by
  have accepted : oilPrototypeParse "uint8_t *d_8x8, int ds".toList =
      some ((oilPrototypeParse "uint8_t *d_8x8, int ds".toList).getD []) := by decide +kernel
  exact (arrays_laid_out_iff ⟨256, 256, 100, 100, 10⟩ _ accepted (by unfold DistinctTypes; decide +kernel)
    (by decide +kernel)).mpr (by decide +kernel)

/-- An array without a companion stride is not laid out at all. -/
theorem array_without_stride_skipped :
    ¬ ∀ (config : TestConfig) (guards : ArgType → Int8) (prototype : List Char) (params : List OilParameter),
      0 ≤ config.testHeader → 0 ≤ config.testFooter → 0 ≤ config.testM → 0 ≤ config.testN →
      oilPrototypeParse prototype = some params → DistinctTypes params →
      (∀ p ∈ params, p.isPointer = true → (wantedLayout config (companion params p) p).Fits) →
      ArraysLaidOut config guards params := by
  intro laidOut
  have skipped := laidOut ⟨256, 256, 100, 100, 10⟩ (fun _ => 0) "uint8_t *d, int n".toList
    ((oilPrototypeParse "uint8_t *d, int n".toList).getD []) (by decide) (by decide) (by decide) (by decide)
    (by decide +kernel) (by unfold DistinctTypes; decide +kernel) (by decide +kernel) 0
    (((oilPrototypeParse "uint8_t *d, int n".toList).getD []).headD {})
    (((oilPrototypeParse "uint8_t *d, int n".toList).getD []).headD {})
    (by decide +kernel) (by decide +kernel) (by decide +kernel)
  revert skipped
  decide +kernel

end Wanted

end Oil.Test
