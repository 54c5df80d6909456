import Mathlib.Algebra.BigOperators.Group.List.Basic
import Mathlib.Algebra.Order.BigOperators.Group.List
import Mathlib.Algebra.Order.Field.Basic
import Mathlib.Algebra.Order.Ring.Rat
import Mathlib.Data.Int.CharZero
import Oil.Test.Checker.Model
import Oil.Test.Tester.Covered

namespace Oil.Test

open Oil.Data

section Loops

variable {K : Type} [Ring K] [LinearOrder K] (arithmetic : Arithmetic K) (value : OilType → List UInt8 → K)

theorem checkArray_eq {p : OilParameter} (data ref : Int → UInt8) (known : (elementWidth p.cType).isSome) :
    checkArray arithmetic value data ref p.header p.cType p.preN p.stride p.postN =
      some (addDistances arithmetic.double 0 (elementPairs arithmetic value ⟨p, data, ref⟩)) := by
  obtain ⟨width, found⟩ := Option.isSome_iff_exists.mp known
  have size : (oilTypeSizeof p.cType).toNat = width := by
    rw [(elementWidth_eq found).1, Int.toNat_natCast]
  rw [checkArray, found, Option.map_some, elementPairs, addDistances, List.foldl_flatMap]
  simp only [List.foldl_map, size]

/-- What the loop adds to the deviation for an array. -/
def addDeviation (diff : K) (arg : CheckedArg) : K :=
  arithmetic.double (diff + addDistances arithmetic.double 0 (elementPairs arithmetic value arg))

/-- What it adds to the number of samples, for an array of any direction. -/
def addSamples (n : Int) (arg : CheckedArg) : Int :=
  arithmetic.int (n + arithmetic.int (arg.parameter.preN * arg.parameter.postN))

/-- The loop comes through where it knows the types of the arrays it compares. -/
theorem checkResultLoop_eq {args : List CheckedArg}
    (typed : ∀ arg ∈ args, arg.parameter.IsCompared → (elementWidth arg.parameter.cType).isSome) (diff : K)
    (n : Int) :
    checkResultLoop arithmetic value args diff n =
      some ((args.filter (·.parameter.IsCompared)).foldl (addDeviation arithmetic value) diff,
        (args.filter (·.parameter.isPointer)).foldl (addSamples arithmetic) n) := by
  induction args generalizing diff n with
  | nil => rfl
  | cons arg args ih =>
      have rest := ih fun other member => typed other (.tail _ member)
      rw [checkResultLoop]
      by_cases pointer : arg.parameter.isPointer = true
      · by_cases written : arg.parameter.argClass = .dest ∨ arg.parameter.argClass = .inplace
        · have compared : arg.parameter.IsCompared := ⟨pointer, written⟩
          have added := checkArray_eq arithmetic value arg.ref arg.tdata (typed arg (.head _) compared)
          simp only [pointer, if_true, if_pos written, added, Option.map_some, Option.bind_eq_bind, Option.bind_some,
            rest, List.filter_cons, compared, decide_true, List.foldl_cons]
          rfl
        · have uncompared : ¬ arg.parameter.IsCompared := fun compared => written compared.2
          simp only [pointer, if_true, if_neg written, Option.bind_eq_bind, Option.bind_some, rest, List.filter_cons,
            uncompared, decide_false, Bool.false_eq_true, if_false, List.foldl_cons]
          rfl
      · have uncompared : ¬ arg.parameter.IsCompared := fun compared => pointer compared.1
        simp only [pointer, if_false, rest, List.filter_cons, uncompared, decide_false, Bool.false_eq_true]

end Loops

theorem foldl_addSamples_exact {K : Type} (pointers : List CheckedArg) (n : Int) :
    pointers.foldl (addSamples (.exact : Arithmetic K)) n =
      n + (pointers.map fun arg => arg.parameter.preN * arg.parameter.postN).sum := by
  induction pointers generalizing n with
  | nil => simp
  | cons arg pointers ih =>
      rw [List.foldl_cons, ih, List.map_cons, List.sum_cons, ← add_assoc]
      rfl

section Counts

/-- The number of the elements that are compared. -/
def comparedCount (params : List OilParameter) : Nat :=
  ((params.filter (·.IsCompared)).map fun p => p.postN.toNat * p.preN.toNat).sum

/-- The number of samples that is counted: of all arrays, the sources too. -/
def sampleCount (params : List OilParameter) : Int :=
  ((params.filter (·.isPointer)).map fun p => p.preN * p.postN).sum

variable {K : Type} (arithmetic : Arithmetic K) (value : OilType → List UInt8 → K)

theorem length_elementPairs (arg : CheckedArg) :
    (elementPairs arithmetic value arg).length = arg.parameter.postN.toNat * arg.parameter.preN.toNat := by
  simp [elementPairs]

theorem length_comparedElements (args : List CheckedArg) :
    (comparedElements arithmetic value args).length = comparedCount (args.map (·.parameter)) := by
  rw [comparedElements, List.length_flatMap, comparedCount, List.filter_map, List.map_map]
  simp only [length_elementPairs]
  rfl

end Counts

section Exact

variable {K : Type} [Ring K] [LinearOrder K] {value : OilType → List UInt8 → K} {args : List CheckedArg}
  {tolerance : K}

/-- The sum of the absolute deviations over the compared elements. -/
def deviation (value : OilType → List UInt8 → K) (args : List CheckedArg) : K :=
  ((comparedElements .exact value args).map fun pair => |pair.1 - pair.2|).sum

theorem foldl_addDeviation_exact (compared : List CheckedArg) (diff : K) :
    compared.foldl (addDeviation .exact value) diff =
      diff + ((compared.flatMap (elementPairs .exact value)).map fun pair => |pair.1 - pair.2|).sum := by
  induction compared generalizing diff with
  | nil => simp
  | cons arg compared ih =>
      have step : addDeviation .exact value diff arg =
          diff + ((elementPairs .exact value arg).map fun pair => |pair.1 - pair.2|).sum := by
        rw [addDeviation, Arithmetic.exact]
        dsimp only
        rw [addDistances_exact, zero_add]
        rfl
      rw [List.foldl_cons, ih, step, List.flatMap_cons, List.map_append, List.sum_append, add_assoc]

theorem checkResult_exact (typed : ∀ arg ∈ args, arg.parameter.IsCompared → (elementWidth arg.parameter.cType).isSome)
    (tolerance : K) :
    checkResult .exact value args tolerance =
      some (decide (deviation value args ≤ tolerance * sampleCount (args.map (·.parameter)))) := by
  rw [checkResult, checkResultLoop_eq .exact value typed, Option.map_some, foldl_addDeviation_exact,
    foldl_addSamples_exact, zero_add, zero_add, sampleCount, List.filter_map, List.map_map]
  simp only [not_lt]
  rfl

theorem typed_args {params : List OilParameter} (parameters : args.map (·.parameter) = params)
    (typed : ∀ p ∈ params, p.IsCompared → (elementWidth p.cType).isSome) :
    ∀ arg ∈ args, arg.parameter.IsCompared → (elementWidth arg.parameter.cType).isSome := by
  subst parameters
  exact fun arg member => typed arg.parameter (List.mem_map_of_mem member)

/-- Whatever the arrays hold, and whatever numbers that stands for, the verdict is about the compared
elements. -/
def VerdictOnCompared (params : List OilParameter) (tolerance : K) : Prop :=
  ∀ (value : OilType → List UInt8 → K) (args : List CheckedArg), args.map (·.parameter) = params →
    ∃ accepts, checkResult .exact value args tolerance = some accepts ∧
      (accepts = true ↔ deviation value args ≤ tolerance * (comparedElements .exact value args).length)

/-- Then the other arrays change nothing. -/
theorem VerdictOnCompared.same {args' : List CheckedArg}
    (onCompared : VerdictOnCompared (args.map (·.parameter)) tolerance)
    (onCompared' : VerdictOnCompared (args'.map (·.parameter)) tolerance)
    (sameCompared : args.filter (·.parameter.IsCompared) = args'.filter (·.parameter.IsCompared)) :
    checkResult .exact value args tolerance = checkResult .exact value args' tolerance := by
  have sameElements : comparedElements .exact value args = comparedElements .exact value args' := by
    rw [comparedElements, comparedElements, sameCompared]
  obtain ⟨accepts, ran, onElements⟩ := onCompared value args rfl
  obtain ⟨accepts', ran', onElements'⟩ := onCompared' value args' rfl
  rw [deviation, sameElements] at onElements
  rw [ran, ran', Bool.eq_iff_iff.mpr (onElements.trans onElements'.symm)]

/-- The number that is counted allows the same deviations as the number that is compared. -/
def CountAllows (params : List OilParameter) (tolerance : K) : Prop :=
  (tolerance = 0 ∨ sampleCount params = comparedCount params) ∨
    comparedCount params = 0 ∧ 0 ≤ tolerance * sampleCount params ∨
    tolerance * sampleCount params < 0 ∧ tolerance * comparedCount params < 0

end Exact

/-- Bounds below which the same numbers lie. -/
theorem forall_le_iff_le {K : Type} [Zero K] [LinearOrder K] {bound bound' : K} :
    (∀ x, 0 ≤ x → (x ≤ bound ↔ x ≤ bound')) ↔ bound = bound' ∨ bound < 0 ∧ bound' < 0 := by
  constructor
  · intro same
    rcases lt_or_ge bound 0 with negative | nonneg
    · rcases lt_or_ge bound' 0 with negative' | nonneg'
      · exact .inr ⟨negative, negative'⟩
      · exact absurd ((same bound' nonneg').mpr le_rfl) (not_le.mpr (negative.trans_le nonneg'))
    · have below := (same bound nonneg).mp le_rfl
      exact .inl (le_antisymm below ((same bound' (nonneg.trans below)).mpr le_rfl))
  · intro either x nonneg
    cases either with
    | inl same => rw [same]
    | inr negative =>
        exact iff_of_false (not_le.mpr (negative.1.trans_le nonneg)) (not_le.mpr (negative.2.trans_le nonneg))

section Realized

variable {K : Type} [Field K] {params : List OilParameter}

/-- Each element holds zero for the reference, and another number for the tested implement. -/
def apart (params : List OilParameter) : List CheckedArg :=
  params.map fun p => ⟨p, fun _ => 0, fun _ => 1⟩

def valueApart (distance : K) (_ : OilType) (bytes : List UInt8) : K :=
  if bytes.head? = some 1 then distance else 0

theorem map_parameter_apart (params : List OilParameter) : (apart params).map (·.parameter) = params := by
  rw [apart, List.map_map]
  exact List.map_id params

theorem comparedElements_apart (typed : ∀ p ∈ params, p.IsCompared → (elementWidth p.cType).isSome) (distance : K) :
    comparedElements .exact (valueApart distance) (apart params) =
      List.replicate (comparedCount params) (0, distance) := by
  refine List.eq_replicate_iff.mpr ⟨by rw [length_comparedElements, map_parameter_apart], fun pair member => ?_⟩
  obtain ⟨arg, inArgs, inArray⟩ := List.mem_flatMap.mp member
  obtain ⟨inList, compared⟩ := List.mem_filter.mp inArgs
  obtain ⟨p, inParams, rfl⟩ := List.mem_map.mp inList
  obtain ⟨width, found⟩ := Option.isSome_iff_exists.mp (typed p inParams (of_decide_eq_true compared))
  obtain ⟨size, wide⟩ := elementWidth_eq found
  obtain ⟨i, _, inRow⟩ := List.mem_flatMap.mp inArray
  obtain ⟨j, _, rfl⟩ := List.mem_map.mp inRow
  have first (byte : UInt8) (offset : Int) :
      (offsetGet (fun _ => byte) offset (oilTypeSizeof p.cType).toNat).head? = some byte := by
    rw [size, Int.toNat_natCast, offsetGet, List.head?_map, List.head?_range, if_neg (by omega)]
    rfl
  simp [valueApart, first]

variable [LinearOrder K]

theorem verdictOnCompared_iff_of_nothing (typed : ∀ p ∈ params, p.IsCompared → (elementWidth p.cType).isSome)
    {tolerance : K} (nothing : comparedCount params = 0) :
    VerdictOnCompared params tolerance ↔ 0 ≤ tolerance * sampleCount params := by
  have still (value : OilType → List UInt8 → K) {args : List CheckedArg}
      (parameters : args.map (·.parameter) = params) : deviation value args = 0 := by
    have length := length_comparedElements .exact value args
    rw [parameters, nothing, List.length_eq_zero_iff] at length
    rw [deviation, length]
    rfl
  constructor
  · intro onCompared
    obtain ⟨accepts, ran, onElements⟩ := onCompared (fun _ _ => 0) (apart params) (map_parameter_apart params)
    have parameters := map_parameter_apart params
    rw [still _ parameters, length_comparedElements, parameters, nothing, Nat.cast_zero, mul_zero] at onElements
    rw [checkResult_exact (typed_args parameters typed), still _ parameters, parameters, onElements.mpr le_rfl] at ran
    exact of_decide_eq_true (Option.some.inj ran)
  · intro nonneg value args parameters
    refine ⟨_, checkResult_exact (typed_args parameters typed) tolerance, ?_⟩
    rw [still value parameters, parameters, length_comparedElements, parameters, nothing, Nat.cast_zero, mul_zero]
    simp [nonneg]

variable [IsStrictOrderedRing K]

theorem deviation_apart (typed : ∀ p ∈ params, p.IsCompared → (elementWidth p.cType).isSome) {distance : K}
    (nonneg : 0 ≤ distance) :
    deviation (valueApart distance) (apart params) = comparedCount params * distance := by
  rw [deviation, comparedElements_apart typed, List.map_replicate, List.sum_replicate, nsmul_eq_mul, zero_sub,
    abs_neg, abs_of_nonneg nonneg]

theorem deviation_nonneg (value : OilType → List UInt8 → K) (args : List CheckedArg) : 0 ≤ deviation value args := by
  refine List.sum_nonneg fun x member => ?_
  obtain ⟨pair, _, rfl⟩ := List.mem_map.mp member
  exact abs_nonneg _

/-- Where something is compared, its deviation can be any number. -/
theorem verdictOnCompared_iff_forall (typed : ∀ p ∈ params, p.IsCompared → (elementWidth p.cType).isSome)
    {tolerance : K} (something : 0 < comparedCount params) :
    VerdictOnCompared params tolerance ↔
      ∀ x, 0 ≤ x → (x ≤ tolerance * sampleCount params ↔ x ≤ tolerance * comparedCount params) := by
  have count : (comparedCount params : K) ≠ 0 := Nat.cast_ne_zero.mpr something.ne'
  constructor
  · intro onCompared x nonneg
    have share : 0 ≤ x / comparedCount params := div_nonneg nonneg (Nat.cast_nonneg _)
    obtain ⟨accepts, ran, onElements⟩ := onCompared (valueApart (x / comparedCount params)) (apart params)
      (map_parameter_apart params)
    rw [checkResult_exact (typed_args (map_parameter_apart params) typed), map_parameter_apart,
      deviation_apart typed share, mul_div_cancel₀ x count] at ran
    rw [deviation_apart typed share, mul_div_cancel₀ x count, length_comparedElements,
      map_parameter_apart] at onElements
    rw [← onElements, ← Option.some.inj ran, decide_eq_true_eq]
  · intro same value args parameters
    refine ⟨_, checkResult_exact (typed_args parameters typed) tolerance, ?_⟩
    rw [decide_eq_true_eq, length_comparedElements, parameters]
    exact same _ (deviation_nonneg value args)

theorem verdictOnCompared_iff (typed : ∀ p ∈ params, p.IsCompared → (elementWidth p.cType).isSome) (tolerance : K) :
    VerdictOnCompared params tolerance ↔ CountAllows params tolerance := by
  have equal : tolerance * sampleCount params = tolerance * comparedCount params ↔
      tolerance = 0 ∨ sampleCount params = comparedCount params := by
    rw [mul_eq_mul_left_iff, or_comm, ← Int.cast_natCast, Int.cast_inj]
  rw [CountAllows, ← equal]
  rcases Nat.eq_zero_or_pos (comparedCount params) with nothing | something
  · rw [verdictOnCompared_iff_of_nothing typed nothing, nothing, Nat.cast_zero, mul_zero]
    constructor
    · exact fun nonneg => .inr (.inl ⟨rfl, nonneg⟩)
    · rintro (zero | ⟨_, nonneg⟩ | ⟨_, negative⟩)
      · exact zero.ge
      · exact nonneg
      · exact absurd negative (lt_irrefl 0)
  · rw [verdictOnCompared_iff_forall typed something, forall_le_iff_le]
    constructor
    · exact Or.imp_right .inr
    · rintro (same | ⟨nothing, _⟩ | negative)
      · exact .inl same
      · exact absurd nothing something.ne'
      · exact .inr negative

/-- The verdict is about the compared elements exactly if the number that is counted allows the same
deviations as their number; and where it does for two lists with the same compared arrays, the
other arrays change nothing. -/
theorem verdict_on_compared_iff (typed : ∀ p ∈ params, p.IsCompared → (elementWidth p.cType).isSome) (tolerance : K) :
    (VerdictOnCompared params tolerance ↔ CountAllows params tolerance) ∧
      ∀ (value : OilType → List UInt8 → K) (args args' : List CheckedArg), args.map (·.parameter) = params →
        args.filter (·.parameter.IsCompared) = args'.filter (·.parameter.IsCompared) →
        CountAllows params tolerance → CountAllows (args'.map (·.parameter)) tolerance →
        checkResult .exact value args tolerance = checkResult .exact value args' tolerance := by
  refine ⟨verdictOnCompared_iff typed tolerance, fun value args args' parameters sameCompared allows allows' => ?_⟩
  subst parameters
  have typed' : ∀ p ∈ args'.map (·.parameter), p.IsCompared → (elementWidth p.cType).isSome := by
    intro p member compared
    obtain ⟨arg, inArgs', rfl⟩ := List.mem_map.mp member
    have inArgs : arg ∈ args.filter (·.parameter.IsCompared) :=
      sameCompared ▸ List.mem_filter.mpr ⟨inArgs', decide_eq_true compared⟩
    exact typed _ (List.mem_map_of_mem (List.mem_filter.mp inArgs).1) compared
  exact ((verdictOnCompared_iff typed tolerance).mpr allows).same ((verdictOnCompared_iff typed' tolerance).mpr allows')
    sameCompared

end Realized

/-- The one byte of an array, with other bytes behind it. -/
def byteArray (argClass : ArgClass) (byte : UInt8) : CheckedArg where
  parameter := { isPointer := true, cType := .u8p, argClass, preN := 1, postN := 1 }
  ref _ := 0
  tdata _ := byte

theorem verdict_on_compared_byte : VerdictOnCompared [(byteArray .dest 0).parameter] (1 / 2 : Rat) := by
  refine (verdict_on_compared_iff (fun p member _ => ?_) _).1.mpr (.inl (.inr (by decide)))
  rw [List.mem_singleton.mp member]
  rfl

def exactValue (cType : OilType) (bytes : List UInt8) : Rat :=
  integerValue false cType bytes

/-- A difference of one in the only byte of an array is too much, and is not with a source of one byte beside it. -/
theorem source_loosens_verdict : ¬ ∀ (tolerance : Rat) (args args' : List CheckedArg),
    args.filter (·.parameter.IsCompared) = args'.filter (·.parameter.IsCompared) →
      checkResult .exact exactValue args tolerance = checkResult .exact exactValue args' tolerance ∧
      ∃ accepts, checkResult .exact exactValue args tolerance = some accepts ∧
        (accepts = true ↔
          deviation exactValue args ≤ tolerance * (comparedElements .exact exactValue args).length) := by
  intro onCompared
  obtain ⟨same, _⟩ := onCompared (1 / 2) [byteArray .dest 1] [byteArray .dest 1, byteArray .src 0] rfl
  have alone : checkResult .exact exactValue [byteArray .dest 1] (1 / 2) = some false := by decide +kernel
  have beside : checkResult .exact exactValue [byteArray .dest 1, byteArray .src 0] (1 / 2) = some true := by
    decide +kernel
  rw [alone, beside] at same
  contradiction

end Oil.Test
