import Mathlib.Data.Nat.Digits.Lemmas
import Oil.Test.Checker.Verdict

namespace Oil.Test

open Oil.Data

/-! # Equal results

With no tolerance the default checker accepts what does not differ after it was converted to
`gdouble`. -/

section Rounded

variable {K : Type} [Ring K] [LinearOrder K] [IsStrictOrderedRing K] {arithmetic : Arithmetic K}
  (value : OilType → List UInt8 → K)

theorem foldl_addDeviation_eq_zero_iff (keeps : KeepsSign arithmetic.double) (compared : List CheckedArg) {diff : K}
    (nonneg : 0 ≤ diff) :
    0 ≤ compared.foldl (addDeviation arithmetic value) diff ∧
      (compared.foldl (addDeviation arithmetic value) diff = 0 ↔
        diff = 0 ∧ ∀ pair ∈ compared.flatMap (elementPairs arithmetic value),
          arithmetic.double pair.1 = arithmetic.double pair.2) := by
  induction compared generalizing diff with
  | nil => exact ⟨nonneg, by simp⟩
  | cons arg compared ih =>
      obtain ⟨distances, apart⟩ := keeps.addDistances le_rfl (elementPairs arithmetic value arg)
      obtain ⟨below, zero⟩ := ih (keeps.nonneg _ (add_nonneg nonneg distances))
      refine ⟨below, zero.trans ?_⟩
      rw [keeps.zero_iff, add_eq_zero_iff_of_nonneg nonneg distances, apart, eq_self, true_and,
        List.flatMap_cons, List.forall_mem_append, and_assoc]

/-- With no tolerance, the verdict is whether the elements are the same after the conversion. -/
theorem checkResult_zero (keeps : KeepsSign arithmetic.double) {args : List CheckedArg}
    (typed : ∀ arg ∈ args, arg.parameter.IsCompared → (elementWidth arg.parameter.cType).isSome) :
    ∃ accepts, checkResult arithmetic value args 0 = some accepts ∧
      (accepts = true ↔ ∀ pair ∈ comparedElements arithmetic value args,
        arithmetic.double pair.1 = arithmetic.double pair.2) := by
  obtain ⟨nonneg, zero⟩ := foldl_addDeviation_eq_zero_iff value keeps
    (args.filter (·.parameter.IsCompared)) le_rfl
  have nothing (n : K) : arithmetic.double (0 * n) = 0 := (keeps.zero_iff _).mpr (zero_mul n)
  refine ⟨_, by rw [checkResult, checkResultLoop_eq arithmetic value typed, Option.map_some], ?_⟩
  rw [decide_eq_true_eq, nothing, not_lt, comparedElements, ← zero.trans (and_iff_right rfl)]
  exact ⟨fun below => le_antisymm below nonneg, le_of_eq⟩

end Rounded

section Integers

/-- If any element differs, some element differs after the conversion. -/
def DifferAsDoubles (pairs : List (Int × Int)) : Prop :=
  (∃ pair ∈ pairs, pair.1 ≠ pair.2) → ∃ pair ∈ pairs, roundInt 53 pair.1 ≠ roundInt 53 pair.2

theorem ofDigits_bytes_lt (bytes : List UInt8) : Nat.ofDigits 256 (bytes.map UInt8.toNat) < 256 ^ bytes.length := by
  have digits : ∀ digit ∈ bytes.map UInt8.toNat, digit < 256 := by
    intro digit member
    obtain ⟨byte, _, rfl⟩ := List.mem_map.mp member
    exact byte.toNat_lt
  have lt := Nat.ofDigits_lt_base_pow_length (by decide) digits
  rwa [List.length_map] at lt

theorem natAbs_bmod_lt (x : Int) {modulus : Nat} (positive : 0 < modulus) : (x.bmod modulus).natAbs < modulus := by
  have lower := Int.le_bmod (x := x) positive
  have upper := Int.bmod_lt (x := x) positive
  omega

theorem natAbs_integerValue_lt (bigEndian : Bool) (cType : OilType) (bytes : List UInt8) :
    (integerValue bigEndian cType bytes).natAbs < 256 ^ bytes.length := by
  have length : (if bigEndian then bytes.reverse else bytes).length = bytes.length := by
    split
    · rw [List.length_reverse]
    · rfl
  have bound := ofDigits_bytes_lt (if bigEndian then bytes.reverse else bytes)
  rw [length] at bound
  rw [integerValue]
  split
  · exact natAbs_bmod_lt _ (Nat.pow_pos (by decide))
  · exact bound

variable {args : List CheckedArg}

theorem abs_lt_of_mem_comparedElements {bigEndian : Bool} {pair : Int × Int}
    (member : pair ∈ comparedElements .machine (integerValue bigEndian) args) :
    ∃ arg ∈ args, arg.parameter.IsCompared ∧
      pair.1.natAbs < 256 ^ (oilTypeSizeof arg.parameter.cType).toNat ∧
      pair.2.natAbs < 256 ^ (oilTypeSizeof arg.parameter.cType).toNat := by
  obtain ⟨arg, inArgs, inArray⟩ := List.mem_flatMap.mp member
  obtain ⟨inList, compared⟩ := List.mem_filter.mp inArgs
  obtain ⟨i, _, inRow⟩ := List.mem_flatMap.mp inArray
  obtain ⟨j, _, rfl⟩ := List.mem_map.mp inRow
  have bound (data : Int → UInt8) (offset : Int) (width : Nat) :
      (integerValue bigEndian arg.parameter.cType (offsetGet data offset width)).natAbs < 256 ^ width := by
    have lt := natAbs_integerValue_lt bigEndian arg.parameter.cType (offsetGet data offset width)
    rwa [offsetGet, List.length_map, List.length_range] at lt
  exact ⟨arg, inList, of_decide_eq_true compared, bound _ _ _, bound _ _ _⟩

/-- The conversion changes nothing of up to 32 bits. -/
theorem differAsDoubles_of_narrow (bigEndian : Bool)
    (narrow : ∀ arg ∈ args, arg.parameter.IsCompared → oilTypeSizeof arg.parameter.cType ≤ 4) :
    DifferAsDoubles (comparedElements .machine (integerValue bigEndian) args) := by
  intro different
  obtain ⟨pair, member, differ⟩ := different
  obtain ⟨arg, inArgs, compared, first, second⟩ := abs_lt_of_mem_comparedElements member
  have size : (oilTypeSizeof arg.parameter.cType).toNat ≤ 4 := by
    have := narrow arg inArgs compared
    omega
  have small : 256 ^ (oilTypeSizeof arg.parameter.cType).toNat < 2 ^ 53 := by
    calc 256 ^ (oilTypeSizeof arg.parameter.cType).toNat
      _ ≤ 256 ^ 4 := Nat.pow_le_pow_right (by decide) size
      _ < 2 ^ 53 := by decide
  refine ⟨pair, member, ?_⟩
  rw [roundInt_of_lt (first.trans small), roundInt_of_lt (second.trans small)]
  exact differ

/-- With no tolerance, only equal results are accepted, exactly if results that differ do so in some
element after the conversion; and elements of up to 32 bits always do. -/
theorem equal_accepted_iff (typed : ∀ arg ∈ args, arg.parameter.IsCompared → arg.parameter.cType.isInteger = true)
    (bigEndian : Bool) :
    ∃ accepts, checkResult .machine (integerValue bigEndian) args 0 = some accepts ∧
      ((accepts = true ↔ ∀ pair ∈ comparedElements .machine (integerValue bigEndian) args, pair.1 = pair.2) ↔
        DifferAsDoubles (comparedElements .machine (integerValue bigEndian) args)) ∧
      ((∀ arg ∈ args, arg.parameter.IsCompared → oilTypeSizeof arg.parameter.cType ≤ 4) →
        DifferAsDoubles (comparedElements .machine (integerValue bigEndian) args)) := by
  have known : ∀ arg ∈ args, arg.parameter.IsCompared → (elementWidth arg.parameter.cType).isSome := by
    intro arg member compared
    have integer := typed arg member compared
    cases type : arg.parameter.cType <;> simp_all [OilType.isInteger, elementWidth]
  have keeps : KeepsSign Arithmetic.machine.double := keepsSign_roundInt (by decide)
  obtain ⟨accepts, ran, onDoubles⟩ := checkResult_zero (integerValue bigEndian) keeps known
  refine ⟨accepts, ran, ?_, differAsDoubles_of_narrow bigEndian⟩
  rw [onDoubles]
  constructor
  · intro same differ
    obtain ⟨pair, member, different⟩ := differ
    by_contra sameDoubles
    push Not at sameDoubles
    exact different (same.mp sameDoubles pair member)
  · intro differ
    constructor
    · intro sameDoubles pair member
      by_contra different
      obtain ⟨other, inside, apart⟩ := differ ⟨pair, member, different⟩
      exact apart (sameDoubles other inside)
    · exact fun same pair member => congrArg (roundInt 53) (same pair member)

/-- The one element of an array of `uint64_t`, whose lowest bytes are these. -/
def longArray (byte byte' : UInt8) : CheckedArg where
  parameter := { isPointer := true, cType := .u64p, argClass := .dest, preN := 1, postN := 1 }
  ref k := if k = 0 then byte else if k = 6 then 32 else 0
  tdata k := if k = 0 then byte' else if k = 6 then 32 else 0

theorem equal_accepted_iff_two :
    ∃ accepts, checkResult .machine (integerValue false) [longArray 0 2] 0 = some accepts ∧
    ((accepts = true ↔ ∀ pair ∈ comparedElements .machine (integerValue false) [longArray 0 2], pair.1 = pair.2) ↔
      DifferAsDoubles (comparedElements .machine (integerValue false) [longArray 0 2])) := by
  have integers : ∀ arg ∈ [longArray 0 2], arg.parameter.IsCompared → arg.parameter.cType.isInteger = true := by
    intro arg member _
    rw [List.mem_singleton.mp member]
    rfl
  obtain ⟨accepts, ran, exact, _⟩ := equal_accepted_iff integers false
  exact ⟨accepts, ran, exact⟩

/-- 2⁵³ and 2⁵³ + 1 are taken for equal. -/
theorem different_accepted : ¬ ∀ args : List CheckedArg,
    (∀ arg ∈ args, arg.parameter.IsCompared ∧ arg.parameter.cType.isInteger = true) →
      ∃ accepts, checkResult .machine (integerValue false) args 0 = some accepts ∧
        (accepts = true ↔ ∀ pair ∈ comparedElements .machine (integerValue false) args, pair.1 = pair.2) := by
  intro exact
  obtain ⟨accepts, ran, same⟩ := exact [longArray 0 1] (by decide)
  have accepted : checkResult .machine (integerValue false) [longArray 0 1] 0 = some true := by decide +kernel
  rw [accepted] at ran
  have different : comparedElements .machine (integerValue false) [longArray 0 1] = [(2 ^ 53, 2 ^ 53 + 1)] := by
    decide +kernel
  have equal := same.mp (Option.some.inj ran).symm (2 ^ 53, 2 ^ 53 + 1) (different ▸ List.mem_singleton_self _)
  contradiction

end Integers

end Oil.Test
