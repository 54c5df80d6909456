import Mathlib.Algebra.Ring.Int.Defs

namespace Oil.Data

/-! # Spans at a fixed stride

A block of rows that lie a fixed stride apart, of which each is covered from its start on.
A row that is not longer than the stride leaves a hole before the next one. -/

variable {start stride rows width front offset : Int} {count : Nat}

/-- The offsets from `start` on, as many as `count` says. -/
def spanFrom (start count : Int) : List Int := (List.range count.toNat).map fun k : Nat => start + k

/-- The offsets of the first so many rows of a block, row by row. -/
def spansFrom (start stride : Int) (count : Nat) (width : Int) : List Int :=
  (List.range count).flatMap fun i : Nat => spanFrom (start + i * stride) width

/-- One of the rows of a block covers the offset. -/
def InRows (start stride rows width offset : Int) : Prop :=
  ∃ i, (0 ≤ i ∧ i < rows) ∧ start + i * stride ≤ offset ∧ offset < start + i * stride + width

section Lists

theorem mem_spanFrom {count : Int} : offset ∈ spanFrom start count ↔ start ≤ offset ∧ offset < start + count := by
  simp only [spanFrom, List.mem_map, List.mem_range]
  constructor
  · rintro ⟨k, bound, rfl⟩
    omega
  · rintro ⟨lower, upper⟩
    exact ⟨(offset - start).toNat, by omega, by omega⟩

theorem spanFrom_zero (start : Int) : spanFrom start 0 = [] := rfl

theorem spanFrom_succ (start : Int) (count : Nat) :
    spanFrom start (count + 1 : Nat) = start :: spanFrom (start + 1) count := by
  simp only [spanFrom, Int.toNat_natCast, List.range_succ_eq_map, List.map_cons, List.map_map, Int.natCast_zero,
    Int.add_zero, List.cons.injEq, true_and]
  refine List.map_congr_left fun k _ => ?_
  rw [Function.comp_apply, Nat.succ_eq_add_one]
  omega

theorem mem_spansFrom : offset ∈ spansFrom start stride count width ↔ InRows start stride count width offset := by
  simp only [spansFrom, List.mem_flatMap, List.mem_range, mem_spanFrom]
  constructor
  · rintro ⟨i, bound, covered⟩
    exact ⟨i, ⟨by omega, by omega⟩, covered⟩
  · rintro ⟨i, ⟨lower, upper⟩, covered⟩
    refine ⟨i.toNat, by omega, ?_⟩
    rwa [Int.toNat_of_nonneg lower]

theorem spansFrom_succ (start stride : Int) (count : Nat) (width : Int) :
    spansFrom start stride (count + 1) width =
      spanFrom start width ++ spansFrom (start + stride) stride count width := by
  simp only [spansFrom, List.range_succ_eq_map, List.flatMap_cons, List.flatMap_map, Int.natCast_zero, Int.zero_mul,
    Int.add_zero]
  congr 2
  funext i
  rw [Nat.succ_eq_add_one, Int.natCast_succ, Int.add_mul, Int.one_mul, Int.add_assoc, Int.add_comm stride]

theorem spansFrom_of_no_width (start stride : Int) (count : Nat) : spansFrom start stride count 0 = [] :=
  List.flatMap_eq_nil_iff.mpr fun _ _ => spanFrom_zero _

end Lists

section Rows

/-- Rows that are not longer than the stride do not leave the block. -/
theorem InRows.inside (covered : InRows start stride rows width offset) (nonneg : 0 ≤ stride) (fits : width ≤ stride) :
    start ≤ offset ∧ offset < start + rows * stride := by
  obtain ⟨i, ⟨lower, upper⟩, from_row, to_row⟩ := covered
  have before : 0 ≤ i * stride := Int.mul_nonneg lower nonneg
  have next : (i + 1) * stride ≤ rows * stride := Int.mul_le_mul_of_nonneg_right (by omega) nonneg
  rw [Int.add_mul, Int.one_mul] at next
  omega

/-- The front part of a row has nothing in common with the rest of any row. -/
theorem InRows.apart (covered : InRows start stride rows front offset) (nonneg : 0 ≤ stride) :
    ¬ InRows (start + front) stride rows (stride - front) offset := by
  rintro ⟨i', _, from_rest, to_rest⟩
  obtain ⟨i, _, from_front, to_front⟩ := covered
  rcases Int.lt_or_le i' i with before | after
  · have later : (i' + 1) * stride ≤ i * stride := Int.mul_le_mul_of_nonneg_right (by omega) nonneg
    rw [Int.add_mul, Int.one_mul] at later
    omega
  · have earlier : i * stride ≤ i' * stride := Int.mul_le_mul_of_nonneg_right after nonneg
    omega

/-- Every offset of a block belongs to the front part or to the rest of a row. -/
theorem inRows_split (front : Int) (lower : start ≤ offset) (upper : offset < start + rows * stride)
    (nonneg : 0 ≤ stride) :
    InRows start stride rows front offset ∨ InRows (start + front) stride rows (stride - front) offset := by
  have positive : 0 < stride := by
    rcases Int.lt_or_eq_of_le nonneg with positive | still
    · exact positive
    · rw [← still, Int.mul_zero] at upper
      omega
  have parts : offset - start = (offset - start) / stride * stride + (offset - start) % stride := by
    rw [Int.mul_comm]
    exact (Int.mul_ediv_add_emod _ _).symm
  have remainder := Int.emod_lt_of_pos (offset - start) positive
  have remainderNonneg := Int.emod_nonneg (offset - start) (by omega : stride ≠ 0)
  have row : 0 ≤ (offset - start) / stride ∧ (offset - start) / stride < rows :=
    ⟨Int.ediv_nonneg (by omega) nonneg, Int.ediv_lt_of_lt_mul positive (by omega)⟩
  rcases Int.lt_or_le ((offset - start) % stride) front with inFront | inRest
  · exact .inl ⟨_, row, by omega, by omega⟩
  · exact .inr ⟨_, row, by omega, by omega⟩

theorem inRows_full (nonneg : 0 ≤ stride) :
    InRows start stride rows stride offset ↔ start ≤ offset ∧ offset < start + rows * stride := by
  constructor
  · exact fun covered => covered.inside nonneg (Int.le_refl _)
  · rintro ⟨lower, upper⟩
    rcases inRows_split stride lower upper nonneg with covered | ⟨i, _, from_rest, to_rest⟩
    · exact covered
    · omega

end Rows

end Oil.Data
