import Oil.Core.HashTable.Resize

namespace Oil.Core.HashTable

/-! # When a table is resized

`_hash_table_maybe_resize` works on machine integers, and compares a signed copy of the size with
the least one.  The copy of the largest size there is a prime for is negative. -/

variable {K V : Type} {ht : HashTable K V} {shift : Nat}

/-- The counters of a table of 2^`shift` slots. -/
structure Tallied (ht : HashTable K V) (shift : Nat) : Prop where
  least : HASH_TABLE_MIN_SHIFT ≤ shift
  most : shift ≤ 31
  size : ht.size = 2 ^ shift
  stored : ht.nnodes ≤ ht.noccupied
  used : ht.noccupied ≤ ht.size
  few : ht.nnodes < 2 ^ 30

/-- The test without machine arithmetic. -/
def Unbalanced (ht : HashTable K V) : Prop :=
  (4 * ht.nnodes < ht.size ∧ 8 < ht.size) ∨ ht.size ≤ ht.noccupied + ht.noccupied / 16

/-- The shift that a resize chooses is in the table of primes, and leaves more than twice the
slots that are needed. -/
def ResizesWithin (ht : HashTable K V) : Prop :=
  ∃ shift mod, shift ≤ 31 ∧ primeMod[shift]? = some mod ∧ 2 * ht.nnodes < 2 ^ shift ∧
    ht.setShiftFromSize (u32 (ht.nnodes * 2)) = some { ht with size := 2 ^ shift, mod := mod, mask := 2 ^ shift - 1 }

theorem toInt_pow (most : shift ≤ 31) : toInt (2 ^ shift) = if shift < 31 then 2 ^ shift else -2 ^ 31 := by
  split
  case isTrue small =>
    have below : 2 ^ shift < 2 ^ 31 := Nat.pow_lt_pow_right (by decide) small
    rw [toInt, if_pos below]
    norm_cast
  case isFalse large =>
    obtain rfl : shift = 31 := by omega
    rfl

/-- The test as the machine decides it. -/
theorem needsResize_iff_signed (tallied : ht.Tallied shift) :
    ht.needsResize ↔ (4 * ht.nnodes < ht.size ∧ 8 < ht.size ∧ shift < 31) ∨
      ht.size ≤ ht.noccupied + ht.noccupied / 16 := by
  obtain ⟨least, most, size, stored, used, few⟩ := tallied
  have bound : 2 ^ shift ≤ 2 ^ 31 := Nat.pow_le_pow_right (by decide) most
  have product : u32 (ht.nnodes * 4) = 4 * ht.nnodes := (u32_of_lt (by omega)).trans (Nat.mul_comm _ _)
  have sum : u32 (ht.noccupied + ht.noccupied / 16) = ht.noccupied + ht.noccupied / 16 := u32_of_lt (by omega)
  have signed : toInt (2 ^ HASH_TABLE_MIN_SHIFT) < toInt ht.size ↔ 8 < ht.size ∧ shift < 31 := by
    have eight : toInt (2 ^ HASH_TABLE_MIN_SHIFT) = 8 := by decide
    rw [eight, size, toInt_pow most]
    by_cases small : shift < 31
    · rw [if_pos small]
      simp only [small, and_true]
      exact_mod_cast Iff.rfl
    · rw [if_neg small]
      simp only [small, and_false, iff_false]
      decide
  simp only [needsResize, product, sum, signed, Bool.or_eq_true, Bool.and_eq_true, decide_eq_true_eq]

theorem resizesWithin (few : ht.nnodes < 2 ^ 30) : ht.ResizesWithin := by
  obtain ⟨shift, mod, _, prime, above, _, chosen⟩ := ht.setShiftFromSize_spec (ht.nnodes * 2) (by omega)
  refine ⟨shift, mod, ?_, prime, by omega, ?_⟩
  · exact Nat.le_of_lt_succ (List.getElem?_eq_some_iff.mp prime).1
  · rw [u32_of_lt (by omega), chosen]

/-- The machine decides as the integers do unless the size is 2³¹, less than a quarter of the
slots hold nodes, and tombstones do not ask for a resize anyway. -/
theorem needsResize_exact_iff (tallied : ht.Tallied shift) :
    ((ht.needsResize ↔ ht.Unbalanced) ∧ ht.ResizesWithin) ↔
      ht.size < 2 ^ 31 ∨ 2 ^ 29 ≤ ht.nnodes ∨ ht.size ≤ ht.noccupied + ht.noccupied / 16 := by
  rw [and_iff_left (resizesWithin tallied.few), needsResize_iff_signed tallied, Unbalanced]
  have smaller : ht.size < 2 ^ 31 ↔ shift < 31 := by
    rw [tallied.size]
    exact Nat.pow_lt_pow_iff_right (by decide)
  have most : ht.size ≤ 2 ^ 31 := by
    rw [tallied.size]
    exact Nat.pow_le_pow_right (by decide) tallied.most
  rw [← smaller]
  omega

/-- A table of 2³¹ slots, one node of 2²⁹ removed. -/
def largestTable : HashTable Nat Nat where
  size := 2 ^ 31
  mod := 2147483647
  mask := 2 ^ 31 - 1
  nnodes := 2 ^ 29 - 1
  noccupied := 2 ^ 29
  nodes := List.replicate (2 ^ 29 - 1) ⟨1, 1, 2⟩ ++ ⟨0, 0, 1⟩ :: List.replicate (2 ^ 31 - 2 ^ 29) ⟨0, 0, 0⟩
  hashFunc := fun key => .ofNat key
  keyEqualFunc := none
  keyDestroyFunc := false
  valueDestroyFunc := false

theorem largestTable_tallied : largestTable.Tallied 31 :=
  ⟨by decide, by decide, rfl, by decide, by decide, by decide⟩

theorem needsResize_exact_iff_largest :
    ((largestTable.needsResize ↔ largestTable.Unbalanced) ∧ largestTable.ResizesWithin) ↔
      largestTable.size < 2 ^ 31 ∨ 2 ^ 29 ≤ largestTable.nnodes ∨
        largestTable.size ≤ largestTable.noccupied + largestTable.noccupied / 16 :=
  needsResize_exact_iff largestTable_tallied

/-- It has too few nodes for its size, and is not shrunk. -/
theorem largestTable_stays :
    largestTable.Tallied 31 ∧ largestTable.Unbalanced ∧ largestTable.needsResize = false :=
  ⟨largestTable_tallied, .inl (by decide), by decide⟩

end Oil.Core.HashTable
