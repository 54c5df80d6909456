import Mathlib.Data.BitVec

namespace Oil.Data

/-! # Strided rows of bytes

A memory of bytes whose addresses wrap around, read and written a row at a time.  The rows
of a block lie a fixed stride apart, which may be smaller than a row, or negative. -/

variable {w len : Nat}

abbrev ByteMemory (w : Nat) := BitVec w → BitVec 8

/-- The bytes of a row, in the order of their addresses. -/
abbrev Row (len : Nat) := Fin len → BitVec 8

def readRow (len : Nat) (memory : ByteMemory w) (address : BitVec w) : Row len := fun j =>
  memory (address + BitVec.ofNat w j)

def writeRow (memory : ByteMemory w) (address : BitVec w) (row : Row len) : ByteMemory w := fun x =>
  if inside : (x - address).toNat < len then row ⟨(x - address).toNat, inside⟩ else memory x

def readRows (len : Nat) (memory : ByteMemory w) (address stride : BitVec w) : (count : Nat) → List (Row len)
  | 0 => []
  | count + 1 => readRow len memory address :: readRows len memory (address + stride) stride count

def writeRows (memory : ByteMemory w) (address stride : BitVec w) : List (Row len) → ByteMemory w
  | [] => memory
  | row :: rows => writeRows (writeRow memory address row) (address + stride) stride rows

/-- Two rows have no byte in common. -/
def RowsApart (len : Nat) (a b : BitVec w) : Prop :=
  ∀ i < len, ∀ j < len, a + BitVec.ofNat w i ≠ b + BitVec.ofNat w j

instance (a b : BitVec w) : Decidable (RowsApart len a b) := inferInstanceAs (Decidable (∀ i < len, ∀ j < len, _))

section Row

variable {memory : ByteMemory w} {address a b : BitVec w} {row : Row len}

theorem add_toNat_sub (address x : BitVec w) : address + BitVec.ofNat w (x - address).toNat = x := by
  rw [BitVec.ofNat_toNat, BitVec.setWidth_eq]
  grind

theorem writeRow_inside (fits : len ≤ 2 ^ w) {j : Nat} (bound : j < len) :
    writeRow memory address row (address + BitVec.ofNat w j) = row ⟨j, bound⟩ := by
  have offset : (address + BitVec.ofNat w j - address).toNat = j := by
    rw [show address + BitVec.ofNat w j - address = BitVec.ofNat w j by grind, BitVec.toNat_ofNat,
      Nat.mod_eq_of_lt (by omega)]
  simp only [writeRow, offset, bound, dif_pos]

theorem writeRow_outside {x : BitVec w} (outside : ∀ j < len, x ≠ address + BitVec.ofNat w j) :
    writeRow memory address row x = memory x := by
  rw [writeRow, dif_neg]
  intro inside
  exact outside _ inside (add_toNat_sub address x).symm

theorem readRow_writeRow_apart (apart : RowsApart len a b) :
    readRow len (writeRow memory a row) b = readRow len memory b := by
  funext j
  exact writeRow_outside fun i bound same => apart i bound j j.isLt same.symm

end Row

section Rows

variable {memory : ByteMemory w} {address stride a b s : BitVec w}

theorem row_zero (address stride : BitVec w) : address + BitVec.ofNat w 0 * stride = address := by
  grind

theorem row_succ (address stride : BitVec w) (i : Nat) :
    address + stride + BitVec.ofNat w i * stride = address + BitVec.ofNat w (i + 1) * stride := by
  grind [BitVec.ofNat_add]

theorem readRows_length (count : Nat) : (readRows len memory address stride count).length = count := by
  induction count generalizing address with
  | zero => rfl
  | succ count ih => rw [readRows, List.length_cons, ih]

theorem readRows_getElem? {row : Row len} {count i : Nat}
    (found : (readRows len memory address stride count)[i]? = some row) :
    row = readRow len memory (address + BitVec.ofNat w i * stride) := by
  induction count generalizing address i with
  | zero => simp [readRows] at found
  | succ count ih =>
      cases i with
      | zero =>
          rw [row_zero]
          exact (Option.some.inj found).symm
      | succ i =>
          rw [← row_succ]
          exact ih found

theorem readRows_eq_map (count : Nat) :
    readRows len memory address stride count =
      (List.range count).map fun k => readRow len memory (address + BitVec.ofNat w k * stride) := by
  induction count generalizing address with
  | zero => rfl
  | succ count ih =>
      rw [readRows, ih, List.range_succ_eq_map, List.map_cons, List.map_map, row_zero]
      simp only [Function.comp_def, row_succ]

theorem readRows_add (first second : Nat) :
    readRows len memory address stride (first + second) = readRows len memory address stride first ++
      readRows len memory (address + BitVec.ofNat w first * stride) stride second := by
  induction first generalizing address with
  | zero => simp [readRows]
  | succ first ih =>
      rw [Nat.add_right_comm, readRows, readRows, ih, List.cons_append, row_succ]

theorem writeRows_append (first second : List (Row len)) :
    writeRows memory address stride (first ++ second) = writeRows (writeRows memory address stride first)
      (address + BitVec.ofNat w first.length * stride) stride second := by
  induction first generalizing memory address with
  | nil => simp [writeRows]
  | cons row first ih => rw [List.cons_append, writeRows, writeRows, ih, List.length_cons, row_succ]

theorem readRows_writeRow_apart {row : Row len} (count : Nat)
    (apart : ∀ k < count, RowsApart len a (b + BitVec.ofNat w k * s)) :
    readRows len (writeRow memory a row) b s count = readRows len memory b s count := by
  induction count generalizing b with
  | zero => rfl
  | succ count ih =>
      have first := apart 0 (Nat.succ_pos count)
      rw [row_zero] at first
      have later : ∀ k < count, RowsApart len a (b + s + BitVec.ofNat w k * s) := by
        intro k bound
        rw [row_succ]
        exact apart (k + 1) (by omega)
      rw [readRows, readRows, readRow_writeRow_apart first, ih later]

theorem readRows_writeRows_apart (rows : List (Row len)) (count : Nat)
    (apart : ∀ i < rows.length, ∀ k < count,
      RowsApart len (a + BitVec.ofNat w i * stride) (b + BitVec.ofNat w k * s)) :
    readRows len (writeRows memory a stride rows) b s count = readRows len memory b s count := by
  induction rows generalizing memory a with
  | nil => rfl
  | cons row rows ih =>
      have first : ∀ k < count, RowsApart len a (b + BitVec.ofNat w k * s) := by
        intro k bound
        have apart := apart 0 (Nat.succ_pos rows.length) k bound
        rwa [row_zero] at apart
      have later : ∀ i < rows.length, ∀ k < count,
          RowsApart len (a + stride + BitVec.ofNat w i * stride) (b + BitVec.ofNat w k * s) := by
        intro i bound
        rw [row_succ]
        exact apart (i + 1) (by rw [List.length_cons]; omega)
      rw [writeRows, ih later, readRows_writeRow_apart count first]

theorem writeRows_cases (memory : ByteMemory w) (address stride : BitVec w) (rows : List (Row len)) (x : BitVec w) :
    (∃ i, ∃ row, rows[i]? = some row ∧ ∃ j, ∃ bound : j < len,
      x = address + BitVec.ofNat w i * stride + BitVec.ofNat w j ∧
      writeRows memory address stride rows x = row ⟨j, bound⟩) ∨
    writeRows memory address stride rows x = memory x := by
  induction rows generalizing memory address with
  | nil => exact .inr rfl
  | cons row rows ih =>
      rcases ih (writeRow memory address row) (address + stride) with
        ⟨i, row', found, j, bound, same, written⟩ | kept
      · rw [row_succ] at same
        exact .inl ⟨i + 1, row', found, j, bound, same, written⟩
      · rw [writeRows, kept, writeRow]
        split
        case isTrue inside =>
          refine .inl ⟨0, row, rfl, _, inside, ?_, rfl⟩
          rw [row_zero, add_toNat_sub]
        case isFalse => exact .inr rfl

theorem writeRows_last (memory : ByteMemory w) (address stride : BitVec w) (fits : len ≤ 2 ^ w)
    (rows : List (Row len)) (row : Row len) {j : Nat} (bound : j < len) :
    writeRows memory address stride (rows ++ [row])
      (address + BitVec.ofNat w rows.length * stride + BitVec.ofNat w j) = row ⟨j, bound⟩ := by
  rw [writeRows_append, writeRows, writeRows]
  exact writeRow_inside fits bound

end Rows

end Oil.Data
