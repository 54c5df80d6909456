import Mathlib.Logic.Function.Basic
import Oil.Data.Rows

namespace Oil.Funcs

open Oil.Data

/-! # Copying a block of eight rows of eight bytes

Addresses and strides are 32 bits wide, and pointer arithmetic wraps around. -/

abbrev Memory := ByteMemory 32

def copyBytes (d1 s1 : BitVec 32) : (rounds j : Nat) → Memory → Memory
  | 0, _, mem => mem
  | rounds + 1, j, mem =>
      copyBytes d1 s1 rounds (j + 1)
        (Function.update mem (d1 + BitVec.ofNat 32 j) (mem (s1 + BitVec.ofNat 32 j)))

def copyRows (ds ss : BitVec 32) : (rounds : Nat) → (d1 s1 : BitVec 32) → Memory → Memory
  | 0, _, _, mem => mem
  | rounds + 1, d1, s1, mem => copyRows ds ss rounds (d1 + ds) (s1 + ss) (copyBytes d1 s1 8 0 mem)

def oilCopy8x8U8Ref (d1 ds s1 ss : BitVec 32) (mem : Memory) : Memory := copyRows ds ss 8 d1 s1 mem

def BlocksApart (dest dstr src sstr : BitVec 32) : Prop :=
  ∀ i < 8, ∀ k < 8, RowsApart 8 (dest + BitVec.ofNat 32 i * dstr) (src + BitVec.ofNat 32 k * sstr)

instance (dest dstr src sstr : BitVec 32) : Decidable (BlocksApart dest dstr src sstr) :=
  inferInstanceAs (Decidable (∀ i < 8, ∀ k < 8, _))

/-- What copying is for: the rows of the source block, written to the rows of the destination. -/
def copied (mem : Memory) (dest dstr src sstr : BitVec 32) : Memory :=
  writeRows mem dest dstr (readRows 8 mem src sstr 8)

section Reference

variable {mem : Memory} {d1 ds s1 ss : BitVec 32}

theorem copyBytes_step {j : Nat} (apart : RowsApart 8 d1 s1) (bound : j < 8) :
    Function.update (writeRow mem d1 (readRow j mem s1)) (d1 + BitVec.ofNat 32 j)
        (writeRow mem d1 (readRow j mem s1) (s1 + BitVec.ofNat 32 j)) =
      writeRow mem d1 (readRow (j + 1) mem s1) := by
  have source : writeRow mem d1 (readRow j mem s1) (s1 + BitVec.ofNat 32 j) = mem (s1 + BitVec.ofNat 32 j) :=
    writeRow_outside fun i below same => apart i (by omega) j bound same.symm
  funext x
  by_cases here : x = d1 + BitVec.ofNat 32 j
  · subst here
    rw [Function.update_self, source, writeRow_inside (by omega) (Nat.lt_succ_self j)]
    rfl
  · have notLast : (x - d1).toNat ≠ j := by
      rintro rfl
      exact here (add_toNat_sub d1 x).symm
    rw [Function.update_of_ne here, writeRow, writeRow]
    by_cases inside : (x - d1).toNat < j
    · rw [dif_pos inside, dif_pos (by omega)]
      rfl
    · rw [dif_neg inside, dif_neg (by omega)]

theorem copyBytes_eq (apart : RowsApart 8 d1 s1) :
    copyBytes d1 s1 8 0 mem = writeRow mem d1 (readRow 8 mem s1) := by
  have rest (rounds j : Nat) (within : j + rounds ≤ 8) :
      copyBytes d1 s1 rounds j (writeRow mem d1 (readRow j mem s1)) =
        writeRow mem d1 (readRow (j + rounds) mem s1) := by
    induction rounds generalizing j with
    | zero => rfl
    | succ rounds ih =>
        rw [copyBytes, copyBytes_step apart (by omega), ih (j + 1) (by omega), Nat.add_assoc,
          Nat.add_comm 1 rounds]
  have start : writeRow mem d1 (readRow 0 mem s1) = mem := by
    funext x
    exact dif_neg (Nat.not_lt_zero _)
  have all := rest 8 0 (Nat.le_refl 8)
  rwa [start] at all

theorem copyRows_eq (rounds : Nat)
    (apart : ∀ i < rounds, ∀ k < rounds,
      RowsApart 8 (d1 + BitVec.ofNat 32 i * ds) (s1 + BitVec.ofNat 32 k * ss)) :
    copyRows ds ss rounds d1 s1 mem = writeRows mem d1 ds (readRows 8 mem s1 ss rounds) := by
  induction rounds generalizing mem d1 s1 with
  | zero => rfl
  | succ rounds ih =>
      have first := apart 0 (by omega) 0 (by omega)
      rw [row_zero, row_zero] at first
      have ahead : ∀ k < rounds, RowsApart 8 d1 (s1 + ss + BitVec.ofNat 32 k * ss) := by
        intro k bound
        have apart := apart 0 (by omega) (k + 1) (by omega)
        rwa [row_zero, ← row_succ] at apart
      have later : ∀ i < rounds, ∀ k < rounds,
          RowsApart 8 (d1 + ds + BitVec.ofNat 32 i * ds) (s1 + ss + BitVec.ofNat 32 k * ss) := by
        intro i boundI k boundK
        rw [row_succ, row_succ]
        exact apart (i + 1) (by omega) (k + 1) (by omega)
      rw [copyRows, copyBytes_eq first, ih later, readRows_writeRow_apart rounds ahead, readRows, writeRows]

theorem oilCopy8x8U8Ref_eq (apart : BlocksApart d1 ds s1 ss) :
    oilCopy8x8U8Ref d1 ds s1 ss mem = copied mem d1 ds s1 ss :=
  copyRows_eq 8 apart

end Reference

end Oil.Funcs
