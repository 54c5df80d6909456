import Oil.Data.Drawing
import Oil.Test.Tester.Accesses

namespace Oil.Test

open Oil.Data Drawing

/-! # The random integers

The functions of `oilutil.c` that draw an integer for a sample, and the integers they can
return. -/

inductive RandQuestion where
  | int
  | intRange (least stop : Int)

@[reducible] def RandAnswer : RandQuestion → Type
  | .int => UInt32
  | .intRange _ _ => Int

/-- `g_rand_int` returns any word, and `g_rand_int_range` any integer of a half-open range. -/
def RandAdmits : (question : RandQuestion) → RandAnswer question → Prop
  | .int, _ => True
  | .intRange least stop, answer => least ≤ answer ∧ answer < stop

abbrev Rand (α : Type) : Type := Drawing RandQuestion RandAnswer α

def gRandInt : Rand UInt32 := ask RandQuestion.int

def gRandIntRange (least stop : Int) : Rand Int := ask (RandQuestion.intRange least stop)

def oilRandU8 : Rand UInt8 := do
  let drawn ← gRandIntRange Int8.minValue.toInt (Int8.maxValue.toInt + 1)
  pure (UInt8.ofInt drawn)

def oilRandS8 : Rand Int8 := do
  let drawn ← gRandIntRange Int8.minValue.toInt (Int8.maxValue.toInt + 1)
  pure (Int8.ofInt drawn)

def oilRandU16 : Rand UInt16 := do
  let drawn ← gRandIntRange Int16.minValue.toInt (Int16.maxValue.toInt + 1)
  pure (UInt16.ofInt drawn)

def oilRandS16 : Rand Int16 := do
  let drawn ← gRandIntRange Int16.minValue.toInt (Int16.maxValue.toInt + 1)
  pure (Int16.ofInt drawn)

def oilRandU32 : Rand UInt32 := gRandInt

def oilRandS32 : Rand Int32 := do
  let drawn ← gRandInt
  pure drawn.toInt32

def oilRandU64 : Rand UInt64 := do
  let high ← gRandInt
  let shift ← gRandIntRange 0 32
  let ret := high.toUInt64 <<< UInt64.ofInt shift
  let low ← gRandInt
  pure (ret + low.toUInt64)

def oilRandS64 : Rand Int64 := do
  let drawn ← oilRandU64
  pure drawn.toInt64

/-- The results a random function can have. -/
abbrev Returns {α : Type} (function : Rand α) (value : α) : Prop := Possible RandAdmits function value

@[simp] theorem returns_gRandInt (word : UInt32) : Returns gRandInt word :=
  (@possible_ask _ _ RandAdmits .int word).mpr trivial

@[simp] theorem returns_gRandIntRange {least stop value : Int} :
    Returns (gRandIntRange least stop) value ↔ least ≤ value ∧ value < stop :=
  @possible_ask _ _ RandAdmits (.intRange least stop) value

/-- A range of 2ᵏ integers reaches every word of k bits. -/
theorem exists_wrapped (half : Nat) (value : Nat) (small : value < 2 * half) :
    ∃ drawn : Int, (-(half : Int) ≤ drawn ∧ drawn < half) ∧ (drawn % (2 * half : Nat)).toNat = value := by
  by_cases low : value < half
  · refine ⟨value, by omega, ?_⟩
    rw [Int.emod_eq_of_lt (by omega) (by omega)]
    rfl
  · refine ⟨value - (2 * half : Nat), by omega, ?_⟩
    rw [Int.sub_emod_right, Int.emod_eq_of_lt (by omega) (by omega)]
    rfl

theorem returns_converted {α : Type} {least stop drawn : Int} (inside : least ≤ drawn ∧ drawn < stop)
    (convert : Int → α) : Returns (gRandIntRange least stop >>= fun drawn => pure (convert drawn)) (convert drawn) :=
  possible_bind.mpr ⟨drawn, returns_gRandIntRange.mpr inside, possible_pure.mpr rfl⟩

theorem returns_oilRandU8 (value : UInt8) : Returns oilRandU8 value := by
  obtain ⟨drawn, inside, wrapped⟩ := exists_wrapped (2 ^ 7) value.toNat value.toNat_lt
  have converted : UInt8.ofInt drawn = value := (congrArg UInt8.ofNat wrapped).trans UInt8.ofNat_toNat
  exact converted ▸ returns_converted inside UInt8.ofInt

theorem returns_oilRandU16 (value : UInt16) : Returns oilRandU16 value := by
  obtain ⟨drawn, inside, wrapped⟩ := exists_wrapped (2 ^ 15) value.toNat value.toNat_lt
  have converted : UInt16.ofInt drawn = value := (congrArg UInt16.ofNat wrapped).trans UInt16.ofNat_toNat
  exact converted ▸ returns_converted inside UInt16.ofInt

theorem returns_oilRandS8 (value : Int8) : Returns oilRandS8 value := by
  have inside : Int8.minValue.toInt ≤ value.toInt ∧ value.toInt < Int8.maxValue.toInt + 1 :=
    ⟨value.minValue_le_toInt, Int.lt_add_one_iff.mpr value.toInt_le⟩
  exact value.ofInt_toInt ▸ returns_converted inside Int8.ofInt

theorem returns_oilRandS16 (value : Int16) : Returns oilRandS16 value := by
  have inside : Int16.minValue.toInt ≤ value.toInt ∧ value.toInt < Int16.maxValue.toInt + 1 :=
    ⟨value.minValue_le_toInt, Int.lt_add_one_iff.mpr value.toInt_le⟩
  exact value.ofInt_toInt ▸ returns_converted inside Int16.ofInt

theorem returns_oilRandS32 (value : Int32) : Returns oilRandS32 value :=
  possible_bind.mpr ⟨value.toUInt32, returns_gRandInt _, possible_pure.mpr rfl⟩

/-- 2⁶³ + 2³¹: a larger word would need a shift by 32. -/
def randWordBound : Nat := 2 ^ 63 + 2 ^ 31

theorem shifted_le (high : UInt32) {shift : Nat} (small : shift < 32) :
    high.toNat * 2 ^ shift ≤ (2 ^ 32 - 1) * 2 ^ 31 :=
  Nat.mul_le_mul (Nat.le_sub_one_of_lt high.toNat_lt) (Nat.pow_le_pow_right (by decide) (Nat.le_of_lt_succ small))

/-- No bit is lost when a drawn word is shifted and another one added. -/
theorem toNat_assembled (high low : UInt32) {shift : Nat} (small : shift < 32) :
    (high.toUInt64 <<< UInt64.ofInt shift + low.toUInt64).toNat = high.toNat * 2 ^ shift + low.toNat := by
  have count : (UInt64.ofInt shift).toNat = shift := by
    rw [UInt64.ofInt, Int.emod_eq_of_lt (by omega) (by omega), Int.toNat_natCast]
    exact UInt64.toNat_ofNat_of_lt' (Nat.lt_trans small (by decide))
  have product := shifted_le high small
  have lowest := low.toNat_lt
  rw [UInt64.toNat_add, UInt64.toNat_shiftLeft, count, UInt32.toNat_toUInt64, UInt32.toNat_toUInt64,
    Nat.mod_eq_of_lt (by omega : shift < 64), Nat.shiftLeft_eq, Nat.mod_eq_of_lt (by omega),
    Nat.mod_eq_of_lt (by omega)]

/-- Two drawn words and a shift below 32 make up the words below the bound. -/
theorem exists_assembled {word : Nat} (small : word < randWordBound) :
    ∃ high low : Nat, high < 2 ^ 32 ∧ low < 2 ^ 32 ∧ word = high * 2 ^ 31 + low := by
  unfold randWordBound at small
  refine ⟨min (word / 2 ^ 31) (2 ^ 32 - 1), word - min (word / 2 ^ 31) (2 ^ 32 - 1) * 2 ^ 31, ?_, ?_, ?_⟩ <;> omega

theorem returns_oilRandU64 {word : UInt64} : Returns oilRandU64 word ↔ word.toNat < randWordBound := by
  constructor
  · intro returned
    obtain ⟨high, _, drawn⟩ := possible_bind.mp returned
    obtain ⟨shift, range, drawn⟩ := possible_bind.mp drawn
    obtain ⟨low, _, drawn⟩ := possible_bind.mp drawn
    obtain ⟨nonnegative, small⟩ := returns_gRandIntRange.mp range
    obtain ⟨shift, rfl⟩ := Int.eq_ofNat_of_zero_le nonnegative
    have small : shift < 32 := by omega
    have product := shifted_le high small
    have lowest := low.toNat_lt
    rw [possible_pure.mp drawn, toNat_assembled high low small, randWordBound]
    omega
  · intro small
    obtain ⟨high, low, highSmall, lowSmall, made⟩ := exists_assembled small
    refine possible_bind.mpr ⟨.ofNat high, returns_gRandInt _, possible_bind.mpr ⟨(31 : Nat), ?_, ?_⟩⟩
    · exact returns_gRandIntRange.mpr ⟨by decide, by decide⟩
    · refine possible_bind.mpr ⟨.ofNat low, returns_gRandInt _, possible_pure.mpr (UInt64.toNat_inj.mp ?_)⟩
      rw [made, toNat_assembled _ _ (by decide), UInt32.toNat_ofNat_of_lt' highSmall,
        UInt32.toNat_ofNat_of_lt' lowSmall]

theorem returns_oilRandS64 {word : Int64} : Returns oilRandS64 word ↔ Returns oilRandU64 word.toUInt64 := by
  constructor
  · intro returned
    obtain ⟨bits, drawn, same⟩ := possible_bind.mp returned
    rw [possible_pure.mp same]
    exact drawn
  · exact fun drawn => possible_bind.mpr ⟨word.toUInt64, drawn, possible_pure.mpr rfl⟩

/-- The integer types that elements of a sample have. -/
inductive IntElement where
  | u8 | s8 | u16 | s16 | u32 | s32 | u64 | s64
deriving DecidableEq

namespace IntElement

@[reducible] def Value : IntElement → Type
  | u8 => UInt8
  | s8 => Int8
  | u16 => UInt16
  | s16 => Int16
  | u32 => UInt32
  | s32 => Int32
  | u64 => UInt64
  | s64 => Int64

/-- The random function of the type. -/
def rand : (type : IntElement) → Rand type.Value
  | u8 => oilRandU8
  | s8 => oilRandS8
  | u16 => oilRandU16
  | s16 => oilRandS16
  | u32 => oilRandU32
  | s32 => oilRandS32
  | u64 => oilRandU64
  | s64 => oilRandS64

/-- The bits of a value, as an unsigned number. -/
def bits : (type : IntElement) → type.Value → Nat
  | u8, value => value.toNat
  | s8, value => value.toUInt8.toNat
  | u16, value => value.toNat
  | s16, value => value.toUInt16.toNat
  | u32, value => value.toNat
  | s32, value => value.toUInt32.toNat
  | u64, value => value.toNat
  | s64, value => value.toUInt64.toNat

end IntElement

/-- A value is drawn exactly if its bits are below the bound, as they all are where a type has at
most 32 of them. -/
theorem oilRand_returns_iff (type : IntElement) (value : type.Value) :
    Returns type.rand value ↔ type.bits value < 2 ^ 63 + 2 ^ 31 := by
  have narrow {function : Rand type.Value} {size : Nat} (returns : Returns function value) (small : size ≤ 32)
      (fits : type.bits value < 2 ^ size) : Returns function value ↔ type.bits value < 2 ^ 63 + 2 ^ 31 := by
    have bound : 2 ^ size ≤ 2 ^ 32 := Nat.pow_le_pow_right (by decide) small
    exact iff_of_true returns (by omega)
  cases type with
  | u8 => exact narrow (returns_oilRandU8 value) (by decide) value.toNat_lt
  | s8 => exact narrow (returns_oilRandS8 value) (by decide) value.toUInt8.toNat_lt
  | u16 => exact narrow (returns_oilRandU16 value) (by decide) value.toNat_lt
  | s16 => exact narrow (returns_oilRandS16 value) (by decide) value.toUInt16.toNat_lt
  | u32 => exact narrow (returns_gRandInt value) (by decide) value.toNat_lt
  | s32 => exact narrow (returns_oilRandS32 value) (by decide) value.toUInt32.toNat_lt
  | u64 => exact returns_oilRandU64
  | s64 => exact returns_oilRandS64.trans returns_oilRandU64

/-- No draws make the largest word, nor -1 on the same bits. -/
theorem oilRandU64_misses : ¬ Returns oilRandU64 (.ofNat (2 ^ 64 - 1)) ∧ ¬ Returns oilRandS64 (-1) := by
  rw [returns_oilRandS64, returns_oilRandU64, returns_oilRandU64]
  decide

end Oil.Test
