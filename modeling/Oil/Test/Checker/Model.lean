import Mathlib.Data.Nat.Digits.Defs
import Oil.Data.Rounding
import Oil.Test.Tester.DefaultChecker

namespace Oil.Test

open Oil.Data

/-! # The verdict of the default checker

The contents of a buffer are its bytes by their offsets from its start, and `value` says what
the bytes of an element stand for.  The results of the arithmetic go through two hooks, one
for `gdouble` and one for `gint`.  The definitions go by the names of the functions of
`oilchecker.c`. -/

structure Arithmetic (K : Type) where
  double : K → K
  int : Int → Int

def Arithmetic.exact {K : Type} : Arithmetic K := ⟨id, id⟩

/-- The arithmetic of C, on elements that are integers. -/
def Arithmetic.machine : Arithmetic Int where
  double := roundInt 53
  int := gint

/-- An argument of the tested function: its parameter, and what the buffers of the reference and of the
tested implement hold for it. -/
structure CheckedArg where
  parameter : OilParameter
  ref : Int → UInt8
  tdata : Int → UInt8

/-- `OFFSET_GET`, for a type of this width. -/
def offsetGet (data : Int → UInt8) (offset : Int) (width : Nat) : List UInt8 :=
  (List.range width).map fun k : Nat => data (offset + k)

/-- `OIL_TYPE_s8p` to `OIL_TYPE_u64p` -/
def OilType.isInteger : OilType → Bool
  | .s8p | .u8p | .s16p | .u16p | .s32p | .u32p | .s64p | .u64p => true
  | _ => false

def OilType.isSigned : OilType → Bool
  | .s8p | .s16p | .s32p | .s64p => true
  | _ => false

/-- What the bytes of an integer stand for. -/
def integerValue (bigEndian : Bool) (cType : OilType) (bytes : List UInt8) : Int :=
  let bits : Nat := Nat.ofDigits 256 ((if bigEndian then bytes.reverse else bytes).map UInt8.toNat)
  if cType.isSigned then (bits : Int).bmod (256 ^ bytes.length) else bits

section Check

variable {K : Type} [Ring K] [LinearOrder K] (arithmetic : Arithmetic K) (value : OilType → List UInt8 → K)

/-- `_check_array`; no result where it aborts. -/
def checkArray (data ref : Int → UInt8) (array : Int) (cType : OilType) (preN stride postN : Int) : Option K :=
  (elementWidth cType).map fun width =>
    (List.range postN.toNat).foldl (fun diff (i : Nat) =>
      (List.range preN.toNat).foldl (fun diff (j : Nat) =>
        let offset := array + arithmetic.int (arithmetic.int (i * stride) + arithmetic.int (j * oilTypeSizeof cType))
        arithmetic.double (diff + |arithmetic.double (arithmetic.double (value cType (offsetGet data offset width)) -
          arithmetic.double (value cType (offsetGet ref offset width)))|)) diff) 0

/-- The loop of `oil_checker_check_result`: `diff` and `n` behind it. -/
def checkResultLoop : List CheckedArg → (diff : K) → (n : Int) → Option (K × Int)
  | [], diff, n => some (diff, n)
  | arg :: args, diff, n =>
      let p := arg.parameter
      if p.isPointer = true then do
        let diff ←
          if p.argClass = .dest ∨ p.argClass = .inplace then
            (checkArray arithmetic value arg.ref arg.tdata p.header p.cType p.preN p.stride p.postN).map
              fun deviation => arithmetic.double (diff + deviation)
          else some diff
        checkResultLoop args diff (arithmetic.int (n + arithmetic.int (p.preN * p.postN)))
      else checkResultLoop args diff n

/-- `oil_checker_check_result`, with the tolerance that the sample generator has left. -/
def checkResult (args : List CheckedArg) (tolerance : K) : Option Bool :=
  (checkResultLoop arithmetic value args 0 0).map fun (diff, n) => decide (¬ arithmetic.double (tolerance * n) < diff)

end Check

/-- The arrays whose contents are compared. -/
def OilParameter.IsCompared (p : OilParameter) : Prop :=
  p.isPointer = true ∧ (p.argClass = .dest ∨ p.argClass = .inplace)

instance (p : OilParameter) : Decidable p.IsCompared := inferInstanceAs (Decidable (_ ∧ _))

section Elements

variable {K : Type} (arithmetic : Arithmetic K) (value : OilType → List UInt8 → K)

/-- The elements of an array, in the reference's buffer and in the other. -/
def elementPairs (arg : CheckedArg) : List (K × K) :=
  let p := arg.parameter
  (List.range p.postN.toNat).flatMap fun i : Nat => (List.range p.preN.toNat).map fun j : Nat =>
    let offset := p.header +
      arithmetic.int (arithmetic.int (i * p.stride) + arithmetic.int (j * oilTypeSizeof p.cType))
    (value p.cType (offsetGet arg.ref offset (oilTypeSizeof p.cType).toNat),
      value p.cType (offsetGet arg.tdata offset (oilTypeSizeof p.cType).toNat))

/-- The elements of all compared arrays. -/
def comparedElements (args : List CheckedArg) : List (K × K) :=
  (args.filter (·.parameter.IsCompared)).flatMap (elementPairs arithmetic value)

end Elements

end Oil.Test
