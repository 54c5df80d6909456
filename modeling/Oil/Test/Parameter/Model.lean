import Oil.Data.Regex
import Mathlib.Data.List.DropRight
import Mathlib.Algebra.Ring.Int.Defs
import Mathlib.Algebra.Ring.Nat

namespace Oil.Test

open Oil.Data

/-! # Parameters of a tested function

A prototype such as `uint8_t *d_8x8, int ds` names what each parameter is for.
Characters are those of the prototype string; `gint` values are integers, and
conversions to `gint` wrap.  The definitions go by the names of the functions and the
patterns of `oilparameter.c`. -/

/-- `OilArgClassType`. -/
inductive ArgClass where
  | scale | src | dest | inplace
deriving DecidableEq

inductive OilType where
  | unknown | int
  | s8 | u8 | s16 | u16 | s32 | u32 | s64 | u64 | f32 | f64
  | s8p | u8p | s16p | u16p | s32p | u32p | s64p | u64p | f32p | f64p
deriving DecidableEq

/-- `OilArgType`. -/
inductive ArgType where
  | unknown | n | m
  | dest1 | dstr1 | dest2 | dstr2 | dest3 | dstr3
  | src1 | sstr1 | src2 | sstr2 | src3 | sstr3 | src4 | sstr4 | src5 | sstr5
  | inplace1 | istr1 | inplace2 | istr2
deriving DecidableEq

/-- `OilParameter`.  `value` is the pointer member of the union, the only one in use. -/
structure OilParameter where
  parameter : List Char := []
  cType : OilType := .unknown
  argClass : ArgClass := .scale
  argType : ArgType := .unknown
  isPointer : Bool := false
  isStride : Bool := false
  index : Int := 0
  prestrideVar : Int := 0
  poststrideVar : Int := 0
  prestrideLength : Int := 0
  poststrideLength : Int := 0
  value : Int := 0
  header : Int := 0
  footer : Int := 0
  preN : Int := 0
  postN : Int := 0
  stride : Int := 0
  size : Int := 0
  guard : Int8 := 0
deriving DecidableEq

def oilTypeSizeof : OilType → Int
  | .unknown | .int => 0
  | .s8 | .u8 | .s8p | .u8p => 1
  | .s16 | .u16 | .s16p | .u16p => 2
  | .s32 | .u32 | .f32 | .s32p | .u32p | .f32p => 4
  | .s64 | .u64 | .f64 | .s64p | .u64p | .f64p => 8

/-- `MAX_PARAMS`, from `OIL_ARG_LAST`. -/
def maxParams : Nat := 23 - 1

/-- Blank characters, of `g_strstrip` and of `\s`. -/
def isSpace (c : Char) : Bool := c = ' ' || c = '\t' || c = '\n' || c = '\x0c' || c = '\r'

/-- `g_strsplit` at commas, with as many tokens still allowed before the last one. -/
def strsplit : (more : Nat) → List Char → List (List Char)
  | 0, remainder => [remainder]
  | more + 1, remainder =>
      match remainder.findIdx? (· = ',') with
      | none => [remainder]
      | some comma => remainder.take comma :: strsplit more (remainder.drop (comma + 1))

def strstrip (text : List Char) : List Char :=
  (text.dropWhile isSpace).rdropWhile isSpace

section Pattern

open Regex

def sep : Regex := .plus isSpace

def pad : Regex := .starPossessive isSpace

def isDigit (c : Char) : Bool := decide ('0' ≤ c) && decide (c ≤ '9')

def isWordStart (c : Char) : Bool :=
  c = '_' || decide ('a' ≤ c) && decide (c ≤ 'z') || decide ('A' ≤ c) && decide (c ≤ 'Z')

def cWord : Regex := .seq (.char isWordStart) (.starPossessive fun c => isWordStart c || isDigit c)

/-- `TYPE`. -/
def typePattern : Regex :=
  .alt (.group "type" cWord)
    (.alt (.seq (.seq (.text "const") sep) (.group "type" cWord))
      (.seq (.group "type" cWord) (.seq sep (.text "const"))))

def starSep : Regex :=
  .alt (.seq pad (.seq (.group "star" (.char (· = '*'))) pad)) sep

def argNm : Regex := .group "nm" (.char fun c => c = 'n' || c = 'm')

def argClassPattern : Regex := .group "arg_class" (.char fun c => c = 'i' || c = 's' || c = 'd')

def indexPattern : Regex := .group "index" (.opt (.char isDigit))

def argStride : Regex :=
  .group "stride" (.seq argClassPattern (.seq (.char (· = 's')) indexPattern))

def lenSpec : Regex :=
  .alt (.plus isDigit)
    (.seq (.char fun c => c = 'n' || c = 'm') (.opt (.seq (.char (· = 'p')) (.plus isDigit))))

def argVector : Regex :=
  .group "array" (.seq argClassPattern (.seq indexPattern
    (.opt (.seq (.char (· = '_')) (.seq (.group "len1" lenSpec)
      (.opt (.seq (.char (· = 'x')) (.group "len2" lenSpec))))))))

/-- `PARAM`, matched from the start of the subject. -/
def paramPattern : Regex :=
  .seq pad (.seq typePattern (.seq starSep
    (.seq (.alt argNm (.alt argStride argVector)) (.seq pad .dollar))))

end Pattern

/-- The names `_oilType_parse` knows, in the order of `OilType`. -/
def oilCTypeNames : List String :=
  ["int8_t", "uint8_t", "int16_t", "uint16_t", "int32_t", "uint32_t", "int64_t", "uint64_t",
    "float", "double"]

def oilTypeParse (cType : List Char) (isPointer : Bool) : OilType :=
  let i := oilCTypeNames.findIdx? fun name => cType = name.toList
  if isPointer then
    (i.bind fun i => [OilType.s8p, .u8p, .s16p, .u16p, .s32p, .u32p, .s64p, .u64p, .f32p,
      .f64p][i]?).getD .unknown
  else if cType = "int".toList then .int
  else
    (i.bind fun i => [OilType.s8, .u8, .s16, .u16, .s32, .u32, .s64, .u64, .f32,
      .f64][i]?).getD .unknown

/-- `_arg_dir_parse`; no result where it aborts. -/
def argDirParse (dir : List Char) : Option ArgClass :=
  match dir with
  | 'i' :: _ => some .inplace
  | 's' :: _ => some .src
  | 'd' :: _ => some .dest
  | _ => none

def digitValue (c : Char) : Nat :=
  if isDigit c then c.toNat - '0'.toNat
  else if 'a' ≤ c ∧ c ≤ 'z' then c.toNat - 'a'.toNat + 10
  else if 'A' ≤ c ∧ c ≤ 'Z' then c.toNat - 'A'.toNat + 10
  else 36

def digitsValue (base : Nat) : List Char → (value : Nat) → Nat
  | [], value => value
  | c :: rest, value =>
      if digitValue c < base then digitsValue base rest (value * base + digitValue c) else value

/-- `g_ascii_strtoll` with base 0, for a text that begins with a digit. -/
def asciiStrtoll (text : List Char) : Int :=
  let value :=
    match text with
    | '0' :: 'x' :: rest | '0' :: 'X' :: rest => digitsValue 16 rest 0
    | '0' :: rest => digitsValue 8 rest 0
    | _ => digitsValue 10 text 0
  min value (2 ^ 63 - 1 : Nat)

/-- `_lenspec_parse`: the variable and the length. -/
def lenspecParse (lenspec : List Char) : Int × Int :=
  match lenspec with
  | 'n' :: rest => (1, if rest = [] then 0 else asciiStrtoll (rest.drop 1))
  | 'm' :: rest => (2, if rest = [] then 0 else asciiStrtoll (rest.drop 1))
  | _ => (0, asciiStrtoll lenspec)

/-- The table of `_argType_parse`. -/
def argTypeMap : List (ArgType × ArgClass × Bool × Int) :=
  [(.n, .scale, false, 0), (.m, .scale, false, 0),
    (.dest1, .dest, false, 1), (.dstr1, .dest, true, 1),
    (.dest2, .dest, false, 2), (.dstr2, .dest, true, 2),
    (.dest3, .dest, false, 3), (.dstr3, .dest, true, 3),
    (.src1, .src, false, 1), (.sstr1, .src, true, 1),
    (.src2, .src, false, 2), (.sstr2, .src, true, 2),
    (.src3, .src, false, 3), (.sstr3, .src, true, 3),
    (.src4, .src, false, 4), (.sstr4, .src, true, 4),
    (.src5, .src, false, 5), (.sstr5, .src, true, 5),
    (.inplace1, .inplace, false, 1), (.istr1, .inplace, true, 1),
    (.inplace2, .inplace, false, 2), (.istr2, .inplace, true, 2)]

def argTypeParse (dir : ArgClass) (isStride : Bool) (index : Int) : ArgType :=
  ((argTypeMap.find? fun entry => dir = entry.2.1 && isStride = entry.2.2.1 && index = entry.2.2.2).map
    Prod.fst).getD .unknown

/-- The index a parameter name gives: `*index - '0'`, or 1. -/
def indexValue (index : List Char) : Int :=
  match index with
  | [] => 1
  | c :: _ => (c.toNat : Int) - '0'.toNat

def fetchNamed (captures : Captures) (name : String) : List Char := (captures.named name).getD []

/-- The part of `oil_param_parse` between the type and the argument type. -/
def argParse (captures : Captures) (param : OilParameter) : Option OilParameter :=
  if fetchNamed captures "nm" ≠ [] then
    some { param with index := 0, isPointer := false, isStride := false }
  else if fetchNamed captures "stride" ≠ [] then do
    let argClass ← argDirParse (fetchNamed captures "arg_class")
    pure { param with isStride := true, isPointer := false, argClass,
                      index := indexValue (fetchNamed captures "index") }
  else do
    let argClass ← argDirParse (fetchNamed captures "arg_class")
    let len1 := fetchNamed captures "len1"
    let len2 := fetchNamed captures "len2"
    let (pre, post) :=
      if len1 = [] then ((0, 1), (1, 0))
      else if len2 = [] then ((0, 1), lenspecParse len1)
      else (lenspecParse len1, lenspecParse len2)
    pure { param with isStride := false, isPointer := true, argClass,
                      index := indexValue (fetchNamed captures "index"),
                      prestrideVar := pre.1, prestrideLength := pre.2,
                      poststrideVar := post.1, poststrideLength := post.2 }

/-- `oil_param_parse`; no result where it returns `FALSE`. -/
def oilParamParse (paramStr : List Char) : Option OilParameter := do
  let captures ← paramPattern.firstMatch paramStr
  let cType := oilTypeParse (fetchNamed captures "type") (fetchNamed captures "star" ≠ [])
  if cType = .unknown then none
  else
    let param ← argParse captures { cType }
    let argType := argTypeParse param.argClass param.isStride param.index
    if argType = .unknown then none else pure { param with argType, parameter := paramStr }

def prototypeCheckSanity (params : List OilParameter) : Bool :=
  params.any (fun p => p.argType = .n) ||
    params.all fun p =>
      p.isStride || p.argType = .n || p.argType = .m || p.prestrideVar ≠ 1 && p.poststrideVar ≠ 1

/-- `oil_prototype_parse`; no result where it returns `FALSE`. -/
def oilPrototypeParse (prototype : List Char) : Option (List OilParameter) :=
  if prototype = [] then none
  else do
    let params ← (strsplit (maxParams - 1) prototype).mapM fun paramStr => oilParamParse (strstrip paramStr)
    if prototypeCheckSanity params then pure params else none

example : (oilPrototypeParse "uint8_t *d, uint8_t const *s1_np7, int n".toList).map
    (·.map fun p => (p.argType, p.isPointer, p.poststrideVar, p.poststrideLength)) =
    some [(.dest1, true, 1, 0), (.src1, true, 1, 7), (.n, false, 0, 0)] := by decide +kernel

end Oil.Test
