import Oil.Test.Parameter.Accepted

namespace Oil.Test

/-- The integer options of the test configuration in force. -/
structure TestConfig where
  testHeader : Int
  testFooter : Int
  testM : Int
  testN : Int
  iterations : Int
deriving DecidableEq

/-- Conversion to `gint`, and the wrapping of its arithmetic. -/
def gint (value : Int) : Int := value.bmod (2 ^ 32)

/-- `_calc_layout_of_array` for two parameters; `guard` is what it draws at random. -/
def calcLayoutOfArray (config : TestConfig) (guard : Int8) (array stride : OilParameter) :
    OilParameter × OilParameter :=
  if array.argType = .unknown then (array, stride)
  else
    let preN := gint array.prestrideLength
    let preN :=
      if array.prestrideVar = 1 then gint (preN + config.testN)
      else if array.prestrideVar = 2 then gint (preN + config.testM)
      else preN
    let (arrayStride, value) :=
      if stride.value ≠ 0 then (gint stride.value, stride.value)
      else (gint (oilTypeSizeof array.cType * preN), gint (oilTypeSizeof array.cType * preN))
    let postN := gint array.poststrideLength
    let postN :=
      if array.poststrideVar = 1 then gint (postN + config.testN)
      else if array.poststrideVar = 2 then gint (postN + config.testM)
      else postN
    let size := gint (gint (gint (arrayStride * postN) + config.testHeader) + config.testFooter)
    ({ array with preN, stride := arrayStride, postN, header := config.testHeader,
                  footer := config.testFooter, size, guard },
      { stride with value })

def rearrange (params : List OilParameter) (argType : ArgType) : Option Nat :=
  params.zipIdx.foldl (fun found entry => if entry.1.argType = argType then some entry.2 else found) none

def layoutPairs : List (ArgType × ArgType) :=
  [(.dest1, .dstr1), (.dest2, .dstr2), (.dest3, .dstr3),
    (.src1, .sstr1), (.src2, .sstr2), (.src3, .sstr3), (.src4, .sstr4), (.src5, .sstr5),
    (.inplace1, .istr1), (.inplace2, .istr2)]

/-- One call of `_calc_layout_of_array`: nothing happens unless both parameters exist. -/
def layoutPair (config : TestConfig) (guards : ArgType → Int8) (rearranged : ArgType → Option Nat)
    (params : List OilParameter) (pair : ArgType × ArgType) : List OilParameter :=
  match rearranged pair.1, rearranged pair.2 with
  | some array, some stride =>
      match params[array]?, params[stride]? with
      | some p, some s =>
          let (p, s) := calcLayoutOfArray config (guards pair.1) p s
          (params.set array p).set stride s
      | _, _ => params
  | _, _ => params

/-- `_calc_sample_layout`; `guards` are the random guards of the arrays. -/
def calcSampleLayout (config : TestConfig) (guards : ArgType → Int8) (params : List OilParameter) :
    List OilParameter :=
  let laidOut := layoutPairs.foldl (layoutPair config guards (rearrange params)) params
  match rearrange params .n with
  | some n => laidOut.modify n fun p => { p with value := config.testN }
  | none => laidOut

end Oil.Test
