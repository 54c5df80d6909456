import Oil.Core.Class.Refinement
import Oil.Test.Tester.LaidOut

namespace Oil.Test

open Oil.Core

/-! # Testing the implements of a class

A pointer argument is the whole buffer allocated for it; the functions under test are
handed a pointer past its header.  An offset counts bytes from the start of the buffer.
The definitions go by the names of the functions of `oiltester.c`. -/

/-- `OilGenericType`, with the bytes a pointer leads to. -/
inductive Arg where
  | buffer (bytes : List UInt8)
  | scale (value : Int)
deriving DecidableEq

def Arg.shape : Arg → Nat ⊕ Int
  | .buffer bytes => .inl bytes.length
  | .scale value => .inr value

/-- A function behind the marshal of its class.  It leaves its scale arguments and the
length of its buffers as they are, and may run into an illegal instruction. -/
structure TestedFunction where
  run : List Arg → List Arg
  illegal : List Arg → Bool
  keepsShape : ∀ args, (run args).map Arg.shape = args.map Arg.shape

/-- `OilChecker`, between `init` and `uninit`. -/
structure OilChecker where
  generateSample : List OilParameter → List Arg → List Arg
  checkResult : List OilParameter → (ref tdata : List Arg) → Bool
  keepsShape : ∀ params args, (generateSample params args).map Arg.shape = args.map Arg.shape

/-- `OilProfiler`: what `end` reports after the test of an implement, or of the reference. -/
structure OilProfiler (T : Type) where
  ends : Option String → T

structure OilClassData (F T : Type) where
  parameters : List OilParameter
  call : F → TestedFunction
  checker : OilChecker
  profiler : OilProfiler T

/-- What a test runs in: the configuration, the random guards and the flags of the CPU. -/
structure Environment where
  config : TestConfig
  guards : ArgType → Int8
  cpuFlags : Nat

/-- `struct _fixture`, the buffers through `args` and `real_args` alike. -/
structure Fixture (T : Type) where
  params : List OilParameter
  srcSample : List Arg
  refSample : List Arg
  tdata : List Arg
  minVal : T
  chosenImpl : Option String
deriving DecidableEq

def mayAllocArg (p : OilParameter) : Arg :=
  if p.isPointer = true then .buffer (List.replicate p.size.toNat p.guard.toUInt8) else .scale p.value

def mayAllocMemOfParams (params : List OilParameter) : List Arg := params.map mayAllocArg

def armArg (p : OilParameter) : (tdata src : Arg) → Arg
  | .buffer old, .buffer new =>
      if p.isPointer = true then .buffer (new.take p.size.toNat ++ old.drop p.size.toNat) else .buffer new
  | _, src => src

/-- `_arm_test_data`, which copies the last argument over the one before it. -/
def armTestData : List OilParameter → (tdata srcSample : List Arg) → List Arg
  | p :: params, old :: tdata, src :: srcSample => armArg p old src :: armTestData params tdata srcSample
  | _, tdata, _ => tdata

section Violation

def byteAt (bytes : List UInt8) (offset : Int) : Option UInt8 :=
  if 0 ≤ offset then bytes[offset.toNat]? else none

/-- The loop of `_check_guard`, with the number of bytes left to compare. -/
def checkGuardLoop (bytes : List UInt8) (guard : Int8) : Nat → (p : Int) → Option Bool
  | 0, _ => some true
  | left + 1, p => do
      let byte ← byteAt bytes p
      if byte ≠ guard.toUInt8 then some false else checkGuardLoop bytes guard left (p + 1)

/-- `_check_guard`; no result where it reads outside the buffer. -/
def checkGuard (bytes : List UInt8) (p size : Int) (guard : Int8) : Option Bool :=
  checkGuardLoop bytes guard size.toNat p

/-- The loop over the holes from `a` on; no result where it does not end in so many rounds. -/
def checkHoles (p : OilParameter) (bytes : List UInt8) (chunkSize holeSize : Int) :
    (rounds : Nat) → (a : Int) → Option Bool
  | 0, _ => none
  | rounds + 1, a =>
      if a ≠ p.size - p.footer then do
        let intact ← checkGuard bytes (a + chunkSize) holeSize p.guard
        if intact then checkHoles p bytes chunkSize holeSize rounds (a + p.stride) else some false
      else some true

/-- The part of `_check_violation` about one argument. -/
def checkArg (p : OilParameter) : (srcData data : Arg) → Option Bool
  | .buffer srcData, .buffer data =>
      if p.isPointer = false then some true
      else if p.argClass = .src then
        some (decide (srcData.take p.size.toNat = data.take p.size.toNat))
      else do
        let chunkSize := gint (oilTypeSizeof p.cType * p.preN)
        let holeSize := gint (p.stride - chunkSize)
        let header ← checkGuard data 0 p.header p.guard
        if header = false then some false
        else do
          -- every round but the last takes up a byte of the buffer
          let holes ← if holeSize ≠ 0 then checkHoles p data chunkSize holeSize (p.size.toNat + 1) p.header
            else some true
          if holes = false then some false
          else checkGuard data (p.size - p.footer) p.footer p.guard
  | _, _ => some true

def checkViolation : List OilParameter → (srcData data : List Arg) → Option Bool
  | p :: params, src :: srcData, arg :: data => do
      let intact ← checkArg p src arg
      if intact then checkViolation params srcData data else some false
  | _, _, _ => some true

end Violation

section Fixture

variable {F T : Type} (env : Environment) (clsData : OilClassData F T)

/-- The loop of `_check_reference`: the sample, the reference's buffers, and whether an illegal
instruction ended it. -/
def referenceLoop (params : List OilParameter) (ref : TestedFunction) :
    (iterations : Nat) → (srcSample refSample : List Arg) → List Arg × List Arg × Bool
  | 0, srcSample, refSample => (srcSample, refSample, false)
  | iterations + 1, srcSample, refSample =>
      let srcSample := armTestData params srcSample refSample
      if ref.illegal refSample then (srcSample, ref.run refSample, true)
      else referenceLoop params ref iterations srcSample (ref.run refSample)

/-- `_check_reference`; no result where the bounds check goes astray. -/
def checkReference (ref : F) (fixture : Fixture T) : Option (Bool × Fixture T) :=
  let (srcSample, refSample, illegal) :=
    referenceLoop fixture.params (clsData.call ref) env.config.iterations.toNat fixture.srcSample fixture.refSample
  let fixture := { fixture with srcSample, refSample }
  if illegal = true then some (false, fixture)
  else do
    let intact ← checkViolation fixture.params srcSample refSample
    if intact = false then some (false, fixture)
    else some (true, { fixture with minVal := clsData.profiler.ends none, chosenImpl := none })

/-- The loop of `_check_implement`: the test data, and whether an illegal instruction ended it. -/
def implementLoop (params : List OilParameter) (func : TestedFunction) (srcSample : List Arg) :
    (iterations : Nat) → (tdata : List Arg) → List Arg × Bool
  | 0, tdata => (tdata, false)
  | iterations + 1, tdata =>
      let tdata := armTestData params tdata srcSample
      if func.illegal tdata then (func.run tdata, true)
      else implementLoop params func srcSample iterations (func.run tdata)

/-- `_check_implement`; no result where the bounds check goes astray. -/
def checkImplement [LT T] [DecidableLT T] (implName : String) (func : F) (flags : Nat)
    (fixture : Fixture T) : Option (Fixture T) :=
  if env.cpuFlags &&& flags ≠ flags then some fixture
  else
    let (tdata, illegal) :=
      implementLoop fixture.params (clsData.call func) fixture.srcSample env.config.iterations.toNat fixture.tdata
    let fixture := { fixture with tdata }
    if illegal = true then some fixture
    else do
      let intact ← checkViolation fixture.params fixture.srcSample tdata
      if intact = false then some fixture
      else if clsData.checker.checkResult fixture.params fixture.refSample tdata = false then some fixture
      else
        let val := clsData.profiler.ends (some implName)
        if val < fixture.minVal then some { fixture with minVal := val, chosenImpl := some implName }
        else some fixture

/-- The fixture `_optimize_class` sets up, with a generated sample. -/
def Fixture.setUp [Zero T] (params : List OilParameter) : Fixture T where
  params := params
  srcSample := clsData.checker.generateSample params (mayAllocMemOfParams params)
  refSample := mayAllocMemOfParams params
  tdata := mayAllocMemOfParams params
  minVal := 0
  chosenImpl := none

/-- `_optimize_class`; no result where a bounds check goes astray. -/
def optimizeClass [Zero T] [LT T] [DecidableLT T] (cls : OilClass F (OilClassData F T)) (ref : F) :
    Option (OilClass F (OilClassData F T)) := do
  let params := calcSampleLayout env.config env.guards clsData.parameters
  let clsData := { clsData with parameters := params }
  let (_, fixture) ← checkReference env clsData ref (Fixture.setUp clsData params)
  let visitor implName func flags userData :=
    (false, Option.bind userData fun fixture => checkImplement env clsData implName func flags fixture)
  let fixture ← (cls.implementsForeach visitor (some fixture)).2
  some ({ cls with data := some clsData }.activateImplement fixture.chosenImpl)

/-- `oil_test_optimize_class` for a registered class, which always has a reference. -/
def oilTestOptimizeClass [Zero T] [LT T] [DecidableLT T] (cls : OilClass F (OilClassData F T)) :
    Option (OilClass F (OilClassData F T)) :=
  match cls.data with
  | none => some cls
  | some clsData => optimizeClass env clsData cls cls.ref

end Fixture

end Oil.Test
