import Oil.Test.Config.Seed

namespace Oil.Test

/-! # The stack of configurations

`oiltestconfig.c` keeps its variables in a stack of frames.  A frame owns a seed string and a
generator, which are blocks behind pointers.  The definitions go by the names of the source. -/

namespace ConfigStack

/-- A `gdouble`. -/
inductive Gdouble where
  | nan
  | infinite (negative : Bool)
  | number (value : Rat)
deriving DecidableEq

/-- `x >= 0` -/
def Gdouble.atLeastZero : Gdouble → Bool
  | .nan => false
  | .infinite negative => !negative
  | .number value => decide (0 ≤ value)

/-- A value that is read from a frame, or shown in a warning. -/
inductive Value where
  | int (value : Int)
  | pointer (address : Nat)
  | double (value : Gdouble)
deriving DecidableEq

structure Warning where
  format : String
  shown : Value
deriving DecidableEq

inductive Block (G : Type) where
  | text (content : List Char)
  | generator (state : G)
deriving DecidableEq

def null : Nat := 0

structure OilTestConfig where
  logFd : Int
  seedStr : Nat
  rand : Nat
  testHeader : Int
  testFooter : Int
  testM : Int
  testN : Int
  iterations : Int
  silent : Int
  toleranceHigh : Gdouble
  toleranceLow : Gdouble
deriving DecidableEq

/-- What the functions find outside: the words `g_random_int` draws, what the local array of
`_gen_seed_from_string` holds at a call, and `g_rand_new_with_seed_array`. -/
structure Environment (G : Type) where
  words : Nat → UInt32
  stale : Nat → SeedArray
  randNew : SeedArray → G

/-- The stack, its top first, and the heap. -/
structure State (G : Type) where
  stack : List OilTestConfig := []
  blocks : Nat → Option (Block G) := fun _ => none
  /-- The blocks allocated so far are those from 1 to this one. -/
  allocated : Nat := 0
  freed : List Nat := []
  drawn : Nat := 0
  warnings : List Warning := []

/-- An option and its value.  No value is read for an option that is not supported. -/
inductive Setting where
  | logFd (fd : Int)
  | seed (seedStr : Option (List Char))
  | headerLen (headerLen : Int)
  | footerLen (footerLen : Int)
  | testM (m : Int)
  | testN (n : Int)
  | silent (silent : Int)
  | iterations (iterations : Int)
  | toleranceHigh (toleranceHigh : Gdouble)
  | toleranceLow (toleranceLow : Gdouble)
  | other (opt : Int) (unknown : opt < 1 ∨ 10 < opt)
deriving DecidableEq

/-- `OIL_CONF_OPT_LOG_FD` and so on. -/
def Setting.opt : Setting → Int
  | .logFd _ => 1
  | .seed _ => 2
  | .headerLen _ => 3
  | .footerLen _ => 4
  | .testM _ => 5
  | .testN _ => 6
  | .silent _ => 7
  | .iterations _ => 8
  | .toleranceHigh _ => 9
  | .toleranceLow _ => 10
  | .other opt _ => opt

def Setting.supported : Setting → Bool
  | .other _ _ => false
  | _ => true

/-- How a statement is left. -/
inductive Flow where
  | through
  | continues

namespace State

variable {G : Type} (env : Environment G) (s : State G)

def allocate (block : Block G) : Nat × State G :=
  (s.allocated + 1,
    { s with blocks := Function.update s.blocks (s.allocated + 1) (some block), allocated := s.allocated + 1 })

/-- `g_free`, `g_rand_free` -/
def release (pointer : Nat) : State G :=
  if pointer = null then s
  else { s with blocks := Function.update s.blocks pointer none, freed := s.freed ++ [pointer] }

def warn (warning : Warning) : State G := { s with warnings := s.warnings ++ [warning] }

/-- `g_strdup`; no result for a pointer to no string. -/
def strdup (pointer : Nat) : Option (Nat × State G) :=
  if pointer = null then some (null, s)
  else
    match s.blocks pointer with
    | some (.text content) => some (s.allocate (.text content))
    | _ => none

/-- `g_rand_copy`; no result for a pointer to no generator. -/
def randCopy (pointer : Nat) : Option (Nat × State G) :=
  if pointer = null then some (null, s)
  else
    match s.blocks pointer with
    | some (.generator state) => some (s.allocate (.generator state))
    | _ => none

/-- A seed string and a generator, made of what one of the two functions below has gathered. -/
def allocateSeed (seed : List Char × SeedArray) : (Nat × Nat) × State G :=
  let (rand, s) := s.allocate (.generator (env.randNew seed.2))
  let (seedStr, s) := s.allocate (.text seed.1)
  ((seedStr, rand), s)

/-- `_gen_seed_auto`, with the words it draws. -/
def drawSeed : (Nat × Nat) × State G :=
  { s with drawn := s.drawn + seedArrayLen }.allocateSeed env (genSeedAuto fun i => env.words (s.drawn + i.val))

/-- `_gen_seed`: the seed string and the generator. -/
def genSeed : Option (List Char) → Option ((Nat × Nat) × State G)
  | none | some [] => some (s.drawSeed env)
  | some seedStr => (genSeedFromString (env.stale s.allocated) seedStr).map (s.allocateSeed env)

/-- The frame `_may_init` starts the stack with. -/
def firstFrame (seedStr rand : Nat) : OilTestConfig where
  logFd := -1
  seedStr := seedStr
  rand := rand
  testHeader := 256
  testFooter := 256
  testM := 100
  testN := 100
  iterations := 10
  silent := 1
  -- the double nearest to 0.001
  toleranceHigh := .number (mkRat 4611686018427388 (2 ^ 62))
  toleranceLow := .number 0

def mayInit : Bool × State G :=
  match s.stack with
  | _ :: _ => (false, s)
  | [] =>
      let ((seedStr, rand), s) := s.drawSeed env
      (true, { s with stack := [firstFrame seedStr rand] })

/-- `_dup_top_frame`, and the push of what it returns. -/
def dupTopFrame : Option (State G) :=
  match s.stack with
  | [] => none
  | tp :: _ => do
      let (seedStr, s) ← s.strdup tp.seedStr
      let (rand, s) ← s.randCopy tp.rand
      pure { s with stack := { tp with seedStr, rand } :: s.stack }

def freeFrame (f : OilTestConfig) : State G := (s.release f.rand).release f.seedStr

/-- An assignment to a variable of the top frame. -/
def assign (change : OilTestConfig → OilTestConfig) : State G :=
  match s.stack with
  | [] => s
  | f :: rest => { s with stack := change f :: rest }

/-- `do { statement } while (0)`: a `continue` in the statement continues this loop, which is over. -/
def doOnce (statement : State G → Flow × State G) : Flow × State G := (.through, (statement s).2)

def oilActIfFail (expr : Bool) (failStmts : State G → Flow × State G) : Flow × State G :=
  s.doOnce fun s => if expr then (.through, s) else failStmts s

/-- The case of an option with a guarded value. -/
def setGuarded (valid : Bool) (warning : Warning) (change : OilTestConfig → OilTestConfig) : State G :=
  match s.oilActIfFail valid fun s => (.continues, s.warn warning) with
  | (.continues, s) => s
  | (.through, s) => s.assign change

/-- The case of `OIL_CONF_OPT_SEED`. -/
def setSeed (seedStr : Option (List Char)) : Option (State G) := do
  let ((seedStr, rand), s) ← s.genSeed env seedStr
  if seedStr = null then pure s
  else
    match s.stack with
    | [] => none
    | f :: _ =>
        let s := if f.rand = null then s else (s.release f.seedStr).release f.rand
        pure (s.assign fun f => { f with rand, seedStr })

/-- The `switch` of `oil_test_config_vset`. -/
def setOption : Setting → Option (State G)
  | .logFd fd => some (s.setGuarded (decide (fd ≥ 0)) ⟨"set log_fd to invaild value: %d", .int fd⟩
      fun f => { f with logFd := fd })
  | .seed seedStr => s.setSeed env seedStr
  | .headerLen headerLen => some (s.setGuarded (decide (headerLen ≥ 0))
      ⟨"set header_len to invaild value: %d", .int headerLen⟩ fun f => { f with testHeader := headerLen })
  | .footerLen footerLen => some (s.setGuarded (decide (footerLen ≥ 0))
      ⟨"set footer_len to invaild value: %d", .int footerLen⟩ fun f => { f with testFooter := footerLen })
  | .testM m => some (s.setGuarded (decide (m ≥ 0)) ⟨"set test_m to invaild value: %d", .int m⟩
      fun f => { f with testM := m })
  | .testN n => some (s.setGuarded (decide (n ≥ 0)) ⟨"set test_n to invaild value: %d", .int n⟩
      fun f => { f with testN := n })
  | .silent silent => some (s.assign fun f => { f with silent })
  | .iterations iterations => some (s.setGuarded (decide (iterations > 0))
      ⟨"set iterations to invaild value: %d", .int iterations⟩ fun f => { f with iterations })
  | .toleranceHigh toleranceHigh => some (s.setGuarded toleranceHigh.atLeastZero
      ⟨"set tolerance_high to invaild value: %g", .double toleranceHigh⟩ fun f => { f with toleranceHigh })
  | .toleranceLow toleranceLow => some (s.setGuarded toleranceLow.atLeastZero
      ⟨"set tolerance_low to invaild value: %g", .double toleranceLow⟩ fun f => { f with toleranceLow })
  | .other opt _ => some (s.warn ⟨"set testconfig: not supported option_id %d", .int opt⟩)

/-- The loop of `oil_test_config_vset`; no result where it runs out of arguments. -/
def vsetLoop (nParams : Int) (s : State G) : (rounds : Nat) → (args : List Setting) → Option (State G)
  | 0, _ => some s
  | _ + 1, [] => none
  | rounds + 1, setting :: args =>
      if nParams = -1 ∧ setting.opt = 0 then some s
      else do
        let s ← s.setOption env setting
        if setting.supported then vsetLoop nParams s rounds args else pure s
termination_by structural _ args => args

/-- The rounds of a loop up to `(guint) n_params`. -/
def rounds (nParams : Int) : Nat := (nParams % 2 ^ 32).toNat

def vset (nParams : Int) (args : List Setting) : Option (State G) :=
  (s.mayInit env).2.vsetLoop env nParams (rounds nParams) args

/-- The `switch` of `oil_test_config_vget`. -/
def readOption (f : OilTestConfig) : (opt : Int) → Option Value
  | 1 => some (.int f.logFd)
  | 2 => some (.pointer f.seedStr)
  | 3 => some (.int f.testHeader)
  | 4 => some (.int f.testFooter)
  | 5 => some (.int f.testM)
  | 6 => some (.int f.testN)
  | 7 => some (.int f.silent)
  | 8 => some (.int f.iterations)
  | 9 => some (.double f.toleranceHigh)
  | 10 => some (.double f.toleranceLow)
  | _ => none

/-- The loop of `oil_test_config_vget`: the values it stores. -/
def vgetLoop (nParams : Int) (f : OilTestConfig) (s : State G) :
    (rounds : Nat) → (opts : List Int) → Option (List Value × State G)
  | 0, _ => some ([], s)
  | _ + 1, [] => none
  | rounds + 1, opt :: opts =>
      if nParams = -1 ∧ opt = 0 then some ([], s)
      else
        match readOption f opt with
        | none => some ([], s.warn ⟨"set test_config: not supported option_id %d", .int opt⟩)
        | some value => (vgetLoop nParams f s rounds opts).map fun (values, s) => (value :: values, s)
termination_by structural _ opts => opts

def vget (nParams : Int) (opts : List Int) : Option (List Value × State G) :=
  let s := (s.mayInit env).2
  match s.stack with
  | [] => none
  | f :: _ => s.vgetLoop nParams f (rounds nParams) opts

def push (nParams : Int) (args : List Setting) : Option (State G) := do
  let (first, s) := s.mayInit env
  let s ← if first then pure s else s.dupTopFrame
  s.vset env nParams args

def pop : State G :=
  match s.stack with
  | [] => s
  | f :: rest => { s with stack := rest }.freeFrame f

/-- The loop of `oil_test_config_pop_all`. -/
def popFrames (s : State G) : List OilTestConfig → State G
  | [] => s
  | f :: rest => popFrames ({ s with stack := rest }.freeFrame f) rest

def popAll : State G := s.popFrames s.stack

/-- `oil_test_config_rand`, and draws from the generator it returns. -/
def useRand (draw : G → G) : Option (State G) :=
  let s := (s.mayInit env).2
  match s.stack with
  | [] => none
  | f :: _ =>
      match s.blocks f.rand with
      | some (.generator state) =>
          some { s with blocks := Function.update s.blocks f.rand (some (.generator (draw state))) }
      | _ => none

end State

/-- The calls of a client. -/
inductive Call (G : Type) where
  | push (nParams : Int) (args : List Setting)
  | set (nParams : Int) (args : List Setting)
  | get (nParams : Int) (opts : List Int)
  | rand (draw : G → G)
  | pop
  | popAll

section Steps

variable {G : Type} (env : Environment G)

def step (s : State G) : Call G → Option (State G)
  | .push nParams args => s.push env nParams args
  | .set nParams args => s.vset env nParams args
  | .get nParams opts => (s.vget env nParams opts).map Prod.snd
  | .rand draw => s.useRand env draw
  | .pop => some s.pop
  | .popAll => some s.popAll

def run (s : State G) (calls : List (Call G)) : Option (State G) := calls.foldlM (step env) s

end Steps

end ConfigStack

end Oil.Test
