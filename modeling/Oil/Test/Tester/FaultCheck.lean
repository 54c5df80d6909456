import Oil.Data.Beside
import Oil.Test.Tester.OptimizeAll

namespace Oil.Test.Signals

open Oil.Core Oil.Data

/-! # Illegal instructions

An implement may hold instructions the CPU does not have.  The tests run with a handler for
`SIGILL` that jumps back to the test.  Here the functions of `oiltester.c` go by the same names
as in the model that knows only whether a call is legal; they run beside what the process keeps
about the signal. -/

/-- What is installed for `SIGILL`. -/
inductive Disposition where
  | sigillHandler
  | other (action : Nat)
deriving DecidableEq

/-- The state of the signal and of the variables that the tests share with the handler.  `jumpEnv`
is the frame of the last `setjmp`, and `frames` counts the frames that called it. -/
structure Process where
  disposition : Disposition
  blocked : Bool
  inTryBlock : Bool := false
  enableLevel : Int := 0
  oldaction : Disposition := .other 0
  jumpEnv : Option Nat := none
  frames : Nat := 0
deriving DecidableEq

/-- How a process can go wrong. -/
inductive Fault where
  /-- The system ends a process that meets a blocked `SIGILL`. -/
  | killed
  /-- The signal goes to what others have installed. -/
  | other (action : Nat)
  /-- `g_error` -/
  | aborted
  /-- `longjmp` to a frame that is gone. -/
  | lostFrame
  /-- A bounds check leaves its buffer. -/
  | astray
deriving DecidableEq

/-- How statements are left. -/
inductive Exit where
  | done
  | jump (target : Option Nat)

/-- `_sigill_handler`, up to the jump. -/
def sigillHandler (p : Process) : Except Fault (Option Nat × Process) :=
  if p.inTryBlock then .ok (p.jumpEnv, { p with blocked := false }) else .error .aborted

/-- The signal is blocked while its handler runs. -/
def illegalInstruction (p : Process) : Except Fault (Option Nat × Process) :=
  if p.blocked then .error .killed
  else
    match p.disposition with
    | .sigillHandler => sigillHandler { p with blocked := true }
    | .other action => .error (.other action)

def faultCheckEnable (p : Process) : Process :=
  let p :=
    if p.enableLevel = 0 then
      { p with oldaction := p.disposition, disposition := .sigillHandler, inTryBlock := false }
    else p
  { p with enableLevel := p.enableLevel + 1 }

def faultCheckDisable (p : Process) : Process :=
  let p := { p with enableLevel := p.enableLevel - 1 }
  if p.enableLevel = 0 then { p with disposition := p.oldaction } else p

/-- `OIL_TRY`, in a frame of its own: what the statements leave, and whether `setjmp` returned a
second time. -/
def oilTry {α : Type} (stmts : Process → Except Fault (α × Exit × Process)) (p : Process) :
    Except Fault (α × Bool × Process) :=
  let entered := { p with inTryBlock := true, jumpEnv := some p.frames, frames := p.frames + 1 }
  (stmts entered).bind fun (left, exit, after) =>
    match exit with
    | .done => .ok (left, false, { after with inTryBlock := false })
    | .jump target =>
        if target = some p.frames then .ok (left, true, { after with inTryBlock := false }) else .error .lostFrame

/-- A call of a tested function. -/
def call (func : TestedFunction) (args : List Arg) (p : Process) : Except Fault (List Arg × Exit × Process) :=
  if func.illegal args then
    (illegalInstruction p).map fun (target, p) => (func.run args, .jump target, p)
  else .ok (func.run args, .done, p)

section Fixture

variable {F T : Type} (env : Environment) (clsData : OilClassData F T)

def referenceLoop (params : List OilParameter) (ref : TestedFunction) :
    (iterations : Nat) → (srcSample refSample : List Arg) → Process →
      Except Fault ((List Arg × List Arg) × Exit × Process)
  | 0, srcSample, refSample, p => .ok ((srcSample, refSample), .done, p)
  | iterations + 1, srcSample, refSample, p =>
      let srcSample := armTestData params srcSample refSample
      (call ref refSample p).bind fun (refSample, exit, p) =>
        match exit with
        | .jump target => .ok ((srcSample, refSample), .jump target, p)
        | .done => referenceLoop params ref iterations srcSample refSample p

def checkReference (ref : F) (fixture : Fixture T) (p : Process) : Except Fault ((Bool × Fixture T) × Process) :=
  (oilTry (referenceLoop fixture.params (clsData.call ref) env.config.iterations.toNat fixture.srcSample
    fixture.refSample) p).bind fun ((srcSample, refSample), ret, p) =>
      let fixture := { fixture with srcSample, refSample }
      if ret then .ok ((false, fixture), p)
      else
        match checkViolation fixture.params srcSample refSample with
        | none => .error .astray
        | some false => .ok ((false, fixture), p)
        | some true => .ok ((true, { fixture with minVal := clsData.profiler.ends none, chosenImpl := none }), p)

def implementLoop (params : List OilParameter) (func : TestedFunction) (srcSample : List Arg) :
    (iterations : Nat) → (tdata : List Arg) → Process → Except Fault (List Arg × Exit × Process)
  | 0, tdata, p => .ok (tdata, .done, p)
  | iterations + 1, tdata, p =>
      (call func (armTestData params tdata srcSample) p).bind fun (tdata, exit, p) =>
        match exit with
        | .jump target => .ok (tdata, .jump target, p)
        | .done => implementLoop params func srcSample iterations tdata p

def checkImplement [LT T] [DecidableLT T] (implName : String) (func : F) (flags : Nat) (fixture : Fixture T)
    (p : Process) : Except Fault (Fixture T × Process) :=
  if env.cpuFlags &&& flags ≠ flags then .ok (fixture, p)
  else
    (oilTry (implementLoop fixture.params (clsData.call func) fixture.srcSample env.config.iterations.toNat
      fixture.tdata) p).bind fun (tdata, ret, p) =>
        let fixture := { fixture with tdata }
        if ret then .ok (fixture, p)
        else
          match checkViolation fixture.params fixture.srcSample tdata with
          | none => .error .astray
          | some false => .ok (fixture, p)
          | some true =>
              if clsData.checker.checkResult fixture.params fixture.refSample tdata = false then .ok (fixture, p)
              else
                let val := clsData.profiler.ends (some implName)
                if val < fixture.minVal then .ok ({ fixture with minVal := val, chosenImpl := some implName }, p)
                else .ok (fixture, p)

def optimizeClass [Zero T] [LT T] [DecidableLT T] (cls : OilClass F (OilClassData F T)) (ref : F) (p : Process) :
    Except Fault (OilClass F (OilClassData F T) × Process) :=
  let params := calcSampleLayout env.config env.guards clsData.parameters
  let clsData := { clsData with parameters := params }
  (checkReference env clsData ref (Fixture.setUp clsData params) (faultCheckEnable p)).bind fun ((_, fixture), p) =>
    let visitor implName func flags (userData : Except Fault (Fixture T × Process)) :=
      (false, userData.bind fun (fixture, p) => checkImplement env clsData implName func flags fixture p)
    (cls.implementsForeach visitor (.ok (fixture, p))).2.bind fun (fixture, p) =>
      .ok ({ cls with data := some clsData }.activateImplement fixture.chosenImpl, faultCheckDisable p)

def oilTestOptimizeClass [Zero T] [LT T] [DecidableLT T] (cls : OilClass F (OilClassData F T)) (p : Process) :
    Except Fault (OilClass F (OilClassData F T) × Process) :=
  match cls.data with
  | none => .ok (cls, p)
  | some clsData => optimizeClass env clsData cls cls.ref p

end Fixture

section Registry

variable {F T : Type}

/-- The test of one of the classes in the registry. -/
def onClass (reg : Registry F (OilClassData F T)) (cls : Nat)
    (function : OilClass F (OilClassData F T) → Process → Except Fault (OilClass F (OilClassData F T) × Process))
    (p : Process) : Except Fault (Registry F (OilClassData F T) × Process) :=
  if cls = null then .ok (reg, p)
  else
    match reg.classes cls with
    | none => .error .astray
    | some record =>
        (function { record.cls with slot := reg.slots record.slotP } p).bind fun (after, p) =>
          .ok ({ reg with
            classes := Function.update reg.classes cls (some { record with cls := after })
            slots := Function.update reg.slots record.slotP after.slot }, p)

def oilTestOptimizeClassAll [Zero T] [LT T] [DecidableLT T] (envs : Option String → Environment)
    (reg : Registry F (OilClassData F T)) (p : Process) : Except Fault (Registry F (OilClassData F T) × Process) :=
  match reg.oilClasses with
  | none => .ok (reg, p)
  | some ht =>
      ht.foreach (fun clsName cls visited => visited.bind fun (reg, p) =>
        onClass reg cls (oilTestOptimizeClass (envs clsName.text)) p) (.ok (reg, p))

end Registry

/-! ## Inside a test -/

/-- Nothing of the signal has changed. -/
structure Quiet (p q : Process) : Prop where
  disposition : q.disposition = p.disposition
  blocked : q.blocked = p.blocked
  enableLevel : q.enableLevel = p.enableLevel
  oldaction : q.oldaction = p.oldaction

theorem Quiet.trans (p q r : Process) (first : Quiet p q) (second : Quiet q r) : Quiet p r :=
  ⟨second.disposition.trans first.disposition, second.blocked.trans first.blocked,
    second.enableLevel.trans first.enableLevel, second.oldaction.trans first.oldaction⟩

/-- The only way a test ends the process. -/
def Excused (blocked : Bool) (fault : Fault) : Prop := fault = .killed ∧ blocked = true

section Calls

variable {func ref : TestedFunction} {args srcSample refSample tdata : List Arg} {params : List OilParameter}
  {p : Process}

/-- The process is in a try block, under the handler. -/
structure Process.Armed (p : Process) : Prop where
  handled : p.disposition = .sigillHandler
  tries : p.inTryBlock = true

/-- The statements leave what is said and are left by a jump to the frame where they ought to, unless
the process is killed. -/
def Leaves {α : Type} (p : Process) (run : Except Fault (α × Exit × Process)) (left : α) (illegal : Bool) : Prop :=
  Excused p.blocked .killed ∧ run = .error .killed ∨
    run = .ok (left, if illegal then .jump p.jumpEnv else .done, p)

theorem call_leaves (armed : p.Armed) (func : TestedFunction) (args : List Arg) :
    Leaves p (call func args p) (func.run args) (func.illegal args) := by
  cases illegal : func.illegal args with
  | false => exact .inr (by simp [call, illegal])
  | true =>
      cases blocked : p.blocked with
      | true => exact .inl ⟨⟨rfl, blocked⟩, by simp [call, illegal, illegalInstruction, blocked, Except.map]⟩
      | false =>
          right
          obtain ⟨handled, tries⟩ := armed
          obtain ⟨_, _, _, _, _, _, _⟩ := p
          dsimp only at handled tries blocked
          subst handled tries blocked
          rw [call, if_pos illegal]
          rfl

theorem referenceLoop_leaves (armed : p.Armed) (params : List OilParameter) (ref : TestedFunction)
    (iterations : Nat) (srcSample refSample : List Arg) :
    Leaves p (referenceLoop params ref iterations srcSample refSample p)
      ((Test.referenceLoop params ref iterations srcSample refSample).1,
        (Test.referenceLoop params ref iterations srcSample refSample).2.1)
      (Test.referenceLoop params ref iterations srcSample refSample).2.2 := by
  induction iterations generalizing srcSample refSample with
  | zero => exact .inr rfl
  | succ iterations ih =>
      rw [referenceLoop, Test.referenceLoop]
      rcases call_leaves armed ref refSample with ⟨excuse, killed⟩ | called
      · exact .inl ⟨excuse, by rw [killed]; rfl⟩
      · rw [called]
        cases ref.illegal refSample with
        | true => exact .inr rfl
        | false => exact ih _ _

theorem implementLoop_leaves (armed : p.Armed) (params : List OilParameter) (func : TestedFunction)
    (srcSample : List Arg) (iterations : Nat) (tdata : List Arg) :
    Leaves p (implementLoop params func srcSample iterations tdata p)
      (Test.implementLoop params func srcSample iterations tdata).1
      (Test.implementLoop params func srcSample iterations tdata).2 := by
  induction iterations generalizing tdata with
  | zero => exact .inr rfl
  | succ iterations ih =>
      rw [implementLoop, Test.implementLoop]
      rcases call_leaves armed func (armTestData params tdata srcSample) with ⟨excuse, killed⟩ | called
      · exact .inl ⟨excuse, by rw [killed]; rfl⟩
      · rw [called]
        cases func.illegal (armTestData params tdata srcSample) with
        | true => exact .inr rfl
        | false => exact ih _

/-- The jump goes to the frame that is there, and the statements have been left then. -/
theorem oilTry_leaves {α : Type} {stmts : Process → Except Fault (α × Exit × Process)} {left : α} {illegal : Bool}
    (handled : p.disposition = .sigillHandler)
    (leaves : ∀ q : Process, q.Armed → Leaves q (stmts q) left illegal) :
    Excused p.blocked .killed ∧ oilTry stmts p = .error .killed ∨
      ∃ q, oilTry stmts p = .ok (left, illegal, q) ∧ Quiet p q := by
  rcases leaves { p with inTryBlock := true, jumpEnv := some p.frames, frames := p.frames + 1 } ⟨handled, rfl⟩ with
    ⟨excuse, killed⟩ | left
  · exact .inl ⟨excuse, by rw [oilTry, killed]; rfl⟩
  · refine .inr ⟨{ p with inTryBlock := false, jumpEnv := some p.frames, frames := p.frames + 1 }, ?_, rfl, rfl,
      rfl, rfl⟩
    rw [oilTry, left]
    cases illegal with
    | false => rfl
    | true => exact if_pos rfl

end Calls

section Checks

variable {F T : Type} (env : Environment) (clsData : OilClassData F T) {p : Process} {blocked : Bool}

theorem checkReference_follows (handled : p.disposition = .sigillHandler) (same : p.blocked = blocked) (ref : F)
    (fixture : Fixture T) :
    Follows Quiet .astray (Excused blocked) p (Test.checkReference env clsData ref fixture)
      (checkReference env clsData ref fixture p) := by
  rcases oilTry_leaves handled fun q armed => referenceLoop_leaves armed fixture.params (clsData.call ref)
    env.config.iterations.toNat fixture.srcSample fixture.refSample with ⟨excuse, killed⟩ | ⟨q, left, quiet⟩
  · rw [checkReference, killed]
    exact .fails (same ▸ excuse)
  · rw [checkReference, left, Test.checkReference]
    obtain ⟨srcSample, refSample, illegal⟩ := Test.referenceLoop fixture.params (clsData.call ref)
      env.config.iterations.toNat fixture.srcSample fixture.refSample
    cases illegal with
    | true => exact .returned quiet _
    | false =>
        dsimp only [Except.bind]
        cases checkViolation fixture.params srcSample refSample with
        | none => exact .strays
        | some intact => cases intact <;> exact .returned quiet _

theorem checkImplement_follows [LT T] [DecidableLT T] (handled : p.disposition = .sigillHandler)
    (same : p.blocked = blocked) (implName : String) (func : F) (flags : Nat) (fixture : Fixture T) :
    Follows Quiet .astray (Excused blocked) p (Test.checkImplement env clsData implName func flags fixture)
      (checkImplement env clsData implName func flags fixture p) := by
  rw [checkImplement, Test.checkImplement]
  by_cases unsupported : env.cpuFlags &&& flags ≠ flags
  · rw [if_pos unsupported, if_pos unsupported]
    exact .returned ⟨rfl, rfl, rfl, rfl⟩ _
  rw [if_neg unsupported, if_neg unsupported]
  rcases oilTry_leaves handled fun q armed => implementLoop_leaves armed fixture.params (clsData.call func)
    fixture.srcSample env.config.iterations.toNat fixture.tdata with ⟨excuse, killed⟩ | ⟨q, left, quiet⟩
  · rw [killed]
    exact .fails (same ▸ excuse)
  · rw [left]
    obtain ⟨tdata, illegal⟩ := Test.implementLoop fixture.params (clsData.call func) fixture.srcSample
      env.config.iterations.toNat fixture.tdata
    cases illegal with
    | true => exact .returned quiet _
    | false =>
        dsimp only [Except.bind]
        cases checkViolation fixture.params fixture.srcSample tdata with
        | none => exact .strays
        | some intact =>
            cases intact with
            | false => exact .returned quiet _
            | true =>
                dsimp only [Option.bind_eq_bind, Option.bind_some]
                split_ifs <;> exact .returned quiet _

end Checks

/-! ## Whole tests -/

/-- The signal is as it was before. -/
structure Restored (p q : Process) : Prop where
  disposition : q.disposition = p.disposition
  blocked : q.blocked = p.blocked
  enableLevel : q.enableLevel = p.enableLevel

theorem Restored.trans (p q r : Process) (first : Restored p q) (second : Restored q r) : Restored p r :=
  ⟨second.disposition.trans first.disposition, second.blocked.trans first.blocked,
    second.enableLevel.trans first.enableLevel⟩

/-- No test is on, or those that are have installed the handler. -/
def Process.Ready (p : Process) : Prop :=
  p.enableLevel = 0 ∨ 0 < p.enableLevel ∧ p.disposition = .sigillHandler

theorem Process.Ready.restored {p q : Process} (ready : p.Ready) (restored : Restored p q) : q.Ready := by
  rw [Ready, restored.enableLevel, restored.disposition]
  exact ready

theorem faultCheckEnable_handled {p : Process} (ready : p.Ready) :
    (faultCheckEnable p).disposition = .sigillHandler := by
  rw [faultCheckEnable]
  rcases ready with level | ⟨level, handled⟩
  · rw [if_pos level]
  · rwa [if_neg level.ne']

theorem faultCheckEnable_blocked (p : Process) : (faultCheckEnable p).blocked = p.blocked := by
  rw [faultCheckEnable]
  split <;> rfl

theorem faultCheckDisable_restores {p q : Process} (ready : p.Ready) (quiet : Quiet (faultCheckEnable p) q) :
    Restored p (faultCheckDisable q) := by
  obtain ⟨disposition, blocked, enableLevel, oldaction⟩ := quiet
  rw [faultCheckEnable_blocked] at blocked
  rw [faultCheckEnable] at disposition enableLevel oldaction
  rcases ready with level | ⟨level, handled⟩
  · rw [if_pos level] at enableLevel oldaction
    dsimp only at enableLevel oldaction
    have last : q.enableLevel - 1 = 0 := by omega
    exact ⟨by simp [faultCheckDisable, last, oldaction], by simp [faultCheckDisable, last, blocked],
      by simp [faultCheckDisable, last, level]⟩
  · rw [if_neg level.ne'] at disposition enableLevel
    dsimp only at disposition enableLevel
    have same : q.enableLevel - 1 = p.enableLevel := by omega
    exact ⟨by simp [faultCheckDisable, same, level.ne', disposition],
      by simp [faultCheckDisable, same, level.ne', blocked], by simp [faultCheckDisable, same, level.ne']⟩

section Classes

variable {F T : Type} [LinearOrder T] [Zero T] {p : Process} {blocked : Bool}

omit [Zero T] in
theorem visits_eq (env : Environment) (clsData : OilClassData F T) (cls : OilClass F (OilClassData F T))
    (start : Except Fault (Fixture T × Process)) :
    (cls.implementsForeach (fun implName func flags (userData : Except Fault (Fixture T × Process)) =>
      (false, userData.bind fun (fixture, p) => checkImplement env clsData implName func flags fixture p)) start).2 =
      cls.bindings.foldl (fun run impl => run.bind fun result =>
        checkImplement env clsData impl.1 impl.2.1 impl.2.2 result.1 result.2) start := by
  rw [OilClass.implementsForeach, OilClass.foreachInternal, foreachLoop_continues fun _ _ _ _ => rfl]
  rfl

omit [Zero T] in
theorem visits_follow (env : Environment) (clsData : OilClassData F T) (handled : p.disposition = .sigillHandler)
    (same : p.blocked = blocked) (impls : List (String × F × Nat)) (fixture : Fixture T) :
    Follows Quiet .astray (Excused blocked) p (impls.foldl (visitImplement env clsData) (some fixture))
      (impls.foldl (fun run impl => run.bind fun result =>
        checkImplement env clsData impl.1 impl.2.1 impl.2.2 result.1 result.2) (.ok (fixture, p))) :=
  Follows.foldl (g := fun fixture impl => checkImplement env clsData impl.1 impl.2.1 impl.2.2 fixture) Quiet.trans impls
    (fun impl _ fixture _ quiet => checkImplement_follows env clsData (quiet.disposition.trans handled)
      (quiet.blocked.trans same) impl.1 impl.2.1 impl.2.2 fixture)
    (.returned ⟨rfl, rfl, rfl, rfl⟩ fixture)

theorem oilTestOptimizeClass_follows (ready : p.Ready) (same : p.blocked = blocked) (env : Environment)
    (cls : OilClass F (OilClassData F T)) :
    Follows Restored .astray (Excused blocked) p (Test.oilTestOptimizeClass env cls)
      (oilTestOptimizeClass env cls p) := by
  cases attached : cls.data with
  | none =>
      simp only [Test.oilTestOptimizeClass, oilTestOptimizeClass, attached]
      exact .returned ⟨rfl, rfl, rfl⟩ _
  | some clsData =>
      let params := calcSampleLayout env.config env.guards clsData.parameters
      let laidOut : OilClassData F T := { clsData with parameters := params }
      let relaid : OilClass F (OilClassData F T) := { cls with data := some laidOut }
      let last (fixture : Fixture T) := relaid.activateImplement fixture.chosenImpl
      have blocked := (faultCheckEnable_blocked p).trans same
      have tested := checkReference_follows env laidOut (faultCheckEnable_handled ready) blocked cls.ref
        (Fixture.setUp laidOut params)
      have visited (tested : Bool × Fixture T) (q : Process) (quiet : Quiet (faultCheckEnable p) q) :=
        (visits_follow env laidOut (quiet.disposition.trans (faultCheckEnable_handled ready))
          (quiet.blocked.trans blocked) cls.bindings tested.2).bind (f := fun fixture => some (last fixture))
          (g := fun fixture q => .ok (last fixture, faultCheckDisable q))
          fun fixture r later => .returned (faultCheckDisable_restores ready (quiet.trans _ _ _ later)) _
      have followed := tested.bind visited
      rw [oilTestOptimizeClass_eq env clsData cls attached]
      simp only [oilTestOptimizeClass, attached, optimizeClass, visits_eq]
      exact followed

omit [LinearOrder T] [Zero T] in
theorem onClass_follows {function : OilClass F (OilClassData F T) → Option (OilClass F (OilClassData F T))}
    {function' : OilClass F (OilClassData F T) → Process → Except Fault (OilClass F (OilClassData F T) × Process)}
    (follows : ∀ cls, Follows Restored .astray (Excused blocked) p (function cls) (function' cls p))
    (reg : Registry F (OilClassData F T)) (cls : Nat) :
    Follows Restored .astray (Excused blocked) p (reg.onClass cls function) (onClass reg cls function' p) := by
  rw [Registry.onClass, onClass]
  split
  · exact .returned ⟨rfl, rfl, rfl⟩ reg
  · cases reg.classes cls with
    | none => exact .strays
    | some record =>
        exact (follows _).bind (g := fun after q => .ok ({ reg with
          classes := Function.update reg.classes cls (some { record with cls := after })
          slots := Function.update reg.slots record.slotP after.slot }, q)) fun after q restored => .returned restored _

theorem oilTestOptimizeClassAll_follows (ready : p.Ready) (envs : Option String → Environment)
    (reg : Registry F (OilClassData F T)) :
    Follows Restored .astray (Excused p.blocked) p (Test.oilTestOptimizeClassAll envs reg)
      (oilTestOptimizeClassAll envs reg p) := by
  rw [Test.oilTestOptimizeClassAll, oilTestOptimizeClassAll]
  cases reg.oilClasses with
  | none => exact .returned ⟨rfl, rfl, rfl⟩ reg
  | some ht =>
      dsimp only
      rw [HashTable.foreach_eq_foldl, HashTable.foreach_eq_foldl]
      exact Follows.foldl (g := fun reg (entry : CharPointer × Nat) =>
          onClass reg entry.2 (oilTestOptimizeClass (envs entry.1.text)))
        Restored.trans _ (fun entry _ reg q restored => onClass_follows
          (oilTestOptimizeClass_follows (ready.restored restored) restored.blocked (envs entry.1.text)) reg entry.2)
        (.returned ⟨rfl, rfl, rfl⟩ reg)

end Classes

section AllClasses

variable {F T : Type} [LinearOrder T] [Zero T] {p : Process}

/-- Whatever illegal instructions the functions hold, the tests of all classes come to the end that
they have where an illegal instruction is only a failed test, and leave the signal as it was.  Only
a process that has blocked the signal is killed.  Where the classes can be tested, the end is one
with fastest functions in their slots. -/
theorem survives_illegal_instructions (envs : Option String → Environment) (slots : Nat → F)
    (classDataDestructor : Bool) {fresh reg : Registry F (OilClassData F T)}
    (started : (Registry.initial slots).init classDataDestructor = some fresh)
    {requests : List (Heap F × Request F (OilClassData F T))} (served : fresh.serve requests = some reg)
    {catalogue : Catalogue F (OilClassData F T)}
    (meant : (Catalogue.empty slots).run (requests.map Prod.snd) = catalogue) (ready : p.Ready) :
    (p.blocked = true ∧ oilTestOptimizeClassAll envs reg p = .error .killed ∨
      Test.oilTestOptimizeClassAll envs reg = none ∧ oilTestOptimizeClassAll envs reg p = .error .astray ∨
      ∃ last q, Test.oilTestOptimizeClassAll envs reg = some last ∧
        oilTestOptimizeClassAll envs reg p = .ok (last, q) ∧ Restored p q) ∧
    (OwnSlots catalogue → AllTestable envs Set.univ catalogue →
      p.blocked = true ∧ oilTestOptimizeClassAll envs reg p = .error .killed ∨
      ∃ last after q, oilTestOptimizeClassAll envs reg p = .ok (last, q) ∧ Restored p q ∧ last.Reads after ∧
        Optimized envs Set.univ catalogue after) := by
  have follows : p.blocked = true ∧ oilTestOptimizeClassAll envs reg p = .error .killed ∨
      Test.oilTestOptimizeClassAll envs reg = none ∧ oilTestOptimizeClassAll envs reg p = .error .astray ∨
      ∃ last q, Test.oilTestOptimizeClassAll envs reg = some last ∧
        oilTestOptimizeClassAll envs reg p = .ok (last, q) ∧ Restored p q := by
    rcases oilTestOptimizeClassAll_follows ready envs reg with ⟨_, ⟨rfl, blocked⟩, killed⟩ | stray
    · exact .inl ⟨blocked, killed⟩
    · exact .inr stray
  refine ⟨follows, fun own testable => ?_⟩
  obtain ⟨ht, _, _, kept, _, represents⟩ := Registry.Represents.reached started served
  rw [meant] at represents
  obtain ⟨last, after, ran, keptLast, representsLast, optimized⟩ := optimizes_registry represents kept own testable
  rcases follows with killed | ⟨lost, _⟩ | ⟨_, q, same, followed, restored⟩
  · exact .inl killed
  · exact (Option.some_ne_none _ (ran.symm.trans lost)).elim
  · obtain rfl := Option.some.inj (ran.symm.trans same)
    exact .inr ⟨last, after, q, followed, restored, representsLast.reads keptLast, optimized⟩

end AllClasses

/-- Fills like the others, and then meets an instruction that the CPU does not have. -/
def strayingFunction : TestedFunction := { fillingFunction 7 with illegal := fun _ => true }

def strayingClassData : OilClassData Nat Nat :=
  { fillingClassData with call := fun func => if func = 3 then strayingFunction else fillingFunction 7 }

def strayingRequests : List (Heap Nat × Request Nat (OilClassData Nat Nat)) :=
  [.register (some "class") (some 0) (some 4), .addData (some "class") (some strayingClassData),
    .implement (some "class") (.add (some "b") (some 2) 0), .implement (some "class") (.add (some "c") (some 3) 0)].map
      fun request => (⟨fun _ => .inPlace, fun _ => ⟨none, 0, 0⟩⟩, request)

theorem strayingRequests_classes {clsName : String} {class_ : ClassMeaning Nat (OilClassData Nat Nat)}
    (known : ((Catalogue.empty fun _ => 0).run (strayingRequests.map Prod.snd)).classes clsName = some class_) :
    clsName = "class" ∧ class_.data = some strayingClassData := by
  by_cases isClass : clsName = "class"
  · subst isClass
    obtain rfl := Option.some.inj known
    exact ⟨rfl, rfl⟩
  · simp [strayingRequests, Catalogue.run, Catalogue.step, Catalogue.amend, Catalogue.empty, isClass] at known

/-- The fastest implement is the one that cannot run. -/
theorem survives_illegal_instructions_straying : ∃ fresh reg last : Registry Nat (OilClassData Nat Nat), ∃ q,
    (Registry.initial fun _ => 0).init true = some fresh ∧ fresh.serve strayingRequests = some reg ∧
    oilTestOptimizeClassAll (fun _ => ⟨⟨0, 0, 1, 1, 2⟩, fun _ => 0, 0⟩) reg
      ⟨.other 1, false, false, 0, .other 0, none, 0⟩ = .ok (last, q) ∧
    last.slots 4 = 2 ∧ q.disposition = .other 1 := by
  have ran : ((Registry.initial fun _ => 0).init true).bind (fun fresh => (fresh.serve strayingRequests).bind fun reg =>
      match oilTestOptimizeClassAll (fun _ => ⟨⟨0, 0, 1, 1, 2⟩, fun _ => 0, 0⟩) reg
        ⟨.other 1, false, false, 0, .other 0, none, 0⟩ with
      | .ok (last, _) => some (last.slots 4)
      | .error _ => none) = some 2 := by decide +kernel
  obtain ⟨fresh, started, ran⟩ := Option.bind_eq_some_iff.mp ran
  obtain ⟨reg, served, ran⟩ := Option.bind_eq_some_iff.mp ran
  have own : OwnSlots ((Catalogue.empty fun _ => 0).run (strayingRequests.map Prod.snd)) := fun _ _ _ _ known other _ =>
    (strayingRequests_classes known).1.trans (strayingRequests_classes other).1.symm
  have testable : AllTestable (fun _ => ⟨⟨0, 0, 1, 1, 2⟩, fun _ => 0, 0⟩) Set.univ
      ((Catalogue.empty fun _ => 0).run (strayingRequests.map Prod.snd)) := by
    intro clsName _ class_ clsData known attached
    obtain rfl := Option.some.inj ((strayingRequests_classes known).2.symm.trans attached)
    exact testable_filling rfl
  rcases (survives_illegal_instructions _ (fun _ => 0) true started served rfl
    (p := ⟨.other 1, false, false, 0, .other 0, none, 0⟩) (.inl rfl)).2 own testable with
    ⟨blocked, _⟩ | ⟨last, _, q, tested, restored, _⟩
  · contradiction
  · rw [tested] at ran
    exact ⟨fresh, reg, last, q, started, served, tested, Option.some.inj ran, restored.disposition⟩

end Oil.Test.Signals
