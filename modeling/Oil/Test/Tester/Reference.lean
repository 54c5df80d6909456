import Mathlib.Logic.Function.Iterate
import Oil.Test.Tester.Model

namespace Oil.Test

variable {F T : Type} {params : List OilParameter}

section Arming

/-- The arguments have the buffer lengths and scale values `_may_alloc_mem_of_params` gives them. -/
def Allocated (params : List OilParameter) (args : List Arg) : Prop :=
  args.map Arg.shape = (mayAllocMemOfParams params).map Arg.shape

theorem Allocated.fresh (params : List OilParameter) : Allocated params (mayAllocMemOfParams params) := rfl

theorem Allocated.run (func : TestedFunction) {args : List Arg} (allocated : Allocated params args) :
    Allocated params (func.run args) := (func.keepsShape args).trans allocated

theorem armArg_eq {p : OilParameter} {tdata src : Arg} (tdataShape : tdata.shape = (mayAllocArg p).shape)
    (srcShape : src.shape = (mayAllocArg p).shape) : armArg p tdata src = src := by
  cases tdata with
  | scale value => rfl
  | buffer old =>
      cases src with
      | scale value => rfl
      | buffer new =>
          by_cases pointer : p.isPointer = true
          · simp only [mayAllocArg, if_pos pointer, Arg.shape, List.length_replicate, Sum.inl.injEq]
              at tdataShape srcShape
            rw [armArg, if_pos pointer, ← tdataShape, List.drop_length, tdataShape, ← srcShape,
              List.take_length, List.append_nil]
          · rw [armArg, if_neg pointer]

/-- Arming overwrites everything: the test data is a copy of the sample, whatever it was before. -/
theorem armTestData_eq {tdata srcSample : List Arg} (armed : Allocated params tdata)
    (sampled : Allocated params srcSample) : armTestData params tdata srcSample = srcSample := by
  induction params generalizing tdata srcSample with
  | nil =>
      rw [List.map_eq_nil_iff.mp armed, List.map_eq_nil_iff.mp sampled]
      rfl
  | cons p params ih =>
      cases tdata with
      | nil => exact absurd armed (by simp [Allocated, mayAllocMemOfParams])
      | cons old tdata =>
          cases srcSample with
          | nil => exact absurd sampled (by simp [Allocated, mayAllocMemOfParams])
          | cons src srcSample =>
              obtain ⟨oldShape, tdataShape⟩ := List.cons.inj armed
              obtain ⟨srcShape, sampleShape⟩ := List.cons.inj sampled
              rw [armTestData, armArg_eq oldShape srcShape, ih tdataShape sampleShape]

end Arming

section Reference

/-- The function meets no illegal instruction in so many calls, each on what the last one left. -/
def TestedFunction.LegalFor (func : TestedFunction) (calls : Nat) (args : List Arg) : Prop :=
  ∀ k < calls, func.illegal (func.run^[k] args) = false

variable {ref : TestedFunction} {srcSample refSample : List Arg}

theorem TestedFunction.legalFor_succ (func : TestedFunction) (calls : Nat) (args : List Arg) :
    func.LegalFor (calls + 1) args ↔ func.illegal args = false ∧ func.LegalFor calls (func.run args) := by
  constructor
  · intro legal
    exact ⟨legal 0 (by omega), fun k below => legal (k + 1) (by omega)⟩
  · rintro ⟨first, later⟩ k below
    cases k with
    | zero => exact first
    | succ k => exact later k (by omega)

theorem referenceLoop_illegal (iterations : Nat) :
    (referenceLoop params ref iterations srcSample refSample).2.2 = false ↔ ref.LegalFor iterations refSample := by
  induction iterations generalizing srcSample refSample with
  | zero => exact ⟨fun _ k below => absurd below (Nat.not_lt_zero k), fun _ => rfl⟩
  | succ iterations ih =>
      rw [TestedFunction.legalFor_succ, referenceLoop]
      cases first : ref.illegal refSample with
      | true => simp
      | false => simpa using ih

/-- The reference's buffers feed back into every iteration, and the sample is what they held
before the last one. -/
theorem referenceLoop_succ (iterations : Nat) (sampled : Allocated params srcSample)
    (allocated : Allocated params refSample) (legal : ref.LegalFor (iterations + 1) refSample) :
    referenceLoop params ref (iterations + 1) srcSample refSample =
      (ref.run^[iterations] refSample, ref.run^[iterations + 1] refSample, false) := by
  induction iterations generalizing srcSample refSample with
  | zero =>
      have first := legal 0 (by omega)
      rw [Function.iterate_zero_apply] at first
      simp only [referenceLoop, armTestData_eq sampled allocated, first]
      rfl
  | succ iterations ih =>
      obtain ⟨first, later⟩ := (ref.legalFor_succ _ _).mp legal
      rw [referenceLoop, armTestData_eq sampled allocated, first]
      exact ih allocated (allocated.run ref) later

theorem referenceLoop_allocated (ref : TestedFunction) (iterations : Nat)
    (sampled : Allocated params srcSample) (allocated : Allocated params refSample) :
    Allocated params (referenceLoop params ref iterations srcSample refSample).1 ∧
    Allocated params (referenceLoop params ref iterations srcSample refSample).2.1 := by
  induction iterations generalizing srcSample refSample with
  | zero => exact ⟨sampled, allocated⟩
  | succ iterations ih =>
      rw [referenceLoop, armTestData_eq sampled allocated]
      split
      · exact ⟨allocated, allocated.run ref⟩
      · exact ih allocated (allocated.run ref)

variable (env : Environment) (clsData : OilClassData F T)

theorem Fixture.setUp_allocated [Zero T] (params : List OilParameter) :
    Allocated params (Fixture.setUp clsData params : Fixture T).srcSample ∧
    Allocated params (Fixture.setUp clsData params : Fixture T).refSample ∧
    Allocated params (Fixture.setUp clsData params : Fixture T).tdata :=
  ⟨clsData.checker.keepsShape _ _, .fresh params, .fresh params⟩

/-- What `_check_reference` leaves behind, whatever it returns. -/
theorem checkReference_cases {func : F} {fixture after : Fixture T} {passed : Bool}
    (sampled : Allocated fixture.params fixture.srcSample) (allocated : Allocated fixture.params fixture.refSample)
    (returned : checkReference env clsData func fixture = some (passed, after)) :
    ∃ srcSample refSample, Allocated fixture.params srcSample ∧
      after = { fixture with
        srcSample, refSample
        minVal := if passed then clsData.profiler.ends none else fixture.minVal
        chosenImpl := if passed then none else fixture.chosenImpl } := by
  have kept := (referenceLoop_allocated (clsData.call func) env.config.iterations.toNat sampled allocated).1
  rw [checkReference] at returned
  dsimp only at returned
  split at returned
  case isTrue faulted =>
    obtain ⟨rfl, rfl⟩ := Prod.mk.inj (Option.some.inj returned)
    exact ⟨_, _, kept, rfl⟩
  case isFalse legal =>
    obtain ⟨intact, _, returned⟩ := Option.bind_eq_some_iff.mp returned
    split at returned
    case isTrue violated =>
      obtain ⟨rfl, rfl⟩ := Prod.mk.inj (Option.some.inj returned)
      exact ⟨_, _, kept, rfl⟩
    case isFalse unviolated =>
      obtain ⟨rfl, rfl⟩ := Prod.mk.inj (Option.some.inj returned)
      exact ⟨_, _, kept, rfl⟩

/-- When `_check_reference` returns `TRUE`, and with which buffers. -/
theorem checkReference_true (func : F) {fixture after : Fixture T} (iterates : 0 < env.config.iterations)
    (sampled : Allocated fixture.params fixture.srcSample)
    (allocated : Allocated fixture.params fixture.refSample) :
    checkReference env clsData func fixture = some (true, after) ↔
      (clsData.call func).LegalFor env.config.iterations.toNat fixture.refSample ∧
      checkViolation fixture.params ((clsData.call func).run^[env.config.iterations.toNat - 1] fixture.refSample)
        ((clsData.call func).run^[env.config.iterations.toNat] fixture.refSample) = some true ∧
      after = { fixture with
        srcSample := (clsData.call func).run^[env.config.iterations.toNat - 1] fixture.refSample
        refSample := (clsData.call func).run^[env.config.iterations.toNat] fixture.refSample
        minVal := clsData.profiler.ends none
        chosenImpl := none } := by
  obtain ⟨n, count⟩ : ∃ n, env.config.iterations.toNat = n + 1 := ⟨env.config.iterations.toNat - 1, by omega⟩
  by_cases legal : (clsData.call func).LegalFor env.config.iterations.toNat fixture.refSample
  · rw [count] at legal ⊢
    simp only [checkReference, count, referenceLoop_succ n sampled allocated legal, legal, true_and,
      Nat.add_sub_cancel, Bool.false_eq_true, if_false]
    cases checkViolation fixture.params ((clsData.call func).run^[n] fixture.refSample)
        ((clsData.call func).run^[n + 1] fixture.refSample) with
    | none => simp
    | some intact =>
        cases intact with
        | false => simp
        | true => simp [eq_comm]
  · have flagged : (referenceLoop fixture.params (clsData.call func) env.config.iterations.toNat
        fixture.srcSample fixture.refSample).2.2 = true := by
      rw [← Bool.not_eq_false]
      exact fun unflagged => legal ((referenceLoop_illegal _).mp unflagged)
    simp [checkReference, flagged, legal]

/-- A reference run that returns `TRUE` leaves the generated sample in place, exactly if the sample
is what all iterations but the last make of the reference's own buffers. -/
theorem reference_keeps_sample_iff (func : F) (fixture : Fixture T) (iterates : 0 < env.config.iterations)
    (sampled : Allocated fixture.params fixture.srcSample)
    (allocated : Allocated fixture.params fixture.refSample) :
    (∀ after, checkReference env clsData func fixture = some (true, after) →
      after.srcSample = fixture.srcSample ∧
      after.refSample = (clsData.call func).run fixture.srcSample) ↔
    ((clsData.call func).LegalFor env.config.iterations.toNat fixture.refSample →
      checkViolation fixture.params ((clsData.call func).run^[env.config.iterations.toNat - 1] fixture.refSample)
        ((clsData.call func).run^[env.config.iterations.toNat] fixture.refSample) = some true →
      (clsData.call func).run^[env.config.iterations.toNat - 1] fixture.refSample = fixture.srcSample) := by
  constructor
  · intro keeps legal intact
    have returned := (checkReference_true env clsData func iterates sampled allocated).mpr ⟨legal, intact, rfl⟩
    exact (keeps _ returned).1
  · intro condition after returned
    obtain ⟨legal, intact, rfl⟩ := (checkReference_true env clsData func iterates sampled allocated).mp returned
    have same := condition legal intact
    have last : env.config.iterations.toNat = env.config.iterations.toNat - 1 + 1 := by omega
    refine ⟨same, ?_⟩
    calc (clsData.call func).run^[env.config.iterations.toNat] fixture.refSample
      _ = (clsData.call func).run^[env.config.iterations.toNat - 1 + 1] fixture.refSample := by rw [← last]
      _ = (clsData.call func).run ((clsData.call func).run^[env.config.iterations.toNat - 1] fixture.refSample) :=
        Function.iterate_succ_apply' _ _ _
      _ = (clsData.call func).run fixture.srcSample := by rw [same]

def idleFunction : TestedFunction := ⟨id, fun _ => false, fun _ => rfl⟩

def Arg.filled (byte : UInt8) : Arg → Arg
  | .buffer bytes => .buffer (List.replicate bytes.length byte)
  | .scale value => .scale value

theorem Arg.filled_shape (byte : UInt8) (arg : Arg) : (arg.filled byte).shape = arg.shape := by
  cases arg with
  | buffer bytes => rw [filled, shape, List.length_replicate, shape]
  | scale value => rfl

/-- A checker whose samples are full of one byte, and that accepts only equal results. -/
def fillingChecker (byte : UInt8) : OilChecker where
  generateSample _ args := args.map (Arg.filled byte)
  checkResult _ ref tdata := decide (ref = tdata)
  keepsShape _ args := by
    rw [List.map_map]
    exact List.map_congr_left fun arg _ => Arg.filled_shape byte arg

def idleClassData : OilClassData Unit Nat where
  parameters := (oilPrototypeParse "uint8_t *s_1x1, int ss".toList).getD []
  call _ := idleFunction
  checker := fillingChecker 5
  profiler := ⟨fun _ => 1⟩

theorem reference_keeps_sample_iff_idle :
    ∃ after, checkReference ⟨⟨0, 0, 1, 1, 2⟩, fun _ => 5, 0⟩ idleClassData ()
        (Fixture.setUp idleClassData (calcSampleLayout ⟨0, 0, 1, 1, 2⟩ (fun _ => 5) idleClassData.parameters)) =
        some (true, after) ∧
      after.srcSample = (Fixture.setUp idleClassData
        (calcSampleLayout ⟨0, 0, 1, 1, 2⟩ (fun _ => 5) idleClassData.parameters) : Fixture Nat).srcSample ∧
      after.refSample = after.srcSample := by
  have passes : (checkReference ⟨⟨0, 0, 1, 1, 2⟩, fun _ => 5, 0⟩ idleClassData () (Fixture.setUp idleClassData
      (calcSampleLayout ⟨0, 0, 1, 1, 2⟩ (fun _ => 5) idleClassData.parameters))).map Prod.fst = some true := by
    decide +kernel
  obtain ⟨⟨passed, after⟩, returned, rfl⟩ := Option.map_eq_some_iff.mp passes
  have keeps := (reference_keeps_sample_iff ⟨⟨0, 0, 1, 1, 2⟩, fun _ => 5, 0⟩ idleClassData ()
    (Fixture.setUp idleClassData (calcSampleLayout ⟨0, 0, 1, 1, 2⟩ (fun _ => 5) idleClassData.parameters))
    (by decide) (by unfold Allocated; decide +kernel) (Allocated.fresh _)).mpr
    (fun _ _ => by decide +kernel) after returned
  exact ⟨after, returned, keeps.1, keeps.2.trans keeps.1.symm⟩

/-- A reference run that returns `TRUE` overwrites a sample that differs from the guard. -/
theorem reference_loses_sample :
    ¬ ∀ (env : Environment) (clsData : OilClassData Unit Nat) (func : Unit) (params : List OilParameter)
        (after : Fixture Nat), 0 < env.config.iterations →
      params = calcSampleLayout env.config env.guards clsData.parameters →
      checkReference env clsData func (Fixture.setUp clsData params) = some (true, after) →
      after.srcSample = (Fixture.setUp clsData params : Fixture Nat).srcSample ∧
      after.refSample = (clsData.call func).run (Fixture.setUp clsData params : Fixture Nat).srcSample := by
  intro keeps
  have lost : (checkReference ⟨⟨0, 0, 1, 1, 1⟩, fun _ => 0, 0⟩ idleClassData ()
      (Fixture.setUp idleClassData (calcSampleLayout ⟨0, 0, 1, 1, 1⟩ (fun _ => 0) idleClassData.parameters))).map
        (fun result => (result.1, result.2.srcSample)) = some (true, [.buffer [0], .scale 1]) := by
    decide +kernel
  obtain ⟨⟨passed, after⟩, returned, left⟩ := Option.map_eq_some_iff.mp lost
  obtain ⟨rfl, overwritten⟩ := Prod.mk.inj left
  have kept := (keeps _ idleClassData () _ after (by decide) rfl returned).1
  rw [overwritten] at kept
  revert kept
  decide +kernel

end Reference

end Oil.Test
