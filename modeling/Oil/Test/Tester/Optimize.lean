import Oil.Data.Best
import Oil.Test.Tester.Bounds

namespace Oil.Core.OilClass

variable {F D : Type} {cls : OilClass F D}

theorem activateImplement_of_binding (wellFormed : cls.WellFormed) {binding : String × F × Nat}
    (registered : binding ∈ cls.bindings) :
    (cls.activateImplement (some binding.1)).slot = binding.2.1 ∧
    (cls.activateImplement (some binding.1)).getActiveImplement = some (some binding.1) := by
  obtain ⟨entry, inImpls, rfl⟩ := List.mem_map.mp registered
  obtain ⟨inOccupied, named⟩ := mem_namedImpls.mp inImpls
  have called := OilImplement.name_of_named named
  rcases find_cases cls entry.binding.1 with ⟨i, found, searched, atI, hit⟩ | ⟨_, absent⟩
  · obtain ⟨j, atJ⟩ := List.getElem?_of_mem inOccupied
    have readI := wellFormed.implementsGet atI hit
    rw [wellFormed.implementsGet atJ called, Option.some.injEq, Prod.mk.injEq] at readI
    have activated : cls.activateImplement (some entry.binding.1) =
        { cls with slot := found.impl, activeImpl := some ⟨cls.block, i⟩ } := by
      simp only [activateImplement, searched, (occupied_getElem? atI).2]
    rw [activated]
    refine ⟨readI.1.symm, ?_⟩
    simp only [getActiveImplement, (occupied_getElem? atI).2, Option.map_some, hit, if_true]
  · exact absurd called (absent entry inOccupied)

end Oil.Core.OilClass

namespace Oil.Test

open Oil.Core Oil.Data

variable {F T : Type} {params : List OilParameter} (env : Environment) (clsData : OilClassData F T)

/-- An implement the CPU supports that, run on a fresh copy of the sample, meets no illegal
instruction, passes the bounds check and is accepted by the checker. -/
def eligible (fixture : Fixture T) (impl : String × F × Nat) : Bool :=
  decide (env.cpuFlags &&& impl.2.2 = impl.2.2) &&
  !(clsData.call impl.2.1).illegal fixture.srcSample &&
  decide (checkViolation fixture.params fixture.srcSample ((clsData.call impl.2.1).run fixture.srcSample) =
    some true) &&
  clsData.checker.checkResult fixture.params fixture.refSample ((clsData.call impl.2.1).run fixture.srcSample)

def OilClassData.time (impl : String × F × Nat) : T := clsData.profiler.ends (some impl.1)

section Loop

/-- Only the last iteration counts, and it starts from a fresh copy of the sample. -/
theorem implementLoop_succ {func : TestedFunction} {srcSample tdata : List Arg} (iterations : Nat)
    (sampled : Allocated params srcSample) (allocated : Allocated params tdata) :
    implementLoop params func srcSample (iterations + 1) tdata =
      (func.run srcSample, func.illegal srcSample) := by
  induction iterations generalizing tdata with
  | zero =>
      simp only [implementLoop, armTestData_eq allocated sampled]
      cases func.illegal srcSample <;> rfl
  | succ iterations ih =>
      rw [implementLoop, armTestData_eq allocated sampled, ih (sampled.run func)]
      cases func.illegal srcSample <;> rfl

end Loop

/-- The fixture stands where the scan over the implements tested so far stands. -/
def Fixture.Follows (start : Fixture T) (best : Best (String × F × Nat) T) (fixture : Fixture T) : Prop :=
  ∃ tdata, Allocated start.params tdata ∧
    fixture = { start with tdata, minVal := best.bound, chosenImpl := best.choice.map Prod.fst }

variable {env clsData}

theorem reference_follows [Zero T] {func : F} {passed : Bool} {start : Fixture T}
    (returned : checkReference env clsData func (Fixture.setUp clsData params) = some (passed, start)) :
    start.params = params ∧ Allocated start.params start.srcSample ∧
    start.Follows (⟨none, start.minVal⟩ : Best (String × F × Nat) T) start ∧
    start.minVal = if passed then clsData.profiler.ends none else 0 := by
  obtain ⟨sampled, allocated, tested⟩ := Fixture.setUp_allocated clsData params
  obtain ⟨srcSample, refSample, sampledAfter, rfl⟩ := checkReference_cases env clsData sampled allocated returned
  refine ⟨rfl, sampledAfter, ⟨_, tested, ?_⟩, rfl⟩
  cases passed <;> rfl

section Reference

variable (env clsData) (func : F) (params : List OilParameter)

/-- The sample a reference run leaves: what the reference's own buffers held before its last
iteration, and the generated sample where there is no iteration. -/
def sampleLeft : List Arg :=
  if env.config.iterations.toNat = 0 then clsData.checker.generateSample params (mayAllocMemOfParams params)
  else (clsData.call func).run^[env.config.iterations.toNat - 1] (mayAllocMemOfParams params)

/-- The reference's buffers after its iterations. -/
def resultLeft : List Arg := (clsData.call func).run^[env.config.iterations.toNat] (mayAllocMemOfParams params)

/-- The reference meets no illegal instruction, in any of its iterations, and keeps within its bounds. -/
structure ReferencePasses : Prop where
  legal : (clsData.call func).LegalFor env.config.iterations.toNat (mayAllocMemOfParams params)
  intact : checkViolation params (sampleLeft env clsData func params) (resultLeft env clsData func params) = some true

/-- The fixture after a reference run that passes. -/
def Fixture.afterReference [Zero T] : Fixture T :=
  { Fixture.setUp clsData params with
    srcSample := sampleLeft env clsData func params
    refSample := resultLeft env clsData func params
    minVal := clsData.profiler.ends none }

variable {env clsData func params}

theorem checkReference_iff [Zero T] (iterates : 0 < env.config.iterations) {start : Fixture T} :
    checkReference env clsData func (Fixture.setUp clsData params) = some (true, start) ↔
      ReferencePasses env clsData func params ∧ start = Fixture.afterReference env clsData func params := by
  obtain ⟨sampled, allocated, _⟩ := Fixture.setUp_allocated clsData params
  have left : sampleLeft env clsData func params =
      (clsData.call func).run^[env.config.iterations.toNat - 1] (mayAllocMemOfParams params) := if_neg (by omega)
  rw [checkReference_true env clsData func iterates sampled allocated]
  constructor
  · rintro ⟨legal, intact, rfl⟩
    refine ⟨⟨legal, left ▸ intact⟩, ?_⟩
    rw [Fixture.afterReference, left]
    rfl
  · rintro ⟨⟨legal, intact⟩, rfl⟩
    refine ⟨legal, left ▸ intact, ?_⟩
    rw [Fixture.afterReference, left]
    rfl

/-- A reference run that comes to an end either passes or does not. -/
theorem checkReference_passed [Zero T] (iterates : 0 < env.config.iterations) {passed : Bool} {start : Fixture T}
    (returned : checkReference env clsData func (Fixture.setUp clsData params) = some (passed, start)) :
    (passed = true ∧ ReferencePasses env clsData func params ∧ start = Fixture.afterReference env clsData func params) ∨
      (passed = false ∧ ¬ ReferencePasses env clsData func params) := by
  cases passed with
  | true => exact .inl ⟨rfl, (checkReference_iff iterates).mp returned⟩
  | false =>
      refine .inr ⟨rfl, fun passes => ?_⟩
      have passed := (checkReference_iff iterates).mpr ⟨passes, rfl⟩
      exact nomatch returned.symm.trans passed

end Reference

variable [LinearOrder T]

section Tests

variable {start fixture after : Fixture T} {best : Best (String × F × Nat) T}

theorem Fixture.Follows.rejected {candidate : String × F × Nat → Bool} {cost : String × F × Nat → T}
    {impl : String × F × Nat} {tdata : List Arg} (allocated : Allocated start.params tdata)
    (rejects : candidate impl = false) :
    start.Follows (best.keep candidate cost impl)
      { start with tdata, minVal := best.bound, chosenImpl := best.choice.map Prod.fst } := by
  rw [Best.keep, if_neg (by simp [rejects])]
  exact ⟨tdata, allocated, rfl⟩

theorem checkImplement_follows (iterates : 0 < env.config.iterations)
    (sampled : Allocated start.params start.srcSample) (follows : start.Follows best fixture)
    (impl : String × F × Nat)
    (checked : checkImplement env clsData impl.1 impl.2.1 impl.2.2 fixture = some after) :
    start.Follows (best.keep (eligible env clsData start) clsData.time impl) after := by
  obtain ⟨n, count⟩ : ∃ n, env.config.iterations.toNat = n + 1 := ⟨env.config.iterations.toNat - 1, by omega⟩
  have ran : Allocated start.params ((clsData.call impl.2.1).run start.srcSample) := sampled.run _
  obtain ⟨tdata, allocated, rfl⟩ := follows
  rw [checkImplement] at checked
  split at checked
  case isTrue unsupported =>
    obtain rfl := Option.some.inj checked
    exact .rejected allocated (by simp [eligible, unsupported])
  case isFalse supported =>
    rw [ne_eq, not_not] at supported
    rw [count, implementLoop_succ n sampled allocated] at checked
    dsimp only at checked
    split at checked
    case isTrue faulted =>
      obtain rfl := Option.some.inj checked
      exact .rejected ran (by simp [eligible, faulted])
    case isFalse legal =>
      obtain ⟨intact, verdict, checked⟩ := Option.bind_eq_some_iff.mp checked
      split at checked
      case isTrue violated =>
        obtain rfl := Option.some.inj checked
        exact .rejected ran (by simp [eligible, verdict, violated])
      case isFalse unviolated =>
        obtain rfl := (Bool.not_eq_false intact).mp unviolated
        split at checked
        case isTrue refused =>
          obtain rfl := Option.some.inj checked
          exact .rejected ran (by simp [eligible, refused])
        case isFalse accepted =>
          have passes : eligible env clsData start impl = true := by
            simp [eligible, supported, legal, verdict, accepted]
          split at checked
          case isTrue faster =>
            obtain rfl := Option.some.inj checked
            rw [Best.keep, if_pos ⟨passes, faster⟩]
            exact ⟨_, ran, rfl⟩
          case isFalse slower =>
            obtain rfl := Option.some.inj checked
            rw [Best.keep, if_neg fun keeps => slower keeps.2]
            exact ⟨_, ran, rfl⟩

def visitImplement (env : Environment) (clsData : OilClassData F T) (fixture : Option (Fixture T))
    (impl : String × F × Nat) : Option (Fixture T) :=
  fixture.bind fun fixture => checkImplement env clsData impl.1 impl.2.1 impl.2.2 fixture

theorem visits_follow (iterates : 0 < env.config.iterations) (sampled : Allocated start.params start.srcSample)
    (impls : List (String × F × Nat)) (follows : start.Follows best fixture)
    (visited : impls.foldl (visitImplement env clsData) (some fixture) = some after) :
    start.Follows (impls.foldl (Best.keep (eligible env clsData start) clsData.time) best) after := by
  induction impls generalizing fixture best with
  | nil =>
      obtain rfl := Option.some.inj visited
      exact follows
  | cons impl impls ih =>
      rw [List.foldl_cons] at visited ⊢
      cases checked : checkImplement env clsData impl.1 impl.2.1 impl.2.2 fixture with
      | none =>
          have lost (rest : List (String × F × Nat)) : rest.foldl (visitImplement env clsData) none = none := by
            induction rest with
            | nil => rfl
            | cons _ _ ih => exact ih
          rw [visitImplement, Option.bind_some, checked, lost] at visited
          contradiction
      | some next =>
          rw [visitImplement, Option.bind_some, checked] at visited
          exact ih (checkImplement_follows iterates sampled follows impl checked) visited

theorem visits_end (clsData : OilClassData F T) (iterates : 0 < env.config.iterations)
    (sampled : Allocated start.params start.srcSample)
    (sane : ∀ p ∈ start.params, p.isPointer = true → p.Sane) (impls : List (String × F × Nat))
    (follows : start.Follows best fixture) :
    ∃ after, impls.foldl (visitImplement env clsData) (some fixture) = some after := by
  induction impls generalizing fixture best with
  | nil => exact ⟨fixture, rfl⟩
  | cons impl impls ih =>
      obtain ⟨next, checked⟩ : ∃ next, checkImplement env clsData impl.1 impl.2.1 impl.2.2 fixture = some next := by
        obtain ⟨n, count⟩ : ∃ n, env.config.iterations.toNat = n + 1 :=
          ⟨env.config.iterations.toNat - 1, by omega⟩
        obtain ⟨intact, verdict⟩ := checkViolation_inside sane start.srcSample
          (sampled.run (clsData.call impl.2.1))
        obtain ⟨tdata, allocated, rfl⟩ := follows
        rw [checkImplement, count, implementLoop_succ n sampled allocated]
        dsimp only
        simp only [verdict, Option.bind_eq_bind, Option.bind_some]
        split
        · exact ⟨_, rfl⟩
        split
        · exact ⟨_, rfl⟩
        split
        · exact ⟨_, rfl⟩
        split
        · exact ⟨_, rfl⟩
        split <;> exact ⟨_, rfl⟩
      rw [List.foldl_cons, visitImplement, Option.bind_some, checked]
      exact ih (checkImplement_follows iterates sampled follows impl checked)

end Tests

section Optimizing

/-- The first of the fastest eligible implements that are faster than the reference. -/
def bestImplement (env : Environment) (clsData : OilClassData F T) (fixture : Fixture T)
    (impls : List (String × F × Nat)) : Option (String × F × Nat) :=
  (impls.filter fun impl =>
    eligible env clsData fixture impl && decide (clsData.time impl < clsData.profiler.ends none)).argmin clsData.time

theorem bestImplement_mem {fixture : Fixture T} {impls : List (String × F × Nat)} {impl : String × F × Nat}
    (best : bestImplement env clsData fixture impls = some impl) : impl ∈ impls :=
  List.mem_of_mem_filter (List.argmin_mem best)

theorem chosenImpl_eq [Zero T] (iterates : 0 < env.config.iterations)
    (nonneg : ∀ who, 0 ≤ clsData.profiler.ends who) {func : F} {passed : Bool} {start after : Fixture T}
    (impls : List (String × F × Nat))
    (returned : checkReference env clsData func (Fixture.setUp clsData params) = some (passed, start))
    (visited : impls.foldl (visitImplement env clsData) (some start) = some after) :
    after.chosenImpl = (if passed then bestImplement env clsData start impls else none).map Prod.fst := by
  obtain ⟨_, sampled, follows, bound⟩ := reference_follows returned
  obtain ⟨tdata, _, rfl⟩ := visits_follow iterates sampled impls follows visited
  rw [Best.scan_choice, bound]
  cases passed with
  | true => rfl
  | false =>
      have none_below : (impls.filter fun impl =>
          eligible env clsData start impl && decide (clsData.time impl < 0)) = [] := by
        rw [List.filter_eq_nil_iff]
        intro impl _
        simp [OilClassData.time, not_lt.mpr (nonneg (some impl.1))]
      simp only [Bool.false_eq_true, if_false, none_below]
      rfl

theorem visitImplement_eq (cls : OilClass F (OilClassData F T)) (fixture : Fixture T) :
    (cls.implementsForeach (fun implName func flags userData => (false, Option.bind userData fun fixture =>
      checkImplement env clsData implName func flags fixture)) (some fixture)).2 =
      cls.bindings.foldl (visitImplement env clsData) (some fixture) := by
  rw [OilClass.implementsForeach, OilClass.foreachInternal, foreachLoop_continues fun _ _ _ _ => rfl]
  rfl

end Optimizing

variable [Zero T] (env clsData)

theorem oilTestOptimizeClass_eq (cls : OilClass F (OilClassData F T)) (attached : cls.data = some clsData) :
    oilTestOptimizeClass env cls =
      (checkReference env clsData cls.ref
        (Fixture.setUp clsData (calcSampleLayout env.config env.guards clsData.parameters))).bind fun tested =>
      (cls.bindings.foldl (visitImplement env clsData) (some tested.2)).bind fun fixture =>
      some (({ cls with data := some { clsData with
          parameters := calcSampleLayout env.config env.guards clsData.parameters } } :
        OilClass F (OilClassData F T)).activateImplement fixture.chosenImpl) := by
  rw [oilTestOptimizeClass, attached]
  simp only [optimizeClass, visitImplement_eq]
  rfl

/-- The implement is active and in the slot, or where there is none, the reference. -/
def Activates (cls next : OilClass F (OilClassData F T)) : Option (String × F × Nat) → Prop
  | some (implName, func, _) => next.slot = func ∧ next.getActiveImplement = some (some implName)
  | none => next.slot = cls.ref ∧ next.getActiveImplement = some none

/-- Optimizing a class activates the first of the fastest eligible implements that are faster
than the reference, and the reference where there is none or the reference itself fails; the
tests come to an end wherever the arrays are well laid out. -/
structure Chooses (cls : OilClass F (OilClassData F T)) : Prop where
  ends : (∀ p ∈ calcSampleLayout env.config env.guards clsData.parameters, p.isPointer = true → p.Sane) →
    (oilTestOptimizeClass env cls).isSome = true
  passed : ReferencePasses env clsData cls.ref (calcSampleLayout env.config env.guards clsData.parameters) →
    ∀ next, oilTestOptimizeClass env cls = some next →
      Activates cls next (bestImplement env clsData (Fixture.afterReference env clsData cls.ref
        (calcSampleLayout env.config env.guards clsData.parameters)) cls.bindings)
  failed : ¬ ReferencePasses env clsData cls.ref (calcSampleLayout env.config env.guards clsData.parameters) →
    ∀ next, oilTestOptimizeClass env cls = some next → Activates cls next none

variable {env clsData} {cls : OilClass F (OilClassData F T)}

omit [LinearOrder T] [Zero T] in
theorem activates_of_chosen (wellFormed : cls.WellFormed) (relaid : OilClassData F T)
    {best : Option (String × F × Nat)} (registered : ∀ impl, best = some impl → impl ∈ cls.bindings) :
    Activates cls (({ cls with data := some relaid } : OilClass F (OilClassData F T)).activateImplement
      (best.map Prod.fst)) best := by
  have kept : ({ cls with data := some relaid } : OilClass F (OilClassData F T)).WellFormed :=
    ⟨wellFormed.roof, wellFormed.impls_le, wellFormed.occupied_le, wellFormed.length, wellFormed.count,
      wellFormed.distinct⟩
  cases best with
  | none => exact ⟨rfl, rfl⟩
  | some impl => exact OilClass.activateImplement_of_binding kept (registered impl rfl)

theorem chooses_of_iterates (attached : cls.data = some clsData) (wellFormed : cls.WellFormed)
    (iterates : 0 < env.config.iterations) (nonneg : ∀ who, 0 ≤ clsData.profiler.ends who) :
    Chooses env clsData cls := by
  have optimized := oilTestOptimizeClass_eq env clsData cls attached
  have activated (next : OilClass F (OilClassData F T)) (ended : oilTestOptimizeClass env cls = some next) :
      ∃ passed start, checkReference env clsData cls.ref
          (Fixture.setUp clsData (calcSampleLayout env.config env.guards clsData.parameters)) = some (passed, start) ∧
        Activates cls next (if passed then bestImplement env clsData start cls.bindings else none) := by
    rw [optimized] at ended
    obtain ⟨⟨passed, start⟩, returned, ended⟩ := Option.bind_eq_some_iff.mp ended
    obtain ⟨after, visited, ended⟩ := Option.bind_eq_some_iff.mp ended
    obtain rfl := Option.some.inj ended
    refine ⟨passed, start, returned, ?_⟩
    rw [chosenImpl_eq iterates nonneg cls.bindings returned visited]
    refine activates_of_chosen wellFormed _ fun impl best => ?_
    obtain ⟨_, best⟩ := Option.ite_none_right_eq_some.mp best
    exact bestImplement_mem best
  refine ⟨fun sane => ?_, fun passes next ended => ?_, fun fails next ended => ?_⟩
  · obtain ⟨⟨passed, start⟩, returned⟩ := checkReference_ends env clsData cls.ref sane
    obtain ⟨same, sampled, follows, _⟩ := reference_follows returned
    obtain ⟨after, visited⟩ := visits_end clsData iterates sampled (same ▸ sane) cls.bindings follows
    rw [optimized]
    simp only [returned, visited, Option.bind_some, Option.isSome_some]
  · obtain ⟨passed, start, returned, activates⟩ := activated next ended
    rcases checkReference_passed iterates returned with ⟨rfl, _, rfl⟩ | ⟨_, fails⟩
    · exact activates
    · exact absurd passes fails
  · obtain ⟨passed, start, returned, activates⟩ := activated next ended
    rcases checkReference_passed iterates returned with ⟨_, passes, _⟩ | ⟨rfl, _⟩
    · exact absurd passes fails
    · exact activates

theorem checkViolation_scales {params : List OilParameter} (scales : ∀ p ∈ params, p.isPointer = false)
    (srcData data : List Arg) : checkViolation params srcData data = some true := by
  induction params generalizing srcData data with
  | nil => rfl
  | cons p params ih =>
      have scale := scales p (.head _)
      have rest := ih fun other member => scales other (.tail _ member)
      cases srcData with
      | nil => rfl
      | cons src srcData =>
          cases data with
          | nil => rfl
          | cons arg data =>
              have intact : checkArg p src arg = some true := by
                cases src <;> cases arg <;> simp [checkArg, scale]
              simp only [checkViolation, intact, Option.bind_eq_bind, Option.bind_some, rest, if_true]

/-- Reference 0 takes 5, and implement 1, which no CPU can run, would take 3. -/
def unrunnableClassData : OilClassData Nat Nat where
  parameters := (oilPrototypeParse "int n".toList).getD []
  call func := { idleFunction with illegal := fun _ => func = 1 }
  checker := ⟨fun _ args => args, fun _ _ _ => true, fun _ _ => rfl⟩
  profiler := ⟨fun
    | none => 5
    | some _ => 3⟩

def unrunnableClass : OilClass Nat (OilClassData Nat Nat) where
  name := "class"
  slot := 0
  ref := 0
  nOccupied := 1
  nAlloc := 3
  nImpls := 1
  activeImpl := none
  block := 1
  impls := [⟨some "a", 1, 0⟩, ⟨none, 0, 0⟩, ⟨none, 0, 0⟩]
  data := some unrunnableClassData

theorem unrunnableClass_wellFormed : unrunnableClass.WellFormed :=
  ⟨by decide, by decide, by decide, by decide, by decide, by decide⟩

/-- Where there is no iteration, nothing shows that an implement cannot run. -/
theorem not_chooses_unrunnable {config : TestConfig} (never : ¬ 0 < config.iterations) (guards : ArgType → Int8)
    (cpuFlags : Nat) : ¬ Chooses ⟨config, guards, cpuFlags⟩ unrunnableClassData unrunnableClass := by
  intro chooses
  have none_run : config.iterations.toNat = 0 := by omega
  have scales : ∀ p ∈ calcSampleLayout config guards unrunnableClassData.parameters, p.isPointer = false := by
    have parsed : unrunnableClassData.parameters.map (·.isPointer) = [false] := by decide +kernel
    intro p member
    have known := List.mem_map_of_mem (f := (·.isPointer)) member
    rw [calcSampleLayout_isPointer, parsed, List.mem_singleton] at known
    exact known
  have intact := checkViolation_scales scales
  have passes : ReferencePasses ⟨config, guards, cpuFlags⟩ unrunnableClassData unrunnableClass.ref
      (calcSampleLayout config guards unrunnableClassData.parameters) := by
    refine ⟨fun k below => absurd below ?_, intact _ _⟩
    rw [none_run]
    exact Nat.not_lt_zero k
  have bindings : unrunnableClass.bindings = [("a", 1, 0)] := by decide
  obtain ⟨next, ended, active⟩ : ∃ next, oilTestOptimizeClass ⟨config, guards, cpuFlags⟩ unrunnableClass = some next ∧
      Activates unrunnableClass next (some ("a", 1, 0)) := by
    have registered : ∀ impl, some ("a", 1, 0) = some impl → impl ∈ unrunnableClass.bindings := by simp [bindings]
    refine ⟨_, ?_, activates_of_chosen unrunnableClass_wellFormed { unrunnableClassData with
      parameters := calcSampleLayout config guards unrunnableClassData.parameters } registered⟩
    have faster : unrunnableClassData.profiler.ends (some "a") < unrunnableClassData.profiler.ends none := by decide
    have accepts (params : List OilParameter) (ref tdata : List Arg) :
        unrunnableClassData.checker.checkResult params ref tdata = true := rfl
    rw [oilTestOptimizeClass_eq ⟨config, guards, cpuFlags⟩ unrunnableClassData unrunnableClass rfl, bindings]
    simp [checkReference, checkImplement, visitImplement, referenceLoop, implementLoop, none_run, Fixture.setUp, intact,
      accepts, faster]
  have nobody : bestImplement ⟨config, guards, cpuFlags⟩ unrunnableClassData (Fixture.afterReference
      ⟨config, guards, cpuFlags⟩ unrunnableClassData unrunnableClass.ref
      (calcSampleLayout config guards unrunnableClassData.parameters)) unrunnableClass.bindings = none := by
    rw [bestImplement, bindings]
    simp [eligible, unrunnableClassData]
  have chosen := chooses.passed passes next ended
  rw [nobody] at chosen
  exact absurd (active.1.symm.trans chosen.1) (by decide)

/-- With at least one iteration, every class is left with the function it should have; without
one, there is a class that is not. -/
theorem optimizes_class_iff_iterates (config : TestConfig) (guards : ArgType → Int8) :
    (∀ (F T : Type) [LinearOrder T] [Zero T] (cpuFlags : Nat) (clsData : OilClassData F T)
        (cls : OilClass F (OilClassData F T)), cls.data = some clsData → cls.WellFormed →
        (∀ who, 0 ≤ clsData.profiler.ends who) → Chooses ⟨config, guards, cpuFlags⟩ clsData cls) ↔
      0 < config.iterations := by
  constructor
  · intro chooses
    by_contra never
    exact not_chooses_unrunnable never guards 0
      (chooses Nat Nat 0 unrunnableClassData unrunnableClass rfl unrunnableClass_wellFormed fun _ => Nat.zero_le _)
  · intro iterates F T _ _ cpuFlags clsData cls attached wellFormed nonneg
    exact chooses_of_iterates attached wellFormed iterates nonneg

/-- With no iteration, an implement is activated that never ran. -/
theorem never_ran_activated :
    ¬ ∀ (env : Environment) (clsData : OilClassData Nat Nat) (cls : OilClass Nat (OilClassData Nat Nat)),
      cls.data = some clsData → cls.WellFormed → (∀ who, 0 ≤ clsData.profiler.ends who) →
        Chooses env clsData cls :=
  fun chooses => not_chooses_unrunnable (by decide) (fun _ => 0) 0
    (chooses ⟨⟨0, 0, 1, 1, 0⟩, fun _ => 0, 0⟩ unrunnableClassData unrunnableClass rfl unrunnableClass_wellFormed
      fun _ => Nat.zero_le _)

def fillingFunction (byte : UInt8) : TestedFunction where
  run args := args.map (Arg.filled byte)
  illegal _ := false
  keepsShape args := by
    rw [List.map_map]
    exact List.map_congr_left fun arg _ => Arg.filled_shape byte arg

/-- Functions that all fill their array with 7, but for number 3, which is the fastest. -/
def fillingClassData : OilClassData Nat Nat where
  parameters := (oilPrototypeParse "uint8_t *d_1x1, int ds".toList).getD []
  call func := fillingFunction (if func = 3 then 8 else 7)
  checker := fillingChecker 5
  profiler := ⟨fun
    | none => 5
    | some "a" => 3
    | some "b" => 2
    | some _ => 1⟩

def fillingClass : OilClass Nat (OilClassData Nat Nat) where
  name := "class"
  slot := 0
  ref := 0
  nOccupied := 3
  nAlloc := 3
  nImpls := 3
  activeImpl := none
  block := 1
  impls := [⟨some "a", 1, 0⟩, ⟨some "b", 2, 0⟩, ⟨some "c", 3, 0⟩]
  data := some fillingClassData

/-- The fastest implement fails the test, and the second in order is the fastest of the others. -/
theorem optimizes_class_filling :
    ∃ next, oilTestOptimizeClass ⟨⟨0, 0, 1, 1, 2⟩, fun _ => 0, 0⟩ fillingClass = some next ∧
      next.slot = 2 ∧ next.getActiveImplement = some (some "b") := by
  have accepted : oilPrototypeParse "uint8_t *d_1x1, int ds".toList = some fillingClassData.parameters := by
    decide +kernel
  have sane := calcSampleLayout_sane ⟨0, 0, 1, 1, 2⟩ (fun _ => 0) accepted
    (by unfold DistinctTypes; decide +kernel) (by decide) (by decide) (by decide) (by decide) (by decide +kernel)
  have chooses := (optimizes_class_iff_iterates ⟨0, 0, 1, 1, 2⟩ fun _ => 0).mpr (by decide) Nat Nat 0 fillingClassData
    fillingClass rfl ⟨by decide, by decide, by decide, by decide, by decide, by decide⟩ fun _ => Nat.zero_le _
  obtain ⟨next, ended⟩ := Option.isSome_iff_exists.mp (chooses.ends sane)
  have legal : (fillingClassData.call 0).LegalFor 2 (mayAllocMemOfParams
      (calcSampleLayout ⟨0, 0, 1, 1, 2⟩ (fun _ => 0) fillingClassData.parameters)) := fun _ _ => rfl
  have passes : ReferencePasses ⟨⟨0, 0, 1, 1, 2⟩, fun _ => 0, 0⟩ fillingClassData fillingClass.ref
      (calcSampleLayout ⟨0, 0, 1, 1, 2⟩ (fun _ => 0) fillingClassData.parameters) := ⟨legal, by decide +kernel⟩
  have best : bestImplement ⟨⟨0, 0, 1, 1, 2⟩, fun _ => 0, 0⟩ fillingClassData (Fixture.afterReference
      ⟨⟨0, 0, 1, 1, 2⟩, fun _ => 0, 0⟩ fillingClassData fillingClass.ref
      (calcSampleLayout ⟨0, 0, 1, 1, 2⟩ (fun _ => 0) fillingClassData.parameters)) fillingClass.bindings =
      some ("b", 2, 0) := by decide +kernel
  have activated := chooses.passed passes next ended
  rw [best] at activated
  exact ⟨next, ended, activated⟩

end Oil.Test
