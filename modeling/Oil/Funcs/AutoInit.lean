import Oil.Funcs.IniInit.FromIni
import Oil.Test.Generators.AttachClasses
import Oil.Test.Tester.OptimizeAll

namespace Oil.Funcs

open Oil.Data Oil.Core Oil.Test Oil.Test.Program Oil.Test.RegClasses

/-! # The functions of oilfuncs, made ready by testing them -/

section Calls

variable {F T : Type} (domain : Domain) (headers : FileHeaders) (symbols : Symbols F) (tests : TestSymbols F T)
  (testHeaders : Headers) (heaps : Nat → Heap F)

def oilfuncsAttachClasses (reg : TestRegistry F T) : Option (TestRegistry F T) :=
  callText (oiltest tests) heaps testHeaders (attachFile domain.names (registrations domain.deffile)) reg

/-- `oilfuncs_init_auto`, with what the test of each class runs in. -/
def oilfuncsInitAuto [Zero T] [LT T] [DecidableLT T] (envs : Option String → Environment) (reg : TestRegistry F T) :
    Option (TestRegistry F T) := do
  let reg ← reg.init true
  let reg ← oilfuncsRegisterClasses domain headers symbols heaps reg
  let reg ← oilfuncsAttachClasses domain tests testHeaders heaps reg
  let reg ← oilfuncsRegisterImplements domain headers symbols heaps reg
  oilTestOptimizeClassAll envs reg

end Calls

/-- The generated file that attaches test data can be compiled. -/
structure Domain.Attaches (domain : Domain) (headers : Headers) : Prop where
  oiltest : AttachIncluded headers
  attachable : Attachable headers (domain.names.encodedBasename ++ "_attach_classes".toList) domain.deffile

section Catalogues

variable {F T : Type} (domain : Domain) (symbols : Symbols F) (tests : TestSymbols F T) (slots : Nat → F)

/-- The catalogue once classes, test data and implements are registered. -/
def Domain.prepared : TestCatalogue F T :=
  (attached tests (declare symbols (Catalogue.empty slots) domain.clsNames) (registrations domain.deffile)).enrich
    (RegImpls.implementsOf symbols domain.ini)

/-- The test data of a class. -/
def Domain.testData (clsName : List Char) : Option (OilClassData F T) :=
  firstData tests (registrations domain.deffile) (String.ofList clsName)

variable {domain symbols tests slots}

theorem Domain.prepared_classes (clsName : String) :
    (domain.prepared symbols tests slots).classes clsName =
      if clsName.toList ∈ domain.clsNames then
        some ⟨symbols.functions (refName clsName.toList), symbols.slots clsName.toList,
          RegImpls.implementsOf symbols domain.ini clsName, false, domain.testData tests clsName.toList⟩
      else none := by
  simp only [prepared, Catalogue.enrich, attached, declare, Catalogue.empty, testData, String.ofList_toList]
  split
  · simp [definedClass]
  · rfl

theorem Domain.ownSlots_prepared (linked : domain.Linked symbols) : OwnSlots (domain.prepared symbols tests slots) := by
  intro clsName other class_ otherClass known knownOther same
  rw [prepared_classes] at known knownOther
  obtain ⟨member, meaning⟩ := Option.ite_none_right_eq_some.mp known
  obtain ⟨memberOther, meaningOther⟩ := Option.ite_none_right_eq_some.mp knownOther
  obtain rfl := Option.some.inj meaning
  obtain rfl := Option.some.inj meaningOther
  exact String.toList_injective (linked.apart _ member _ memberOther same)

end Catalogues

section Initialised

variable {F T : Type} [LinearOrder T] [Zero T] (domain : Domain) (symbols : Symbols F) (tests : TestSymbols F T)
  {headers : FileHeaders} {testHeaders : Headers} {heaps : Nat → Heap F}

/-- Tests that every function passes, and an implement faster than the reference. -/
def mmxTests : TestSymbols Nat Nat where
  marshals _ _ := idleFunction
  checkers _ _ := fillingChecker 5
  profilers _ _ := ⟨fun
    | none => 5
    | some _ => 3⟩

def mmxPrototype : List Char := "uint8_t * d_8x8, int ds, uint8_t * s_8x8, int ss".toList

def mmxParameters : List OilParameter := (oilPrototypeParse mmxPrototype).getD []

def mmxData : OilClassData Nat Nat where
  parameters := mmxParameters
  call _ := idleFunction
  checker := fillingChecker 5
  profiler := ⟨fun
    | none => 5
    | some _ => 3⟩

theorem mmxDomain_clsNames : mmxDomain.clsNames = ["oil_copy8x8_u8".toList] := by decide +kernel

theorem mmxDomain_testData : mmxDomain.testData mmxTests "oil_copy8x8_u8".toList = some mmxData := by
  have listed : (registrations mmxDomain.deffile).map (fun vars => (vars.clsName, vars.paramList)) =
      [("oil_copy8x8_u8".toList, mmxPrototype)] := by decide +kernel
  have known : oilPrototypeParse mmxPrototype = some mmxParameters := by decide +kernel
  obtain ⟨vars, one, same⟩ := List.map_eq_singleton_iff.mp listed
  obtain ⟨clsName, paramList⟩ := Prod.mk.inj same
  rw [Domain.testData, firstData, one, List.findSome?_cons, String.toList_ofList, if_pos clsName, RegClasses.testData,
    attachment, paramList, known]
  rfl

theorem mmxDomain_testable : ∀ clsName ∈ mmxDomain.clsNames, ∀ clsData,
    mmxDomain.testData mmxTests clsName = some clsData → Testable ⟨⟨0, 0, 1, 1, 2⟩, fun _ => 0, 1⟩ clsData := by
  intro clsName member clsData data
  rw [mmxDomain_clsNames, List.mem_singleton] at member
  subst member
  obtain rfl := Option.some.inj (mmxDomain_testData.symm.trans data)
  have known : oilPrototypeParse mmxPrototype = some mmxParameters := by decide +kernel
  have distinct : DistinctTypes mmxParameters := by
    unfold DistinctTypes
    decide +kernel
  exact ⟨Int.natCast_succ_pos 1, fun _ => Nat.zero_le _, calcSampleLayout_sane ⟨0, 0, 1, 1, 2⟩ (fun _ => 0) known
    distinct (by decide) (by decide) (by decide) (by decide) (by decide +kernel)⟩

/-- There is one implement, number 1. -/
theorem mmxDomain_implements {implName : String} {func flags : Nat}
    (registered : RegImpls.implementsOf mmxSymbols mmxDomain.ini (String.ofList "oil_copy8x8_u8".toList) implName =
      some (func, flags)) : func = 1 := by
  obtain ⟨registration, got, same⟩ := Option.map_eq_some_iff.mp registered
  obtain ⟨funcls, found, bound⟩ := Option.bind_eq_some_iff.mp got
  rw [String.toList_ofList] at found
  obtain ⟨_, rfl⟩ := Prod.mk.inj (List.mem_singleton.mp (KeyedMap.mem_of_lookup found))
  obtain ⟨_, rfl⟩ := Prod.mk.inj (List.mem_singleton.mp (KeyedMap.mem_of_lookup bound))
  rw [← (Prod.mk.inj same).1]
  decide +kernel

theorem mmxDomain_attaches : mmxDomain.Attaches oiltestHeaders where
  oiltest := included_oiltest
  attachable := oilfuncsDef_attachable

end Initialised

end Oil.Funcs
