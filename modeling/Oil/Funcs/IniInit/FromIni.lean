import Oil.Funcs.IniInit.LastLine
import Oil.Test.Generators.RegisterClasses
import Oil.Test.Generators.RegisterImplements

namespace Oil.Funcs

open Oil.Data Oil.Core Oil.Test Oil.Test.Program Oil.Test.RegClasses

/-! # The functions of oilfuncs, made ready by a text

The library registers its classes and its implements with functions that the scripts have
written. -/

/-- What the functions are generated from: a file of definitions, and a dictionary of implements,
gone through in some order. -/
structure Domain where
  names : FileNames
  deffile : List Char
  name : List Char
  ini : Ini
  listed : List (List Char × List (List Char × Registration))
  identifier : IsIdentifier name
  iterates : RegImpls.Iterates ini listed

/-- The classes of the file. -/
def Domain.clsNames (domain : Domain) : List (List Char) := (registrations domain.deffile).map TmplVars.clsName

/-- What the files that register classes and implements include. -/
structure FileHeaders where
  classes : Headers
  implements : Headers

/-- These files can be compiled. -/
structure Domain.Compiles (domain : Domain) (headers : FileHeaders) : Prop where
  oilclass : RegisterIncluded headers.classes
  declarable : Declarable headers.classes (domain.names.encodedBasename ++ "_register_classes".toList) domain.deffile
  oilcore : RegImpls.Included headers.implements
  spelled : RegImpls.WellSpelled headers.implements domain.ini
  free : headers.implements.free (domain.name ++ "_register_implements".toList) = true

/-- The classes have variables of their own, and there are not too many. -/
structure Domain.Linked {F : Type} (domain : Domain) (symbols : Symbols F) : Prop where
  few : domain.clsNames.length < 2 ^ 30
  apart : Apart symbols domain.clsNames

section Calls

variable {F D : Type} (domain : Domain) (headers : FileHeaders) (symbols : Symbols F) (heaps : Nat → Heap F)
  (reg : Registry F D)

def oilfuncsRegisterClasses : Option (Registry F D) :=
  callText (oilcore symbols) heaps headers.classes (registerFile domain.names (registrations domain.deffile)) reg

def oilfuncsRegisterImplements : Option (Registry F D) :=
  callText (oilcore symbols) heaps headers.implements (RegImpls.gen domain.name domain.listed) reg

/-- `oilfuncs_init_from_ini`, with what it prints; no result where it aborts. -/
def oilfuncsInitFromIni (descriptions : List (List UInt8)) (cpuFlags : Nat) (oilfuncsIni : List UInt8) :
    Option (Registry F D × List Complaint) := do
  let reg ← reg.init false
  let reg ← oilfuncsRegisterClasses domain headers symbols heaps reg
  let reg ← oilfuncsRegisterImplements domain headers symbols heaps reg
  oilLoadIniText descriptions cpuFlags reg (some oilfuncsIni)

end Calls

section Offered

variable {F D : Type} (domain : Domain) (symbols : Symbols F) (slots : Nat → F)

/-- The catalogue once classes and implements are registered. -/
def Domain.offered : Catalogue F D :=
  (declare symbols (Catalogue.empty slots) domain.clsNames).enrich (RegImpls.implementsOf symbols domain.ini)

/-- The function that a line asks for in a class: that of an implement the CPU can run, under
flags that it has. -/
def Domain.asksFor (descriptions : List (List UInt8)) (cpuFlags : Nat) (clsName : List Char) (call : Activation) :
    Option F :=
  let parse := sectionFlags descriptions call.sectionName
  match RegImpls.implementsOf symbols domain.ini (String.ofList clsName) (textOf call.value) with
  | none => none
  | some (func, flags) =>
      if textOf call.key = String.ofList clsName ∧ parse.ret = true ∧ Supports cpuFlags parse.flags ∧
          Supports cpuFlags flags then some func
      else none

variable {domain symbols slots} {clsName : List Char} {descriptions : List (List UInt8)} {cpuFlags : Nat}

theorem Domain.offered_classes (clsName : String) :
    (domain.offered (D := D) symbols slots).classes clsName =
      if clsName.toList ∈ domain.clsNames then
        some { definedClass symbols clsName.toList with implements := RegImpls.implementsOf symbols domain.ini clsName }
      else none := by
  simp only [offered, Catalogue.enrich, declare, Catalogue.empty]
  split
  · simp [definedClass]
  · rfl

theorem Domain.lineWrite_of_asksFor (member : clsName ∈ domain.clsNames) {call : Activation} {func : F}
    (asks : domain.asksFor symbols descriptions cpuFlags clsName call = some func) :
    (domain.offered (D := D) symbols slots).lineWrite descriptions cpuFlags call =
      some (symbols.slots clsName, func) := by
  unfold asksFor at asks
  dsimp only at asks
  split at asks
  case h_1 => contradiction
  case h_2 bound =>
    obtain ⟨⟨named, runs⟩, same⟩ := Option.ite_none_right_eq_some.mp asks
    obtain rfl := Option.some.inj same
    have known : (domain.offered (D := D) symbols slots).classes (String.ofList clsName) = _ :=
      domain.offered_classes (String.ofList clsName)
    rw [String.toList_ofList, if_pos member] at known
    simp only [Catalogue.lineWrite, Catalogue.named, named, known, bound, Option.bind_eq_bind, Option.bind_some,
      if_pos runs]
    rfl

/-- A line that changes a slot asks for something in the class of the slot. -/
theorem Domain.asksFor_of_lineWrite {call : Activation} {write : Nat × F}
    (written : (domain.offered (D := D) symbols slots).lineWrite descriptions cpuFlags call = some write) :
    ∃ clsName ∈ domain.clsNames, symbols.slots clsName = write.1 ∧
      domain.asksFor symbols descriptions cpuFlags clsName call = some write.2 := by
  unfold Catalogue.lineWrite at written
  dsimp only at written
  split at written
  case h_2 => contradiction
  case h_1 class_ func flags bound =>
    obtain ⟨runs, same⟩ := Option.ite_none_right_eq_some.mp written
    obtain rfl := Option.some.inj same
    obtain ⟨_, known, implement⟩ := Option.bind_eq_some_iff.mp bound
    obtain ⟨_, impl, sameClass⟩ := Option.bind_eq_some_iff.mp implement
    obtain ⟨rfl, rfl⟩ := Prod.mk.inj (Option.some.inj sameClass)
    rw [domain.offered_classes] at known
    obtain ⟨member, sameMeaning⟩ := Option.ite_none_right_eq_some.mp known
    obtain rfl := Option.some.inj sameMeaning
    have key : textOf call.key = String.ofList (textOf call.key).toList := by rw [String.ofList_toList]
    have offers : RegImpls.implementsOf symbols domain.ini (textOf call.key) (textOf call.value) = some (func, flags) :=
      impl
    refine ⟨_, member, rfl, ?_⟩
    simp only [asksFor, ← key, offers]
    exact if_pos ⟨trivial, runs⟩

/-- The last write to the slot of a class is that of the last line that asks for something in it. -/
theorem Domain.lastWrite_eq (linked : domain.Linked symbols) (member : clsName ∈ domain.clsNames)
    (calls : List Activation) :
    lastWrite (calls.filterMap ((domain.offered (D := D) symbols slots).lineWrite descriptions cpuFlags))
        (symbols.slots clsName) =
      (calls.filterMap (domain.asksFor symbols descriptions cpuFlags clsName)).getLast? := by
  induction calls using List.reverseRecOn with
  | nil => rfl
  | append_singleton calls call ih =>
      rw [List.filterMap_append, List.filterMap_append, List.filterMap_cons, List.filterMap_cons, List.filterMap_nil,
        List.filterMap_nil]
      cases asks : domain.asksFor symbols descriptions cpuFlags clsName call with
      | some func =>
          rw [domain.lineWrite_of_asksFor member asks]
          dsimp only
          rw [lastWrite_concat, if_pos rfl, List.getLast?_concat]
      | none =>
          cases written : (domain.offered (D := D) symbols slots).lineWrite descriptions cpuFlags call with
          | none =>
              dsimp only
              rw [List.append_nil, List.append_nil, ih]
          | some write =>
              have differs : write.1 ≠ symbols.slots clsName := by
                intro same
                obtain ⟨other, isClass, slot, asked⟩ := domain.asksFor_of_lineWrite written
                obtain rfl := linked.apart other isClass clsName member (slot.trans same)
                exact Option.some_ne_none _ (asked.symm.trans asks)
              dsimp only
              rw [lastWrite_concat, if_neg differs, List.append_nil, ih]

end Offered

section Initialised

variable {F D : Type} {domain : Domain} {headers : FileHeaders} {symbols : Symbols F} {slots : Nat → F}
  {heaps : Nat → Heap F}

theorem callText_of_run {library : Library F D} {reg last : Registry F D} {declared : Headers} {text name : List Char}
    {items : List Item} (compiles : compile declared text = some (name, items))
    (ran : run library heaps reg items = some last) : callText library heaps declared text reg = some last := by
  rw [callText, compiles, Option.bind_some, ran]

/-- Once the classes are registered, with or without test data, so are the implements. -/
theorem Domain.implements_ready (compiles : domain.Compiles headers) (symbols : Symbols F) (granting : RegImpls.Granting heaps)
    {reg : Registry F D} {catalogue : Catalogue F D} {ht : HashTable CharPointer Nat}
    {given gone : List (Destroyed CharPointer Nat)} (kept : Registry.Kept reg ht given gone)
    (represents : Registry.Represents reg ht catalogue) :
    ∃ last, oilfuncsRegisterImplements domain headers symbols heaps reg = some last ∧ Registry.Kept last ht given gone ∧
      Registry.Represents last ht (catalogue.enrich (RegImpls.implementsOf symbols domain.ini)) := by
  obtain ⟨_, last, text, ran, keptLast, representsLast⟩ :=
    RegImpls.run_gen kept represents compiles.oilcore compiles.spelled domain.iterates domain.identifier compiles.free
      symbols granting
  exact ⟨last, callText_of_run text ran, keptLast, representsLast⟩

theorem Domain.classes_ready (compiles : domain.Compiles headers) (linked : domain.Linked symbols) (slots : Nat → F) (heaps : Nat → Heap F)
    (classDataDestructor : Bool) :
    ∃ fresh reg ht given gone, (Registry.initial slots).init classDataDestructor = some fresh ∧
      oilfuncsRegisterClasses (D := D) domain headers symbols heaps fresh = some reg ∧ Registry.Kept reg ht given gone ∧
      Registry.Represents reg ht (declare symbols (Catalogue.empty slots) domain.clsNames) := by
  obtain ⟨fresh, ht, started, kept, empty, represents⟩ := Registry.Represents.init (D := D) slots classDataDestructor
  have few : ht.stored.length + (registrations domain.deffile).length < 2 ^ 30 := by
    have count := linked.few
    rw [clsNames, List.length_map] at count
    rwa [empty, List.length_nil, Nat.zero_add]
  obtain ⟨_, reg, after, given, gone, text, ran, keptReg, representsReg⟩ :=
    run_registerFile symbols domain.names domain.deffile heaps compiles.oilclass compiles.declarable kept represents few
  exact ⟨fresh, reg, after, given, gone, started, callText_of_run text ran, keptReg, representsReg⟩

variable (domain symbols)

/-- With generated files that can be compiled, and for a clean text, `oilfuncs_init_from_ini` aborts exactly if a line is malformed.  Otherwise it
leaves in the variable of each class the function that the last line asks for which names the class,
a flag set the CPU has, and an implement of the class it can run; the reference where there is no
such line; and it touches no other variable.  It complains about exactly the lines that name a
flag, a class or an implement that is not there, or one the CPU cannot run. -/
theorem init_from_ini (compiles : domain.Compiles headers) (linked : domain.Linked symbols) (slots : Nat → F) (granting : RegImpls.Granting heaps)
    (descriptions : List (List UInt8)) (cpuFlags : Nat) {oilfuncsIni : List UInt8} (clean : CleanText oilfuncsIni) :
    ((oilfuncsInitFromIni (D := D) domain headers symbols heaps (Registry.initial slots) descriptions cpuFlags
        oilfuncsIni).isSome = true ↔ (interpretIni oilfuncsIni).stopped = none) ∧
      ∀ last printed, oilfuncsInitFromIni (D := D) domain headers symbols heaps (Registry.initial slots) descriptions cpuFlags
          oilfuncsIni = some (last, printed) →
        printed = (interpretIni oilfuncsIni).calls.flatMap
          ((domain.offered (D := D) symbols slots).complaints descriptions cpuFlags) ∧
        (∀ clsName ∈ domain.clsNames, last.slots (symbols.slots clsName) =
          ((interpretIni oilfuncsIni).calls.filterMap
            (domain.asksFor symbols descriptions cpuFlags clsName)).getLast?.getD
              (symbols.functions (refName clsName))) ∧
        ∀ slot, (∀ clsName ∈ domain.clsNames, symbols.slots clsName ≠ slot) → last.slots slot = slots slot := by
  obtain ⟨fresh, classes, ht, given, gone, started, registered, keptClasses, representsClasses⟩ :=
    Domain.classes_ready (D := D) compiles linked slots heaps false
  obtain ⟨reg, enriched, kept, represents⟩ := Domain.implements_ready compiles symbols granting keptClasses representsClasses
  have offered : Registry.Represents reg ht (domain.offered symbols slots) := represents
  have supported : reg.ActiveSupported cpuFlags := by
    refine offered.activeSupported kept (fun clsName class_ known => ?_) cpuFlags
    rw [domain.offered_classes] at known
    obtain ⟨_, same⟩ := Option.ite_none_right_eq_some.mp known
    obtain rfl := Option.some.inj same
    rfl
  generalize meant : interpretIni oilfuncsIni = loads
  obtain ⟨last, done, _, _, representsLast⟩ := offered.activateAll descriptions kept supported loads.calls
  have whole : oilfuncsInitFromIni domain headers symbols heaps (Registry.initial slots) descriptions cpuFlags oilfuncsIni =
      if loads.stopped = none then
        some (last, loads.calls.flatMap ((domain.offered (D := D) symbols slots).complaints descriptions cpuFlags))
      else none := by
    simp only [oilfuncsInitFromIni, started, registered, enriched, Registry.oilLoadIniText_eq _ _ _ clean, meant, done,
      Option.bind_eq_bind, Option.bind_some]
  refine ⟨by rw [whole]; split <;> simp [*], fun other printed ended => ?_⟩
  rw [whole] at ended
  obtain ⟨_, same⟩ := Option.ite_none_right_eq_some.mp ended
  obtain ⟨rfl, rfl⟩ := Prod.mk.inj (Option.some.inj same)
  obtain ⟨_, lines⟩ := (domain.offered symbols slots).lines_change descriptions cpuFlags loads.calls
  have held (slot : Nat) : last.slots slot = (lastWrite (loads.calls.filterMap
      ((domain.offered (D := D) symbols slots).lineWrite descriptions cpuFlags)) slot).getD
        ((domain.offered (D := D) symbols slots).slots slot) := by
    rw [representsLast.slots, lines]
    exact writeAll_apply _ _ slot
  refine ⟨rfl, fun clsName member => ?_, fun slot apart => ?_⟩
  · rw [held, domain.lastWrite_eq linked member]
    exact congrArg _ (declare_slots linked.apart member)
  · have untouched : (domain.offered (D := D) symbols slots).slots slot = slots slot := declare_slots_apart apart
    rw [held, untouched]
    cases write : lastWrite (loads.calls.filterMap
        ((domain.offered (D := D) symbols slots).lineWrite descriptions cpuFlags)) slot with
    | none => rfl
    | some func =>
        obtain ⟨call, _, written⟩ := List.mem_filterMap.mp (mem_of_lastWrite write)
        obtain ⟨clsName, member, same, _⟩ := domain.asksFor_of_lineWrite written
        exact absurd same (apart clsName member)

/-- The library for a processor with MMX. -/
def mmxDomain : Domain where
  names := FileNames.ofPath "oilfuncs/oilfuncs.def".toUTF8.toList
  deffile := oilfuncsDef
  name := "oilfuncs".toList
  ini := RegImpls.mmxIni
  listed := RegImpls.mmxListed
  identifier := ⟨by decide +kernel, List.all_eq_true.mp (by decide +kernel)⟩
  iterates := RegImpls.mmx_iterates

def oilHeaders : FileHeaders := ⟨oilclassHeaders, RegImpls.oilcoreHeaders⟩

theorem mmxDomain_compiles : mmxDomain.Compiles oilHeaders where
  oilclass := included_oilclass
  declarable := oilfuncsDef_declarable
  oilcore := RegImpls.included_oilcore
  spelled := RegImpls.mmx_spelled
  free := by decide +kernel

def mmxSymbols : Symbols Nat where
  functions name := if name = "oil_copy8x8_u8_mmx".toList then 1 else 0
  slots := List.length
  value _ := 1

theorem mmxDomain_linked : mmxDomain.Linked mmxSymbols := by
  have listed : mmxDomain.clsNames = ["oil_copy8x8_u8".toList] := by decide +kernel
  refine ⟨by rw [listed]; decide, fun clsName member other memberOther _ => ?_⟩
  rw [listed, List.mem_singleton] at member memberOther
  rw [member, memberOther]

theorem init_from_ini_mmx : ∃ last : Registry Nat Unit, ∃ printed,
    oilfuncsInitFromIni mmxDomain oilHeaders mmxSymbols (fun _ => ⟨fun _ => .moves, fun _ => ⟨none, 0, 0⟩⟩)
      (Registry.initial fun _ => 0) [bytesOf "i386_mmx".toList] 1
      (bytesOf "[i386_mmx]\noil_copy8x8_u8 = mmx\n".toList) = some (last, printed) ∧
    printed = [] ∧ last.slots 14 = 1 := by
  have granting : RegImpls.Granting (F := Nat) fun _ => ⟨fun _ => .moves, fun _ => ⟨none, 0, 0⟩⟩ := by
    simp [RegImpls.Granting]
  have clean : CleanText (bytesOf "[i386_mmx]\noil_copy8x8_u8 = mmx\n".toList) := by decide +kernel
  obtain ⟨ends, reads⟩ := init_from_ini (D := Unit) mmxDomain mmxSymbols mmxDomain_compiles mmxDomain_linked
    (fun _ => 0) granting
    [bytesOf "i386_mmx".toList] 1 clean
  obtain ⟨⟨last, printed⟩, ended⟩ := Option.isSome_iff_exists.mp (ends.mpr (by decide +kernel))
  obtain ⟨complaints, chosen, _⟩ := reads last printed ended
  have asked : ((interpretIni (bytesOf "[i386_mmx]\noil_copy8x8_u8 = mmx\n".toList)).calls.filterMap
      (mmxDomain.asksFor mmxSymbols [bytesOf "i386_mmx".toList] 1 "oil_copy8x8_u8".toList)).getLast? = some 1 := by
    decide +kernel
  refine ⟨last, printed, ended, complaints.trans (by decide +kernel), ?_⟩
  have held := chosen "oil_copy8x8_u8".toList (by decide +kernel)
  rw [asked] at held
  exact held

end Initialised

end Oil.Funcs
