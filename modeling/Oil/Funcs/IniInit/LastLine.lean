import Oil.Core.Registry.Simulation
import Oil.Data.LastWrite
import Oil.Funcs.IniInit.LoadText
import Oil.Funcs.IniInit.Supported

namespace Oil.Core

open Oil.Data Oil.Funcs

variable {F D : Type}

/-! # What a text does to a catalogue

A line that names an implement the CPU can run puts its function into the slot of the class.  No
line changes what a later line means, so the last line for a slot decides. -/

/-- The class, but for whether an implement is active. -/
def ClassMeaning.unchosen (class_ : ClassMeaning F D) : ClassMeaning F D := { class_ with activated := false }

namespace Catalogue

variable (descriptions : List (List UInt8)) (cpuFlags : Nat) (catalogue : Catalogue F D) (call : Activation)

/-- A class and an implement of it. -/
def named : Option (ClassMeaning F D × F × Nat) := do
  let class_ ← catalogue.classes (textOf call.key)
  let impl ← class_.implements (textOf call.value)
  some (class_, impl)

/-- The slot a line fills, and with what. -/
def lineWrite : Option (Nat × F) :=
  let parse := sectionFlags descriptions call.sectionName
  match catalogue.named call with
  | some (class_, func, flags) =>
      if parse.ret = true ∧ Supports cpuFlags parse.flags ∧ Supports cpuFlags flags then some (class_.slotP, func)
      else none
  | none => none

/-- What is printed about a line. -/
def complaints : List Complaint :=
  let parse := sectionFlags descriptions call.sectionName
  if parse.ret = false then parse.printed
  else
    match catalogue.classes (textOf call.key) with
    | none => parse.printed ++ [.noClass call.key]
    | some class_ =>
        if Supports cpuFlags parse.flags then
          match class_.implements (textOf call.value) with
          | none => parse.printed ++ [.failed call.key call.value]
          | some (_, flags) =>
              if Supports cpuFlags flags then parse.printed
              else parse.printed ++ [.notRunnable call.key call.value call.sectionName]
        else parse.printed

/-- The catalogue after a line. -/
def line : Catalogue F D :=
  match catalogue.lineWrite descriptions cpuFlags call with
  | some _ => catalogue.step (.implement (some (textOf call.key)) (.activate (some (textOf call.value))))
  | none => catalogue

/-- The catalogue with what the lines put into the slots. -/
def loaded (calls : List Activation) : Catalogue F D :=
  { catalogue with slots := writeAll catalogue.slots (calls.filterMap (catalogue.lineWrite descriptions cpuFlags)) }

/-- Two catalogues with the same classes, whether implements are active or not. -/
def SameClasses (catalogue other : Catalogue F D) : Prop :=
  ∀ clsName, (other.classes clsName).map ClassMeaning.unchosen = (catalogue.classes clsName).map ClassMeaning.unchosen

variable {catalogue}

theorem step_activate_missing {clsName implName : String} {class_ : ClassMeaning F D}
    (known : catalogue.classes clsName = some class_) (missing : class_.implements implName = none) :
    catalogue.step (.implement (some clsName) (.activate (some implName))) = catalogue := by
  have slots : catalogue.exported (some clsName) (.activate (some implName)) = catalogue.slots := by
    simp only [exported, Option.bind_some, known, OilClass.Call.exports, missing, Option.map_none, Option.getD_none,
      Function.update_eq_self]
  rw [step, slots, amend_unchanged known]
  simp only [OilClass.Call.binds, OilClass.Call.activates, missing, Option.isSome_none, Bool.false_or]

variable {other : Catalogue F D}

theorem SameClasses.cases (same : SameClasses catalogue other) (clsName : String) :
    (catalogue.classes clsName = none ∧ other.classes clsName = none) ∨
      ∃ ref slotP implements activated activated' data,
        catalogue.classes clsName = some ⟨ref, slotP, implements, activated, data⟩ ∧
        other.classes clsName = some ⟨ref, slotP, implements, activated', data⟩ := by
  have here := same clsName
  cases known : catalogue.classes clsName with
  | none =>
      rw [known, Option.map_none, Option.map_eq_none_iff] at here
      exact .inl ⟨rfl, here⟩
  | some class_ =>
      rw [known, Option.map_some, Option.map_eq_some_iff] at here
      obtain ⟨⟨ref, slotP, implements, activated', data⟩, knownToo, unchosen⟩ := here
      obtain ⟨_, _, _, activated, _⟩ := class_
      simp only [ClassMeaning.unchosen, ClassMeaning.mk.injEq, true_and] at unchosen
      obtain ⟨rfl, rfl, rfl, rfl⟩ := unchosen
      exact .inr ⟨_, _, _, activated, activated', _, rfl, knownToo⟩

variable {descriptions cpuFlags}

theorem SameClasses.lineWrite (same : SameClasses catalogue other) :
    other.lineWrite descriptions cpuFlags = catalogue.lineWrite descriptions cpuFlags := by
  funext call
  rcases same.cases (textOf call.key) with ⟨missing, missingToo⟩ | ⟨_, _, implements, _, _, _, known, knownToo⟩
  · simp only [Catalogue.lineWrite, named, missing, missingToo, Option.bind_eq_bind, Option.bind_none]
  · simp only [Catalogue.lineWrite, named, known, knownToo, Option.bind_eq_bind, Option.bind_some]
    cases implements (textOf call.value) <;> rfl

theorem SameClasses.complaints (same : SameClasses catalogue other) :
    other.complaints descriptions cpuFlags = catalogue.complaints descriptions cpuFlags := by
  funext call
  rcases same.cases (textOf call.key) with ⟨missing, missingToo⟩ | ⟨_, _, _, _, _, _, known, knownToo⟩
  · simp only [Catalogue.complaints, missing, missingToo]
  · simp only [Catalogue.complaints, known, knownToo]

variable (descriptions cpuFlags)

/-- A line changes a slot, or nothing. -/
theorem line_changes (catalogue : Catalogue F D) :
    SameClasses catalogue (catalogue.line descriptions cpuFlags call) ∧
      (catalogue.line descriptions cpuFlags call).slots =
        writeAll catalogue.slots (catalogue.lineWrite descriptions cpuFlags call).toList := by
  rw [line]
  cases written : catalogue.lineWrite descriptions cpuFlags call with
  | none => exact ⟨fun _ => rfl, rfl⟩
  | some write =>
      rw [Catalogue.lineWrite] at written
      cases bound : catalogue.named call with
      | none => simp [bound] at written
      | some found =>
          obtain ⟨class_, func, flags⟩ := found
          obtain ⟨_, known, implement⟩ := Option.bind_eq_some_iff.mp bound
          obtain ⟨_, impl, same⟩ := Option.bind_eq_some_iff.mp implement
          obtain ⟨rfl, rfl⟩ := Prod.mk.inj (Option.some.inj same)
          rw [bound] at written
          obtain ⟨_, written⟩ := Option.ite_none_right_eq_some.mp written
          obtain rfl := Option.some.inj written
          refine ⟨fun clsName => ?_, ?_⟩
          · by_cases isKey : clsName = textOf call.key
            · subst isKey
              simp only [step, amend, Function.update_self, known, Option.map_some, OilClass.Call.binds,
                ClassMeaning.unchosen]
            · simp only [step, amend, Function.update_of_ne isKey]
          · simp only [step, exported, Option.bind_some, known, OilClass.Call.exports, impl, Option.map_some,
              Option.getD_some]
            rfl

theorem lines_change (catalogue : Catalogue F D) (calls : List Activation) :
    SameClasses catalogue (calls.foldl (line descriptions cpuFlags) catalogue) ∧
      (calls.foldl (line descriptions cpuFlags) catalogue).slots =
        (catalogue.loaded descriptions cpuFlags calls).slots := by
  induction calls generalizing catalogue with
  | nil => exact ⟨fun _ => rfl, rfl⟩
  | cons call calls ih =>
      obtain ⟨same, slots⟩ := catalogue.line_changes descriptions cpuFlags call
      obtain ⟨sameRest, slotsRest⟩ := ih (catalogue.line descriptions cpuFlags call)
      refine ⟨fun clsName => (sameRest clsName).trans (same clsName), slotsRest.trans ?_⟩
      have writes : calls.filterMap ((catalogue.line descriptions cpuFlags call).lineWrite descriptions cpuFlags) =
          calls.filterMap (catalogue.lineWrite descriptions cpuFlags) := by rw [same.lineWrite]
      calc ((catalogue.line descriptions cpuFlags call).loaded descriptions cpuFlags calls).slots
          = writeAll (writeAll catalogue.slots (catalogue.lineWrite descriptions cpuFlags call).toList)
              (calls.filterMap (catalogue.lineWrite descriptions cpuFlags)) := by simp only [loaded, slots, writes]
        _ = (catalogue.loaded descriptions cpuFlags (call :: calls)).slots := by
            rw [← writeAll_append, loaded, List.filterMap_cons]
            cases catalogue.lineWrite descriptions cpuFlags call <;> rfl

end Catalogue

theorem OilClass.active_after {cls : OilClass F D} {cpuFlags : Nat} (supported : cls.ActiveSupported cpuFlags)
    (implName : String) :
    ∃ active, (cls.activateImplement (some implName)).getActiveImplement = some active ∧
      (active = some implName ↔ (cls.implementsGet (some implName)).isSome = true) := by
  rcases activate_cases cls implName with ⟨unchanged, absent⟩ | ⟨i, entry, occupied, hit, present, changed⟩
  · obtain ⟨active, read⟩ := supported.read
    refine ⟨active, by rw [unchanged, read], ?_⟩
    rw [absent]
    refine iff_of_false ?_ Bool.false_ne_true
    rintro rfl
    rw [getActiveImplement] at read
    split at read
    case h_1 => exact (Option.some_ne_none _ (Option.some.inj read).symm).elim
    case h_2 pointer chosen =>
      obtain ⟨block, entry, inside, _, _⟩ := supported pointer chosen
      rw [if_pos block, (occupied_getElem? inside).2, Option.map_some, Option.some.injEq] at read
      rcases find_cases cls implName with ⟨i, other, searched, found, _⟩ | ⟨_, noEntry⟩
      · simp [implementsGet, searched, (occupied_getElem? found).2] at absent
      · exact noEntry entry (List.mem_of_getElem? inside) read
  · refine ⟨some implName, ?_, ?_⟩
    · rw [changed]
      simp only [getActiveImplement, (occupied_getElem? occupied).2, Option.map_some, hit, ↓reduceIte]
    · rw [present]
      exact iff_of_true rfl rfl

namespace Registry

variable {reg after : Registry F D} {catalogue : Catalogue F D} {ht : HashTable CharPointer Nat}
  {given gone : List (Destroyed CharPointer Nat)} {descriptions : List (List UInt8)} {cpuFlags : Nat}

/-- What `oil_class_activate_implement` does to the registry, and what `oil_class_get_active_implement`
says then. -/
theorem Represents.activated (represents : Represents reg ht catalogue) (kept : Kept reg ht given gone)
    (supported : reg.ActiveSupported cpuFlags) {clsName : String} {cls : Nat} {record : ClassRecord F D}
    {class_ : ClassMeaning F D} (got : reg.get (some clsName) = some cls) (nonNull : cls ≠ null)
    (member : cls ∈ reg.registered) (found : reg.classes cls = some record) (means : Means record class_)
    (implName : String) :
    ∃ after recordAfter active, reg.onClass cls (fun cls => some (cls.activateImplement (some implName))) = some after ∧
      after.classes cls = some recordAfter ∧ recordAfter.cls.getActiveImplement = some active ∧
      (active = some implName ↔ (class_.implements implName).isSome = true) ∧
      Represents after ht (catalogue.step (.implement (some clsName) (.activate (some implName)))) := by
  let loaded : OilClass F D := { record.cls with slot := reg.slots record.slotP }
  let worked := loaded.activateImplement (some implName)
  let after : Registry F D := { reg with
    classes := Function.update reg.classes cls (some { record with cls := worked })
    slots := Function.update reg.slots record.slotP worked.slot }
  have supportedClass : loaded.ActiveSupported cpuFlags := supported cls member record found
  obtain ⟨active, read, isActive⟩ := OilClass.active_after supportedClass implName
  have same : reg.onClass cls (fun cls => some (cls.activateImplement (some implName))) = some after := by
    simp only [onClass, if_neg nonNull, found, Option.bind_eq_bind, Option.bind_some]
    rfl
  have served : reg.request ⟨fun _ => .fails, fun _ => ⟨none, record.cls.ref, 0⟩⟩
      (.implement (some clsName) (.activate (some implName))) = some after := by
    rw [Registry.request, got, Option.bind_some]
    exact same
  refine ⟨after, { record with cls := worked }, active, same, Function.update_self _ _ _, read, ?_,
    (represents.implement kept served).2⟩
  rw [isActive, ← means.implementsGet implName]
  rfl

/-- What a line does and prints. -/
theorem Represents.doActivateImpl (descriptions : List (List UInt8)) (represents : Represents reg ht catalogue)
    (kept : Kept reg ht given gone)
    (supported : reg.ActiveSupported cpuFlags) (call : Activation) :
    ∃ after, doActivateImpl descriptions cpuFlags reg call =
        some (after, catalogue.complaints descriptions cpuFlags call) ∧
      Represents after ht (catalogue.line descriptions cpuFlags call) := by
  have idle (unwritten : catalogue.lineWrite descriptions cpuFlags call = none) :
      Represents reg ht (catalogue.line descriptions cpuFlags call) := by rwa [Catalogue.line, unwritten]
  rw [Funcs.doActivateImpl, Catalogue.complaints]
  rw [Catalogue.lineWrite] at idle
  generalize parsed : sectionFlags descriptions call.sectionName = parse at idle ⊢
  by_cases unknown : parse.ret = false
  · refine ⟨reg, by simp only [unknown, ↓reduceIte], idle ?_⟩
    cases catalogue.named call <;> simp [unknown]
  rcases represents.get_cases kept (textOf call.key) with
    ⟨node, member, record, class_, _, got, found, known, means⟩ | ⟨got, missing⟩
  · have nonNull := kept.value_ne_null member
    have isRegistered : node.value ∈ reg.registered := by
      rw [registered, kept.visited_eq, List.map_map]
      exact List.mem_map.mpr ⟨node, member, rfl⟩
    by_cases supports : Supports cpuFlags parse.flags
    · have read := means.implementsGet (textOf call.value)
      obtain ⟨after, recordAfter, active, activated, foundAfter, readAfter, isActive, representsAfter⟩ :=
        represents.activated kept supported got nonNull isRegistered found means (textOf call.value)
      cases impl : class_.implements (textOf call.value) with
      | none =>
          rw [impl] at read isActive
          have failed : active ≠ some (textOf call.value) := fun same =>
            Bool.false_ne_true (isActive.mp same)
          refine ⟨after, ?_, ?_⟩
          · simp only [if_neg unknown, got, if_neg nonNull, if_pos supports, activateClass, found, read,
              Option.map_none, Option.getD_none, activated, foundAfter, readAfter, if_neg failed,
              Option.bind_eq_bind, Option.bind_some, known, impl, Option.pure_def]
          · have unwritten : catalogue.lineWrite descriptions cpuFlags call = none := by
              simp only [Catalogue.lineWrite, Catalogue.named, known, impl, Option.bind_eq_bind, Option.bind_some,
                Option.bind_none]
            rw [Catalogue.line, unwritten]
            rwa [Catalogue.step_activate_missing known impl] at representsAfter
      | some bound =>
          obtain ⟨func, flags⟩ := bound
          rw [impl] at read isActive
          by_cases runs : Supports cpuFlags flags
          · have succeeded : active = some (textOf call.value) := isActive.mpr rfl
            refine ⟨after, ?_, ?_⟩
            · simp only [if_neg unknown, got, if_neg nonNull, if_pos supports, activateClass, found, read,
                Option.map_some, Option.getD_some, if_pos runs, activated, foundAfter, readAfter, if_pos succeeded,
                Option.bind_eq_bind, Option.bind_some, known, impl, Option.pure_def, List.append_nil]
            · have written : catalogue.lineWrite descriptions cpuFlags call = some (class_.slotP, func) := by
                simp only [Catalogue.lineWrite, Catalogue.named, known, impl, Option.bind_eq_bind, Option.bind_some,
                  parsed]
                exact if_pos ⟨(Bool.not_eq_false _).mp unknown, supports, runs⟩
              rwa [Catalogue.line, written]
          · refine ⟨reg, ?_, idle ?_⟩
            · simp only [if_neg unknown, got, if_neg nonNull, if_pos supports, activateClass, found, read,
                Option.map_some, Option.getD_some, if_neg runs, Option.bind_eq_bind, Option.bind_some, known, impl,
                Option.pure_def]
            · simp only [Catalogue.named, known, impl, Option.bind_eq_bind, Option.bind_some]
              exact if_neg fun all => runs all.2.2
    · refine ⟨reg, ?_, idle ?_⟩
      · simp only [if_neg unknown, got, if_neg nonNull, if_neg supports, Option.bind_eq_bind, Option.bind_some, known,
          Option.pure_def]
      · cases catalogue.named call with
        | none => rfl
        | some bound => exact if_neg fun all => supports all.2.1
  · refine ⟨reg, ?_, idle ?_⟩
    · simp only [if_neg unknown, got, ↓reduceIte, Option.bind_eq_bind, Option.bind_some, missing, Option.pure_def]
    · simp only [Catalogue.named, missing, Option.bind_eq_bind, Option.bind_none]

/-- The calls of `do_activate_impl` for the lines of a text, and all that they print. -/
def activateAll (descriptions : List (List UInt8)) (cpuFlags : Nat) (reg : Registry F D) (calls : List Activation) :
    Option (Registry F D × List Complaint) :=
  calls.foldlM (fun state call => (Funcs.doActivateImpl descriptions cpuFlags state.1 call).map fun done =>
    (done.1, state.2 ++ done.2)) (reg, [])

theorem activateAll_cons (call : Activation) (calls : List Activation) :
    activateAll descriptions cpuFlags reg (call :: calls) =
      (Funcs.doActivateImpl descriptions cpuFlags reg call).bind fun done =>
        (activateAll descriptions cpuFlags done.1 calls).map fun rest => (rest.1, done.2 ++ rest.2) := by
  have printed (calls : List Activation) (start : Registry F D) (first : List Complaint) :
      calls.foldlM (fun state call => (Funcs.doActivateImpl descriptions cpuFlags state.1 call).map fun done =>
        (done.1, state.2 ++ done.2)) (start, first) =
      (activateAll descriptions cpuFlags start calls).map fun rest => (rest.1, first ++ rest.2) := by
    induction calls generalizing start first with
    | nil => simp [activateAll]
    | cons call calls ih =>
        rw [activateAll, List.foldlM_cons, List.foldlM_cons]
        cases Funcs.doActivateImpl descriptions cpuFlags start call with
        | none => rfl
        | some done => simp [ih, Function.comp_def]
  rw [activateAll, List.foldlM_cons]
  cases Funcs.doActivateImpl descriptions cpuFlags reg call with
  | none => rfl
  | some done => simp [printed]

theorem Represents.activateAll (descriptions : List (List UInt8)) (represents : Represents reg ht catalogue)
    (kept : Kept reg ht given gone)
    (supported : reg.ActiveSupported cpuFlags) (calls : List Activation) :
    ∃ last, activateAll descriptions cpuFlags reg calls =
        some (last, calls.flatMap (catalogue.complaints descriptions cpuFlags)) ∧
      Kept last ht given gone ∧ last.ActiveSupported cpuFlags ∧
      Represents last ht (calls.foldl (Catalogue.line descriptions cpuFlags) catalogue) := by
  induction calls generalizing reg catalogue with
  | nil => exact ⟨reg, rfl, kept, supported, represents⟩
  | cons call calls ih =>
      obtain ⟨after, done, representsAfter⟩ := represents.doActivateImpl descriptions kept supported call
      obtain ⟨same, activated, change, keptAfter⟩ := activate_returns kept supported descriptions call
      rw [activate, done, Option.map_some, Option.some.injEq] at activated
      subst activated
      obtain ⟨last, doneRest, keptLast, supportedLast, representsLast⟩ := ih representsAfter keptAfter change.supported
      refine ⟨last, ?_, keptLast, supportedLast, representsLast⟩
      obtain ⟨sameClasses, _⟩ :=
        catalogue.line_changes descriptions cpuFlags call
      rw [activateAll_cons, done, Option.bind_some, doneRest, Option.map_some, sameClasses.complaints, List.flatMap_cons]

theorem Represents.activeSupported (represents : Represents reg ht catalogue) (kept : Kept reg ht given gone)
    (inactive : ∀ clsName class_, catalogue.classes clsName = some class_ → class_.activated = false) (cpuFlags : Nat) :
    reg.ActiveSupported cpuFlags := by
  intro cls member record found active chosen
  rw [registered, kept.visited_eq, List.map_map, List.mem_map] at member
  obtain ⟨node, isStored, rfl⟩ := member
  obtain ⟨text, other, class_, _, foundToo, known, means⟩ := represents.known node isStored
  obtain rfl := Option.some.inj (found.symm.trans foundToo)
  rw [means.inactive (inactive text class_ known)] at chosen
  contradiction

theorem Reads.unchosen (reads : after.Reads catalogue) {other : Catalogue F D}
    (same : Catalogue.SameClasses other catalogue) : after.Reads { other with slots := catalogue.slots } := by
  refine ⟨reads.slots, fun clsName missing => ?_, fun clsName class_ known => ?_, reads.visited.1,
    fun clsName => ?_, reads.visited.2.2⟩
  · rcases same.cases clsName with ⟨_, missingToo⟩ | ⟨_, _, _, _, _, _, known, _⟩
    · exact reads.missing clsName missingToo
    · exact nomatch missing.symm.trans known
  · rcases same.cases clsName with ⟨missing, _⟩ | ⟨_, _, _, _, _, _, knownToo, knownAfter⟩
    · exact nomatch missing.symm.trans known
    · obtain rfl := Option.some.inj (knownToo.symm.trans known)
      obtain ⟨cls, record, read⟩ := reads.present clsName _ knownAfter
      exact ⟨cls, record, read⟩
  · rw [← reads.visited.2.1]
    rcases same.cases clsName with ⟨missing, missingToo⟩ | ⟨_, _, _, _, _, _, known, knownToo⟩
    · simp [missing, missingToo]
    · simp [known, knownToo]

/-- What `oil_load_ini` does with a clean text. -/
theorem oilLoadIniText_eq (descriptions : List (List UInt8)) (cpuFlags : Nat) (reg : Registry F D) {text : List UInt8}
    (clean : CleanText text) :
    oilLoadIniText descriptions cpuFlags reg (some text) =
      (activateAll descriptions cpuFlags reg (interpretIni text).calls).bind fun done =>
        if (interpretIni text).stopped = none then some done else none := by
  rw [oilLoadIniText, clean.deeds, clean.means, List.foldlM_map]
  rfl

/-- From any registry that clients can build, and for a clean text, `oil_load_ini` aborts exactly if a
line is malformed.  Otherwise it puts into the slot of each class the function that the last line
naming a runnable implement for the slot asks for, and changes nothing else that can be read; it
complains about exactly the lines that name a flag, a class or an implement that is not there, or one
the CPU cannot run.  Loading the text again changes nothing. -/
theorem load_ini_last_line (descriptions : List (List UInt8)) (cpuFlags : Nat) (slots : Nat → F)
    (classDataDestructor : Bool) {fresh reg : Registry F D}
    (started : (initial slots).init classDataDestructor = some fresh) {requests : List (Heap F × Request F D)}
    (served : fresh.serve requests = some reg) (supported : reg.ActiveSupported cpuFlags)
    {text : List UInt8} (clean : CleanText text) {catalogue : Catalogue F D}
    (meant : (Catalogue.empty slots).run (requests.map Prod.snd) = catalogue) :
    ((oilLoadIniText descriptions cpuFlags reg (some text)).isSome = true ↔ (interpretIni text).stopped = none) ∧
      ((interpretIni text).stopped = none → ∃ last again,
        oilLoadIniText descriptions cpuFlags reg (some text) =
          some (last, (interpretIni text).calls.flatMap (catalogue.complaints descriptions cpuFlags)) ∧
        last.Reads (catalogue.loaded descriptions cpuFlags (interpretIni text).calls) ∧
        oilLoadIniText descriptions cpuFlags last (some text) =
          some (again, (interpretIni text).calls.flatMap (catalogue.complaints descriptions cpuFlags)) ∧
        again.Reads (catalogue.loaded descriptions cpuFlags (interpretIni text).calls)) := by
  obtain ⟨ht, _, _, kept, _, represents⟩ := Represents.reached started served
  rw [meant] at represents
  simp only [oilLoadIniText_eq _ _ _ clean]
  generalize (interpretIni text).calls = calls
  obtain ⟨sameClasses, slotsLast⟩ :=
    catalogue.lines_change descriptions cpuFlags calls
  obtain ⟨last, done, keptLast, supportedLast, representsLast⟩ :=
    represents.activateAll descriptions kept supported calls
  obtain ⟨again, doneAgain, keptAgain, _, representsAgain⟩ :=
    representsLast.activateAll descriptions keptLast supportedLast calls
  generalize middle : calls.foldl (Catalogue.line descriptions cpuFlags) catalogue = mid at *
  obtain ⟨sameAgain, slotsAgain⟩ :=
    mid.lines_change descriptions cpuFlags calls
  refine ⟨by rw [done, Option.bind_some]; split <;> simp [*], fun unstopped => ⟨last, again, ?_, ?_, ?_, ?_⟩⟩
  · rw [done, Option.bind_some, if_pos unstopped]
  · rw [Catalogue.loaded]
    have reads := (representsLast.reads keptLast).unchosen sameClasses
    rwa [slotsLast] at reads
  · rw [doneAgain, Option.bind_some, if_pos unstopped, sameClasses.complaints]
  · have reads := (representsAgain.reads keptAgain).unchosen
      fun clsName => (sameAgain clsName).trans (sameClasses clsName)
    rw [slotsAgain, Catalogue.loaded, sameClasses.lineWrite, slotsLast, Catalogue.loaded, writeAll_again] at reads
    exact reads

/-- The last of three lines asks for what the CPU cannot run. -/
theorem load_ini_last_line_three : ∃ fresh reg last : Registry Nat Nat,
    (initial fun _ => 0).init false = some fresh ∧
    fresh.serve [(⟨fun _ => .inPlace, fun _ => ⟨none, 0, 0⟩⟩, .register (some "a") (some 7) (some 4)),
      (⟨fun _ => .inPlace, fun _ => ⟨none, 0, 0⟩⟩, .implement (some "a") (.add (some "x") (some 8) 1)),
      (⟨fun _ => .inPlace, fun _ => ⟨none, 0, 0⟩⟩, .implement (some "a") (.add (some "y") (some 9) 0)),
      (⟨fun _ => .inPlace, fun _ => ⟨none, 0, 0⟩⟩, .implement (some "a") (.add (some "z") (some 10) 2))] = some reg ∧
    oilLoadIniText [] 1 reg (some (bytesOf
        ['[', ']', '\n', 'a', '=', 'x', '\n', 'a', '=', 'y', '\n', 'a', '=', 'z'])) =
      some (last, [.notRunnable (bytesOf ['a']) (bytesOf ['z']) (some [])]) ∧
    last.slots 4 = 9 := by
  let requests : List (Heap Nat × Request Nat Nat) :=
    [(⟨fun _ => .inPlace, fun _ => ⟨none, 0, 0⟩⟩, .register (some "a") (some 7) (some 4)),
      (⟨fun _ => .inPlace, fun _ => ⟨none, 0, 0⟩⟩, .implement (some "a") (.add (some "x") (some 8) 1)),
      (⟨fun _ => .inPlace, fun _ => ⟨none, 0, 0⟩⟩, .implement (some "a") (.add (some "y") (some 9) 0)),
      (⟨fun _ => .inPlace, fun _ => ⟨none, 0, 0⟩⟩, .implement (some "a") (.add (some "z") (some 10) 2))]
  let text := bytesOf ['[', ']', '\n', 'a', '=', 'x', '\n', 'a', '=', 'y', '\n', 'a', '=', 'z']
  obtain ⟨fresh, ht, started, kept, empty, represents⟩ := Represents.init (F := Nat) (D := Nat) (fun _ => 0) false
  obtain ⟨reg, served⟩ : ∃ reg, fresh.serve requests = some reg :=
    represents.serve_returns kept (by rw [empty]; decide) (by simp [requests, Request.Granted, OilClass.Call.Granted])
  obtain ⟨_, _, _, keptReg, _, representsReg⟩ := represents.serve kept served
  have supported : reg.ActiveSupported 1 := by
    refine representsReg.activeSupported keptReg (fun clsName class_ known => ?_) 1
    by_cases isA : clsName = "a"
    · subst isA
      obtain rfl := Option.some.inj known
      rfl
    · simp [requests, Catalogue.run, Catalogue.step, Catalogue.amend, Catalogue.empty, isA] at known
  have clean : CleanText text := by decide +kernel
  obtain ⟨_, loads⟩ := load_ini_last_line [] 1 (fun _ => 0) false started served supported clean rfl
  obtain ⟨last, _, lines, reads, _⟩ := loads (by decide +kernel)
  refine ⟨fresh, reg, last, started, served, lines.trans ?_, ?_⟩
  · exact congrArg (fun printed => some (last, printed)) (by decide +kernel)
  · rw [reads.slots]
    decide +kernel

end Registry

end Oil.Core
