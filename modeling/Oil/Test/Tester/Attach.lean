import Oil.Core.Registry.Simulation
import Oil.Test.Tester.Model

namespace Oil.Test

open Oil.Data Oil.Core

variable {F T : Type}

/-- The registry of a program that tests its classes. -/
abbrev TestRegistry (F T : Type) : Type := Registry F (OilClassData F T)

abbrev TestCatalogue (F T : Type) : Type := Catalogue F (OilClassData F T)

/-- `oil_test_attach_class_full`.  A checker or a profiler is there only with all its functions. -/
def oilTestAttachClassFull (reg : TestRegistry F T) (clsName : Option String) (prototype : Option (List Char))
    (call : Option (F → TestedFunction)) (checker : Option OilChecker) (profiler : Option (OilProfiler T)) :
    Option (TestRegistry F T) :=
  match clsName, prototype, call, checker, profiler with
  | some clsName, some prototype, some call, some checker, some profiler =>
      if clsName = "" ∨ prototype = [] then some reg
      else do
        let cls ← reg.get (some clsName)
        if cls = null then some reg
        else do
          let data ← reg.getData cls
          match data with
          | some _ => some reg
          | none =>
              match oilPrototypeParse prototype with
              | none => some reg
              | some parameters => reg.addData cls (some ⟨parameters, call, checker, profiler⟩)
  | _, _, _, _, _ => some reg

/-- The data that is attached for a prototype, if it can be parsed. -/
def attachment (prototype : List Char) (call : F → TestedFunction) (checker : OilChecker) (profiler : OilProfiler T) :
    Option (OilClassData F T) :=
  (oilPrototypeParse prototype).map fun parameters => ⟨parameters, call, checker, profiler⟩

namespace TestCatalogue

/-- A class that has nothing attached to it gets the data. -/
def attach (catalogue : TestCatalogue F T) (clsName : String) (data : Option (OilClassData F T)) :
    TestCatalogue F T :=
  catalogue.amend (some clsName) fun class_ => { class_ with data := class_.data.or data }

end TestCatalogue

section Attaching

variable {reg : TestRegistry F T} {catalogue : TestCatalogue F T} {ht : HashTable CharPointer Nat}
  {given gone : List (Destroyed CharPointer Nat)}

/-- Data that is attached already stays, and nothing is destroyed. -/
theorem attach_returns (kept : Registry.Kept reg ht given gone) (represents : Registry.Represents reg ht catalogue)
    {clsName : String} (named : clsName ≠ "") (prototype : List Char) (call : F → TestedFunction)
    (checker : OilChecker) (profiler : OilProfiler T) :
    ∃ after, oilTestAttachClassFull reg (some clsName) (some prototype) (some call) (some checker) (some profiler) =
        some after ∧ Registry.Kept after ht given gone ∧
      Registry.Represents after ht
        (TestCatalogue.attach catalogue clsName (attachment prototype call checker profiler)) ∧
      after.destroyed = reg.destroyed := by
  by_cases empty : prototype = []
  · have nothing : attachment prototype call checker profiler = none := by
      rw [attachment, oilPrototypeParse, if_pos empty, Option.map_none]
    refine ⟨reg, by rw [oilTestAttachClassFull, if_pos (.inr empty)], kept, ?_, rfl⟩
    rw [TestCatalogue.attach, nothing]
    cases known : catalogue.classes clsName with
    | none => rwa [Catalogue.amend_missing known]
    | some class_ => rwa [Catalogue.amend_unchanged known (by simp)]
  have filled : ¬ (clsName = "" ∨ prototype = []) := not_or.mpr ⟨named, empty⟩
  rcases represents.get_cases kept clsName with
    ⟨node, member, record, class_, text, got, found, known, means⟩ | ⟨got, missing⟩
  · have nonNull := kept.value_ne_null member
    have read : reg.getData node.value = some record.cls.data := by
      rw [Registry.getData, if_neg nonNull, found, Option.map_some]
    cases data : record.cls.data with
    | some old =>
        refine ⟨reg, ?_, kept, ?_, rfl⟩
        · simp only [oilTestAttachClassFull, if_neg filled, got, Option.bind_eq_bind, Option.bind_some, if_neg nonNull,
            read, data]
        · rw [TestCatalogue.attach, Catalogue.amend_unchanged known]
          · exact represents
          · rw [← means.data, data, Option.some_or, ← data, means.data]
    | none =>
        cases parsed : oilPrototypeParse prototype with
        | none =>
            refine ⟨reg, ?_, kept, ?_, rfl⟩
            · simp only [oilTestAttachClassFull, if_neg filled, got, Option.bind_eq_bind, Option.bind_some,
                if_neg nonNull, read, data, parsed]
            · rw [TestCatalogue.attach, Catalogue.amend_unchanged known]
              · exact represents
              · rw [attachment, parsed, Option.map_none, Option.or_none]
        | some parameters =>
            let attached : OilClassData F T := ⟨parameters, call, checker, profiler⟩
            let after : TestRegistry F T := { reg with
              classes := Function.update reg.classes node.value
                (some { record with cls := { record.cls with data := some attached } })
              destroyed := reg.destroyed ++ reg.dropped record.cls.data }
            have added : reg.addData node.value (some attached) = some after := by
              rw [Registry.addData, if_neg nonNull, found, Option.map_some]
            have served : reg.request ⟨fun _ => .fails, fun _ => ⟨none, record.cls.ref, 0⟩⟩
                (.addData (some clsName) (some attached)) = some after := by
              rw [Registry.request, got, Option.bind_some]
              exact added
            obtain ⟨keptAfter, representsAfter⟩ := represents.addData kept served
            refine ⟨after, ?_, keptAfter, ?_, ?_⟩
            · simp only [oilTestAttachClassFull, if_neg filled, got, Option.bind_eq_bind, Option.bind_some,
                if_neg nonNull, read, data, parsed]
              exact added
            · have same : TestCatalogue.attach catalogue clsName (attachment prototype call checker profiler) =
                  catalogue.step (.addData (some clsName) (some ⟨parameters, call, checker, profiler⟩)) := by
                rw [TestCatalogue.attach, attachment, parsed, Catalogue.step, Catalogue.amend, Catalogue.amend, known,
                  Option.map_some, Option.map_some, ← means.data, data]
                rfl
              rwa [same]
            · have nothing : reg.dropped record.cls.data = [] := by
                rw [data, Registry.dropped, Option.toList_none, ite_self]
              exact (congrArg (reg.destroyed ++ ·) nothing).trans (List.append_nil _)
  · refine ⟨reg, ?_, kept, ?_, rfl⟩
    · simp only [oilTestAttachClassFull, if_neg filled, got, Option.bind_eq_bind, Option.bind_some, ↓reduceIte]
    · rw [TestCatalogue.attach, Catalogue.amend_missing missing]
      exact represents

end Attaching

end Oil.Test
