import Oil.Core.Registry.Ledger
import Oil.Core.Class.Steps

namespace Oil.Core

open Oil.Data

namespace Registry

variable {F D : Type} {reg start after : Registry F D} {call : Call F D}
  {ht next : HashTable CharPointer Nat} {tableCall : HashTable.Call CharPointer Nat}
  {outcome : HashTable.Outcome Nat} {held given gone destroyed : List (Destroyed CharPointer Nat)}

/-- What holds of an initialised registry between two calls. -/
structure Kept (reg : Registry F D) (ht : HashTable CharPointer Nat)
    (given gone : List (Destroyed CharPointer Nat)) : Prop where
  stored : reg.oilClasses = some ht
  table : ClassTable ht
  ledger : Ledger reg ht.owned given gone

/-- The call of the table a call of a client leads to, and the registry it is made in. -/
inductive Stages (reg : Registry F D) : Call F D → Registry F D → HashTable.Call CharPointer Nat → Prop
  | register {clsName : String} {refFunc : F} {slot : Nat} (named : clsName ≠ "") :
      Stages reg (.register (some clsName) (some refFunc) (some slot))
        (reg.allocate clsName refFunc slot) (reg.insertion clsName)
  | remove {clsName : Option String} : Stages reg (.remove clsName) reg (.remove (.ofArgument clsName))
  | removeAll : Stages reg .removeAll reg .removeAll

/-- A call that works on the record of one class. -/
inductive Edits (reg : Registry F D) : Call F D → Registry F D → Prop
  | addData {cls : Nat} {clsData : Option D} {record : ClassRecord F D} (nonNull : cls ≠ null)
      (found : reg.classes cls = some record) :
      Edits reg (.addData cls clsData) { reg with
        classes := Function.update reg.classes cls
          (some { record with cls := { record.cls with data := clsData } })
        destroyed := reg.destroyed ++ reg.dropped record.cls.data }
  | implement {cls : Nat} {heap : Heap F} {call : OilClass.Call F} {record : ClassRecord F D}
      {worked : OilClass F D} (nonNull : cls ≠ null) (found : reg.classes cls = some record)
      (stepped : OilClass.step { record.cls with slot := reg.slots record.slotP } heap call = some worked) :
      Edits reg (.implement cls heap call) { reg with
        classes := Function.update reg.classes cls (some { record with cls := worked })
        slots := Function.update reg.slots record.slotP worked.slot }

/-- Everything a call can do. -/
theorem step_cases (called : reg.step call = some after) :
    (∃ start tableCall, Stages reg call start tableCall) ∨ Edits reg call after ∨
      (after = reg ∧ ∀ cls clsData, call = .addData cls clsData → cls = null) := by
  cases call with
  | register clsName refFunc slot =>
      match clsName, refFunc, slot with
      | none, _, _ => exact .inr (.inr ⟨(Option.some.inj called).symm, nofun⟩)
      | some _, none, _ => exact .inr (.inr ⟨(Option.some.inj called).symm, nofun⟩)
      | some _, some _, none => exact .inr (.inr ⟨(Option.some.inj called).symm, nofun⟩)
      | some clsName, some refFunc, some slot =>
          by_cases empty : clsName = ""
          · simp only [step, register, if_pos empty, Option.map_some, Option.some.injEq] at called
            exact .inr (.inr ⟨called.symm, nofun⟩)
          · exact .inl ⟨_, _, .register empty⟩
  | addData cls clsData =>
      by_cases isNull : cls = null
      · simp only [step, addData, if_pos isNull, Option.some.injEq] at called
        refine .inr (.inr ⟨called.symm, fun other clsData same => ?_⟩)
        cases same
        exact isNull
      · simp only [step, addData, if_neg isNull] at called
        obtain ⟨record, found, rfl⟩ := Option.map_eq_some_iff.mp called
        exact .inr (.inl (.addData isNull found))
  | remove clsName => exact .inl ⟨_, _, .remove⟩
  | removeAll => exact .inl ⟨_, _, .removeAll⟩
  | implement cls heap call =>
      by_cases isNull : cls = null
      · simp only [step, onClass, if_pos isNull, Option.some.injEq] at called
        exact .inr (.inr ⟨called.symm, nofun⟩)
      · simp only [step, onClass, if_neg isNull, Option.bind_eq_bind, Option.bind_eq_some_iff] at called
        obtain ⟨record, found, worked, stepped, same⟩ := called
        obtain rfl := Option.some.inj same
        exact .inr (.inl (.implement isNull found stepped))

namespace Stages

theorem step_eq (stages : Stages reg call start tableCall) :
    reg.step call = (start.callTable tableCall).map Prod.fst := by
  cases stages with
  | register named =>
      rw [step, Registry.register, if_neg named, Option.map_map]
      rfl
  | remove => rfl
  | removeAll => rfl

theorem nonNull (stages : Stages reg call start tableCall) : null ∉ tableCall.keys := by
  cases stages with
  | register => simp [insertion, HashTable.Call.keys, null]
  | remove => exact List.not_mem_nil
  | removeAll => exact List.not_mem_nil

theorem oilClasses (stages : Stages reg call start tableCall) : start.oilClasses = reg.oilClasses := by
  cases stages <;> rfl

theorem ledger (stages : Stages reg call start tableCall) (ledger : Ledger reg held given gone) :
    Ledger start (tableCall.given ++ held) (given ++ tableCall.given) gone := by
  cases stages with
  | register => exact ledger.allocate _ _ _
  | remove => exact (List.append_nil given).symm ▸ ledger
  | removeAll => exact (List.append_nil given).symm ▸ ledger

end Stages

/-- An edited record keeps the pointers to its name and to its slot. -/
theorem Edits.record (edits : Edits reg call after) :
    ∃ cls record edited, reg.classes cls = some record ∧
      after.classes = Function.update reg.classes cls (some edited) ∧
      edited.name = record.name ∧ edited.slotP = record.slotP := by
  cases edits with
  | addData _ found => exact ⟨_, _, _, found, rfl, rfl, rfl⟩
  | implement _ found _ => exact ⟨_, _, _, found, rfl, rfl, rfl⟩

theorem Edits.frame (edits : Edits reg call after) :
    after.oilClasses = reg.oilClasses ∧ after.allocated = reg.allocated ∧ after.freed = reg.freed ∧
      after.dataDestructor = reg.dataDestructor := by
  cases edits <;> exact ⟨rfl, rfl, rfl, rfl⟩

namespace Kept

theorem stage (kept : Kept reg ht given gone) (stages : Stages reg call start tableCall)
    (stepped : ht.step tableCall = some (next, outcome, destroyed)) :
    ∃ after, reg.step call = some after ∧ Kept after next (given ++ tableCall.given) (gone ++ destroyed) ∧
      Settled { start with oilClasses := some next } after destroyed := by
  obtain ⟨after, called, stored, ledger, settled⟩ :=
    callTable_returns (stages.oilClasses.trans kept.stored) kept.table (stages.ledger kept.ledger)
      stages.nonNull stepped
  refine ⟨after, ?_, ⟨stored, kept.table.step stepped, ledger⟩, settled⟩
  rw [stages.step_eq, called, Option.map_some]

theorem staged (kept : Kept reg ht given gone) (stages : Stages reg call start tableCall)
    (called : reg.step call = some after) :
    ∃ next outcome destroyed, ht.step tableCall = some (next, outcome, destroyed) ∧
      Kept after next (given ++ tableCall.given) (gone ++ destroyed) ∧
      Settled { start with oilClasses := some next } after destroyed := by
  have answered := called
  rw [stages.step_eq, Option.map_eq_some_iff] at answered
  obtain ⟨⟨_, outcome⟩, tabled, rfl⟩ := answered
  obtain ⟨next, destroyed, stepped⟩ := callTable_eq_some (stages.oilClasses.trans kept.stored) tabled
  obtain ⟨_, same, keptAfter, settled⟩ := kept.stage stages stepped
  obtain rfl := Option.some.inj (called.symm.trans same)
  exact ⟨next, outcome, destroyed, stepped, keptAfter, settled⟩

theorem edit (kept : Kept reg ht given gone) (edits : Edits reg call after) : Kept after ht given gone := by
  obtain ⟨oilClasses, allocated, freed, _⟩ := edits.frame
  obtain ⟨cls, record, edited, found, classes, _⟩ := edits.record
  have ledger := kept.ledger
  refine ⟨oilClasses.trans kept.stored, kept.table, ledger.balanced, ledger.once, ?_, ?_, ?_, fun other => ?_⟩
  · rw [allocated]
    exact ledger.names
  · rw [allocated]
    exact ledger.records
  · rw [freed]
    exact ledger.freed
  · rw [classes, ← ledger.classes]
    by_cases same : other = cls
    · rw [same, Function.update_self, found]
      rfl
    · rw [Function.update_of_ne same]

theorem init (slots : Nat → F) (classDataDestructor : Bool) :
    ∃ reg ht, (initial (D := D) slots).init classDataDestructor = some reg ∧ Kept reg ht [] [] ∧
      reg.dataDestructor = classDataDestructor ∧ reg.destroyed = [] ∧ ht.stored = [] := by
  obtain ⟨ht, made, _⟩ := HashTable.new_spec (K := CharPointer) (V := Nat) strHash (some strEqual) true true
  obtain ⟨roomy, funcs, empty⟩ := HashTable.new_roomy made
  have started : (initial (D := D) slots).init classDataDestructor = some { initial slots with
      oilClasses := some ht, dataDestructor := classDataDestructor } := by
    simp only [Registry.init, initial, made, Option.bind_eq_bind, Option.bind_some]
    rfl
  refine ⟨_, ht, started, ⟨rfl, ⟨roomy, funcs, by simp [empty]⟩, ?_⟩, rfl, rfl, empty⟩
  · rw [HashTable.owned, empty]
    exact ⟨.empty, .nil, by simp, by simp, by simp [initial], by simp [initial]⟩

end Kept

end Registry

end Oil.Core
