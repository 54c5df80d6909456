import Oil.Core.Registry.Steps
import Oil.Data.Runs

namespace Oil.Core

open Oil.Data

namespace Registry

variable {F D : Type} {reg after : Registry F D} {call : Call F D} {ht : HashTable CharPointer Nat}
  {given gone : List (Destroyed CharPointer Nat)} {clsName : String} {cls : Nat}

/-- `oil_class_get_name` returns a string that is not freed and has this text. -/
def NameAlive (reg : Registry F D) (text : String) (cls : Nat) : Prop :=
  ∃ name, reg.getName cls = some name ∧ name ∉ reg.freed ∧ name.text = some text

/-- Every class that `oil_class_get` or `oil_class_foreach` leads to is found under its name. -/
def NamesAlive (reg : Registry F D) : Prop :=
  (∀ clsName cls, reg.get (some clsName) = some cls → cls ≠ null → reg.NameAlive clsName cls) ∧
  ∀ key cls, (key, cls) ∈ reg.visited → ∃ text, key.text = some text ∧ reg.NameAlive text cls

/-- A registration that passes the checks of its arguments names no registered class. -/
def RegistersNew (reg : Registry F D) : Call F D → Prop
  | .register (some clsName) (some _) (some _) => clsName ≠ "" → reg.get (some clsName) = some null
  | _ => True

def Call.OnNames : Call F D → Prop
  | .register .. => True
  | .remove _ => True
  | .removeAll => True
  | _ => False

namespace Kept

theorem visited_eq (kept : Kept reg ht given gone) : reg.visited = ht.stored.map HashTable.pair := by
  rw [← HashTable.visited_eq, visited, kept.stored]
  rfl

theorem parts_held {node : HashNode CharPointer Nat} (member : node ∈ ht.stored) :
    .key node.key ∈ ht.owned ∧ .value node.value ∈ ht.owned :=
  ⟨List.mem_flatMap.mpr ⟨node, member, .head _⟩, List.mem_flatMap.mpr ⟨node, member, .tail _ (.head _)⟩⟩

theorem value_ne_null (kept : Kept reg ht given gone) {node : HashNode CharPointer Nat}
    (member : node ∈ ht.stored) : node.value ≠ null :=
  Nat.ne_of_gt (kept.ledger.records _ (kept.ledger.given_of_held (parts_held member).2)).1

theorem get_cases (kept : Kept reg ht given gone) (clsName : String) :
    (∃ node ∈ ht.stored, node.key.text = some clsName ∧ reg.get (some clsName) = some node.value) ∨
      (∀ node ∈ ht.stored, node.key.text ≠ some clsName) ∧ reg.get (some clsName) = some null := by
  have looked : reg.get (some clsName) = ht.lookup (.borrowed clsName) := by
    simp only [get, kept.stored]
  have nonNull : (CharPointer.borrowed clsName) ≠ null := by simp [null]
  rw [looked]
  rcases HashTable.lookup_cases kept.table.roomy.toCounted kept.table.roomy.room nonNull with
    ⟨node, member, same, found⟩ | ⟨misses, missed⟩
  · exact .inl ⟨node, member, kept.table.text_eq same, found⟩
  · exact .inr ⟨kept.table.text_ne misses, missed⟩

theorem get_null_iff (kept : Kept reg ht given gone) :
    reg.get (some clsName) = some null ↔ ∀ node ∈ ht.stored, node.key.text ≠ some clsName := by
  rcases kept.get_cases clsName with ⟨node, member, text, found⟩ | ⟨absent, found⟩
  · rw [found, Option.some.injEq]
    exact iff_of_false (kept.value_ne_null member) fun absent => absent node member text
  · exact iff_of_true found absent

end Kept

/-- Every registered class holds the very string it is stored under as its name. -/
def Labelled (reg : Registry F D) (ht : HashTable CharPointer Nat) : Prop :=
  ∀ node ∈ ht.stored, ∃ record, reg.classes node.value = some record ∧ record.name = node.key

theorem Labelled.namesAlive (labelled : Labelled reg ht) (kept : Kept reg ht given gone) : reg.NamesAlive := by
  have alive {node : HashNode CharPointer Nat} (member : node ∈ ht.stored) {text : String}
      (spelled : node.key.text = some text) : reg.NameAlive text node.value := by
    obtain ⟨record, found, called⟩ := labelled node member
    refine ⟨node.key, ?_, kept.ledger.alive (Kept.parts_held member).1, spelled⟩
    rw [getName, if_neg (kept.value_ne_null member), found, Option.map_some, called]
  refine ⟨fun clsName cls found nonNull => ?_, fun key cls seen => ?_⟩
  · rcases kept.get_cases clsName with ⟨node, member, text, same⟩ | ⟨_, same⟩
    · obtain rfl := Option.some.inj (found.symm.trans same)
      exact alive member text
    · exact absurd (Option.some.inj (found.symm.trans same)) nonNull
  · rw [kept.visited_eq] at seen
    obtain ⟨node, member, same⟩ := List.mem_map.mp seen
    obtain ⟨rfl, rfl⟩ := Prod.mk.inj same
    obtain ⟨number, _, text, duplicate⟩ :=
      kept.ledger.names node.key (kept.ledger.given_of_held (Kept.parts_held member).1)
    have spelled : node.key.text = some text := by rw [duplicate, CharPointer.text]
    exact ⟨text, spelled, alive member spelled⟩

/-- The two ways a registration goes. -/
theorem Kept.register_cases {next : HashTable CharPointer Nat} {outcome : HashTable.Outcome Nat}
    {destroyed : List (Destroyed CharPointer Nat)} (kept : Kept reg ht given gone)
    (stepped : ht.step (reg.insertion clsName) = some (next, outcome, destroyed)) :
    (∃ node ∈ ht.stored, node.key.text = some clsName ∧
      { node with value := reg.allocated + 1 } ∈ next.stored ∧
      .key (.duplicate reg.allocated clsName) ∈ destroyed) ∨
    ((∀ node ∈ ht.stored, node.key.text ≠ some clsName) ∧
      ∀ node ∈ next.stored, node ∈ ht.stored ∨
        node.key = .duplicate reg.allocated clsName ∧ node.value = reg.allocated + 1) := by
  obtain ⟨⟨_, _⟩, inserted, same⟩ := Option.map_eq_some_iff.mp stepped
  simp only [Prod.mk.injEq] at same
  obtain ⟨rfl, _, rfl⟩ := same
  have nonNull : (CharPointer.duplicate reg.allocated clsName) ≠ null := by simp [null]
  obtain ⟨_, _, ⟨node, rest, found, before, afterwards, rfl⟩ | ⟨misses, grown, _⟩⟩ :=
    HashTable.insert_returned kept.table.roomy nonNull inserted
  · left
    refine ⟨node, before.mem_iff.mpr (.head _), kept.table.text_eq found, afterwards.mem_iff.mpr (.head _), ?_⟩
    rw [HashTable.destroys_both kept.table.destroys]
    exact .head _
  · right
    refine ⟨kept.table.text_ne misses, fun node member => ?_⟩
    rcases List.mem_cons.mp (grown.mem_iff.mp member) with rfl | old
    · exact .inr ⟨rfl, rfl⟩
    · exact .inl old

theorem Labelled.step (labelled : Labelled reg ht) (kept : Kept reg ht given gone)
    (called : reg.step call = some after) (new : reg.RegistersNew call) :
    ∃ next given gone, Kept after next given gone ∧ Labelled after next := by
  rcases step_cases called with ⟨start, tableCall, stages⟩ | edits | ⟨rfl, _⟩
  · obtain ⟨next, outcome, destroyed, stepped, keptAfter, settled⟩ := kept.staged stages called
    refine ⟨next, _, _, keptAfter, fun node member => ?_⟩
    have spared : .value node.value ∉ destroyed := fun isGone =>
      keptAfter.ledger.not_gone (Kept.parts_held member).2 (List.mem_append_right _ isGone)
    rw [settled.classes _ spared]
    have stayed (old : node ∈ ht.stored) (same : start.classes node.value = reg.classes node.value) :
        ∃ record, start.classes node.value = some record ∧ record.name = node.key := by
      rw [same]
      exact labelled node old
    cases stages with
    | register named =>
        rcases kept.register_cases stepped with ⟨other, stored, text, _⟩ | ⟨_, origin⟩
        · exact absurd text (kept.get_null_iff.mp (new named) other stored)
        · rcases origin node member with old | ⟨key, value⟩
          · have bound := (kept.ledger.records _ (kept.ledger.given_of_held (Kept.parts_held old).2)).2
            exact stayed old (Function.update_of_ne (by omega) _ _)
          · rw [value, key]
            exact ⟨_, Function.update_self _ _ _, rfl⟩
    | remove =>
        rcases HashTable.step_stored kept.table.roomy stepped member with old | ⟨key, val, no, _⟩
        · exact stayed old rfl
        · cases no
    | removeAll =>
        rcases HashTable.step_stored kept.table.roomy stepped member with old | ⟨key, val, no, _⟩
        · exact stayed old rfl
        · cases no
  · refine ⟨ht, given, gone, kept.edit edits, fun node member => ?_⟩
    obtain ⟨record, found, name⟩ := labelled node member
    obtain ⟨cls, old, edited, foundClass, classes, sameName, _⟩ := edits.record
    rw [classes]
    by_cases same : node.value = cls
    · rw [same, Function.update_self]
      obtain rfl := Option.some.inj ((same ▸ found).symm.trans foundClass)
      exact ⟨edited, rfl, sameName.trans name⟩
    · exact ⟨record, (Function.update_of_ne same _ _).trans found, name⟩
  · exact ⟨ht, given, gone, kept, labelled⟩

/-- A registration under a name that is taken leaves the class with a freed name. -/
theorem Kept.not_namesAlive (kept : Kept reg ht given gone) (called : reg.step call = some after)
    (taken : ¬ reg.RegistersNew call) : ¬ after.NamesAlive := by
  rw [RegistersNew.eq_def] at taken
  split at taken
  case h_2 => exact absurd trivial taken
  case h_1 clsName refFunc slot =>
    obtain ⟨named, notNull⟩ : clsName ≠ "" ∧ reg.get (some clsName) ≠ some null := by
      simpa only [Classical.not_imp] using taken
    intro alive
    obtain ⟨next, outcome, destroyed, stepped, keptAfter, settled⟩ := kept.staged (.register named) called
    rcases kept.register_cases stepped with ⟨node, _, _, stored, freed⟩ | ⟨absent, _⟩
    · have seen : (node.key, reg.allocated + 1) ∈ after.visited := by
        rw [keptAfter.visited_eq]
        exact List.mem_map.mpr ⟨_, stored, rfl⟩
      obtain ⟨_, _, name, read, notFreed, _⟩ := alive.2 _ _ seen
      have spared : .value (reg.allocated + 1) ∉ destroyed := fun isGone =>
        keptAfter.ledger.not_gone (Kept.parts_held stored).2 (List.mem_append_right _ isGone)
      have record : after.classes (reg.allocated + 1) =
          some ⟨.registered clsName refFunc, .duplicate reg.allocated clsName, slot⟩ :=
        (settled.classes _ spared).trans (Function.update_self _ _ _)
      have nonNull : reg.allocated + 1 ≠ null := Nat.succ_ne_zero _
      rw [getName, if_neg nonNull, record, Option.map_some, Option.some.injEq] at read
      subst read
      exact notFreed ((keptAfter.ledger.freed _).mpr (List.mem_append_right _ freed))
    · exact notNull (kept.get_null_iff.mpr absent)

theorem Kept.stored_length (kept : Kept reg ht given gone) : ht.stored.length = reg.visited.length := by
  rw [kept.visited_eq, List.length_map]

/-- A call by name returns as long as the table can answer. -/
theorem Kept.onNames_returns (kept : Kept reg ht given gone) (onNames : call.OnNames)
    (few : reg.visited.length < 2 ^ 30 - 1) :
    ∃ after, reg.step call = some after ∧ ∃ next given gone, Kept after next given gone := by
  have answered {start : Registry F D} {tableCall : HashTable.Call CharPointer Nat}
      (stages : Stages reg call start tableCall) :
      ∃ after, reg.step call = some after ∧ ∃ next given gone, Kept after next given gone := by
    obtain ⟨⟨next, outcome, destroyed⟩, stepped⟩ :=
      HashTable.step_returns kept.table.roomy (kept.stored_length ▸ few) tableCall
    obtain ⟨after, called, keptAfter, _⟩ := kept.stage stages stepped
    exact ⟨after, called, next, _, _, keptAfter⟩
  have refused (idle : reg.step call = some reg) :
      ∃ after, reg.step call = some after ∧ ∃ next given gone, Kept after next given gone :=
    ⟨reg, idle, ht, given, gone, kept⟩
  cases call with
  | register clsName refFunc slot =>
      match clsName, refFunc, slot with
      | none, _, _ => exact refused rfl
      | some _, none, _ => exact refused rfl
      | some _, some _, none => exact refused rfl
      | some clsName, some refFunc, some slot =>
          by_cases empty : clsName = ""
          · exact refused (by rw [step, register, if_pos empty, Option.map_some])
          · exact answered (.register empty)
  | remove clsName => exact answered .remove
  | removeAll => exact answered .removeAll
  | addData cls clsData => exact onNames.elim
  | implement cls heap call => exact onNames.elim

/-- After `oil_class_init`, the names of all reachable classes stay alive in exactly those runs
that never register a name that is taken.  Calls by name always return, so the run goes on. -/
theorem names_alive_iff_registers_new (slots : Nat → F) (classDataDestructor : Bool) (calls : List (Call F D)) :
    ∃ reg, (initial slots).init classDataDestructor = some reg ∧
      (Meets step (fun reg call => call.OnNames ∧ reg.visited.length < 2 ^ 30 - 1) reg calls →
        ∃ last, reg.run calls = some last) ∧
      (Always step NamesAlive reg calls ↔ Guarded step RegistersNew reg calls) := by
  obtain ⟨reg, ht, started, kept, _, _, empty⟩ := Kept.init (D := D) slots classDataDestructor
  refine ⟨reg, started, fun meets => ?_, ?_⟩
  · obtain ⟨last, ran, _⟩ := meets.returns (fun reg => ∃ ht given gone, Kept reg ht given gone)
      (fun reg call ⟨_, _, _, kept⟩ ⟨onNames, few⟩ => kept.onNames_returns onNames few) ⟨ht, _, _, kept⟩
    exact ⟨last, ran⟩
  · apply Always.iff_guarded (fun reg => ∃ ht given gone, Kept reg ht given gone ∧ Labelled reg ht)
    · rintro reg ⟨ht, given, gone, kept, labelled⟩
      exact labelled.namesAlive kept
    · rintro reg call after ⟨ht, given, gone, kept, labelled⟩ called new
      obtain ⟨next, given, gone, keptAfter, labelledAfter⟩ := labelled.step kept called new
      exact ⟨next, given, gone, keptAfter, labelledAfter⟩
    · rintro reg call after ⟨ht, given, gone, kept, _⟩ called taken
      exact kept.not_namesAlive called taken
    · exact ⟨ht, _, _, kept, by simp [Labelled, empty]⟩

/-- Registering a name twice frees the name of the second class. -/
theorem names_not_alive : ¬ ∀ (slots : Nat → Nat) (classDataDestructor : Bool) (calls : List (Call Nat Nat)) reg,
    (initial slots).init classDataDestructor = some reg → (∀ call ∈ calls, call.OnNames) →
    Always step NamesAlive reg calls := by
  intro always
  have throughout := always (fun _ => 0) false
    [.register (some "a") (some 1) (some 0), .register (some "a") (some 2) (some 0)] _ rfl (by simp [Call.OnNames])
  have alive := ((throughout.2 _ rfl).2 _ rfl).2 (.duplicate 0 "a") 2 (by decide)
  obtain ⟨_, _, name, read, notFreed, _⟩ := alive
  obtain rfl : CharPointer.duplicate 1 "a" = name := Option.some.inj read
  exact notFreed (by decide)

end Registry

end Oil.Core
