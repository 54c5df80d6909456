import Oil.Core.Registry.Names

namespace Oil.Core

open Oil.Data

namespace Registry

variable {F D : Type} {reg after : Registry F D} {call : Call F D} {ht : HashTable CharPointer Nat}
  {parts given gone : List (Destroyed CharPointer Nat)} {issued : List D}

def Call.attached : Call F D → List D
  | .addData _ clsData => clsData.toList
  | _ => []

def Call.OnRegistry : Call F D → Prop
  | .implement .. => False
  | _ => True

def Attaches (reg : Registry F D) : Call F D → Prop
  | .addData cls clsData => cls ∈ reg.visited.map Prod.snd ∨ cls = null ∧ clsData = none
  | _ => True

instance (reg : Registry F D) : ∀ call, Decidable (reg.Attaches call)
  | .addData cls clsData => inferInstanceAs (Decidable (cls ∈ reg.visited.map Prod.snd ∨ cls = null ∧ clsData = none))
  | .register .. => isTrue trivial
  | .remove _ => isTrue trivial
  | .removeAll => isTrue trivial
  | .implement .. => isTrue trivial

/-- What `oil_class_get_data` returns for a class that `oil_class_get` returns is not destroyed. -/
def AttachmentsAlive (reg : Registry F D) : Prop :=
  ∀ clsName cls clsData, reg.get (some clsName) = some cls → reg.getData cls = some (some clsData) →
    clsData ∉ reg.destroyed

/-- The data of the records among the given parts. -/
def attachments (reg : Registry F D) (parts : List (Destroyed CharPointer Nat)) : List D :=
  parts.flatMap fun part => (reg.attachment part).toList

theorem attachments_congr (same : ∀ cls, .value cls ∈ parts → after.classes cls = reg.classes cls) :
    after.attachments parts = reg.attachments parts := by
  refine List.flatMap_congr fun part member => ?_
  cases part with
  | key name => rfl
  | value cls => rw [attachment, attachment, same cls member]

theorem Settled.destroyed_eq (settled : Settled reg after parts) (destructor : reg.dataDestructor = true) :
    after.destroyed = reg.destroyed ++ reg.attachments parts := by
  rw [settled.destroyed]
  simp only [dropped, destructor, ↓reduceIte, attachments]

theorem Kept.attaches_registered (kept : Kept reg ht given gone) {cls : Nat} {clsData : Option D}
    (attaches : reg.Attaches (.addData cls clsData)) (nonNull : cls ≠ null) : .value cls ∈ ht.owned := by
  rcases attaches with registered | ⟨isNull, _⟩
  · rw [kept.visited_eq, List.map_map] at registered
    obtain ⟨node, member, rfl⟩ := List.mem_map.mp registered
    exact (Kept.parts_held member).2
  · exact absurd isNull nonNull

theorem Kept.spared (keptAfter : Kept after ht given (gone ++ parts)) {cls : Nat}
    (member : .value cls ∈ ht.owned) : .value cls ∉ parts := fun isGone =>
  keptAfter.ledger.not_gone member (List.mem_append_right _ isGone)

theorem Stages.attachments {start : Registry F D} {tableCall : HashTable.Call CharPointer Nat}
    (stages : Stages reg call start tableCall) (kept : Kept reg ht given gone) :
    start.attachments (tableCall.given ++ ht.owned) = reg.attachments ht.owned := by
  cases stages with
  | @register clsName refFunc slot named =>
      have old : (reg.allocate clsName refFunc slot).attachments ht.owned = reg.attachments ht.owned := by
        refine attachments_congr fun cls member => ?_
        have bound := (kept.ledger.records cls (kept.ledger.given_of_held member)).2
        exact Function.update_of_ne (by omega) _ _
      rw [Registry.attachments, List.flatMap_append, ← Registry.attachments, ← Registry.attachments, old]
      simp [Registry.attachments, insertion, HashTable.Call.given, attachment, allocate, OilClass.registered]
  | remove => rfl
  | removeAll => rfl

theorem Edits.data (edits : Edits reg call after) :
    ∃ cls record edited, reg.classes cls = some record ∧
      after.classes = Function.update reg.classes cls (some edited) ∧
      ((∃ clsData, call = .addData cls clsData ∧ cls ≠ null ∧ edited.cls.data = clsData ∧
          after.destroyed = reg.destroyed ++ reg.dropped record.cls.data) ∨
        (call.attached = [] ∧ edited.cls.data = record.cls.data ∧ after.destroyed = reg.destroyed)) := by
  cases edits with
  | addData nonNull found => exact ⟨_, _, _, found, rfl, .inl ⟨_, rfl, nonNull, rfl, rfl⟩⟩
  | implement _ found stepped =>
      have same := OilClass.step_data stepped
      exact ⟨_, _, _, found, rfl, .inr ⟨rfl, same, rfl⟩⟩

theorem Kept.attachments_edited (kept : Kept reg ht given gone) {cls : Nat} {record edited : ClassRecord F D}
    (member : .value cls ∈ ht.owned) (found : reg.classes cls = some record)
    (classes : after.classes = Function.update reg.classes cls (some edited)) :
    ∃ rest, (reg.attachments ht.owned).Perm (record.cls.data.toList ++ rest) ∧
      (after.attachments ht.owned).Perm (edited.cls.data.toList ++ rest) := by
  obtain ⟨left, right, split⟩ := List.append_of_mem member
  have order : ht.owned.Perm (.value cls :: (left ++ right)) := split ▸ List.perm_middle
  have apart := (List.nodup_cons.mp (order.nodup_iff.mp kept.ledger.held_nodup)).1
  have others : after.attachments (left ++ right) = reg.attachments (left ++ right) := by
    refine attachments_congr fun other isOther => ?_
    have differs : other ≠ cls := by
      rintro rfl
      exact apart isOther
    rw [classes, Function.update_of_ne differs]
  have first : reg.attachment (.value cls) = record.cls.data := by rw [attachment, found, Option.bind_some]
  have firstAfter : after.attachment (.value cls) = edited.cls.data := by
    rw [attachment, classes, Function.update_self, Option.bind_some]
  refine ⟨reg.attachments (left ++ right), ?_, ?_⟩
  · rw [← first]
    exact order.flatMap_right _
  · rw [← firstAfter, ← others]
    exact order.flatMap_right _

/-- One call: what is attached is held by a registered class or has been destroyed. -/
theorem Kept.step_balanced (kept : Kept reg ht given gone) (destructor : reg.dataDestructor = true)
    (balanced : Balanced issued (reg.attachments ht.owned) reg.destroyed) (attaches : reg.Attaches call)
    (called : reg.step call = some after) :
    ∃ next given gone, Kept after next given gone ∧ after.dataDestructor = true ∧
      Balanced (issued ++ call.attached) (after.attachments next.owned) after.destroyed := by
  rcases step_cases called with ⟨start, tableCall, stages⟩ | edits | ⟨rfl, idle⟩
  · obtain ⟨next, outcome, destroyed, stepped, keptAfter, settled⟩ := kept.staged stages called
    obtain ⟨_, _, moved⟩ := HashTable.step_returned kept.table.roomy stepped
    have startDestructor : start.dataDestructor = true := by cases stages <;> exact destructor
    have startDestroyed : start.destroyed = reg.destroyed := by cases stages <;> rfl
    have nothing : call.attached = [] := by cases stages <;> rfl
    have stayed : after.attachments next.owned = start.attachments next.owned :=
      attachments_congr fun cls member => settled.classes cls (keptAfter.spared member)
    have passed : after.destroyed = reg.destroyed ++ start.attachments destroyed :=
      (settled.destroyed_eq startDestructor).trans (congrArg (· ++ _) startDestroyed)
    refine ⟨next, _, _, keptAfter, settled.dataDestructor.trans startDestructor, ?_⟩
    rw [nothing, List.append_nil, stayed, passed]
    refine balanced.letGo ?_
    rw [← stages.attachments kept, Registry.attachments, Registry.attachments, Registry.attachments,
      ← List.flatMap_append]
    exact (moved kept.table.destroys stages.nonNull).flatMap_right _
  · refine ⟨ht, given, gone, kept.edit edits, edits.frame.2.2.2.trans destructor, ?_⟩
    obtain ⟨cls, record, edited, found, classes, data⟩ := edits.data
    rcases data with ⟨clsData, rfl, nonNull, changed, destroyed⟩ | ⟨nothing, same, destroyed⟩
    · obtain ⟨rest, before, afterwards⟩ :=
        kept.attachments_edited (kept.attaches_registered attaches nonNull) found classes
      rw [changed] at afterwards
      rw [destroyed]
      simp only [dropped, destructor, ↓reduceIte]
      refine balanced.step ((before.append_left _).trans ?_)
      refine (List.perm_append_comm.append_left _).trans ?_
      rw [← List.append_assoc]
      exact (afterwards.append_right _).symm
    · have stayed : after.attachments ht.owned = reg.attachments ht.owned := by
        refine List.flatMap_congr fun part member => ?_
        cases part with
        | key name => rfl
        | value other =>
            by_cases isClass : other = cls
            · subst isClass
              simp [attachment, found, classes, same]
            · simp [attachment, classes, Function.update_of_ne isClass]
      rw [nothing, List.append_nil, stayed, destroyed]
      exact balanced
  · refine ⟨ht, given, gone, kept, destructor, ?_⟩
    have nothing : call.attached = [] := by
      cases call with
      | addData cls clsData =>
          rcases attaches with registered | ⟨_, rfl⟩
          · rw [kept.visited_eq, List.map_map] at registered
            obtain ⟨node, member, same⟩ := List.mem_map.mp registered
            exact absurd (same.trans (idle cls clsData rfl)) (kept.value_ne_null member)
          · rfl
      | _ => rfl
    rwa [nothing, List.append_nil]

theorem Kept.uninit_returns (kept : Kept reg ht given gone) (destructor : reg.dataDestructor = true) :
    ∃ final, reg.uninit = some final ∧ final.destroyed = reg.destroyed ++ reg.attachments ht.owned := by
  obtain ⟨after, notified, _, settled⟩ :=
    notifyAll_returns kept.ledger (show ht.owned.Perm ([] ++ ht.owned) from .refl _)
  refine ⟨{ after with dataDestructor := false, oilClasses := none }, ?_, settled.destroyed_eq destructor⟩
  simp only [uninit, kept.stored, HashTable.destroy_eq_owned kept.table.destroys, Option.bind_eq_bind]
  rw [notified]
  rfl

theorem Kept.onRegistry_returns (kept : Kept reg ht given gone) (onRegistry : call.OnRegistry)
    (attaches : reg.Attaches call) (few : reg.visited.length < 2 ^ 30 - 1) :
    ∃ after, reg.step call = some after ∧ ∃ next given gone, Kept after next given gone := by
  cases call with
  | addData cls clsData =>
      by_cases isNull : cls = null
      · exact ⟨reg, by rw [step, addData, if_pos isNull], ht, given, gone, kept⟩
      · obtain ⟨record, found⟩ := kept.ledger.record (kept.attaches_registered attaches isNull)
        have edits : Edits reg (.addData cls clsData) _ := .addData isNull found
        refine ⟨_, ?_, ht, given, gone, kept.edit edits⟩
        rw [step, addData, if_neg isNull, found]
        rfl
  | implement cls heap call => exact onRegistry.elim
  | register clsName refFunc slot => exact kept.onNames_returns trivial few
  | remove clsName => exact kept.onNames_returns trivial few
  | removeAll => exact kept.onNames_returns trivial few

theorem Kept.attachmentsAlive (kept : Kept reg ht given gone) (once : issued.Nodup)
    (balanced : Balanced issued (reg.attachments ht.owned) reg.destroyed) : reg.AttachmentsAlive := by
  intro clsName cls clsData found read
  rcases kept.get_cases clsName with ⟨node, member, _, same⟩ | ⟨_, same⟩
  · obtain rfl := Option.some.inj (found.symm.trans same)
    rw [getData, if_neg (kept.value_ne_null member), Option.map_eq_some_iff] at read
    obtain ⟨record, foundRecord, data⟩ := read
    refine balanced.not_released once (List.mem_flatMap.mpr ⟨_, (Kept.parts_held member).2, ?_⟩)
    rw [attachment, foundRecord, Option.bind_some, data]
    exact .head _
  · obtain rfl := Option.some.inj (found.symm.trans same)
    rw [getData, if_pos rfl] at read
    cases Option.some.inj read

/-- The books of a whole run: what was attached is held by a registered class or destroyed. -/
theorem Kept.run_balanced {calls : List (Call F D)} {last : Registry F D} (kept : Kept reg ht given gone)
    (destructor : reg.dataDestructor = true)
    (balanced : Balanced issued (reg.attachments ht.owned) reg.destroyed)
    (attaches : Meets step Attaches reg calls) (ran : reg.run calls = some last) :
    ∃ next given gone, Kept last next given gone ∧ last.dataDestructor = true ∧
      Balanced (issued ++ calls.flatMap Call.attached) (last.attachments next.owned) last.destroyed := by
  induction calls generalizing reg ht given gone issued with
  | nil =>
      obtain rfl := Option.some.inj ran
      rw [List.flatMap_nil, List.append_nil]
      exact ⟨ht, given, gone, kept, destructor, balanced⟩
  | cons call calls ih =>
      rw [run, List.foldlM_cons, Option.bind_eq_bind, Option.bind_eq_some_iff] at ran
      obtain ⟨after, called, ranRest⟩ := ran
      obtain ⟨next, _, _, keptAfter, destructorAfter, balancedAfter⟩ :=
        kept.step_balanced destructor balanced attaches.1 called
      have later := ih keptAfter destructorAfter balancedAfter (attaches.2 after called) ranRest
      rwa [List.append_assoc] at later

/-- After `oil_class_init` with a data destructor, data that is attached once, each time to a
registered class, is destroyed once by the end of `oil_class_uninit`, and at no time before
does a class that can be found hold data that is destroyed. -/
theorem each_attachment_is_destroyed_once [DecidableEq D] (slots : Nat → F) {reg : Registry F D}
    (started : (initial slots).init true = some reg) (calls : List (Call F D))
    (attaches : Meets step Attaches reg calls) (once : (calls.flatMap Call.attached).Nodup) :
    (Meets step (fun reg call => call.OnRegistry ∧ reg.visited.length < 2 ^ 30 - 1) reg calls →
      ∃ last, reg.run calls = some last) ∧
    Always step AttachmentsAlive reg calls ∧
    ∀ last, reg.run calls = some last → ∃ final, last.uninit = some final ∧
      ∀ clsData ∈ calls.flatMap Call.attached, final.destroyed.count clsData = 1 := by
  obtain ⟨_, ht, same, kept, destructor, nothing, empty⟩ := Kept.init (D := D) slots true
  obtain rfl := Option.some.inj (started.symm.trans same)
  have start : Balanced [] (reg.attachments ht.owned) reg.destroyed := by
    rw [nothing, HashTable.owned, empty]
    exact .empty
  refine ⟨fun meets => ?_, ?_, fun last ran => ?_⟩
  · obtain ⟨last, ran, _⟩ := (attaches.and meets).returns
      (fun reg => ∃ ht given gone, Kept reg ht given gone) (fun reg call keeps met => by
        obtain ⟨_, _, _, kept⟩ := keeps
        obtain ⟨attaches, onRegistry, few⟩ := met
        exact kept.onRegistry_returns onRegistry attaches few)
      ⟨ht, _, _, kept⟩
    exact ⟨last, ran⟩
  · apply Always.of_invariant fun reg calls => ∃ ht given gone issued, Kept reg ht given gone ∧
      reg.dataDestructor = true ∧ Balanced issued (reg.attachments ht.owned) reg.destroyed ∧
      (issued ++ calls.flatMap Call.attached).Nodup ∧ Meets step Attaches reg calls
    · rintro reg calls ⟨ht, given, gone, issued, kept, _, balanced, once, _⟩
      exact kept.attachmentsAlive (List.nodup_append.mp once).1 balanced
    · rintro reg call calls after ⟨ht, given, gone, issued, kept, destructor, balanced, once, attaches⟩ called
      obtain ⟨next, _, _, keptAfter, destructorAfter, balancedAfter⟩ :=
        kept.step_balanced destructor balanced attaches.1 called
      rw [List.flatMap_cons, ← List.append_assoc] at once
      exact ⟨next, _, _, _, keptAfter, destructorAfter, balancedAfter, once, attaches.2 after called⟩
    · exact ⟨ht, _, _, [], kept, destructor, start, once, attaches⟩
  · obtain ⟨next, _, _, keptLast, destructorLast, balanced⟩ :=
      kept.run_balanced destructor start attaches ran
    obtain ⟨final, ended, destroyed⟩ := keptLast.uninit_returns destructorLast
    refine ⟨final, ended, fun clsData member => ?_⟩
    have settled : Balanced (calls.flatMap Call.attached) [] final.destroyed := by
      rw [destroyed]
      exact balanced.trans List.perm_append_comm
    exact settled.released_once once member

/-- Data that is replaced, data of a replaced class, of a removed one, and data left for the end. -/
theorem each_attachment_is_destroyed_once_four : ∃ reg last final : Registry Nat Nat,
    (initial fun _ => 0).init true = some reg ∧
    reg.run [.register (some "a") (some 1) (some 0), .addData 1 (some 10), .addData 1 (some 11),
      .register (some "a") (some 2) (some 0), .addData 2 (some 12), .remove (some "a"),
      .register (some "b") (some 3) (some 0), .addData 3 (some 13)] = some last ∧
    last.uninit = some final ∧ final.destroyed = [10, 11, 12, 13] ∧ final.destroyed.count 11 = 1 := by
  have facts := each_attachment_is_destroyed_once (F := Nat) (D := Nat) (fun _ => 0) rfl
    [.register (some "a") (some 1) (some 0), .addData 1 (some 10), .addData 1 (some 11),
      .register (some "a") (some 2) (some 0), .addData 2 (some 12), .remove (some "a"),
      .register (some "b") (some 3) (some 0), .addData 3 (some 13)] (by decide) (by decide)
  obtain ⟨final, ended, counts⟩ := facts.2.2 _ rfl
  refine ⟨_, _, final, rfl, rfl, ended, ?_, counts 11 (by decide)⟩
  obtain rfl := Option.some.inj ended
  rfl

end Registry

end Oil.Core
