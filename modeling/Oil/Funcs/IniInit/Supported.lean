import Oil.Funcs.IniInit.Activate
import Oil.Funcs.IniInit.LoadIni
import Oil.Core.Registry.Names

namespace Oil.Core

open Oil.Data Oil.Funcs

variable {F D : Type}

/-- The active implement is the reference or an implement the CPU has all flags for. -/
def OilClass.ActiveSupported (cpuFlags : Nat) (cls : OilClass F D) : Prop :=
  ∀ active, cls.activeImpl = some active → active.block = cls.block ∧
    ∃ entry, cls.occupied[active.index]? = some entry ∧ entry.named = true ∧ Supports cpuFlags entry.flags

/-- The record but for the choice of the active implement. -/
def ClassRecord.unchosen (record : ClassRecord F D) : ClassRecord F D :=
  { record with cls := { record.cls with slot := record.cls.ref, activeImpl := none } }

namespace OilClass

variable {cls : OilClass F D} {implName : String}

theorem activate_cases (cls : OilClass F D) (implName : String) :
    (cls.activateImplement (some implName) = cls ∧ cls.implementsGet (some implName) = none) ∨
    ∃ i entry, cls.occupied[i]? = some entry ∧ entry.name = some implName ∧
      cls.implementsGet (some implName) = some (entry.impl, entry.flags) ∧
      cls.activateImplement (some implName) =
        { cls with slot := entry.impl, activeImpl := some ⟨cls.block, i⟩ } := by
  rcases find_cases cls implName with ⟨i, entry, searched, found, hit⟩ | ⟨searched, _⟩
  · right
    have read := (occupied_getElem? found).2
    refine ⟨i, entry, found, hit, ?_, by simp only [activateImplement, searched, read]⟩
    simp only [implementsGet, searched, read, Option.bind_eq_bind, Option.bind_some]
    rfl
  · left
    refine ⟨by simp only [activateImplement, searched], ?_⟩
    simp only [implementsGet, searched, Option.bind_eq_bind, Option.bind_some, Option.bind_none]

theorem ActiveSupported.read {cpuFlags : Nat} (supported : cls.ActiveSupported cpuFlags) :
    ∃ active, cls.getActiveImplement = some active := by
  rw [getActiveImplement]
  split
  · exact ⟨none, rfl⟩
  case h_2 active chosen =>
    obtain ⟨block, entry, found, _⟩ := supported active chosen
    exact ⟨entry.name, by rw [if_pos block, (occupied_getElem? found).2, Option.map_some]⟩

end OilClass

namespace Registry

variable {reg mid after : Registry F D} {cpuFlags : Nat} {ht : HashTable CharPointer Nat}
  {given gone : List (Destroyed CharPointer Nat)}

/-- The pointers of the registered classes. -/
def registered (reg : Registry F D) : List Nat := reg.visited.map Prod.snd

def ActiveSupported (cpuFlags : Nat) (reg : Registry F D) : Prop :=
  ∀ cls ∈ reg.registered, ∀ record, reg.classes cls = some record → record.cls.ActiveSupported cpuFlags

/-- The slot holds a function of a registered class that has this slot, and the CPU has all flags
of the implement it comes from. -/
def ServesSupported (cpuFlags : Nat) (reg : Registry F D) (slot : Nat) : Prop :=
  ∃ cls ∈ reg.registered, ∃ record, reg.classes cls = some record ∧ record.slotP = slot ∧
    ∃ entry ∈ record.cls.namedImpls, entry.impl = reg.slots slot ∧ Supports cpuFlags entry.flags

/-- What activating implements leaves of a registry: all of it but the choice of implements,
and no choice the CPU cannot run. -/
structure Activated (cpuFlags : Nat) (reg after : Registry F D) : Prop where
  oilClasses : after.oilClasses = reg.oilClasses
  dataDestructor : after.dataDestructor = reg.dataDestructor
  allocated : after.allocated = reg.allocated
  freed : after.freed = reg.freed
  destroyed : after.destroyed = reg.destroyed
  records : ∀ cls, (after.classes cls).map ClassRecord.unchosen = (reg.classes cls).map ClassRecord.unchosen
  supported : after.ActiveSupported cpuFlags
  slots : ∀ slot, after.slots slot = reg.slots slot ∨ after.ServesSupported cpuFlags slot

namespace Activated

theorem refl (supported : reg.ActiveSupported cpuFlags) : Activated cpuFlags reg reg :=
  ⟨rfl, rfl, rfl, rfl, rfl, fun _ => rfl, supported, fun _ => .inl rfl⟩

theorem registered (activated : Activated cpuFlags reg after) : after.registered = reg.registered := by
  simp only [Registry.registered, visited, activated.oilClasses]

theorem trans (first : Activated cpuFlags reg mid) (second : Activated cpuFlags mid after) :
    Activated cpuFlags reg after := by
  refine ⟨second.oilClasses.trans first.oilClasses, second.dataDestructor.trans first.dataDestructor,
    second.allocated.trans first.allocated, second.freed.trans first.freed,
    second.destroyed.trans first.destroyed, fun cls => (second.records cls).trans (first.records cls),
    second.supported, fun slot => ?_⟩
  rcases second.slots slot with kept | served
  · rcases first.slots slot with unchanged | ⟨cls, member, record, found, slotP, entry, named, impl, supports⟩
    · exact .inl (kept.trans unchanged)
    · -- the class still has the implement that its slot got earlier
      have records := second.records cls
      rw [found, Option.map_some, Option.map_eq_some_iff] at records
      obtain ⟨later, foundLater, same⟩ := records
      have sameSlot : later.unchosen.slotP = record.unchosen.slotP := congrArg ClassRecord.slotP same
      have sameImpls : later.unchosen.cls.namedImpls = record.unchosen.cls.namedImpls := by rw [same]
      exact .inr ⟨cls, second.registered ▸ member, later, foundLater, sameSlot.trans slotP, entry,
        sameImpls ▸ named, impl.trans kept.symm, supports⟩
  · exact .inr served

end Activated

/-- Storing back a class after `oil_class_activate_implement` chose nothing, or an implement that
the CPU can run. -/
theorem activated_of_chosen {cls : Nat} {record : ClassRecord F D} {worked : OilClass F D}
    (supported : reg.ActiveSupported cpuFlags) (member : cls ∈ reg.registered)
    (found : reg.classes cls = some record)
    (chosen : worked = { record.cls with slot := reg.slots record.slotP } ∨
      ∃ i entry, record.cls.occupied[i]? = some entry ∧ entry.named = true ∧ Supports cpuFlags entry.flags ∧
        worked = { record.cls with slot := entry.impl, activeImpl := some ⟨record.cls.block, i⟩ }) :
    Activated cpuFlags reg { reg with
      classes := Function.update reg.classes cls (some { record with cls := worked })
      slots := Function.update reg.slots record.slotP worked.slot } := by
  refine ⟨rfl, rfl, rfl, rfl, rfl, fun other => ?_, ?_, fun slot => ?_⟩
  · by_cases same : other = cls
    · subst same
      simp only [Function.update_self, found, Option.map_some]
      rcases chosen with rfl | ⟨_, _, _, _, _, rfl⟩ <;> rfl
    · simp only [Function.update_of_ne same]
  · intro other isRegistered edited foundEdited
    by_cases same : other = cls
    · subst same
      simp only [Function.update_self, Option.some.injEq] at foundEdited
      subst foundEdited
      rcases chosen with rfl | ⟨i, entry, occupied, named, supports, rfl⟩
      · exact supported other member record found
      · rintro active isActive
        obtain rfl := Option.some.inj isActive
        exact ⟨rfl, entry, occupied, named, supports⟩
    · simp only [Function.update_of_ne same] at foundEdited
      exact supported other isRegistered edited foundEdited
  · by_cases same : slot = record.slotP
    · subst same
      rcases chosen with rfl | ⟨i, entry, occupied, named, supports, rfl⟩
      · exact .inl (Function.update_self _ _ _)
      · refine .inr ⟨cls, member, _, Function.update_self _ _ _, rfl, entry, ?_, ?_, supports⟩
        · exact OilClass.mem_namedImpls.mpr ⟨List.mem_of_getElem? occupied, named⟩
        · show entry.impl = Function.update reg.slots record.slotP entry.impl record.slotP
          rw [Function.update_self]
    · exact .inl (Function.update_of_ne same _ _)

theorem activateClass_returns {cls flags : Nat} (kept : Kept reg ht given gone)
    (supported : reg.ActiveSupported cpuFlags) (supports : Supports cpuFlags flags) (call : Activation)
    (nonNull : cls ≠ null) (member : cls ∈ reg.registered) {record : ClassRecord F D}
    (found : reg.classes cls = some record) :
    ∃ after printed, activateClass cpuFlags reg cls flags call = some (after, printed) ∧
      Activated cpuFlags reg after ∧ Kept after ht given gone := by
  let loaded : OilClass F D := { record.cls with slot := reg.slots record.slotP }
  let worked := loaded.activateImplement (some (textOf call.value))
  have edits : Edits reg (.implement cls ⟨fun _ => .fails, fun _ => ⟨none, record.cls.ref, 0⟩⟩
      (.activate (some (textOf call.value)))) _ := .implement nonNull found rfl
  have stored (chosen : worked = loaded ∨ ∃ i entry, record.cls.occupied[i]? = some entry ∧
      entry.named = true ∧ Supports cpuFlags entry.flags ∧
      worked = { record.cls with slot := entry.impl, activeImpl := some ⟨record.cls.block, i⟩ })
      (runs : Supports cpuFlags (((record.cls.implementsGet (some (textOf call.value))).map Prod.snd).getD flags)) :
      ∃ after printed, activateClass cpuFlags reg cls flags call = some (after, printed) ∧
        Activated cpuFlags reg after ∧ Kept after ht given gone := by
    have activated := activated_of_chosen supported member found chosen
    have same : Registry.onClass reg cls (fun cls => some (cls.activateImplement (some (textOf call.value)))) =
        some { reg with
          classes := Function.update reg.classes cls (some { record with cls := worked })
          slots := Function.update reg.slots record.slotP worked.slot } := by
      simp only [onClass, if_neg nonNull, found, Option.bind_eq_bind, Option.bind_some]
      rfl
    obtain ⟨active, read⟩ := (activated.supported cls member _ (Function.update_self _ _ _)).read
    refine ⟨_, if active = some (textOf call.value) then [] else [.failed call.key call.value], ?_,
      activated, kept.edit edits⟩
    simp only [activateClass, found, if_pos runs, same, Option.bind_eq_bind, Option.bind_some,
      Function.update_self]
    rw [read]
    rfl
  rcases OilClass.activate_cases loaded (textOf call.value) with
    ⟨unchanged, absent⟩ | ⟨i, entry, occupied, hit, present, changed⟩
  · have absentRecord : record.cls.implementsGet (some (textOf call.value)) = none := absent
    refine stored (.inl unchanged) ?_
    rw [absentRecord]
    exact supports
  · have presentRecord : record.cls.implementsGet (some (textOf call.value)) =
        some (entry.impl, entry.flags) := present
    by_cases runs : Supports cpuFlags entry.flags
    · refine stored (.inr ⟨i, entry, occupied, OilClass.named_of_name hit, runs, changed⟩) ?_
      rw [presentRecord]
      exact runs
    · refine ⟨reg, [.notRunnable call.key call.value call.sectionName], ?_, .refl supported, kept⟩
      simp only [activateClass, found, presentRecord, Option.bind_eq_bind, Option.bind_some,
        Option.map_some, Option.getD_some, if_neg runs]
      rfl

theorem activate_returns (kept : Kept reg ht given gone) (supported : reg.ActiveSupported cpuFlags)
    (descriptions : List (List UInt8)) (call : Activation) :
    ∃ after, activate descriptions cpuFlags reg call = some after ∧ Activated cpuFlags reg after ∧
      Kept after ht given gone := by
  suffices returned : ∃ after printed, doActivateImpl descriptions cpuFlags reg call = some (after, printed) ∧
      Activated cpuFlags reg after ∧ Kept after ht given gone by
    obtain ⟨after, printed, done, rest⟩ := returned
    exact ⟨after, by rw [activate, done, Option.map_some], rest⟩
  rw [doActivateImpl]
  generalize sectionFlags descriptions call.sectionName = parse
  by_cases unknown : parse.ret = false
  · exact ⟨reg, parse.printed, by simp only [unknown, ↓reduceIte], .refl supported, kept⟩
  rcases kept.get_cases (textOf call.key) with ⟨node, member, _, got⟩ | ⟨_, got⟩
  · have nonNull := kept.value_ne_null member
    have isRegistered : node.value ∈ reg.registered := by
      rw [registered, kept.visited_eq, List.map_map]
      exact List.mem_map.mpr ⟨node, member, rfl⟩
    obtain ⟨record, found⟩ := kept.ledger.record (Kept.parts_held member).2
    by_cases supports : Supports cpuFlags parse.flags
    · obtain ⟨after, printed, done, rest⟩ :=
        activateClass_returns kept supported supports call nonNull isRegistered found
      refine ⟨after, parse.printed ++ printed, ?_, rest⟩
      simp only [if_neg unknown, got, if_neg nonNull, if_pos supports, done, Option.bind_eq_bind, Option.bind_some]
      rfl
    · refine ⟨reg, parse.printed, ?_, .refl supported, kept⟩
      simp only [if_neg unknown, got, if_neg nonNull, if_neg supports, Option.bind_eq_bind, Option.bind_some]
      rfl
  · refine ⟨reg, parse.printed ++ [.noClass call.key], ?_, .refl supported, kept⟩
    simp only [if_neg unknown, got, Option.bind_eq_bind, Option.bind_some]
    rfl

theorem Kept.run {calls : List (Call F D)} {last : Registry F D} (kept : Kept reg ht given gone)
    (ran : reg.run calls = some last) : ∃ next given gone, Kept last next given gone := by
  induction calls generalizing reg ht given gone with
  | nil => exact ⟨ht, given, gone, Option.some.inj ran ▸ kept⟩
  | cons call calls ih =>
      rw [Registry.run, List.foldlM_cons, Option.bind_eq_bind, Option.bind_eq_some_iff] at ran
      obtain ⟨after, called, ranRest⟩ := ran
      rcases step_cases called with ⟨start, tableCall, stages⟩ | edits | ⟨rfl, _⟩
      · obtain ⟨_, _, _, _, keptAfter, _⟩ := kept.staged stages called
        exact ih keptAfter ranRest
      · exact ih (kept.edit edits) ranRest
      · exact ih kept ranRest

/-- For every registry a client can build, every CPU and every text: if before `oil_load_ini` no
class has an active implement that the CPU cannot run, then this holds after every line, what a
line changes is a slot that gets the function of a registered implement the CPU can run, and
nothing else changes. -/
theorem load_ini_activates_supported (descriptions : List (List UInt8)) (cpuFlags : Nat) (slots : Nat → F)
    (classDataDestructor : Bool) (calls : List (Call F D)) {fresh reg : Registry F D}
    (started : (initial slots).init classDataDestructor = some fresh) (ran : fresh.run calls = some reg)
    (supported : reg.ActiveSupported cpuFlags) (iniString : Option (List UInt8)) :
    (∃ last, (oilLoadIni iniString).calls.foldlM (activate descriptions cpuFlags) reg = some last) ∧
      Always (activate descriptions cpuFlags) (Activated cpuFlags reg) reg (oilLoadIni iniString).calls := by
  obtain ⟨_, _, same, keptFresh, _⟩ := Kept.init (D := D) slots classDataDestructor
  obtain rfl := Option.some.inj (started.symm.trans same)
  obtain ⟨ht, given, gone, kept⟩ := keptFresh.run ran
  have line (mid : Registry F D) (call : Activation)
      (now : Activated cpuFlags reg mid ∧ Kept mid ht given gone) :
      ∃ after, activate descriptions cpuFlags mid call = some after ∧
        Activated cpuFlags reg after ∧ Kept after ht given gone := by
    obtain ⟨after, done, activated, keptAfter⟩ :=
      activate_returns now.2 now.1.supported descriptions call
    exact ⟨after, done, now.1.trans activated, keptAfter⟩
  constructor
  · have guarded : Meets (activate descriptions cpuFlags) (fun _ _ => True) reg (oilLoadIni iniString).calls :=
      .trivial
    obtain ⟨last, ran, _⟩ := guarded.returns
      (fun mid => Activated cpuFlags reg mid ∧ Kept mid ht given gone)
      (fun mid call now _ => line mid call now) ⟨.refl supported, kept⟩
    exact ⟨last, ran⟩
  · apply Always.of_invariant fun mid _ => Activated cpuFlags reg mid ∧ Kept mid ht given gone
    · exact fun mid _ now => now.1
    · intro mid call _ next now done
      obtain ⟨_, same, rest⟩ := line mid call now
      obtain rfl := Option.some.inj (done.symm.trans same)
      exact rest
    · exact ⟨.refl supported, kept⟩

/-- An implement the CPU can run and one it cannot. -/
theorem load_ini_activates_supported_two : ∃ fresh reg last : Registry Nat Nat,
    (initial fun _ => 0).init false = some fresh ∧
    fresh.run [.register (some "a") (some 7) (some 4),
      .implement 1 ⟨fun _ => .inPlace, fun _ => ⟨none, 0, 0⟩⟩ (.add (some "x") (some 8) 1),
      .implement 1 ⟨fun _ => .inPlace, fun _ => ⟨none, 0, 0⟩⟩ (.add (some "y") (some 9) 2)] = some reg ∧
    (oilLoadIni (some (bytesOf ['a', '=', 'x', '\n', 'a', '=', 'y']))).calls.foldlM (activate [] 1) reg = some last ∧
    reg.slots 4 = 7 ∧ last.slots 4 = 8 := by
  let calls : List (Call Nat Nat) := [.register (some "a") (some 7) (some 4),
    .implement 1 ⟨fun _ => .inPlace, fun _ => ⟨none, 0, 0⟩⟩ (.add (some "x") (some 8) 1),
    .implement 1 ⟨fun _ => .inPlace, fun _ => ⟨none, 0, 0⟩⟩ (.add (some "y") (some 9) 2)]
  let text := some (bytesOf ['a', '=', 'x', '\n', 'a', '=', 'y'])
  obtain ⟨fresh, _, started, _⟩ := Kept.init (F := Nat) (D := Nat) (fun _ => 0) false
  have built : ((initial (F := Nat) (D := Nat) fun _ => 0).init false).bind (fun fresh => (fresh.run calls).map
      fun reg => (reg.slots 4, reg.registered, (reg.classes 1).map (·.cls.activeImpl))) =
      some (7, [1], some none) := by decide +kernel
  have loaded : ((initial (F := Nat) (D := Nat) fun _ => 0).init false).bind (fun fresh => (fresh.run calls).bind
      fun reg => ((oilLoadIni text).calls.foldlM (activate [] 1) reg).map fun last => last.slots 4) =
      some 8 := by decide +kernel
  rw [started, Option.bind_some] at built loaded
  obtain ⟨reg, ran, seen⟩ := Option.map_eq_some_iff.mp built
  obtain ⟨slot, registered, active⟩ : reg.slots 4 = 7 ∧ reg.registered = [1] ∧
      (reg.classes 1).map (·.cls.activeImpl) = some none := by simpa only [Prod.mk.injEq] using seen
  have supported : reg.ActiveSupported 1 := by
    intro cls member record found pointer chosen
    obtain rfl : cls = 1 := List.mem_singleton.mp (registered ▸ member)
    rw [found, Option.map_some, Option.some.injEq, chosen] at active
    contradiction
  obtain ⟨⟨last, lines⟩, _⟩ := load_ini_activates_supported [] 1 (fun _ => 0) false calls started ran supported text
  rw [ran, Option.bind_some, lines] at loaded
  exact ⟨fresh, reg, last, started, ran, lines, slot, Option.some.inj loaded⟩

end Registry

end Oil.Core
