import Oil.Core.Class.Refinement

namespace Oil.Core

namespace OilClass

variable {F D : Type} {cls next : OilClass F D} {heap : Heap F} {older : List (Call F)}

/-- The exported slot and the reported active implement agree: with no active implement the
slot holds the reference, otherwise the function registered under the reported name. -/
def Agrees (cls : OilClass F D) : Prop :=
  match cls.getActiveImplement with
  | none => False
  | some none => cls.slot = cls.ref
  | some (some implName) => ∃ flags, cls.implementsGet (some implName) = some (cls.slot, flags)

/-- Agreement now and after each of the calls, up to the first one that aborts. -/
def AgreesThroughout (cls : OilClass F D) : List (Heap F × Call F) → Prop
  | [] => cls.Agrees
  | (heap, call) :: calls =>
      cls.Agrees ∧ ∀ next, cls.step heap call = some next → next.AgreesThroughout calls

/-- What a call must not do to the active implement, told from the state before the call. -/
def Spares (cls : OilClass F D) (heap : Heap F) : Call F → Prop
  | .add (some implName) (some func) _ => ∀ active, cls.activeImpl = some active →
      match (cls.place implName).1 with
      | some i => active.index = i → func = cls.slot
      | none => cls.nAlloc = oilRoof (cls.nImpls + 1) ∨
          heap.realloc (oilRoof (cls.nImpls + 1)) ≠ .moves
  | .remove (some implName) => ∀ active i, cls.activeImpl = some active → cls.find implName = some i →
      if cls.nAlloc = oilRoof (cls.nImpls - 1) then active.index = i → cls.slot = cls.ref
      else heap.realloc (oilRoof (cls.nImpls - 1)) ≠ .moves ∧
        ∃ entry, (cls.others implName)[active.index]? = some entry ∧ entry.impl = cls.slot
  | .clear => cls.slot = cls.ref
  | _ => True

/-- Every call that returns spares the active implement. -/
def SparesThroughout (cls : OilClass F D) : List (Heap F × Call F) → Prop
  | [] => True
  | (heap, call) :: calls => ∀ next, cls.step heap call = some next →
      cls.Spares heap call ∧ next.SparesThroughout calls

/-- The active pointer points to an occupied entry of the present array. -/
def ActivePlaced (cls : OilClass F D) : Prop :=
  ∀ active, cls.activeImpl = some active → active.block = cls.block ∧ active.index < cls.nOccupied

section Readings

variable {active : ImplPointer} {entry : OilImplement F}

theorem agrees_of_inactive (inactive : cls.activeImpl = none) : cls.Agrees ↔ cls.slot = cls.ref := by
  simp only [Agrees, getActiveImplement, inactive]

theorem not_agrees_of_freed (chosen : cls.activeImpl = some active) (freed : active.block ≠ cls.block) :
    ¬ cls.Agrees := by
  simp only [Agrees, getActiveImplement, chosen, if_neg freed, not_false_eq_true]

theorem not_agrees_of_cut (chosen : cls.activeImpl = some active) (cut : cls.impls.length ≤ active.index) :
    ¬ cls.Agrees := by
  simp only [Agrees, getActiveImplement, chosen, List.getElem?_eq_none_iff.mpr cut, Option.map_none,
    ite_self, not_false_eq_true]

theorem agrees_of_entry (wellFormed : cls.WellFormed) (chosen : cls.activeImpl = some active)
    (block : active.block = cls.block) (found : cls.occupied[active.index]? = some entry) :
    cls.Agrees ↔ if entry.name = none then cls.slot = cls.ref else entry.impl = cls.slot := by
  have read : cls.getActiveImplement = some entry.name := by
    simp only [getActiveImplement, chosen, if_pos block, (occupied_getElem? found).2, Option.map_some]
  rw [Agrees, read]
  cases called : entry.name with
  | none => simp only [↓reduceIte]
  | some implName =>
      simp [wellFormed.implementsGet found called]

theorem ActivePlaced.occupies (placed : cls.ActivePlaced) (wellFormed : cls.WellFormed)
    (chosen : cls.activeImpl = some active) : ∃ entry, cls.occupied[active.index]? = some entry := by
  have bound := (placed active chosen).2
  rw [← wellFormed.occupied_length] at bound
  exact ⟨_, List.getElem?_eq_getElem bound⟩

theorem ActivePlaced.of_inactive (inactive : next.activeImpl = none) : next.ActivePlaced := by
  intro active isActive
  rw [inactive] at isActive
  contradiction

/-- With no active implement, nothing that keeps slot and reference does harm. -/
theorem agrees_of_frame (agrees : cls.Agrees) (frame : next.frame = cls.frame)
    (inactive : cls.activeImpl = none) : next.Agrees ∧ next.ActivePlaced := by
  simp only [OilClass.frame, Prod.mk.injEq] at frame
  obtain ⟨_, slot, ref, activeImpl, _⟩ := frame
  rw [inactive] at activeImpl
  refine ⟨?_, .of_inactive activeImpl⟩
  rw [agrees_of_inactive inactive] at agrees
  rw [agrees_of_inactive activeImpl, slot, ref, agrees]

theorem agrees_of_kept (wellFormed : cls.WellFormed) (placed : cls.ActivePlaced) (agrees : cls.Agrees)
    (wellFormedNext : next.WellFormed) (frame : next.frame = cls.frame) (block : next.block = cls.block)
    (kept : ∀ active, cls.activeImpl = some active →
      next.occupied[active.index]? = cls.occupied[active.index]?) :
    next.Agrees ∧ next.ActivePlaced := by
  cases chosen : cls.activeImpl with
  | none => exact agrees_of_frame agrees frame chosen
  | some active =>
      simp only [OilClass.frame, Prod.mk.injEq] at frame
      obtain ⟨_, slot, ref, activeImpl, _⟩ := frame
      obtain ⟨entry, found⟩ := placed.occupies wellFormed chosen
      have same := (placed active chosen).1
      have foundNext := (kept active chosen).trans found
      rw [agrees_of_entry wellFormed chosen same found] at agrees
      refine ⟨?_, fun other isActive => ?_⟩
      · rwa [agrees_of_entry wellFormedNext (activeImpl.trans chosen) (same.trans block.symm) foundNext,
          slot, ref]
      · rw [activeImpl, chosen, Option.some.injEq] at isActive
        exact isActive ▸ ⟨same.trans block.symm, (occupied_getElem? foundNext).1⟩

theorem not_agrees_of_moved (placed : cls.ActivePlaced) (chosen : cls.activeImpl = some active)
    (frame : next.frame = cls.frame) (moved : next.block = cls.block + 1) : ¬ next.Agrees := by
  simp only [OilClass.frame, Prod.mk.injEq] at frame
  obtain ⟨_, _, _, activeImpl, _⟩ := frame
  refine not_agrees_of_freed (activeImpl.trans chosen) ?_
  rw [(placed active chosen).1, moved]
  exact (Nat.succ_ne_self _).symm

/-- In an array that holds nothing but named entries, the active pointer is right if it points
to an entry with the function in the slot; it may also point behind the end. -/
theorem agrees_of_vacuumed (wellFormed : cls.WellFormed) (chosen : cls.activeImpl = some active)
    (block : active.block = cls.block) (tight : cls.impls.length = cls.occupied.length)
    (allNamed : ∀ entry ∈ cls.occupied, entry.named = true) :
    (cls.Agrees ↔ ∃ entry, cls.occupied[active.index]? = some entry ∧ entry.impl = cls.slot) ∧
    (cls.Agrees → cls.ActivePlaced) := by
  cases landed : cls.occupied[active.index]? with
  | none =>
      have cut := not_agrees_of_cut chosen (by
        rw [tight]
        exact List.getElem?_eq_none_iff.mp landed)
      exact ⟨iff_of_false cut (by simp), fun holds => absurd holds cut⟩
  | some entry =>
      have used := OilImplement.name_of_named (allNamed entry (List.mem_of_getElem? landed))
      rw [agrees_of_entry wellFormed chosen block landed, used]
      refine ⟨by simp, fun _ other isOther => ?_⟩
      rw [chosen, Option.some.injEq] at isOther
      exact isOther ▸ ⟨block, (occupied_getElem? landed).1⟩

end Readings

section Step

variable {implName : String} {func : F} {flags count i : Nat} {old entry : OilImplement F}

theorem written_agrees_iff (wellFormed : cls.WellFormed) (placed : cls.ActivePlaced) (agrees : cls.Agrees)
    (wellFormedNext : next.WellFormed) (frame : next.frame = cls.frame) (block : next.block = cls.block)
    (found : cls.occupied[i]? = some old) (written : next.occupied = cls.occupied.set i entry) :
    (next.Agrees ↔ ∀ active, cls.activeImpl = some active → active.index = i →
      if entry.name = none then cls.slot = cls.ref else entry.impl = cls.slot) ∧
    (next.Agrees → next.ActivePlaced) := by
  obtain ⟨bound, _⟩ := List.getElem?_eq_some_iff.mp found
  by_cases hit : ∃ active, cls.activeImpl = some active ∧ active.index = i
  · obtain ⟨active, chosen, rfl⟩ := hit
    have same := (placed active chosen).1.trans block.symm
    have foundNext : next.occupied[active.index]? = some entry := by
      rw [written, List.getElem?_set_self bound]
    simp only [OilClass.frame, Prod.mk.injEq] at frame
    obtain ⟨_, slot, ref, activeImpl, _⟩ := frame
    rw [chosen] at activeImpl
    refine ⟨?_, fun _ other isActive => ?_⟩
    · rw [agrees_of_entry wellFormedNext activeImpl same foundNext, slot, ref]
      constructor
      · intro holds other isActive _
        exact holds
      · intro holds
        exact holds active chosen rfl
    · rw [activeImpl, Option.some.injEq] at isActive
      exact isActive ▸ ⟨same, (occupied_getElem? foundNext).1⟩
  · have kept := agrees_of_kept wellFormed placed agrees wellFormedNext frame block
      fun active chosen => by
        rw [written, List.getElem?_set_ne]
        exact fun same => hit ⟨active, chosen, same.symm⟩
    exact ⟨iff_of_true kept.1 fun active chosen same => absurd ⟨active, chosen, same⟩ hit, fun _ => kept.2⟩

theorem occupied_set (cls : OilClass F D) (i nImpls : Nat) (entry : OilImplement F) :
    occupied { cls with impls := cls.impls.set i entry, nImpls } = cls.occupied.set i entry :=
  List.take_set

theorem add_agrees_iff (wellFormed : cls.WellFormed) (placed : cls.ActivePlaced) (agrees : cls.Agrees)
    (called : cls.addImplement heap (some implName) (some func) flags = some next) :
    (next.Agrees ↔ cls.Spares heap (.add (some implName) (some func) flags)) ∧
    (next.Agrees → next.ActivePlaced) := by
  have wellFormedNext := (add_spec wellFormed called).1
  rcases add_cases wellFormed called with
    ⟨i, old, chosen, found, _, rfl⟩ | ⟨i, old, chosen, found, _, _, rfl⟩ |
      ⟨chosen, _, _, impls, block, same, _, front, answer⟩
  · have written := written_agrees_iff wellFormed placed agrees wellFormedNext rfl rfl found
      (occupied_set cls i _ _)
    simpa only [Spares, chosen, reduceCtorEq, ↓reduceIte] using written
  · have written := written_agrees_iff wellFormed placed agrees wellFormedNext rfl rfl found
      (occupied_set cls i _ _)
    simpa only [Spares, chosen, reduceCtorEq, ↓reduceIte] using written
  · simp only [Spares, chosen]
    have frame : next.frame = cls.frame := by rw [same]; rfl
    have growth : next.occupied = cls.occupied ++ [⟨some implName, func, flags⟩] := by
      rw [same]
      exact front
    have newBlock : next.block = block := by rw [same]
    rcases answer with ⟨rfl, stays⟩ | ⟨rfl, grows, moves⟩
    · have kept := agrees_of_kept wellFormed placed agrees wellFormedNext frame newBlock
        fun active isActive => by
          rw [growth, List.getElem?_append_left]
          rw [wellFormed.occupied_length]
          exact (placed active isActive).2
      refine ⟨iff_of_true kept.1 fun active _ => ?_, fun _ => kept.2⟩
      rcases stays with room | inPlace
      · exact .inl room
      · exact .inr (by simp [inPlace])
    · cases isActive : cls.activeImpl with
      | none =>
          have kept := agrees_of_frame agrees frame isActive
          exact ⟨iff_of_true kept.1 (by simp), fun _ => kept.2⟩
      | some active =>
          have freed := not_agrees_of_moved placed isActive frame newBlock
          refine ⟨iff_of_false freed fun spares => ?_, fun holds => absurd holds freed⟩
          rcases spares active rfl with room | stays
          · exact grows room
          · exact stays moves

theorem remove_agrees_iff (wellFormed : cls.WellFormed) (placed : cls.ActivePlaced) (agrees : cls.Agrees)
    (called : cls.removeImplement heap (some implName) = some (count, next)) :
    (next.Agrees ↔ cls.Spares heap (.remove (some implName))) ∧ (next.Agrees → next.ActivePlaced) := by
  have wellFormedNext := (remove_spec wellFormed called).1
  rcases remove_cases wellFormed called with
    ⟨searched, _, _, rfl⟩ | ⟨i, old, searched, found, _, _, ⟨unchanged, rfl⟩ |
      ⟨differs, impls, block, same, length, front, answer⟩⟩
  · refine ⟨iff_of_true agrees ?_, fun _ => placed⟩
    simp only [searched, Spares, reduceCtorEq, false_implies, implies_true]
  · have written := written_agrees_iff wellFormed placed agrees wellFormedNext rfl rfl found
      (occupied_set cls i _ _)
    simpa [Spares, searched, unchanged] using written
  · have spared : cls.Spares heap (.remove (some implName)) ↔ ∀ active, cls.activeImpl = some active →
        heap.realloc (oilRoof (cls.nImpls - 1)) ≠ .moves ∧
        ∃ entry, (cls.others implName)[active.index]? = some entry ∧ entry.impl = cls.slot := by
      simp [Spares, searched, differs]
    have frame : next.frame = cls.frame := by rw [same]; rfl
    have newBlock : next.block = block := by rw [same]
    have remaining : next.occupied = cls.others implName := by
      rw [same]
      exact front
    rw [spared]
    cases isActive : cls.activeImpl with
    | none =>
        have kept := agrees_of_frame agrees frame isActive
        exact ⟨iff_of_true kept.1 (by simp), fun _ => kept.2⟩
    | some active =>
        simp only [Option.some.injEq, forall_eq']
        rcases answer with ⟨inPlace, rfl⟩ | ⟨moves, rfl⟩
        · have stays : active.block = next.block := (placed active isActive).1.trans newBlock.symm
          have activeNext : next.activeImpl = some active := by
            rw [same]
            exact isActive
          have slot : next.slot = cls.slot := by rw [same]
          -- a shrunk array has no spare entries
          have tight : next.impls.length = next.occupied.length := by
            rw [wellFormedNext.occupied_length, wellFormedNext.length, same]
            exact oilRoof_pred_of_ne (wellFormed.roof ▸ differs)
          have vacuumed := agrees_of_vacuumed wellFormedNext activeNext stays tight fun entry member => by
            rw [remaining] at member
            exact (mem_namedImpls.mp (List.mem_of_mem_filter member)).2
          rw [remaining, slot] at vacuumed
          simpa [inPlace] using vacuumed
        · have freed := not_agrees_of_moved placed isActive frame newBlock
          exact ⟨iff_of_false freed fun spares => spares.1 moves, fun holds => absurd holds freed⟩

/-- A call keeps slot and active implement in agreement exactly when it spares the active
implement. -/
theorem step_agrees_iff (wellFormed : cls.WellFormed) (placed : cls.ActivePlaced) (agrees : cls.Agrees)
    {call : Call F} (called : cls.step heap call = some next) :
    (next.Agrees ↔ cls.Spares heap call) ∧ (next.Agrees → next.ActivePlaced) := by
  have unchanged (same : cls = next) : (next.Agrees ↔ True) ∧ (next.Agrees → next.ActivePlaced) :=
    same ▸ ⟨iff_true_intro agrees, fun _ => placed⟩
  cases call with
  | add implName func flags =>
      cases implName with
      | none => exact unchanged (by simpa [step, addImplement] using called)
      | some implName =>
        cases func with
        | none => exact unchanged (by simpa [step, addImplement] using called)
        | some func => exact add_agrees_iff wellFormed placed agrees called
  | remove implName =>
      cases implName with
      | none => exact unchanged (by simpa [step, removeImplement] using called)
      | some implName =>
          rw [step, Option.map_eq_some_iff] at called
          obtain ⟨⟨count, _⟩, removed, rfl⟩ := called
          exact remove_agrees_iff wellFormed placed agrees removed
  | clear =>
      obtain rfl : cls.clearImplementsInternal = next := Option.some.inj called
      exact ⟨agrees_of_inactive rfl, fun _ => .of_inactive rfl⟩
  | activate implName =>
      obtain rfl : cls.activateImplement implName = next := Option.some.inj called
      cases implName with
      | none => exact ⟨iff_true_intro ((agrees_of_inactive rfl).mpr rfl), fun _ => .of_inactive rfl⟩
      | some implName =>
          rcases find_cases cls implName with ⟨i, entry, searched, found, hit⟩ | ⟨searched, _⟩
          · have activated : cls.activateImplement (some implName) =
                { cls with slot := entry.impl, activeImpl := some ⟨cls.block, i⟩ } := by
              simp only [activateImplement, searched, (occupied_getElem? found).2]
            obtain ⟨roof, impls_le, occupied_le, length, count, distinct⟩ := wellFormed
            have wellFormedNext : WellFormed { cls with
                slot := entry.impl, activeImpl := some ⟨cls.block, i⟩ } :=
              ⟨roof, impls_le, occupied_le, length, count, distinct⟩
            rw [activated]
            refine ⟨iff_true_intro ((agrees_of_entry wellFormedNext rfl rfl found).mpr ?_),
              fun _ active isActive => ?_⟩
            · rw [hit, if_neg (by simp)]
            · obtain rfl := Option.some.inj isActive
              exact ⟨rfl, (occupied_getElem? found).1⟩
          · exact unchanged (by simp only [activateImplement, searched])

theorem run_agrees_iff (calls : List (Heap F × Call F)) (tracks : cls.Tracks older)
    (placed : cls.ActivePlaced) (agrees : cls.Agrees) :
    cls.AgreesThroughout calls ↔ cls.SparesThroughout calls := by
  induction calls generalizing cls older with
  | nil => exact iff_true_intro agrees
  | cons first calls ih =>
      obtain ⟨heap, call⟩ := first
      rw [AgreesThroughout, SparesThroughout, and_iff_right agrees]
      refine forall_congr' fun next => forall_congr' fun called => ?_
      obtain ⟨same, keeps⟩ := step_agrees_iff tracks.wellFormed placed agrees called
      rw [← same]
      constructor
      · intro throughout
        have now : next.Agrees := by
          cases calls with
          | nil => exact throughout
          | cons _ _ => exact throughout.1
        exact ⟨now, (ih (step_tracks called tracks) (keeps now) now).mp throughout⟩
      · rintro ⟨now, spares⟩
        exact (ih (step_tracks called tracks) (keeps now) now).mpr spares

end Step

/-- From registration on, slot and active implement agree throughout a run exactly when
every call of it spares the active implement. -/
theorem slot_agrees_iff_spared (clsName : String) (refFunc : F) (calls : List (Heap F × Call F)) :
    (registered clsName refFunc : OilClass F D).AgreesThroughout calls ↔
      (registered clsName refFunc : OilClass F D).SparesThroughout calls :=
  run_agrees_iff calls (registered_tracks clsName refFunc) nofun rfl

/-- Clearing the implements resets the active implement and leaves the slot at a function
that is no longer registered. -/
theorem slot_disagrees_after_clear :
    ¬ ∀ calls : List (Heap Nat × Call Nat),
      (registered "class" 0 : OilClass Nat Unit).AgreesThroughout calls := by
  intro always
  have after := always [(⟨fun _ => .inPlace, fun _ => ⟨none, 0, 0⟩⟩, .add (some "a") (some 1) 0),
    (⟨fun _ => .inPlace, fun _ => ⟨none, 0, 0⟩⟩, .activate (some "a")),
    (⟨fun _ => .inPlace, fun _ => ⟨none, 0, 0⟩⟩, .clear)]
  have cleared : (1 : Nat) = 0 := ((after.2 _ rfl).2 _ rfl).2 _ rfl
  contradiction

end OilClass

end Oil.Core
