import Oil.Core.Class.Active
import Oil.Data.Runs

namespace Oil.Core

open Oil.Data

/-! # Removals

Whether a removal returns where there is memory enough, and where additions and removals
leave the active implement. -/

variable {F D : Type}

/-- `realloc` succeeds for every size but zero, for which it returns `NULL`. -/
def Heap.Standard (heap : Heap F) : Prop := ∀ entries, heap.realloc entries = .fails ↔ entries = 0

def standardHeap : Heap Nat where
  realloc entries := if entries = 0 then .fails else .inPlace
  fresh _ := ⟨none, 0, 0⟩

theorem standardHeap_standard : standardHeap.Standard := by
  intro entries
  simp only [standardHeap]
  split <;> simp_all

namespace OilClass

variable {cls next : OilClass F D} {heap : Heap F} {implName activeName : String} {newLen : Nat}

section Returning

theorem resize_returns (succeeds : heap.realloc newLen ≠ .fails) :
    ∃ next, cls.resizeImplArray heap newLen = some next := by
  rw [resizeImplArray]
  split
  · dsimp only
    split
    case h_1 fails => exact absurd fails succeeds
    · exact ⟨_, rfl⟩
    · exact ⟨_, rfl⟩
  · exact ⟨cls, rfl⟩

theorem resize_aborts (differs : cls.nAlloc ≠ newLen) (fails : heap.realloc newLen = .fails) :
    cls.resizeImplArray heap newLen = none := by
  rw [resizeImplArray, if_pos differs, fails]

theorem registered_wellFormed {clsName : String} {refFunc : F} {calls : List (Heap F × Call F)}
    (ran : (registered clsName refFunc).run calls = some cls) : cls.WellFormed :=
  (run_tracks calls ran (registered_tracks clsName refFunc)).wellFormed

/-- With a standard heap a registered implement is removed, and the others stay, exactly if there
are others. -/
theorem remove_succeeds_iff {clsName : String} {refFunc : F} {calls : List (Heap F × Call F)}
    (ran : (registered clsName refFunc).run calls = some cls) (standard : heap.Standard)
    (present : (cls.implementsGet (some implName)).isSome) :
    (∃ next, cls.removeImplement heap (some implName) = some (1, next) ∧ next.namedImpls = cls.others implName) ↔
      cls.others implName ≠ [] := by
  have wellFormed := registered_wellFormed ran
  rcases find_cases cls implName with ⟨i, old, searched, found, hit⟩ | ⟨searched, _⟩
  case inr => simp [implementsGet, searched] at present
  have count := wellFormed.others_length found hit
  have roof := wellFormed.roof
  let emptied : OilClass F D :=
    { cls with impls := cls.impls.modify i fun entry => { entry with name := none }, nImpls := cls.nImpls - 1 }
  have removing : cls.removeImplement heap (some implName) =
      (emptied.resizeImplArray heap (oilRoof (cls.nImpls - 1))).map fun next => (1, next) := by
    simp only [removeImplement, searched, Option.map_eq_bind]
    rfl
  constructor
  · rintro ⟨next, removed, _⟩ alone
    -- the last implement goes: the array is to shrink to size zero
    have one : cls.nImpls = 1 := by
      rw [alone] at count
      exact count.symm
    have differs : emptied.nAlloc ≠ oilRoof (cls.nImpls - 1) := by
      show cls.nAlloc ≠ _
      rw [roof, one]
      decide
    have fails : heap.realloc (oilRoof (cls.nImpls - 1)) = .fails := (standard _).mpr (by rw [one]; decide)
    rw [removing, resize_aborts differs fails] at removed
    contradiction
  · intro others
    have more := List.length_pos_iff.mpr others
    have room := le_oilRoof (cls.nImpls - 1)
    have succeeds : heap.realloc (oilRoof (cls.nImpls - 1)) ≠ .fails := fun fails => by
      have := (standard _).mp fails
      omega
    obtain ⟨next, resized⟩ : ∃ next, emptied.resizeImplArray heap (oilRoof (cls.nImpls - 1)) = some next :=
      resize_returns succeeds
    rw [resized, Option.map_some] at removing
    exact ⟨next, removing, (remove_spec wellFormed removing).2.1⟩

theorem remove_succeeds_iff_two :
    ∃ cls : OilClass Nat Unit, ((registered "class" 0).run [(standardHeap, .add (some "a") (some 1) 0),
      (standardHeap, .add (some "b") (some 2) 0)]) = some cls ∧
      ∃ next, cls.removeImplement standardHeap (some "a") = some (1, next) ∧ next.namedImpls = [⟨some "b", 2, 0⟩] := by
  obtain ⟨cls, ran, present, others⟩ : ∃ cls : OilClass Nat Unit,
      ((registered "class" 0).run [(standardHeap, .add (some "a") (some 1) 0),
        (standardHeap, .add (some "b") (some 2) 0)]) = some cls ∧
      (cls.implementsGet (some "a")).isSome = true ∧ cls.others "a" = [⟨some "b", 2, 0⟩] :=
    ⟨_, rfl, by decide, by decide⟩
  obtain ⟨next, removed, remaining⟩ := (remove_succeeds_iff ran standardHeap_standard present).mpr (by
    rw [others]
    exact List.cons_ne_nil _ _)
  exact ⟨cls, ran, next, removed, remaining.trans others⟩

/-- Removing the only implement shrinks the array to size zero, which counts as a failure. -/
theorem last_removal_aborts :
    ¬ ∀ (calls : List (Heap Nat × Call Nat)) (cls : OilClass Nat Unit) (heap : Heap Nat) (implName : String),
      (registered "class" 0).run calls = some cls → heap.Standard → (cls.implementsGet (some implName)).isSome →
      ∃ next, cls.removeImplement heap (some implName) = some (1, next) ∧
        next.namedImpls = cls.others implName := by
  intro succeeds
  obtain ⟨cls, ran, present, aborts⟩ : ∃ cls : OilClass Nat Unit,
      (registered "class" 0).run [(standardHeap, .add (some "a") (some 1) 0)] = some cls ∧
      (cls.implementsGet (some "a")).isSome = true ∧ cls.removeImplement standardHeap (some "a") = none :=
    ⟨_, rfl, by decide, by decide⟩
  obtain ⟨next, removed, _⟩ := succeeds _ cls standardHeap "a" ran standardHeap_standard present
  rw [aborts] at removed
  contradiction

end Returning

/-- `oil_class_get_active_implement` where `active_impl` is a position in the array, whichever
block holds it. -/
def activeAt (cls : OilClass F D) : Option (Option String) :=
  let activeImpl := cls.activeImpl.map fun active : ImplPointer => { active with block := cls.block }
  { cls with activeImpl }.getActiveImplement

/-- The active implement is an implement of the class and goes by this name. -/
def ActiveIs (cls : OilClass F D) (activeName : String) : Prop :=
  ∃ active entry, cls.activeImpl = some active ∧ cls.occupied[active.index]? = some entry ∧
    entry.name = some activeName

def Call.OtherThan (activeName : String) : Call F → Prop
  | .add implName _ _ => implName ≠ some activeName
  | .remove implName => implName ≠ some activeName
  | .clear => False
  | .activate _ => False

def stepOther (cls : OilClass F D) (call : { call : Heap F × Call F // call.2.OtherThan activeName }) :
    Option (OilClass F D) :=
  cls.step call.1.1 call.1.2

/-- When the array shrinks there is no hole in front of the active implement, nor is one made there. -/
def NoHoleBefore (cls : OilClass F D) : Call F → Prop
  | .remove (some implName) => ∀ active, cls.activeImpl = some active → (cls.find implName).isSome →
      cls.nAlloc ≠ oilRoof (cls.nImpls - 1) →
      ∀ entry ∈ cls.occupied.take active.index, entry.named = true ∧ entry.name ≠ some implName
  | _ => True

section Positions

variable {active : ImplPointer} {i : Nat} {entry old : OilImplement F}

theorem activeAt_eq (chosen : cls.activeImpl = some active) :
    cls.activeAt = cls.impls[active.index]?.map (·.name) := by
  simp only [activeAt, getActiveImplement, chosen, Option.map_some, ↓reduceIte]

theorem ActiveIs.activeAt (is : cls.ActiveIs activeName) : cls.activeAt = some (some activeName) := by
  obtain ⟨active, entry, chosen, found, hit⟩ := is
  rw [activeAt_eq chosen, (occupied_getElem? found).2, Option.map_some, hit]

theorem ActiveIs.of_set (is : cls.ActiveIs activeName) (found : cls.occupied[i]? = some old)
    (differs : old.name ≠ some activeName) (pointer : next.activeImpl = cls.activeImpl)
    (written : next.occupied = cls.occupied.set i entry) : next.ActiveIs activeName := by
  obtain ⟨active, here, chosen, foundActive, hit⟩ := is
  refine ⟨active, here, pointer.trans chosen, ?_, hit⟩
  have apart : i ≠ active.index := by
    rintro rfl
    rw [foundActive, Option.some.injEq] at found
    exact differs (found ▸ hit)
  rw [written, List.getElem?_set_ne apart, foundActive]

theorem add_keeps {func : Option F} {flags : Nat} {added : Option String} (wellFormed : cls.WellFormed)
    (is : cls.ActiveIs activeName) (other : added ≠ some activeName)
    (called : cls.addImplement heap added func flags = some next) :
    next.slot = cls.slot ∧ next.ActiveIs activeName := by
  cases added with
  | none =>
      obtain rfl : cls = next := by simpa [addImplement] using called
      exact ⟨rfl, is⟩
  | some implName =>
    cases func with
    | none =>
        obtain rfl : cls = next := by simpa [addImplement] using called
        exact ⟨rfl, is⟩
    | some func =>
        rcases add_cases wellFormed called with
          ⟨i, old, _, found, hit, rfl⟩ | ⟨i, old, _, found, hole, _, rfl⟩ | ⟨_, _, _, impls, block, rfl, _, front, _⟩
        · exact ⟨rfl, is.of_set found (hit ▸ other) rfl (occupied_set cls i _ _)⟩
        · exact ⟨rfl, is.of_set found (by simp [hole]) rfl (occupied_set cls i _ _)⟩
        · obtain ⟨active, entry, chosen, found, hit⟩ := is
          refine ⟨rfl, active, entry, chosen, ?_, hit⟩
          rw [occupied, front, List.getElem?_append_left (List.getElem?_eq_some_iff.mp found).1, found]

/-- A removal that shrinks the array leaves the active implement in its place exactly if there was
no hole in front of it. -/
theorem shrink_keeps_iff (wellFormed : cls.WellFormed)
    (found : cls.occupied[active.index]? = some entry) (hit : entry.name = some activeName)
    (other : implName ≠ activeName) (pointer : next.activeImpl = some active)
    (front : next.occupied = cls.others implName) (tight : next.impls.length ≤ next.nOccupied) :
    ((∀ entry ∈ cls.occupied.take active.index, entry.named = true ∧ entry.name ≠ some implName) →
      next.ActiveIs activeName) ∧
    (next.activeAt = some (some activeName) →
      ∀ entry ∈ cls.occupied.take active.index, entry.named = true ∧ entry.name ≠ some implName) := by
  let keep (entry : OilImplement F) : Bool := decide (entry.name ≠ some implName) && entry.named
  have kept : keep entry = true := by simp [keep, named_of_name hit, hit, other.symm]
  have remaining : next.occupied = cls.occupied.filter keep := by
    rw [front, others, namedImpls, List.filter_filter]
  constructor
  · intro noHole
    refine ⟨active, entry, pointer, ?_, hit⟩
    rw [remaining]
    apply filter_getElem?_of_kept found kept
    intro earlier member
    simp [keep, noHole earlier member]
  · intro named gap before
    by_contra dropped
    have hole : keep gap = false := by
      rw [← Bool.not_eq_true]
      simpa [keep, and_comm] using dropped
    obtain ⟨there, read, called⟩ := Option.map_eq_some_iff.mp ((activeAt_eq pointer).symm.trans named)
    have whole : next.occupied = next.impls := List.take_of_length_le tight
    rw [← whole, remaining] at read
    obtain ⟨ahead, rest, parts, behind⟩ := filter_getElem?_of_dropped found kept before hole read
    have distinct : (cls.others implName).Pairwise fun a b => a.name ≠ b.name := wellFormed.distinct.filter _
    rw [← front, remaining, parts, List.pairwise_append, List.pairwise_cons] at distinct
    exact distinct.2.1.1 there behind (hit.trans called.symm)

theorem remove_keeps_iff {gone : Option String} {count : Nat} (wellFormed : cls.WellFormed)
    (is : cls.ActiveIs activeName) (other : gone ≠ some activeName)
    (called : cls.removeImplement heap gone = some (count, next)) :
    next.slot = cls.slot ∧ (cls.NoHoleBefore (.remove gone) → next.ActiveIs activeName) ∧
      (next.activeAt = some (some activeName) → cls.NoHoleBefore (.remove gone)) := by
  cases gone with
  | none =>
      obtain ⟨_, rfl⟩ : 0 = count ∧ cls = next := by simpa [removeImplement] using called
      exact ⟨rfl, fun _ => is, fun _ => trivial⟩
  | some implName =>
      have wellFormedNext := (remove_spec wellFormed called).1
      rcases remove_cases wellFormed called with
        ⟨searched, _, _, rfl⟩ | ⟨i, old, searched, found, hit, _, ⟨unchanged, rfl⟩ |
          ⟨differs, impls, block, rfl, length, front, _⟩⟩
      · refine ⟨rfl, fun _ => is, fun _ active _ present => ?_⟩
        simp [searched] at present
      · exact ⟨rfl, fun _ => is.of_set found (hit ▸ other) rfl (occupied_set cls i _ _),
          fun _ _ _ _ differs => absurd unchanged differs⟩
      · obtain ⟨active, entry, chosen, foundActive, hitActive⟩ := is
        let shrunk : OilClass F D := { cls with
            impls, block, nImpls := cls.nImpls - 1, nOccupied := cls.nImpls - 1, nAlloc := oilRoof (cls.nImpls - 1) }
        have pointer : shrunk.activeImpl = some active := chosen
        have tight : shrunk.impls.length ≤ shrunk.nOccupied := by
          show impls.length ≤ cls.nImpls - 1
          rw [length]
          exact Nat.le_of_eq (oilRoof_pred_of_ne (wellFormed.roof ▸ differs))
        have keeps := shrink_keeps_iff wellFormed foundActive hitActive (fun same => other (congrArg some same))
          pointer front tight
        refine ⟨rfl, fun noHole => keeps.1 (noHole active chosen (by simp [searched]) differs),
          fun named other isOther _ _ => ?_⟩
        obtain rfl : active = other := Option.some.inj (chosen.symm.trans isOther)
        exact keeps.2 named

/-- In a run of additions and removals of other names the active implement keeps its name, and the
slot its function, exactly if no removal that shrinks the array has a hole in front of it. -/
theorem active_kept_iff {clsName : String} {refFunc : F} {earlier : List (Heap F × Call F)}
    (ran : (registered clsName refFunc).run earlier = some cls) (is : cls.ActiveIs activeName)
    (calls : List { call : Heap F × Call F // call.2.OtherThan activeName }) :
    Always stepOther (fun cls' : OilClass F D => cls'.activeAt = some (some activeName) ∧ cls'.slot = cls.slot)
        cls calls ↔
      Guarded stepOther (fun cls' call => cls'.NoHoleBefore call.1.2) cls calls := by
  have tracks := run_tracks earlier ran (registered_tracks clsName refFunc)
  apply Always.iff_guarded fun cls' : OilClass F D =>
    (∃ older, cls'.Tracks older) ∧ cls'.ActiveIs activeName ∧ cls'.slot = cls.slot
  case holds => exact fun cls' ⟨_, is, slot⟩ => ⟨is.activeAt, slot⟩
  case start => exact ⟨⟨_, tracks⟩, is, rfl⟩
  all_goals
    rintro before ⟨⟨heap, call⟩, other⟩ next ⟨⟨older, tracks⟩, is, slot⟩ stepped guard
  case keeps =>
    refine ⟨⟨_, step_tracks stepped tracks⟩, ?_⟩
    cases call with
    | add implName func flags =>
        obtain ⟨sameSlot, isNext⟩ := add_keeps tracks.wellFormed is other stepped
        exact ⟨isNext, sameSlot.trans slot⟩
    | remove implName =>
        obtain ⟨⟨count, _⟩, removed, rfl⟩ := Option.map_eq_some_iff.mp stepped
        obtain ⟨sameSlot, keeps, _⟩ := remove_keeps_iff tracks.wellFormed is other removed
        exact ⟨keeps guard, sameSlot.trans slot⟩
    | clear => exact other.elim
    | activate implName => exact other.elim
  case breaks =>
    rintro ⟨named, _⟩
    cases call with
    | remove implName =>
        obtain ⟨⟨count, _⟩, removed, rfl⟩ := Option.map_eq_some_iff.mp stepped
        exact guard ((remove_keeps_iff tracks.wellFormed is other removed).2.2 named)
    | add implName func flags => exact guard trivial
    | clear => exact other.elim
    | activate implName => exact other.elim

/-- Four implements, so that removing one of them shrinks the array. -/
def fourActive (implName : String) : List (Heap Nat × Call Nat) :=
  [.add (some "a") (some 1) 0, .add (some "b") (some 2) 0, .add (some "c") (some 3) 0,
    .add (some "d") (some 4) 0, .activate (some implName)].map fun call => (standardHeap, call)

def removalOther (activeName gone : String) (differs : gone ≠ activeName) :
    { call : Heap Nat × Call Nat // call.2.OtherThan activeName } :=
  ⟨(standardHeap, .remove (some gone)), fun same => differs (Option.some.inj same)⟩

theorem active_kept_iff_first :
    ∃ cls : OilClass Nat Unit, (registered "class" 0).run (fourActive "a") = some cls ∧
      Always stepOther (fun cls' : OilClass Nat Unit => cls'.activeAt = some (some "a") ∧ cls'.slot = cls.slot) cls
        [removalOther "a" "d" (by decide)] := by
  obtain ⟨cls, ran, chosen, found⟩ : ∃ cls : OilClass Nat Unit,
      (registered "class" 0).run (fourActive "a") = some cls ∧ cls.activeImpl = some ⟨0, 0⟩ ∧
      cls.occupied[0]? = some ⟨some "a", 1, 0⟩ := ⟨_, rfl, rfl, rfl⟩
  have kept := active_kept_iff ran ⟨_, _, chosen, found, rfl⟩ [removalOther "a" "d" (by decide)]
  refine ⟨cls, ran, kept.mpr fun next _ => ⟨?_, trivial⟩⟩
  intro active isActive _ _ entry front
  obtain rfl : ⟨0, 0⟩ = active := Option.some.inj (chosen.symm.trans isActive)
  contradiction

/-- The removal of the first of four implements moves the last, active one out of its place. -/
theorem active_moved :
    ¬ ∀ (earlier : List (Heap Nat × Call Nat)) (cls : OilClass Nat Unit) (activeName : String),
      (registered "class" 0).run earlier = some cls → cls.ActiveIs activeName →
      ∀ calls : List { call : Heap Nat × Call Nat // call.2.OtherThan activeName },
        Always stepOther (fun cls' : OilClass Nat Unit => cls'.activeAt = some (some activeName) ∧ cls'.slot = cls.slot)
          cls calls := by
  intro always
  obtain ⟨cls, ran, chosen, found, next, stepped, lost⟩ : ∃ cls : OilClass Nat Unit,
      (registered "class" 0).run (fourActive "d") = some cls ∧ cls.activeImpl = some ⟨0, 3⟩ ∧
      cls.occupied[3]? = some ⟨some "d", 4, 0⟩ ∧
      ∃ next, cls.step standardHeap (.remove (some "a")) = some next ∧ next.activeAt = none :=
    ⟨_, rfl, rfl, rfl, _, rfl, rfl⟩
  have kept := (always (fourActive "d") cls "d" ran ⟨_, _, chosen, found, rfl⟩
    [removalOther "d" "a" (by decide)]).2 next stepped
  exact absurd (lost.symm.trans kept.1) (by simp)

end Positions

end OilClass

end Oil.Core
