import Oil.Core.Class.Removal
import Oil.Core.Registry.Names

namespace Oil.Core

open Oil.Data

variable {F D : Type}

/-! # What the registry is for

To its clients the registry is a catalogue of classes by their names, each with implements by
their names, and slots with functions in them.  It has no memory, no table and no pointers. -/

namespace OilClass

variable {cls next : OilClass F D} {heap : Heap F} {call : Call F}

/-- The implements after a call. -/
def Call.binds (implements : String → Option (F × Nat)) : Call F → String → Option (F × Nat)
  | .add (some implName) (some func) flags => Function.update implements implName (some (func, flags))
  | .remove (some implName) => Function.update implements implName none
  | .clear => fun _ => none
  | _ => implements

/-- The function a call puts into the slot. -/
def Call.exports (ref : F) (implements : String → Option (F × Nat)) : Call F → Option F
  | .activate none => some ref
  | .activate (some implName) => (implements implName).map Prod.fst
  | _ => none

/-- Whether an implement is active after a call, where `activated` tells it for the state before. -/
def Call.activates (implements : String → Option (F × Nat)) (activated : Bool) : Call F → Bool
  | .activate none => false
  | .activate (some implName) => (implements implName).isSome || activated
  | .clear => false
  | _ => activated

/-- The allocator has what a call may ask for; nobody but a removal asks for no bytes at all. -/
def Call.Granted (heap : Heap F) : Call F → Prop
  | .add .. => ∀ n, 0 < n → heap.realloc n ≠ .fails
  | .remove _ => ∀ n, heap.realloc n ≠ .fails
  | _ => True

theorem latest_cons (call : Call F) (older : List (Call F)) :
    latest (call :: older) = call.binds (latest older) := by
  funext implName
  match call with
  | .add (some added) (some func) flags =>
      simp only [latest, Call.binds, Function.update_apply, eq_comm]
  | .add none _ _ => rfl
  | .add (some _) none _ => rfl
  | .remove (some gone) => simp only [latest, Call.binds, Function.update_apply, eq_comm]
  | .remove none => rfl
  | .clear => rfl
  | .activate (some _) => rfl
  | .activate none => rfl

theorem activate_exports (cls : OilClass F D) (implName : String) :
    (cls.activateImplement (some implName)).ref = cls.ref ∧
      (cls.activateImplement (some implName)).slot =
        ((cls.implementsGet (some implName)).map Prod.fst).getD cls.slot ∧
      (cls.implementsGet (some implName) = none → cls.activateImplement (some implName) = cls) := by
  rcases find_cases cls implName with ⟨i, entry, searched, found, _⟩ | ⟨searched, _⟩
  · have read := (occupied_getElem? found).2
    simp only [activateImplement, implementsGet, searched, read, Option.bind_eq_bind, Option.bind_some]
    exact ⟨trivial, rfl, fun absent => (Option.some_ne_none _ absent).elim⟩
  · simp only [activateImplement, implementsGet, searched, Option.bind_eq_bind, Option.bind_some,
      Option.bind_none]
    exact ⟨trivial, rfl, fun _ => trivial⟩

/-- What a call changes besides the implements. -/
theorem step_exports (wellFormed : cls.WellFormed) (called : cls.step heap call = some next) {activated : Bool}
    (inactive : activated = false → cls.activeImpl = none) :
    next.ref = cls.ref ∧
      next.slot = (call.exports cls.ref fun implName => cls.implementsGet (some implName)).getD cls.slot ∧
      (call.activates (fun implName => cls.implementsGet (some implName)) activated = false →
        next.activeImpl = none) := by
  cases call with
  | add implName func flags =>
      match implName, func with
      | some implName, some func =>
          rcases add_cases wellFormed called with ⟨_, _, _, _, _, rfl⟩ | ⟨_, _, _, _, _, _, rfl⟩ |
            ⟨_, _, _, _, _, rfl, _⟩ <;> exact ⟨rfl, rfl, inactive⟩
      | none, _ =>
          obtain rfl : cls = next := Option.some.inj called
          exact ⟨rfl, rfl, inactive⟩
      | some _, none =>
          obtain rfl : cls = next := Option.some.inj called
          exact ⟨rfl, rfl, inactive⟩
  | remove implName =>
      obtain ⟨⟨count, removed⟩, removing, rfl⟩ := Option.map_eq_some_iff.mp called
      cases implName with
      | none =>
          obtain ⟨_, rfl⟩ := Prod.mk.inj (Option.some.inj removing)
          exact ⟨rfl, rfl, inactive⟩
      | some implName =>
          rcases remove_cases wellFormed removing with ⟨_, _, _, rfl⟩ |
            ⟨_, _, _, _, _, _, ⟨_, rfl⟩ | ⟨_, _, _, rfl, _⟩⟩ <;> exact ⟨rfl, rfl, inactive⟩
  | clear =>
      obtain rfl := Option.some.inj called
      exact ⟨rfl, rfl, fun _ => rfl⟩
  | activate implName =>
      obtain rfl := Option.some.inj called
      cases implName with
      | none => exact ⟨rfl, rfl, fun _ => rfl⟩
      | some implName =>
          obtain ⟨ref, slot, absent⟩ := activate_exports cls implName
          refine ⟨ref, slot, fun none_ => ?_⟩
          rw [Call.activates, Bool.or_eq_false_iff, Option.isSome_eq_false_iff, Option.isNone_iff_eq_none] at none_
          rw [absent none_.1]
          exact inactive none_.2

theorem add_returns {implName : Option String} {func : Option F} {flags : Nat}
    (granted : ∀ n, 0 < n → heap.realloc n ≠ .fails) :
    ∃ next, cls.addImplement heap implName func flags = some next := by
  rw [addImplement.eq_def]
  split
  · dsimp only
    split
    · exact ⟨_, rfl⟩
    · have asked : 0 < oilRoof (cls.nImpls + 1) := Nat.lt_of_lt_of_le (Nat.succ_pos _) (le_oilRoof _)
      obtain ⟨resized, resizing⟩ : ∃ resized, cls.resizeImplArray heap (oilRoof (cls.nImpls + 1)) = some resized :=
        resize_returns (granted _ asked)
      rw [resizing]
      exact ⟨_, rfl⟩
  · exact ⟨cls, rfl⟩

theorem remove_returns {implName : Option String} (granted : ∀ n, heap.realloc n ≠ .fails) :
    ∃ result, cls.removeImplement heap implName = some result := by
  rw [removeImplement.eq_def]
  split
  · exact ⟨_, rfl⟩
  · split
    · exact ⟨_, rfl⟩
    · dsimp only
      obtain ⟨resized, resizing⟩ := resize_returns (granted _)
      rw [resizing]
      exact ⟨_, rfl⟩

theorem step_returns (granted : call.Granted heap) : ∃ next, cls.step heap call = some next := by
  cases call with
  | add implName func flags => exact add_returns granted
  | remove implName =>
      obtain ⟨result, removed⟩ : ∃ result, cls.removeImplement heap implName = some result :=
        remove_returns granted
      exact ⟨result.2, by rw [step, removed, Option.map_some]⟩
  | clear => exact ⟨_, rfl⟩
  | activate implName => exact ⟨_, rfl⟩

end OilClass

/-- A class, as its clients know it. -/
structure ClassMeaning (F D : Type) where
  ref : F
  slotP : Nat
  implements : String → Option (F × Nat)
  activated : Bool
  data : Option D

structure Catalogue (F D : Type) where
  classes : String → Option (ClassMeaning F D)
  slots : Nat → F

/-- A call by a client that names the class, and gets its pointer with `oil_class_get` where
the function wants a pointer. -/
inductive Request (F D : Type) where
  | register (clsName : Option String) (refFunc : Option F) (slot : Option Nat)
  | addData (clsName : Option String) (clsData : Option D)
  | remove (clsName : Option String)
  | removeAll
  | implement (clsName : Option String) (call : OilClass.Call F)

/-- The allocator has what a request may ask for. -/
def Request.Granted (heap : Heap F) : Request F D → Prop
  | .implement _ call => call.Granted heap
  | _ => True

namespace Catalogue

def empty (slots : Nat → F) : Catalogue F D := ⟨fun _ => none, slots⟩

variable (catalogue : Catalogue F D)

/-- A class that is there becomes another. -/
def amend (clsName : Option String) (change : ClassMeaning F D → ClassMeaning F D) : Catalogue F D :=
  match clsName with
  | none => catalogue
  | some clsName =>
      { catalogue with
        classes := Function.update catalogue.classes clsName ((catalogue.classes clsName).map change) }

/-- The slots after a call for a class. -/
def exported (clsName : Option String) (call : OilClass.Call F) : Nat → F :=
  match clsName.bind catalogue.classes with
  | none => catalogue.slots
  | some class_ =>
      Function.update catalogue.slots class_.slotP
        ((call.exports class_.ref class_.implements).getD (catalogue.slots class_.slotP))

def step : Request F D → Catalogue F D
  | .register (some clsName) (some refFunc) (some slot) =>
      if clsName = "" then catalogue
      else
        { classes := Function.update catalogue.classes clsName (some ⟨refFunc, slot, fun _ => none, false, none⟩)
          slots := Function.update catalogue.slots slot refFunc }
  | .register .. => catalogue
  | .addData clsName clsData => catalogue.amend clsName fun class_ => { class_ with data := clsData }
  | .remove (some clsName) => { catalogue with classes := Function.update catalogue.classes clsName none }
  | .remove none => catalogue
  | .removeAll => { catalogue with classes := fun _ => none }
  | .implement clsName call =>
      { catalogue.amend clsName fun class_ =>
          { class_ with
            implements := call.binds class_.implements
            activated := call.activates class_.implements class_.activated } with
        slots := catalogue.exported clsName call }

def run (requests : List (Request F D)) : Catalogue F D := requests.foldl step catalogue

/-- The registered classes get more implements. -/
def enrich (extra : String → String → Option (F × Nat)) : Catalogue F D :=
  { catalogue with
    classes := fun clsName => (catalogue.classes clsName).map fun class_ =>
      { class_ with implements := fun implName => (extra clsName implName).or (class_.implements implName) } }

variable {catalogue}

theorem amend_unchanged {clsName : String} {class_ : ClassMeaning F D}
    {change : ClassMeaning F D → ClassMeaning F D} (known : catalogue.classes clsName = some class_)
    (same : change class_ = class_) : catalogue.amend (some clsName) change = catalogue := by
  have classes : Function.update catalogue.classes clsName ((catalogue.classes clsName).map change) =
      catalogue.classes := by
    rw [known, Option.map_some, same, ← known, Function.update_eq_self]
  rw [amend, classes]

theorem amend_missing {clsName : String} {change : ClassMeaning F D → ClassMeaning F D}
    (missing : catalogue.classes clsName = none) : catalogue.amend (some clsName) change = catalogue := by
  have classes : Function.update catalogue.classes clsName ((catalogue.classes clsName).map change) =
      catalogue.classes := by
    rw [missing, Option.map_none, ← missing, Function.update_eq_self]
  rw [amend, classes]

theorem enrich_nothing : catalogue.enrich (fun _ _ => none) = catalogue := by
  have same : (catalogue.enrich fun _ _ => none).classes = catalogue.classes := by
    funext clsName
    simp [enrich]
  exact congrArg (fun classes => Catalogue.mk classes catalogue.slots) same

theorem enrich_enrich (first second : String → String → Option (F × Nat)) :
    (catalogue.enrich first).enrich second =
      catalogue.enrich fun clsName implName => (second clsName implName).or (first clsName implName) := by
  simp only [enrich, Option.map_map, Option.or_assoc]
  rfl

theorem step_add (clsName implName : String) (func : F) (flags : Nat) :
    catalogue.step (.implement (some clsName) (.add (some implName) (some func) flags)) =
      catalogue.enrich fun cls impl => if cls = clsName ∧ impl = implName then some (func, flags) else none := by
  have slots : catalogue.exported (some clsName) (.add (some implName) (some func) flags) = catalogue.slots := by
    rw [exported]
    split
    · rfl
    · exact Function.update_eq_self _ _
  have classes : (catalogue.amend (some clsName) fun class_ => { class_ with
      implements := OilClass.Call.binds class_.implements (.add (some implName) (some func) flags)
      activated := OilClass.Call.activates class_.implements class_.activated
        (.add (some implName) (some func) flags) }).classes =
      (catalogue.enrich fun cls impl =>
        if cls = clsName ∧ impl = implName then some (func, flags) else none).classes := by
    funext cls
    by_cases same : cls = clsName
    · subst same
      simp only [amend, enrich, Function.update_self]
      congr 1
      funext class_
      rw [ClassMeaning.mk.injEq]
      refine ⟨rfl, rfl, ?_, rfl, rfl⟩
      funext impl
      by_cases isImpl : impl = implName
      · subst isImpl
        simp [OilClass.Call.binds]
      · simp [OilClass.Call.binds, isImpl]
    · simp [amend, enrich, same]
  rw [step, classes, slots]
  rfl

end Catalogue

namespace Registry

variable (reg : Registry F D)

/-- A request, and the allocator it meets. -/
def request (heap : Heap F) : Request F D → Option (Registry F D)
  | .register clsName refFunc slot => reg.step (.register clsName refFunc slot)
  | .addData clsName clsData => (reg.get clsName).bind fun cls => reg.step (.addData cls clsData)
  | .remove clsName => reg.step (.remove clsName)
  | .removeAll => reg.step .removeAll
  | .implement clsName call => (reg.get clsName).bind fun cls => reg.step (.implement cls heap call)

def serve (requests : List (Heap F × Request F D)) : Option (Registry F D) :=
  requests.foldlM (fun reg asked => reg.request asked.1 asked.2) reg

end Registry

end Oil.Core
