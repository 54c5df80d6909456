import Oil.Core.Class.Model
import Oil.Core.HashTable.Reachable
import Mathlib.Logic.Function.Basic

namespace Oil.Core

open Oil.Data

/-! # The registry of classes

The functions of `oilclass.c` that work on the table of all classes and on the attachment of
a class, by their names without `oil_class_`.  Memory is explicit: the strings
`oil_class_register` duplicates and the records it allocates are numbered, and what is freed
stays freed. -/

/-- `char *`: a string of the caller, or the `number`-th string `oil_class_register` duplicated. -/
inductive CharPointer where
  | null
  | borrowed (text : String)
  | duplicate (number : Nat) (text : String)
deriving DecidableEq

instance : Pointer CharPointer := ⟨.null⟩

namespace CharPointer

def ofArgument : Option String → CharPointer
  | none => .null
  | some text => .borrowed text

def text : CharPointer → Option String
  | .null => none
  | .borrowed text => some text
  | .duplicate _ text => some text

end CharPointer

/-- A `signed char` as it is converted to `uint32_t`. -/
def signedChar (c : Char) : UInt32 :=
  let byte := c.toNat % 256
  if byte < 128 then UInt32.ofNat byte else UInt32.ofNat byte - 256

def strHash (v : CharPointer) : UInt32 :=
  match v.text.map String.toList with
  | some (c :: rest) => rest.foldl (fun h c => (h <<< 5) - h + signedChar c) (signedChar c)
  | _ => 0

def strEqual (a b : CharPointer) : Bool := a.text = b.text

/-- A block `oil_class_register` allocates for an `OilClass`.  `slotP` is the address of the
slot, and `name` the pointer to the text that `cls` has as its name. -/
structure ClassRecord (F D : Type) where
  cls : OilClass F D
  name : CharPointer
  slotP : Nat

/-- The two static variables of the module and the memory they lead to.  A pointer to a class
is 0 for `NULL` and otherwise the number of its record.  `freed` and `destroyed` are what was
passed to `free` by the table and to the data destructor, in this order. -/
structure Registry (F D : Type) where
  oilClasses : Option (HashTable CharPointer Nat)
  dataDestructor : Bool
  classes : Nat → Option (ClassRecord F D)
  slots : Nat → F
  allocated : Nat
  freed : List CharPointer
  destroyed : List D

namespace Registry

variable {F D : Type}

/-- Before `oil_class_init`. -/
def initial (slots : Nat → F) : Registry F D :=
  ⟨none, false, fun _ => none, slots, 0, [], []⟩

variable (reg : Registry F D)

/-- A call of `free`; no result for a pointer that is no live duplicate. -/
def free (name : CharPointer) : Option (Registry F D) :=
  match name with
  | .null => some reg
  | .borrowed _ => none
  | .duplicate .. => if name ∈ reg.freed then none else some { reg with freed := reg.freed ++ [name] }

/-- What the data destructor is passed when `data` is dropped. -/
def dropped (data : Option D) : List D := if reg.dataDestructor then data.toList else []

/-- `_destroy_class`; no result for a record that is not allocated. -/
def destroyClass (cls : Nat) : Option (Registry F D) :=
  (reg.classes cls).map fun record =>
    { reg with
      classes := Function.update reg.classes cls none
      destroyed := reg.destroyed ++ reg.dropped record.cls.clearImplementsInternal.data }

/-- The table calls one of its destroy functions. -/
def notify : Destroyed CharPointer Nat → Option (Registry F D)
  | .key name => reg.free name
  | .value cls => reg.destroyClass cls

/-- A call of a hash table function on `oil_classes`; on `NULL` it returns at once. -/
def callTable (call : HashTable.Call CharPointer Nat) :
    Option (Registry F D × HashTable.Outcome Nat) :=
  match reg.oilClasses with
  | none =>
      match call with
      | .lookup _ => some (reg, .value null)
      | .remove _ => some (reg, .removed 0)
      | _ => some (reg, .done)
  | some ht => do
      let (next, outcome, destroyed) ← ht.step call
      let reg ← destroyed.foldlM notify { reg with oilClasses := some next }
      pure (reg, outcome)

def init (classDataDestructor : Bool) : Option (Registry F D) :=
  match reg.oilClasses with
  | some _ => some reg
  | none => do
      let ht ← HashTable.new (some strHash) (some strEqual) true true
      pure { reg with oilClasses := some ht, dataDestructor := classDataDestructor }

def uninit : Option (Registry F D) := do
  let reg ← match reg.oilClasses with
    | none => some reg
    | some ht => ht.destroy.foldlM notify reg
  pure { reg with dataDestructor := false, oilClasses := none }

/-- What `oil_class_register` allocates and fills in before it calls the table. -/
def allocate (clsName : String) (refFunc : F) (slot : Nat) : Registry F D :=
  { reg with
    classes := Function.update reg.classes (reg.allocated + 1)
      (some ⟨.registered clsName refFunc, .duplicate reg.allocated clsName, slot⟩)
    slots := Function.update reg.slots slot refFunc
    allocated := reg.allocated + 1 }

/-- `oil_class_register`: the registry, and the pointer it returns. -/
def register (clsName : Option String) (refFunc : Option F) (slot : Option Nat) :
    Option (Registry F D × Nat) :=
  match clsName, refFunc, slot with
  | some clsName, some refFunc, some slot =>
      if clsName = "" then some (reg, null)
      else
        let dupClsName := .duplicate reg.allocated clsName
        let cls := reg.allocated + 1
        ((reg.allocate clsName refFunc slot).callTable (.insert dupClsName cls)).map fun (reg, _) => (reg, cls)
  | _, _, _ => some (reg, null)

def get (clsName : Option String) : Option Nat :=
  match clsName, reg.oilClasses with
  | some clsName, some ht => ht.lookup (.borrowed clsName)
  | _, _ => some null

/-- `oil_class_get_name`; no result for a record that is not allocated. -/
def getName (cls : Nat) : Option CharPointer :=
  if cls = null then some .null else (reg.classes cls).map (·.name)

def addData (cls : Nat) (clsData : Option D) : Option (Registry F D) :=
  if cls = null then some reg
  else
    (reg.classes cls).map fun record =>
      { reg with
        classes := Function.update reg.classes cls
          (some { record with cls := { record.cls with data := clsData } })
        destroyed := reg.destroyed ++ reg.dropped record.cls.data }

def getData (cls : Nat) : Option (Option D) :=
  if cls = null then some none else (reg.classes cls).map (·.cls.data)

/-- The pairs `oil_class_foreach` shows to its visitor. -/
def visited : List (CharPointer × Nat) :=
  match reg.oilClasses with
  | none => []
  | some ht => ht.foreach (fun key value seen => seen ++ [(key, value)]) []

/-- `oil_class_remove`: the registry, and what the function returns. -/
def remove (clsName : Option String) : Option (Registry F D × HashTable.Outcome Nat) :=
  reg.callTable (.remove (.ofArgument clsName))

def removeAll : Option (Registry F D) := (reg.callTable .removeAll).map Prod.fst

/-- One of the functions that change or activate the implements of a class: it works on the
record and on what the slot pointer of the record points to. -/
def onClass (cls : Nat) (function : OilClass F D → Option (OilClass F D)) : Option (Registry F D) :=
  if cls = null then some reg
  else do
    let record ← reg.classes cls
    let after ← function { record.cls with slot := reg.slots record.slotP }
    pure { reg with
      classes := Function.update reg.classes cls (some { record with cls := after })
      slots := Function.update reg.slots record.slotP after.slot }

/-- The calls of a client between `oil_class_init` and `oil_class_uninit`. -/
inductive Call (F D : Type) where
  | register (clsName : Option String) (refFunc : Option F) (slot : Option Nat)
  | addData (cls : Nat) (clsData : Option D)
  | remove (clsName : Option String)
  | removeAll
  | implement (cls : Nat) (heap : Heap F) (call : OilClass.Call F)

def step : Call F D → Option (Registry F D)
  | .register clsName refFunc slot => (reg.register clsName refFunc slot).map Prod.fst
  | .addData cls clsData => reg.addData cls clsData
  | .remove clsName => (reg.remove clsName).map Prod.fst
  | .removeAll => reg.removeAll
  | .implement cls heap call => reg.onClass cls fun cls => cls.step heap call

def run (calls : List (Call F D)) : Option (Registry F D) := calls.foldlM step reg

end Registry

end Oil.Core
