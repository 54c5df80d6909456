import Oil.Data.Compaction

namespace Oil.Core

open Oil.Data

/-! # Function classes

A class keeps its implements in one growing array.  Removing an implement leaves a
hole (an entry whose name is `NULL`), which a later addition may reuse.  The
counters are natural numbers: a class never has anywhere near `INT_MAX` entries.
The definitions go by the names of the functions of `oilclass.c`. -/

variable {F D : Type}

/-- `OilImplement`; a hole has no name. -/
structure OilImplement (F : Type) where
  name : Option String
  impl : F
  flags : Nat
deriving DecidableEq

/-- An address in the implement array: the block `realloc` returned, and an index into it. -/
structure ImplPointer where
  block : Nat
  index : Nat
deriving DecidableEq

/-- `OilClass`.  `slot` is the content of `*slot_p`; `block` tells apart the blocks that
`impls` has pointed to, and the list `impls` holds all `n_alloc` entries of the current one. -/
structure OilClass (F D : Type) where
  name : String
  slot : F
  ref : F
  nOccupied : Nat
  nAlloc : Nat
  nImpls : Nat
  activeImpl : Option ImplPointer
  block : Nat
  impls : List (OilImplement F)
  data : Option D
deriving DecidableEq

/-- What one call of `realloc` does to a block. -/
inductive Realloc where
  | fails
  | inPlace
  | moves
deriving DecidableEq

/-- The memory allocator during one call of this module: its answer to a request for a
number of entries, and the indeterminate content of new entries. -/
structure Heap (F : Type) where
  realloc : Nat → Realloc
  fresh : Nat → OilImplement F

def OilImplement.named (entry : OilImplement F) : Bool := entry.name.isSome

def oilImplExtendChunk : Nat := 3

def oilRoof (n : Nat) : Nat :=
  (n + oilImplExtendChunk - 1) / oilImplExtendChunk * oilImplExtendChunk

/-- `_cmp_impl_name`, as a visitor whose user data is the name to compare with. -/
def cmpImplName (name : String) (_impl : F) (_flag : Nat) (userData : Option String) : Bool × Option String :=
  match userData with
  | none => (false, userData)
  | some toCmp => (name = toCmp, userData)

/-- The loop of `_class_implements_foreach_internal` from index `i` on. -/
def foreachLoop {σ : Type} (visitor : String → F → Nat → σ → Bool × σ) :
    List (OilImplement F) → (i : Nat) → σ → Option Nat × σ
  | [], _, userData => (none, userData)
  | impl :: rest, i, userData =>
      match impl.name with
      | none => foreachLoop visitor rest (i + 1) userData
      | some name =>
          let (stop, userData) := visitor name impl.impl impl.flags userData
          if stop then (some i, userData) else foreachLoop visitor rest (i + 1) userData

/-- The loop of `oil_class_add_implement`: the entry chosen so far, and the index the loop ends at. -/
def placeLoop (implName : String) :
    List (OilImplement F) → (i : Nat) → (impl : Option Nat) → Option Nat × Nat
  | [], i, impl => (impl, i)
  | j :: rest, i, impl =>
      match j.name with
      | some name =>
          if implName = name then (some i, i) else placeLoop implName rest (i + 1) impl
      | none => placeLoop implName rest (i + 1) (impl.or (some i))

namespace OilClass

/-- The record `oil_class_register` fills in. -/
def registered (clsName : String) (refFunc : F) : OilClass F D where
  name := clsName
  slot := refFunc
  ref := refFunc
  nOccupied := 0
  nAlloc := 0
  nImpls := 0
  activeImpl := none
  block := 0
  impls := []
  data := none

section Queries

variable (cls : OilClass F D)

/-- The entries the loops of this module run over. -/
def occupied : List (OilImplement F) := cls.impls.take cls.nOccupied

/-- `_class_implements_foreach_internal`: the index of the entry the visitor stopped at. -/
def foreachInternal {σ : Type} (visitor : String → F → Nat → σ → Bool × σ) (userData : σ) :
    Option Nat × σ :=
  foreachLoop visitor cls.occupied 0 userData

def find (implName : String) : Option Nat := (cls.foreachInternal cmpImplName (some implName)).1

def implementsForeach {σ : Type} (visitor : String → F → Nat → σ → Bool × σ) (userData : σ) :
    Option String × σ :=
  let (impl, userData) := cls.foreachInternal visitor userData
  ((impl.bind fun i => cls.impls[i]?).bind (·.name), userData)

/-- `oil_class_implements_get`: the function and, through `flags`, the flags. -/
def implementsGet (implName : Option String) : Option (F × Nat) := do
  let implName ← implName
  let i ← cls.find implName
  let impl ← cls.impls[i]?
  pure (impl.impl, impl.flags)

/-- `oil_class_get_active_implement`.  There is no result where the code reads through a
pointer into a block that was freed or cut off. -/
def getActiveImplement : Option (Option String) :=
  match cls.activeImpl with
  | none => some none
  | some active =>
      if active.block = cls.block then cls.impls[active.index]?.map (·.name) else none

end Queries

section Updates

variable (cls : OilClass F D) (heap : Heap F)

def vacummImplArray : OilClass F D :=
  let last := keptEnd OilImplement.named cls.impls cls.nOccupied
  let impls := if last ≠ cls.nImpls then compact OilImplement.named cls.impls last else cls.impls
  { cls with impls := impls, nOccupied := cls.nImpls }

/-- `_class_resize_impl_array`; no result where it aborts. -/
def resizeImplArray (newLen : Nat) : Option (OilClass F D) :=
  if cls.nAlloc ≠ newLen then
    let cls := if cls.nOccupied ≠ cls.nImpls then cls.vacummImplArray else cls
    let impls := (List.range newLen).map fun i => cls.impls[i]?.getD (heap.fresh i)
    match heap.realloc newLen with
    | .fails => none
    | .inPlace => some { cls with impls := impls, nAlloc := newLen }
    | .moves => some { cls with impls := impls, nAlloc := newLen, block := cls.block + 1 }
  else some cls

def place (implName : String) : Option Nat × Nat := placeLoop implName cls.occupied 0 none

/-- `oil_class_add_implement`; no result where it aborts. -/
def addImplement (implName : Option String) (func : Option F) (flags : Nat) : Option (OilClass F D) :=
  match implName, func with
  | some implName, some func =>
      let entry : OilImplement F := ⟨some implName, func, flags⟩
      match cls.place implName with
      | (some impl, i) =>
          -- a loop that ran to its end reuses a hole, otherwise it replaces an implement
          let nImpls := if i = cls.nOccupied then cls.nImpls + 1 else cls.nImpls
          some { cls with nImpls := nImpls, impls := cls.impls.set impl entry }
      | (none, _) => do
          let cls ← cls.resizeImplArray heap (oilRoof (cls.nImpls + 1))
          let nImpls := cls.nImpls + 1
          some { cls with nImpls := nImpls, nOccupied := cls.nOccupied + 1,
                          impls := cls.impls.set (nImpls - 1) entry }
  | _, _ => some cls

/-- `oil_class_remove_implement`: what it returns, and the class; no result where it aborts. -/
def removeImplement (implName : Option String) : Option (Nat × OilClass F D) :=
  match implName with
  | none => some (0, cls)
  | some implName =>
      match cls.find implName with
      | none => some (0, cls)
      | some impl => do
          let impls := cls.impls.modify impl fun entry => { entry with name := none }
          let nImpls := cls.nImpls - 1
          let cls ← { cls with impls, nImpls }.resizeImplArray heap (oilRoof nImpls)
          some (1, cls)

def clearImplementsInternal : OilClass F D :=
  { cls with impls := [], block := cls.block + 1, nAlloc := 0, nOccupied := 0, nImpls := 0,
             activeImpl := none }

def clearImplements : Nat × OilClass F D := (1, cls.clearImplementsInternal)

def activateImplement (implName : Option String) : OilClass F D :=
  match implName with
  | none => { cls with slot := cls.ref, activeImpl := none }
  | some implName =>
      match cls.find implName with
      | none => cls
      | some impl =>
          match cls.impls[impl]? with
          | none => cls
          | some entry => { cls with slot := entry.impl, activeImpl := some ⟨cls.block, impl⟩ }

end Updates

/-- The calls that change the implements of a class or choose between them. -/
inductive Call (F : Type) where
  | add (implName : Option String) (func : Option F) (flags : Nat)
  | remove (implName : Option String)
  | clear
  | activate (implName : Option String)

/-- One call; no result where it aborts. -/
def step (cls : OilClass F D) (heap : Heap F) : Call F → Option (OilClass F D)
  | .add implName func flags => cls.addImplement heap implName func flags
  | .remove implName => (cls.removeImplement heap implName).map Prod.snd
  | .clear => some cls.clearImplements.2
  | .activate implName => some (cls.activateImplement implName)

/-- A run of calls, each with the allocator it meets. -/
def run (cls : OilClass F D) : List (Heap F × Call F) → Option (OilClass F D)
  | [] => some cls
  | (heap, call) :: calls => do
      let next ← cls.step heap call
      next.run calls

end OilClass

end Oil.Core
