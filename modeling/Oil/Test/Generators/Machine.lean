import Oil.Core.Registry.Simulation
import Oil.Test.Generators.Scopes

namespace Oil.Test

open Oil.Data Oil.Core

namespace Program

/-! # What generated functions do

They work on the registry and have pointers to classes in their variables. -/

variable {F D : Type}

/-- What the names of the program stand for: the addresses of functions and of slots, and the
values of constant expressions. -/
structure Symbols (F : Type) where
  functions : List Char → F
  slots : List Char → Nat
  value : List Token → Nat

structure Machine (F D : Type) where
  reg : Registry F D
  pointers : List Char → Option Nat
  executed : Nat

/-- What a call of a library function does: the registry, and what the function returns. -/
abbrev Library (F D : Type) : Type :=
  Heap F → Machine F D → (function : List Char) → (args : List (List Token)) → Option (Registry F D × Nat)

variable (symbols : Symbols F) (library : Library F D) (heaps : Nat → Heap F)

/-- The functions of oilcore. -/
def oilcore : Library F D := fun heap machine function args =>
  if function = "oil_class_get".toList then
    match args with
    | [[.str clsName]] => (machine.reg.get (some (String.ofList clsName))).map fun cls => (machine.reg, cls)
    | _ => none
  else if function = "oil_class_register".toList then
    match args with
    | [[.str clsName], [.word refFunc], slot] =>
        match slot.getLast? with
        | some (.word variable_) =>
            if slot.dropLast = castTo 2 ++ [.mark '&'] then
              machine.reg.register (some (String.ofList clsName)) (some (symbols.functions refFunc))
                (some (symbols.slots variable_))
            else none
        | _ => none
    | _ => none
  else if function = "oil_class_add_implement".toList then
    match args with
    | [[.word variable_], [.str implName], func, flags] =>
        match machine.pointers variable_, func.getLast? with
        | some cls, some (.word name) =>
            if func.dropLast = castTo 1 then
              (machine.reg.step (.implement cls heap (.add (some (String.ofList implName))
                (some (symbols.functions name)) (symbols.value flags)))).map fun reg => (reg, null)
            else none
        | _, _ => none
    | _ => none
  else none

def exec (machine : Machine F D) : Item → Option (Machine F D)
  | .declares _ => some { machine with executed := machine.executed + 1 }
  | .calls function args =>
      (library (heaps machine.executed) machine function args).map fun called =>
        { machine with reg := called.1, executed := machine.executed + 1 }
  | .assigns variable_ function args =>
      (library (heaps machine.executed) machine function args).map fun called =>
        { machine with
          reg := called.1
          pointers := Function.update machine.pointers variable_ (some called.2)
          executed := machine.executed + 1 }

/-- A call of a generated function. -/
def run (reg : Registry F D) (items : List Item) : Option (Registry F D) :=
  (items.foldlM (exec library heaps) ⟨reg, fun _ => none, 0⟩).map (·.reg)

/-- A call of the function that a text defines. -/
def callText (headers : Headers) (text : List Char) (reg : Registry F D) : Option (Registry F D) :=
  (compile headers text).bind fun function => run library heaps reg function.2

section Calls

variable {symbols heaps} {machine : Machine F D} {cls : Nat} {clsName implName name variable_ : List Char}

theorem exec_get (got : machine.reg.get (some (String.ofList clsName)) = some cls) :
    exec (oilcore symbols) heaps machine (.assigns variable_ "oil_class_get".toList [[.str clsName]]) =
      some { machine with
        pointers := Function.update machine.pointers variable_ (some cls)
        executed := machine.executed + 1 } := by
  rw [exec, oilcore, if_pos rfl, got]
  rfl

theorem exec_add (pointer : machine.pointers variable_ = some cls) (flags : List Token) :
    exec (oilcore symbols) heaps machine (.calls "oil_class_add_implement".toList
        [[.word variable_], [.str implName], castTo 1 ++ [.word name], flags]) =
      (machine.reg.step (.implement cls (heaps machine.executed) (.add (some (String.ofList implName))
        (some (symbols.functions name)) (symbols.value flags)))).map fun reg =>
          { machine with reg, executed := machine.executed + 1 } := by
  have notGet : "oil_class_add_implement".toList ≠ "oil_class_get".toList := by decide +kernel
  have notRegister : "oil_class_add_implement".toList ≠ "oil_class_register".toList := by decide +kernel
  simp only [exec, oilcore, if_neg notGet, if_neg notRegister, if_pos, pointer,
    List.getLast?_append, List.getLast?_singleton, Option.some_or, List.dropLast_concat, Option.map_map]
  rfl

end Calls

end Program

end Oil.Test
