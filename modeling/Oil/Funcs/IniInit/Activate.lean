import Oil.Funcs.IniInit.Model
import Oil.Core.Registry.Model

namespace Oil.Funcs

open Oil.Data Oil.Core

/-- The string made of these bytes, as class and implement names are. -/
def textOf (bytes : List UInt8) : String := String.ofList (bytes.map fun byte => Char.ofNat byte.toNat)

/-- `oil_cpu_string_to_flag`, with the table `oil_flags_descriptions` of an architecture. -/
def oilCpuStringToFlag (descriptions : List (List UInt8)) (flagString : List UInt8) : Nat :=
  match descriptions.findIdx? (· = flagString) with
  | some i => 2 ^ i
  | none => 0

/-- What is printed to `stderr`. -/
inductive Complaint where
  | overflow
  | noSection
  | unknownFlag (flagString : List UInt8)
  | noClass (key : List UInt8)
  | failed (key value : List UInt8)
  | notRunnable (key value : List UInt8) (sectionName : Option (List UInt8))
deriving DecidableEq

/-- `ret` and `_flags` of `parse_flags_string`, and what it has printed. -/
structure FlagsParse where
  ret : Bool
  flags : Nat
  printed : List Complaint
deriving DecidableEq

def FlagsParse.add (parse : FlagsParse) (descriptions : List (List UInt8)) (flagString : List UInt8) :
    FlagsParse :=
  let flag := oilCpuStringToFlag descriptions flagString
  if flag = 0 then
    { parse with ret := false, printed := parse.printed ++ [.unknownFlag flagString] }
  else { parse with flags := parse.flags ||| flag }

/-- The loop of `parse_flags_string`, with what it does behind the last blank.  Each round
takes a blank off `current`, so its length is fuel enough. -/
def parseFlagsLoop (descriptions : List (List UInt8)) : (fuel : Nat) → (current : List UInt8) → FlagsParse → FlagsParse
  | 0, current, parse => if current = [] then parse else parse.add descriptions current
  | fuel + 1, current, parse =>
      match current.findIdx? isBlank with
      | none => if current = [] then parse else parse.add descriptions current
      | some len =>
          parseFlagsLoop descriptions fuel ((current.drop len).dropWhile isBlank)
            (parse.add descriptions (current.take len))

def parseFlagsString (descriptions : List (List UInt8)) (flagsString : List UInt8) : FlagsParse :=
  parseFlagsLoop descriptions flagsString.length flagsString ⟨true, 0, []⟩

/-- The CPU has all of the flags. -/
def Supports (cpuFlags flags : Nat) : Prop := cpuFlags &&& flags = flags

instance (cpuFlags flags : Nat) : Decidable (Supports cpuFlags flags) := inferInstanceAs (Decidable (_ = _))

section Activation

variable {F D : Type} (descriptions : List (List UInt8)) (cpuFlags : Nat)

/-- What `do_activate_impl` does with a class that is there, when the CPU has the flags of the
section.  There is no result where the code reads memory that is not allocated. -/
def activateClass (reg : Registry F D) (cls : Nat) (flags : Nat) (call : Activation) :
    Option (Registry F D × List Complaint) := do
  let implName := textOf call.value
  let record ← reg.classes cls
  -- the flags of the section stay where the implement does not exist
  let flags := ((record.cls.implementsGet (some implName)).map Prod.snd).getD flags
  if Supports cpuFlags flags then
    let after ← reg.onClass cls fun cls => some (cls.activateImplement (some implName))
    let record ← after.classes cls
    let active ← record.cls.getActiveImplement
    pure (after, if active = some implName then [] else [.failed call.key call.value])
  else pure (reg, [.notRunnable call.key call.value call.sectionName])

/-- The flags a section asks for. -/
def sectionFlags (sectionName : Option (List UInt8)) : FlagsParse :=
  match sectionName with
  | none => ⟨true, 0, [.noSection]⟩
  | some sectionName => parseFlagsString descriptions sectionName

def doActivateImpl (reg : Registry F D) (call : Activation) : Option (Registry F D × List Complaint) :=
  let parse := sectionFlags descriptions call.sectionName
  if parse.ret = false then some (reg, parse.printed)
  else do
    let cls ← reg.get (some (textOf call.key))
    if cls = null then pure (reg, parse.printed ++ [.noClass call.key])
    else if Supports cpuFlags parse.flags then
      let (after, printed) ← activateClass cpuFlags reg cls parse.flags call
      pure (after, parse.printed ++ printed)
    else pure (reg, parse.printed)

/-- The registry after one call of `do_activate_impl`. -/
def activate (reg : Registry F D) (call : Activation) : Option (Registry F D) :=
  (doActivateImpl descriptions cpuFlags reg call).map Prod.fst

end Activation

end Oil.Funcs
