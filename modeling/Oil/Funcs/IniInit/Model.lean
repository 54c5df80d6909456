import Oil.Data.CString
import Mathlib.Algebra.Ring.Nat

namespace Oil.Funcs

open Oil.Data

def maxLineLen : Nat := 1023

def newline : UInt8 := '\n'.toUInt8

/-- The characters `EAT_BLANK` moves over. -/
def isBlank (c : UInt8) : Bool := c = ' '.toUInt8 || c = '\t'.toUInt8

/-- `STR_CHUG`: where the pointer `str` ends up. -/
def strChug (buf : List UInt8) (str : Nat) : Nat := str + ((cstr buf str).takeWhile isBlank).length

/-- `STR_CHOMP`: the buffer with a NUL behind the last character that is not blank. -/
def strChomp (buf : List UInt8) (str : Nat) : List UInt8 :=
  let text := cstr buf str
  if text = [] then buf
  else buf.set (str + text.length - (text.reverse.takeWhile isBlank).length) 0

structure Activation where
  sectionName : Option (List UInt8)
  key : List UInt8
  value : List UInt8
deriving DecidableEq

inductive IniError where
  | notClosedBracket
  | emptyKey
  | noEqualSign
deriving DecidableEq

/-- `parse_line`: the edited buffer, the section in force and the calls made; an error where
it aborts. -/
def parseLine (line : List UInt8) (sectionName : Option (List UInt8)) :
    Except IniError (List UInt8 × Option (List UInt8) × List Activation) :=
  let iter := strChug line 0
  match cstr line iter with
  | [] => .ok (line, sectionName, [])
  | c :: _ =>
      if c = '#'.toUInt8 then .ok (line, sectionName, [])
      else if c = '['.toUInt8 then
        match strchr line iter ']'.toUInt8 with
        | none => .error .notClosedBracket
        | some rightBracket =>
            let iter := iter + 1
            let line := line.set rightBracket 0
            let iter := strChug line iter
            let line := strChomp line iter
            .ok (line, some (cstr line iter), [])
      else if c = '='.toUInt8 then .error .emptyKey
      else
        match strchr line iter '='.toUInt8 with
        | none => .error .noEqualSign
        | some equalSign =>
            let line := line.set equalSign 0
            let key := iter
            let line := strChomp line key
            let val := strChug line (equalSign + 1)
            let line := strChomp line val
            .ok (line, sectionName, [⟨sectionName, cstr line key, cstr line val⟩])

/-- What a run over a text does: the calls of `do_activate_impl`, and the number and error of
the line that stopped it. -/
structure Loaded where
  calls : List Activation
  stopped : Option (Nat × IniError)
deriving DecidableEq

def Loaded.after (rest : Loaded) (calls : List Activation) : Loaded :=
  { rest with calls := calls ++ rest.calls }

/-- What `oil_load_ini` does behind the last newline. -/
def loadLast (start line : List UInt8) (sectionName : Option (List UInt8)) (number : Nat) : Loaded :=
  match parseLine (strncpy line start (maxLineLen - 1)) sectionName with
  | .error error => ⟨[], some (number, error)⟩
  | .ok (_, _, calls) => ⟨calls, none⟩

/-- The loop of `oil_load_ini`.  Each round takes at least a newline off `start`, so its
length is fuel enough, and without fuel there is no newline left. -/
def loadLines : (fuel : Nat) → (start line : List UInt8) → Option (List UInt8) → (number : Nat) → Loaded
  | 0, start, line, sectionName, number => loadLast start line sectionName number
  | fuel + 1, start, line, sectionName, number =>
      match start.findIdx? (· = newline) with
      | none => loadLast start line sectionName number
      | some stop =>
          let len := stop % 2 ^ 32
          let len := if len > maxLineLen then maxLineLen else len
          match parseLine (strncpy line start len) sectionName with
          | .error error => ⟨[], some (number, error)⟩
          | .ok (line, sectionName, calls) =>
              (loadLines fuel (start.drop (stop + 1)) line sectionName (number + 1)).after calls

def oilLoadIni (iniString : Option (List UInt8)) : Loaded :=
  match iniString with
  | none => ⟨[], none⟩
  | some iniString => loadLines iniString.length iniString (List.replicate (maxLineLen + 1) 0) none 1

end Oil.Funcs
