import Oil.Data.KeyedMap
import Oil.Test.Generators.Python

namespace Oil.Test

open Oil.Data Python

/-! # Files that register implements

The script `oil-regimpls` reads a file of sections and key lines, and the files that it
includes.  A file system gives the content of the files that can be opened.  The definitions
go by the names of the script. -/

/-- A dictionary of Python. -/
abbrev Dict (K V : Type) [DecidableEq K] : Type := KeyedMap K V fun a b => decide (a = b)

/-- What is registered for an implement: the section it stands in, and its function. -/
abbrev Registration : Type := List Char × List Char

/-- The result of `parse_ini`: for each class, what is registered for its implements. -/
abbrev Ini : Type := Dict (List Char) (Dict (List Char) Registration)

/-- What stops the script. -/
inductive IniFailure where
  | oilIniSyntaxError (iniFpath : Path) (lineNo : Nat) (line : List Char) (complaint : String)
  | ioError (path : Path)
  | recursionLimit
deriving DecidableEq

def includeSection : List Char := "include".toList

/-- What one line is to its file, given the section it stands in. -/
inductive IniLine where
  | nothing
  | header (name : List Char)
  | registers (cls impl : List Char) (registration : Registration)
  | includes (incPath : List Char)
  | bad (complaint : String)

def classifyLine (currentSection l : List Char) : IniLine :=
  let line := strip l
  if line.head? = none ∨ line.head? = some '#' then .nothing
  else if line.head? = some '[' then
    if line.getLast? ≠ some ']' then .bad "section not end with \"]\""
    else .header (strip (line.drop 1).dropLast)
  else if currentSection ≠ includeSection then
    match split '=' line with
    | none => .bad "key=value line should have \"=\""
    | some (k, v) =>
        match rsplit '.' k with
        | none => .bad "key should be the form of \"function_class.implement\""
        | some (cls, impl) => .registers (strip cls) (strip impl) (currentSection, strip v)
  else .includes line

/-- The file a line of an include section leads to. -/
def resolveInclude (iniFpath incPath : Path) : Path :=
  if isabs incPath then incPath else join (dirname iniFpath) incPath

/-- The loop of `parse_ini`; `recur` is the function called recursively. -/
def parseIniLines (recur : Path → Except IniFailure Ini) (iniFpath : Path) :
    List (List Char) → (lineNo : Nat) → (currentSection : List Char) → (ret : Ini) → Except IniFailure Ini
  | [], _, _, ret => .ok ret
  | l :: rest, lineNo, currentSection, ret =>
      match classifyLine currentSection l with
      | .nothing => parseIniLines recur iniFpath rest (lineNo + 1) currentSection ret
      | .header name => parseIniLines recur iniFpath rest (lineNo + 1) name ret
      | .bad complaint => .error (.oilIniSyntaxError iniFpath (lineNo + 1) (strip l) complaint)
      | .registers cls impl registration =>
          let funcls := (ret.lookup cls).getD .empty
          let ret := ret.insert cls (funcls.insert impl registration)
          parseIniLines recur iniFpath rest (lineNo + 1) currentSection ret
      | .includes incPath =>
          match recur (resolveInclude iniFpath incPath) with
          | .error failure => .error failure
          | .ok included => parseIniLines recur iniFpath rest (lineNo + 1) currentSection (ret.update included)

/-- `parse_ini`, with as many nested calls as the interpreter still allows. -/
def parseIni (files : Path → Option (List Char)) : (depth : Nat) → (iniFpath : Path) → Except IniFailure Ini
  | 0, _ => .error .recursionLimit
  | depth + 1, iniFpath =>
      match files iniFpath with
      | none => .error (.ioError iniFpath)
      | some text => parseIniLines (parseIni files depth) iniFpath (lines text) 0 [] .empty

/-- What is registered for an implement of a class. -/
def Ini.get (ini : Ini) (cls impl : List Char) : Option Registration :=
  (ini.lookup cls).bind fun funcls => funcls.lookup impl

end Oil.Test
