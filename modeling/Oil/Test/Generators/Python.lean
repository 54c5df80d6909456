import Mathlib.Data.List.DropRight

namespace Oil.Test.Python

/-! # What the generator scripts use of Python

Strings are lists of characters.  The functions behave as those of Python 2 do in the C
locale, and paths as `posixpath` has them. -/

/-- The lines a file object goes through, each with the newline that ends it. -/
def lines : List Char → List (List Char)
  | [] => []
  | c :: rest =>
      if c = '\n' then [c] :: lines rest
      else
        match lines rest with
        | [] => [[c]]
        | line :: more => (c :: line) :: more

/-- The characters `str.strip` drops. -/
def isWhitespace (c : Char) : Bool :=
  c = ' ' || c = '\t' || c = '\n' || c = '\r' || c = '\x0b' || c = '\x0c'

def strip (text : List Char) : List Char := (text.dropWhile isWhitespace).rdropWhile isWhitespace

/-- `str.split (sep, 1)`, where it gives two parts. -/
def split (sep : Char) (text : List Char) : Option (List Char × List Char) :=
  (text.findIdx? (· = sep)).map fun i => (text.take i, text.drop (i + 1))

/-- `str.rsplit (sep, 1)`, where it gives two parts. -/
def rsplit (sep : Char) (text : List Char) : Option (List Char × List Char) :=
  (split sep text.reverse).map fun parts => (parts.2.reverse, parts.1.reverse)

abbrev Path : Type := List Char

def isabs (path : Path) : Bool := path.head? = some '/'

def dirname (path : Path) : Path :=
  let head := path.rdropWhile (· ≠ '/')
  if head.all (· = '/') then head else head.rdropWhile (· = '/')

def join (a b : Path) : Path :=
  if isabs b then b
  else if a = [] ∨ a.getLast? = some '/' then a ++ b
  else a ++ '/' :: b

example : join (dirname "oilfuncs/i386/i386.reg".toList) "mmx/mmx.reg".toList =
    "oilfuncs/i386/mmx/mmx.reg".toList := by decide +kernel

/-- `re.subn` of one or more characters of a class: every run of them becomes one character.
`inRun` tells whether the text goes on behind such a character. -/
def subnRuns (class_ : Char → Bool) (repl : Char) (inRun : Bool) : List Char → List Char
  | [] => []
  | c :: rest =>
      if class_ c then
        if inRun then subnRuns class_ repl true rest else repl :: subnRuns class_ repl true rest
      else c :: subnRuns class_ repl false rest

/-- The digits of base 64, the last two of them the alternative ones. -/
def b64Digit (altchars : Char × Char) (n : Nat) : Char :=
  if n < 26 then Char.ofNat ('A'.toNat + n)
  else if n < 52 then Char.ofNat ('a'.toNat + (n - 26))
  else if n < 62 then Char.ofNat ('0'.toNat + (n - 52))
  else if n = 62 then altchars.1
  else altchars.2

/-- `base64.b64encode (s, altchars)` -/
def b64encode (altchars : Char × Char) : List UInt8 → List Char
  | [] => []
  | [a] => [b64Digit altchars (a.toNat / 4), b64Digit altchars (a.toNat % 4 * 16), '=', '=']
  | [a, b] =>
      [b64Digit altchars (a.toNat / 4), b64Digit altchars (a.toNat % 4 * 16 + b.toNat / 16),
        b64Digit altchars (b.toNat % 16 * 4), '=']
  | a :: b :: c :: rest =>
      b64Digit altchars (a.toNat / 4) :: b64Digit altchars (a.toNat % 4 * 16 + b.toNat / 16) ::
        b64Digit altchars (b.toNat % 16 * 4 + c.toNat / 64) :: b64Digit altchars (c.toNat % 64) ::
          b64encode altchars rest

example : b64encode ('+', '/') [0xfb, 0xff, 0x6f, 0x69] = "+/9vaQ==".toList := by decide +kernel

end Oil.Test.Python
