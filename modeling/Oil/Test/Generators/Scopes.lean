import Oil.Test.Generators.Program
import Oil.Test.Parameter.Model

namespace Oil.Test

open Oil.Data Python RegClasses

namespace Program

/-! # Names in generated functions

A compiler takes a function only if each name in it is declared for what it is used for, and not for
two things at once.  These are its rules as far as the generated functions go. -/

/-- The words of C99, and two of GCC's. -/
def keywords : List String :=
  ["auto", "break", "case", "char", "const", "continue", "default", "do", "double", "else", "enum", "extern", "float",
    "for", "goto", "if", "inline", "int", "long", "register", "restrict", "return", "short", "signed", "sizeof",
    "static", "struct", "switch", "typedef", "union", "unsigned", "void", "volatile", "while", "_Bool", "_Complex",
    "_Imaginary", "asm", "typeof"]

/-- What a function of a library takes for an argument. -/
inductive Takes where
  /-- `char *` -/
  | string
  /-- `void *`, for the address of a function, which GCC converts -/
  | address
  /-- `void **`, for the address of a pointer to a function -/
  | slot
  | pointer (type : List Char)
  | function (types : List (List Token))
  /-- `unsigned int`, for the flags of a CPU -/
  | flags
deriving DecidableEq

/-- What a name is where a function begins. -/
inductive Kind where
  | type
  | function (takes : List Takes) (returns : Option (List Char))
  | object (type : List Char)
  | constant
  /-- as `OIL_FLAG`, which makes a flag of a bit -/
  | flag
  /-- as `OIL_FLAGBIT_i386_MMX` -/
  | bit
  | other
deriving DecidableEq

/-- What the compiler and the headers a file includes make of a name. -/
abbrev Headers : Type := List Char → Option Kind

/-- An identifier that nothing is known of. -/
def Headers.free (headers : Headers) (name : List Char) : Bool :=
  name.head?.any isLetter && name.all isWordLetter && !keywords.any (fun word => name = word.toList) &&
    headers name = none

def Headers.known (headers : Headers) (name : List Char) : Bool :=
  ["int", "float", "double"].any (fun word => name = word.toList) || headers name = some .type

/-- A type, or a pointer to one, of which these are known. -/
def isPlainType (known : List Char → Bool) : List Token → Bool
  | [.word name] => known name
  | [.word name, .mark '*'] => known name || name = "void".toList
  | _ => false

def isType (known : List Char → Bool) (read : List Token) : Bool :=
  isPlainType known (if read.head? = some (keyword "const") then read.tail else read)

def Headers.isParam (headers : Headers) (param : List Token) : Bool :=
  match param.getLast? with
  | some (.word name) => headers.free name && isType headers.known param.dropLast
  | _ => false

/-- The types of the parameters in a list. -/
def Headers.params (headers : Headers) (read : List Token) : Option (List (List Token)) :=
  if read = [] then some []
  else
    let params := read.splitOn (.mark ',')
    if params.all headers.isParam && (params.map List.getLast?).Nodup then some (params.map List.dropLast) else none

/-- What a name is declared to be in a function: a variable, a function or a pointer to a function
somewhere else. -/
inductive Shape where
  | pointer (type : List Char)
  | function (params : List (List Token))
  | slot (params : List (List Token))
deriving DecidableEq

def Shape.linked : Shape → Bool
  | .pointer _ => false
  | .function _ => true
  | .slot _ => true

structure Declared where
  name : List Char
  shape : Shape
deriving DecidableEq

def Headers.declared (headers : Headers) (read : List Token) : Option Declared :=
  match read with
  | [.word type, .mark '*', .word name] =>
      if headers type = some .type && headers.free name then some ⟨name, .pointer type⟩ else none
  | .word void :: .mark '(' :: .mark '*' :: .word name :: .mark ')' :: .mark '(' :: rest =>
      if void = "void".toList ∧ headers.free name ∧ rest.getLast? = some closing then
        (headers.params rest.dropLast).map fun params => ⟨name, .slot params⟩
      else none
  | .word void :: .word name :: .mark '(' :: rest =>
      if void = "void".toList ∧ headers.free name ∧ rest.getLast? = some closing then
        (headers.params rest.dropLast).map fun params => ⟨name, .function params⟩
      else none
  | _ => none

/-- A name is declared again only as what it is, and only if it stands for something elsewhere. -/
def admits (scope : List Declared) (new : Declared) : Bool :=
  scope.all fun known => known.name ≠ new.name || (known = new && new.shape.linked)

def isNumber (letters : List Char) : Bool :=
  letters ≠ [] && letters.all isDigit && (letters.head? ≠ some '0' || letters.length = 1) && letters.length < 10

/-- Flags with bars between them; an operand comes next, or has come. -/
def isFlags (headers : Headers) : (operand : Bool) → List Token → Bool
  | true, .word flag :: .mark '(' :: .word bit :: .mark ')' :: rest =>
      headers flag = some .flag && headers bit = some .bit && isFlags headers false rest
  | true, .word name :: rest => (isNumber name || headers name = some .constant) && isFlags headers false rest
  | true, _ => false
  | false, [] => true
  | false, token :: rest => token = .mark '|' && isFlags headers true rest

def Headers.accepts (headers : Headers) (scope : List Declared) : Takes → (arg : List Token) → Bool
  | .string, [.str _] => true
  | .address, arg =>
      match arg.getLast? with
      | some (.word name) => (arg.dropLast = [] || arg.dropLast = castTo 1) && scope.any fun known =>
          match known with
          | ⟨declared, .function _⟩ => declared = name
          | _ => false
      | _ => false
  | .slot, arg =>
      match arg.getLast? with
      | some (.word name) => arg.dropLast = castTo 2 ++ [.mark '&'] && scope.any fun known =>
          match known with
          | ⟨declared, .slot _⟩ => declared = name
          | _ => false
      | _ => false
  | .pointer type, [.word name] => ⟨name, .pointer type⟩ ∈ scope
  | .pointer type, [.mark '&', .word name] => headers name = some (.object type)
  | .function types, [.word name] => ⟨name, .function types⟩ ∈ scope
  | .flags, arg => isFlags headers true arg
  | _, _ => false

/-- What a call returns a pointer to. -/
def Headers.result (headers : Headers) (scope : List Declared) (function : List Char) (args : List (List Token)) :
    Option (Option (List Char)) :=
  match headers function with
  | some (.function takes returns) =>
      if takes.length = args.length ∧ (takes.zip args).all fun pair => headers.accepts scope pair.1 pair.2 then
        some returns
      else none
  | _ => none

/-- What is declared behind an item, if it can stand where this is declared. -/
def Headers.check (headers : Headers) (scope : List Declared) : Item → Option (List Declared)
  | .declares read => do
      let new ← headers.declared read
      if admits scope new then some (new :: scope) else none
  | .calls function args => (headers.result scope function args).map fun _ => scope
  | .assigns variable_ function args =>
      match headers.result scope function args with
      | some (some type) => if ⟨variable_, .pointer type⟩ ∈ scope then some scope else none
      | _ => none

/-- A function that a compiler takes. -/
def compile (headers : Headers) (text : List Char) : Option (List Char × List Item) := do
  let (name, items) ← readFunction text
  if headers.free name then
    let _ ← items.foldlM headers.check [⟨name, .function []⟩]
    some (name, items)
  else none

def headersOf (names : List (String × Kind)) : Headers := fun name =>
  (names.find? fun entry => name = entry.1.toList).map Prod.snd

/-- A name is not declared for two things, and no name is used that is not declared. -/
example : ["extern void f (int n);", "extern void f (int n); extern void (*f) (int n);", "g (f);",
      "extern void f (int n); g (f);", "extern void f (int n, int n);"].map (fun body =>
    (compile (headersOf [("g", .function [.address] none)]) ("void h ()\n\x7b".toList ++ body.toList ++ ['\x7d'])).isSome) =
    [true, false, false, true, false] := by decide +kernel

section Checks

variable {headers : Headers} {scope : List Declared} {name : List Char}

theorem identifier_of_free (free : headers.free name = true) : IsIdentifier name := by
  simp only [Headers.free, Bool.and_eq_true] at free
  exact ⟨free.1.1.1, List.all_eq_true.mp free.1.1.2⟩

theorem isPlainType_mono {known more : List Char → Bool} (each : ∀ name, known name = true → more name = true)
    {read : List Token} (type : isPlainType known read = true) : isPlainType more read = true := by
  unfold isPlainType at type ⊢
  split at type
  · exact each _ type
  · rw [Bool.or_eq_true] at type ⊢
    exact type.imp_left (each _)
  · contradiction

/-- Flags are one argument. -/
theorem isFlags_argument {operand : Bool} {read : List Token} (flags : isFlags headers operand read = true) :
    nests 0 read = true ∧ .mark ',' ∉ read ∧ .mark ';' ∉ read := by
  induction operand, read using isFlags.induct with
  | case1 flag bit rest ih =>
      simp only [isFlags, Bool.and_eq_true] at flags
      obtain ⟨nested, commas, semicolons⟩ := ih flags.2
      exact ⟨by simpa [nests, opening, closing] using nested, by simpa using commas, by simpa using semicolons⟩
  | case2 name rest notFlag ih =>
      rw [isFlags, Bool.and_eq_true] at flags
      · obtain ⟨nested, commas, semicolons⟩ := ih flags.2
        exact ⟨by simpa [nests, opening, closing] using nested, by simpa using commas, by simpa using semicolons⟩
      · exact notFlag
  | case3 read notFlag notName =>
      rw [isFlags] at flags
      · contradiction
      · exact notFlag
      · exact notName
  | case4 => exact ⟨rfl, List.not_mem_nil, List.not_mem_nil⟩
  | case5 token rest ih =>
      simp only [isFlags, Bool.and_eq_true, decide_eq_true_eq] at flags
      obtain ⟨rfl, flags⟩ := flags
      obtain ⟨nested, commas, semicolons⟩ := ih flags
      exact ⟨by simpa [nests, opening, closing] using nested, by simpa using commas, by simpa using semicolons⟩

theorem isFlags_ne_nil {read : List Token} (flags : isFlags headers true read = true) : read ≠ [] := by
  rintro rfl
  contradiction

/-- Where no two things go by one name, a function or a pointer to one can be declared at any time. -/
theorem admits_of_agree {pool : Declared → Prop}
    (agree : ∀ known new, pool known → pool new → known.name = new.name → known = new) {new : Declared}
    (within : ∀ known ∈ scope, pool known) (isNew : pool new) (linked : new.shape.linked = true) :
    admits scope new = true := by
  refine List.all_eq_true.mpr fun known member => ?_
  by_cases same : known.name = new.name
  · obtain rfl := agree known new (within known member) isNew same
    simp [linked]
  · simp [same]

/-- The declaration of one name, or one of a shape of some other name. -/
def Besides (first : Declared) (shape : Shape) (known : Declared) : Prop :=
  known = first ∨ known.name ≠ first.name ∧ known.shape = shape

theorem Besides.agree {first : Declared} {shape : Shape} (known new : Declared) (isKnown : Besides first shape known)
    (isNew : Besides first shape new) (same : known.name = new.name) : known = new := by
  rcases isKnown with rfl | ⟨apart, kind⟩ <;> rcases isNew with rfl | ⟨apartToo, kindToo⟩
  · rfl
  · exact absurd same.symm apartToo
  · exact absurd same apart
  · cases known
    cases new
    exact congrArg₂ Declared.mk same (kind.trans kindToo.symm)

theorem check_declares {read : List Token} {new : Declared} (declared : headers.declared read = some new)
    (admitted : admits scope new = true) : headers.check scope (.declares read) = some (new :: scope) := by
  rw [Headers.check, declared, Option.bind_eq_bind, Option.bind_some, if_pos admitted]

theorem check_calls {function : List Char} {args : List (List Token)} {returns : Option (List Char)}
    (result : headers.result scope function args = some returns) :
    headers.check scope (.calls function args) = some scope := by
  rw [Headers.check, result, Option.map_some]

theorem compile_of_read {text : List Char} {items : List Item} {after : List Declared}
    (read : readFunction text = some (name, items)) (free : headers.free name = true)
    (checked : items.foldlM headers.check [⟨name, .function []⟩] = some after) :
    compile headers text = some (name, items) := by
  rw [compile, read]
  simp only [Option.bind_eq_bind, Option.bind_some, if_pos free, checked]

/-- What each entry of a file keeps true of the declared names, all of them do. -/
theorem check_entries {ι : Type} {holds : List Declared → Prop} {items : ι → List Item} {entries : List ι}
    (each : ∀ entry ∈ entries, ∀ scope, holds scope →
      ∃ after, (items entry).foldlM headers.check scope = some after ∧ holds after) (start : holds scope) :
    ∃ after, (entries.flatMap items).foldlM headers.check scope = some after ∧ holds after := by
  induction entries generalizing scope with
  | nil => exact ⟨scope, rfl, start⟩
  | cons entry entries ih =>
      obtain ⟨now, later⟩ := List.forall_mem_cons.mp each
      obtain ⟨middle, checked, kept⟩ := now scope start
      obtain ⟨after, checkedRest, keptRest⟩ := ih later kept
      refine ⟨after, ?_, keptRest⟩
      rw [List.flatMap_cons, List.foldlM_append, checked]
      exact checkedRest

end Checks

end Program

end Oil.Test
