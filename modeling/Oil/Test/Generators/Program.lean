import Oil.Data.Transducer
import Oil.Test.Generators.CanonicalIds

namespace Oil.Test

open Oil.Data Python RegClasses

/-! # Generated functions

The C functions the generator scripts write have no control flow: they declare names and call
functions of the libraries.  Here is how the text of such a function is read. -/

namespace Program

inductive Token where
  | word (letters : List Char)
  | str (content : List Char)
  | mark (c : Char)
deriving DecidableEq

/-- Where in the text the reader is. -/
inductive Mode where
  | between
  | word (letters : List Char)
  | str (content : List Char)
  | directive
  | slash
  | comment
  | star
  | bad
deriving DecidableEq

/-- What a string constant can hold as it is: no quote, no escape or trigraph, no end of a line. -/
def isPlainChar (c : Char) : Bool := c ∉ ['\x22', '\x5c', '?', '\n', '\r', '\x00']

/-- A character behind a complete token.  Character constants are not read, and a `#` is taken to
begin a line. -/
def start (c : Char) : Mode × List Token :=
  if isWordLetter c then (.word [c], [])
  else if isWhitespace c then (.between, [])
  else if c = '\x22' then (.str [], [])
  else if c = '#' then (.directive, [])
  else if c = '/' then (.slash, [])
  else if c = '\x27' ∨ c = '\x5c' then (.bad, [])
  else (.between, [.mark c])

def step : Mode → Char → Mode × List Token
  | .between, c => start c
  | .word letters, c =>
      if isWordLetter c then (.word (letters ++ [c]), [])
      else ((start c).1, .word letters :: (start c).2)
  | .str content, c =>
      if c = '\x22' then (.between, [.str content])
      else if isPlainChar c then (.str (content ++ [c]), [])
      else (.bad, [])
  | .directive, c => if c = '\n' then (.between, []) else if c = '\x5c' then (.bad, []) else (.directive, [])
  | .slash, c =>
      if c = '*' then (.comment, [])
      else if c = '/' then (.directive, [])
      else ((start c).1, .mark '/' :: (start c).2)
  | .comment, c => if c = '*' then (.star, []) else (.comment, [])
  | .star, c => if c = '/' then (.between, []) else if c = '*' then (.star, []) else (.comment, [])
  | .bad, _ => (.bad, [])

/-- The tokens of a text. -/
def tokens (text : List Char) : Option (List Token) :=
  match transduce step .between text with
  | (.between, read) => some read
  | (.word letters, read) => some (read ++ [.word letters])
  | _ => none

/-- What stands between two semicolons. -/
inductive Item where
  | declares (read : List Token)
  | calls (function : List Char) (args : List (List Token))
  | assigns (variable_ function : List Char) (args : List (List Token))
deriving DecidableEq

def opening : Token := .mark '('

def closing : Token := .mark ')'

/-- The parentheses close what they open, with as many open before. -/
def nests : Nat → List Token → Bool
  | n, [] => n = 0
  | n, token :: rest =>
      if token = opening then nests (n + 1) rest
      else if token = closing then n ≠ 0 && nests (n - 1) rest
      else nests n rest

def keyword (name : String) : Token := .word name.toList

/-- `(void *)`, with as many stars. -/
def castTo (stars : Nat) : List Token :=
  opening :: keyword "void" :: List.replicate stars (.mark '*') ++ [closing]

def readArgs (read : List Token) : Option (List (List Token)) :=
  let args := read.splitOn (.mark ',')
  if args.all fun arg => arg ≠ [] && nests 0 arg then some args else none

def readCall : List Token → Option (List Char × List (List Token))
  | .word function :: paren :: rest =>
      if paren = opening ∧ rest.getLast? = some closing then
        (readArgs rest.dropLast).map fun args => (function, args)
      else none
  | _ => none

def readItem : List Token → Option Item
  | .word variable_ :: .mark '=' :: rest =>
      (readCall rest).map fun call => .assigns variable_ call.1 call.2
  | .word type :: .mark '*' :: rest => some (.declares (.word type :: .mark '*' :: rest))
  | read =>
      if read.head? = some (keyword "extern") then some (.declares read.tail)
      else (readCall read).map fun call => .calls call.1 call.2

/-- The declarations and calls of a body, each with a semicolon behind it. -/
def readBody (body : List Token) : Option (List Item) :=
  let parts := body.splitOn (.mark ';')
  if parts.getLast? = some [] then parts.dropLast.mapM readItem else none

/-- A text that defines a function without parameters and without a result.  Whether the names in it
are declared is left to `compile`. -/
def readFunction (text : List Char) : Option (List Char × List Item) := do
  let read ← tokens text
  match read with
  | void :: .word name :: .mark '(' :: .mark ')' :: .mark '\x7b' :: rest =>
      if void = keyword "void" ∧ rest.getLast? = some (.mark '\x7d') then
        (readBody rest.dropLast).map fun items => (name, items)
      else none
  | _ => none

example : readFunction "#include <a.h>\nvoid f ()\n\x7b /* c */ T *x; x = g (\"n\"); h (x, & y);\n\x7d\n".toList =
    some ("f".toList, [.declares [keyword "T", .mark '*', keyword "x"],
      .assigns "x".toList "g".toList [[.str "n".toList]],
      .calls "h".toList [[keyword "x"], [.mark '&', keyword "y"]]]) := by decide +kernel

section Reading

variable {name content read rest : List Char}

def Plain (content : List Char) : Prop := ∀ c ∈ content, isPlainChar c = true

instance (content : List Char) : Decidable (Plain content) := List.decidableBAll (isPlainChar · = true) content

theorem transduce_letters (name : List Char) (letters : ∀ c ∈ rest, isWordLetter c = true) :
    transduce step (.word name) rest = (.word (name ++ rest), []) :=
  transduce_gathers (fun _ _ letter => if_pos letter) letters name

theorem transduce_word (nonempty : name ≠ []) (letters : ∀ c ∈ name, isWordLetter c = true) :
    transduce step .between name = (.word name, []) := by
  obtain ⟨first, more, rfl⟩ := List.exists_cons_of_ne_nil nonempty
  obtain ⟨firstLetter, moreLetters⟩ := List.forall_mem_cons.mp letters
  have opens : step .between first = (.word [first], []) := if_pos firstLetter
  rw [transduce, opens, transduce_letters _ moreLetters]
  rfl

theorem transduce_str (plain : Plain content) :
    transduce step (.str []) content = (.str content, []) := by
  have keeps (word : List Char) (c : Char) (plainChar : isPlainChar c = true) :
      step (.str word) c = (.str (word ++ [c]), []) := by
    have apart : c ≠ '\x22' := by
      rintro rfl
      contradiction
    rw [step, if_neg apart, if_pos plainChar]
  exact transduce_gathers keeps plain []

/-- What ends a word is read as if the word were not there. -/
theorem transduce_word_end {mode : Mode} {found : List Token} (ends : rest.head?.all isWordLetter = false)
    (behind : transduce step .between rest = (mode, found)) :
    transduce step (.word name) rest = (mode, .word name :: found) := by
  cases rest with
  | nil => simp at ends
  | cons c more =>
      rw [List.head?_cons, Option.all_some] at ends
      have same : step (.word name) c = ((step .between c).1, .word name :: (step .between c).2) :=
        if_neg (by simp [ends])
      simp only [transduce, Prod.mk.injEq] at behind ⊢
      rw [same]
      exact ⟨behind.1, congrArg (Token.word name :: ·) behind.2⟩

theorem transduce_named {name rest : List Char} {mode : Mode} {found : List Token} (nonempty : name ≠ [])
    (letters : ∀ c ∈ name, isWordLetter c = true) (ends : rest.head?.all isWordLetter = false)
    (behind : transduce step .between rest = (mode, found)) :
    transduce step .between (name ++ rest) = (mode, .word name :: found) :=
  transduce_seq (transduce_word nonempty letters) (transduce_word_end ends behind)

theorem transduce_str_end {mode : Mode} {found : List Token} (first : rest.head? = some '\x22')
    (behind : transduce step .between rest.tail = (mode, found)) :
    transduce step (.str content) rest = (mode, .str content :: found) := by
  obtain ⟨more, rfl⟩ := List.head?_eq_some_iff.mp first
  have closes : step (.str content) '\x22' = (.between, [.str content]) := by rw [step, if_pos rfl]
  rw [transduce, closes]
  rw [List.tail_cons] at behind
  rw [behind]
  rfl

/-- Behind a text that can stand alone, a parenthesis completes the last token. -/
theorem transduce_closed {text : List Char} {found : List Token} (complete : tokens text = some found) :
    ∃ mode early late, transduce step .between text = (mode, early) ∧
      transduce step mode [')'] = (.between, late ++ [closing]) ∧ found = early ++ late := by
  rw [tokens] at complete
  split at complete
  case h_1 ended => exact ⟨_, _, [], ended, rfl, by rw [List.append_nil]; exact (Option.some.inj complete).symm⟩
  case h_2 ended => exact ⟨_, _, _, ended, rfl, (Option.some.inj complete).symm⟩
  case h_3 => contradiction

/-- A list in parentheses, with commas between its parts. -/
theorem transduce_list {ι : Type} {text : ι → List Char} {out : ι → List Token} {parts : List ι} (nonempty : parts ≠ [])
    (each : ∀ part ∈ parts, transduce step .between (text part ++ [',']) = (.between, out part ++ [.mark ',']) ∧
      transduce step .between (text part ++ [')']) = (.between, out part ++ [closing])) :
    transduce step .between (", ".toList.intercalate (parts.map text) ++ [')']) =
      (.between, [Token.mark ','].intercalate (parts.map out) ++ [closing]) := by
  induction parts with
  | nil => contradiction
  | cons part parts ih =>
      obtain ⟨⟨comma, last⟩, later⟩ := List.forall_mem_cons.mp each
      cases parts with
      | nil => simpa using last
      | cons second rest =>
          have blank : transduce step .between [' '] = (.between, []) := by decide +kernel
          have whole := transduce_seq (transduce_seq comma blank) (ih (List.cons_ne_nil _ _) later)
          rw [List.map_cons, List.map_cons, List.intercalate_cons_cons, List.map_cons, List.map_cons,
            List.intercalate_cons_cons, ← List.map_cons, ← List.map_cons]
          simpa using whole

end Reading

section Calls

variable {function : List Char} {args : List (List Token)}

/-- A call, as it is written. -/
def callTokens (function : List Char) (args : List (List Token)) : List Token :=
  .word function :: opening :: ([Token.mark ','].intercalate args ++ [closing])

/-- Arguments that are told apart by the commas between them. -/
structure Separate (args : List (List Token)) : Prop where
  some_ : args ≠ []
  filled : ∀ arg ∈ args, arg ≠ []
  commas : ∀ arg ∈ args, Token.mark ',' ∉ arg
  nested : ∀ arg ∈ args, nests 0 arg = true

theorem readCall_callTokens (separate : Separate args) :
    readCall (callTokens function args) = some (function, args) := by
  have split : ([Token.mark ','].intercalate args).splitOn (.mark ',') = args :=
    List.splitOn_intercalate _ separate.commas separate.some_
  have nested : args.all (fun arg => arg ≠ [] && nests 0 arg) = true := by
    refine List.all_eq_true.mpr fun arg member => ?_
    rw [separate.nested arg member, Bool.and_true, decide_eq_true_eq]
    exact separate.filled arg member
  simp only [callTokens, readCall, readArgs, split, nested, ↓reduceIte, List.getLast?_append, List.getLast?_singleton,
    Option.some_or, and_self, List.dropLast_concat, Option.map_some]

theorem readItem_calls (separate : Separate args) (called : function ≠ "extern".toList) :
    readItem (callTokens function args) = some (.calls function args) := by
  have other : (callTokens function args).head? ≠ some (keyword "extern") := by
    rw [callTokens, List.head?_cons, keyword]
    simpa using called
  rw [readItem.eq_def]
  split
  case h_1 same => simp [callTokens, opening] at same
  case h_2 same => simp [callTokens, opening] at same
  case h_3 => rw [if_neg other, readCall_callTokens separate, Option.map_some]

theorem readItem_assigns (separate : Separate args) (variable_ : List Char) :
    readItem (.word variable_ :: .mark '=' :: callTokens function args) = some (.assigns variable_ function args) := by
  rw [readItem, readCall_callTokens separate, Option.map_some]

end Calls

section Bodies

variable {ι : Type} {sep : Token}

theorem splitOn_terminated {parts : List (List Token)} (apart : ∀ part ∈ parts, sep ∉ part) :
    (parts.flatMap fun part => part ++ [sep]).splitOn sep = parts ++ [[]] := by
  induction parts with
  | nil => exact List.splitOn_nil sep
  | cons part parts ih =>
      rw [List.flatMap_cons, List.append_assoc, List.singleton_append,
        List.splitOn_append_cons_self_of_not_mem (apart part (.head _)),
        ih fun other member => apart other (.tail _ member)]
      rfl

theorem mapM_readItem {parts : List ι} {written : ι → List Token} {item : ι → Item}
    (reads : ∀ part ∈ parts, readItem (written part) = some (item part)) :
    (parts.map written).mapM readItem = some (parts.map item) := by
  induction parts with
  | nil => rfl
  | cons part parts ih =>
      rw [List.map_cons, List.mapM_cons, reads part (.head _), ih fun other member => reads other (.tail _ member)]
      rfl

/-- The body is read item by item. -/
theorem readBody_eq {parts : List ι} {written : ι → List Token} {item : ι → Item}
    (apart : ∀ part ∈ parts, Token.mark ';' ∉ written part)
    (reads : ∀ part ∈ parts, readItem (written part) = some (item part)) :
    readBody (parts.flatMap fun part => written part ++ [.mark ';']) = some (parts.map item) := by
  have split : (parts.flatMap fun part => written part ++ [.mark ';']).splitOn (.mark ';') =
      parts.map written ++ [[]] := by
    have terminated : ∀ part ∈ parts.map written, Token.mark ';' ∉ part := by simpa using apart
    rw [← splitOn_terminated terminated, List.flatMap_map]
  rw [readBody, split]
  simp only [List.getLast?_append, List.getLast?_singleton, Option.some_or, ↓reduceIte, List.dropLast_concat,
    mapM_readItem reads]

/-- A part of a body as it is written, and what is read from it. -/
abbrev Part : Type := List Token × Item

def written (part : Part) : List Token := part.1 ++ [.mark ';']

/-- The part is read as an item. -/
def Part.Reads (part : Part) : Prop := Token.mark ';' ∉ part.1 ∧ readItem part.1 = some part.2

theorem readFunction_of_tokens {text name : List Char} {parts : List Part}
    (complete : tokens text = some ([keyword "void", .word name, opening, closing, .mark '\x7b'] ++
      parts.flatMap written ++ [.mark '\x7d']))
    (reads : ∀ part ∈ parts, part.Reads) : readFunction text = some (name, parts.map Prod.snd) := by
  have body : readBody (parts.flatMap written) = some (parts.map Prod.snd) :=
    readBody_eq (fun part member => (reads part member).1) fun part member => (reads part member).2
  rw [readFunction, complete]
  simp only [List.cons_append, List.nil_append, Option.bind_eq_bind, Option.bind_some, opening, closing,
    List.getLast?_append, List.getLast?_singleton, Option.some_or, and_self, ↓reduceIte, List.dropLast_concat, body,
    Option.map_some]

/-- A function that says something for each entry of a file. -/
theorem readFunction_entries {head tail name : List Char} {text : ι → List Char} {parts : ι → List Part}
    {entries : List ι}
    (begins : transduce step .between head = (.between, [keyword "void", .word name, opening, closing, .mark '\x7b']))
    (adds : ∀ entry ∈ entries, transduce step .between (text entry) = (.between, (parts entry).flatMap written))
    (ends : transduce step .between tail = (.between, [.mark '\x7d']))
    (reads : ∀ entry ∈ entries, ∀ part ∈ parts entry, part.Reads) :
    readFunction (head ++ entries.flatMap text ++ tail) = some (name, (entries.flatMap parts).map Prod.snd) := by
  have each : ∀ part ∈ entries.flatMap parts, part.Reads := by
    intro part member
    obtain ⟨entry, isEntry, inside⟩ := List.mem_flatMap.mp member
    exact reads entry isEntry part inside
  refine readFunction_of_tokens ?_ each
  have whole := transduce_seq (transduce_seq begins (transduce_flatMap adds)) ends
  rw [tokens, whole]
  simp only [List.flatMap_assoc, List.cons_append, List.nil_append]

end Bodies

end Program

end Oil.Test
