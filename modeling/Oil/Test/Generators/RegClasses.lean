import Oil.Data.KeyedMap
import Oil.Data.Matcher
import Oil.Test.Generators.Python

namespace Oil.Test

open Oil.Data Python

/-! # Files that define classes

The script `oil-regclasses` reads a file of prototypes and comments, and fills its templates
for each class.  The definitions go by the names of the script. -/

namespace RegClasses

section Patterns

open Matcher

def isBlankTab (c : Char) : Bool := c = ' ' || c = '\t'

def isPad (c : Char) : Bool := c = ' ' || c = '\t' || c = '\n'

def isLetter (c : Char) : Bool :=
  c = '_' || decide ('a' ≤ c) && decide (c ≤ 'z') || decide ('A' ≤ c) && decide (c ≤ 'Z')

/-- `\w` -/
def isWordLetter (c : Char) : Bool := isLetter c || decide ('0' ≤ c) && decide (c ≤ '9')

def word : Matcher := seq (char isLetter) (many isWordLetter)

def sep : Matcher := plus isPad

def pad : Matcher := many isPad

def star1 : Matcher := char (· = '*')

def qual : Matcher := group "qual" (seq word (star (seq sep word)))

def starsep : Matcher :=
  alt (seq pad (seq (group "star" (seq star1 (star (seq pad star1)))) pad)) sep

/-- The pattern of `parse_prototype`, matched from the start of the subject. -/
def prototypePattern : Matcher :=
  seq pad (seq (opt (seq (opt (seq qual sep)) (seq (group "ret_type" word) starsep)))
    (seq (group "func_name" word) (seq pad
      (seq (char (· = '(')) (seq (group "param_list" (many (· ≠ '\n'))) (seq (char (· = ')'))
        (seq pad (seq (opt (seq (char (· = ';')) pad)) dollar))))))))

/-- The pattern of `_parse_parameter`, matched from the start of the subject. -/
def parameterPattern : Matcher :=
  seq pad (seq (opt (seq qual sep)) (seq (group "type" word) (seq starsep
    (seq (group "arg" word) (seq pad dollar)))))

/-- The pattern of `parse_comment`, matched from the start of a line. -/
def instruction : Matcher :=
  seq (many isBlankTab) (seq (char (· = '@')) (seq (group "key" word)
    (seq (plus isBlankTab) (group "value" word))))

end Patterns

/-- What keeps the script from taking a line for a prototype. -/
inductive OilSyntaxError where
  | badPrototype (prototype : List Char)
  | returnTypeShouldBeVoid (prototype : List Char)
  | badParameter (param : List Char)
  | onlyConstQualified (param : List Char)
  | notSupportedType (param type : List Char)
  | onlyOneLevelPointer (param : List Char)
deriving DecidableEq

def supportedBaseTypes : List String :=
  ["int", "int8_t", "uint8_t", "int16_t", "uint16_t", "int32_t", "uint32_t", "int64_t", "uint64_t",
    "float", "double"]

/-- `_parse_parameter`: the full type and the argument. -/
def parseParameter (aParam : List Char) : Except OilSyntaxError (List Char × List Char) :=
  match parameterPattern.firstMatch aParam with
  | none => .error (.badParameter aParam)
  | some m =>
      let q := (m.named "qual").getD []
      let t := (m.named "type").getD []
      let s := (m.named "star").getD []
      if q ≠ [] ∧ q ≠ "const".toList then .error (.onlyConstQualified aParam)
      else if ¬ supportedBaseTypes.any fun name => t = name.toList then .error (.notSupportedType aParam t)
      else if 1 < s.length then .error (.onlyOneLevelPointer aParam)
      else .ok ([' '].intercalate ([q, t, s].filter (· ≠ [])), (m.named "arg").getD [])

/-- `parse_prototype`: the class name and its parameters. -/
def parsePrototype (prototype : List Char) :
    Except OilSyntaxError (List Char × List (List Char × List Char)) :=
  match prototypePattern.firstMatch prototype with
  | none => .error (.badPrototype prototype)
  | some m => do
      if (m.named "ret_type" ≠ some "void".toList ∧ m.named "ret_type" ≠ none) ∨
          (m.named "star").isSome ∨ (m.named "qual").isSome then
        throw (.returnTypeShouldBeVoid prototype)
      let params ← (((m.named "param_list").getD []).splitOn ',').mapM parseParameter
      pure ((m.named "func_name").getD [], params)

/-- The comments gathered in `seq_node` before a prototype. -/
structure SeqNode where
  comment : KeyedMap (List Char) (List Char) fun a b => decide (a = b) := .empty
  cComment : List Char := []

structure ClassNode where
  comments : SeqNode
  prototype : List Char × List (List Char × List Char)
  lineno : Nat

/-- `parse_comment`.  No match of the pattern runs over the end of a line. -/
def parseComment (seqNode : SeqNode) (comment : List Char) : SeqNode :=
  let instructions := (comment.splitOn '\n').filterMap fun line => instruction.firstMatch line
  { seqNode with
    comment := instructions.foldl (fun r m =>
      r.insert ((m.named "key").getD []) ((m.named "value").getD [])) seqNode.comment }

def parseCComment (seqNode : SeqNode) (cComment : List Char) : SeqNode :=
  { seqNode with cComment := seqNode.cComment ++ cComment }

def blankLine (line : List Char) : Bool := line.dropWhile isBlankTab = ['\n']

def commentStart (line : List Char) : Bool := (line.dropWhile isBlankTab).head? = some '#'

def cCommentStart (line : List Char) : Bool := (line.dropWhile isBlankTab).take 2 = ['/', '*']

/-- `line.split ('*/', 1)[0]`, if there is a `*/` in the line. -/
def beforeCommentEnd : List Char → Option (List Char)
  | [] => none
  | '*' :: '/' :: _ => some []
  | c :: rest => (beforeCommentEnd rest).map (c :: ·)

/-- The comment the generator is reading: the block of lines gathered so far. -/
inductive Inside where
  | nothing
  | comment (block : List Char)
  | cComment (block : List Char)

/-- The rest of a line behind its first `#`. -/
def afterHash (line : List Char) : List Char :=
  match split '#' line with
  | none => line
  | some (_, rest) => rest

/-- A line of a C comment that has been opened. -/
def readCComment (seqNode : SeqNode) (block line : List Char) : Inside × SeqNode :=
  match beforeCommentEnd line with
  | some front => (.nothing, parseCComment seqNode (block ++ front ++ "*/\n".toList))
  | none => (.cComment (block ++ line), seqNode)

/-- A line outside of comments: what it opens, the node being gathered, and a node to yield. -/
def readLine (lineno : Nat) (seqNode : SeqNode) (line : List Char) : Inside × SeqNode × Option ClassNode :=
  if blankLine line then (.nothing, seqNode, none)
  else if commentStart line then (.comment (afterHash line), seqNode, none)
  else if cCommentStart line then
    let (inside, seqNode) := readCComment seqNode [] line
    (inside, seqNode, none)
  else
    match parsePrototype line with
    | .error _ => (.nothing, {}, none)
    | .ok prototype => (.nothing, {}, some ⟨seqNode, prototype, lineno⟩)

def visitLine (lineno : Nat) (inside : Inside) (seqNode : SeqNode) (line : List Char) :
    Inside × SeqNode × Option ClassNode :=
  match inside with
  | .nothing => readLine lineno seqNode line
  | .comment block =>
      if commentStart line then (.comment (block ++ afterHash line), seqNode, none)
      -- the block is complete, and this line comes after it
      else readLine lineno (parseComment seqNode block) line
  | .cComment block =>
      let (inside, seqNode) := readCComment seqNode block line
      (inside, seqNode, none)

/-- `parse`, from a line on.  At the end of the file the generator stops wherever it is. -/
def parseFrom : (lineno : Nat) → Inside → SeqNode → List (List Char) → List ClassNode
  | _, _, _, [] => []
  | lineno, inside, seqNode, line :: rest =>
      let visited := visitLine lineno inside seqNode line
      visited.2.2.toList ++ parseFrom (lineno + 1) visited.1 visited.2.1 rest

def parse (deffile : List Char) : List ClassNode := parseFrom 1 .nothing {} (lines deffile)

/-- `raw.replace (' *', 'p')` -/
def replaceStar : List Char → List Char
  | [] => []
  | ' ' :: '*' :: rest => 'p' :: replaceStar rest
  | c :: rest => c :: replaceStar rest

/-- The entries of `tmpl_vars` that the templates of a class are filled with. -/
structure TmplVars where
  lineno : Nat
  clsName : List Char
  paramList : List Char
  comment : List Char
  marshal : List Char
  checker : List Char
  profiler : List Char
deriving DecidableEq

def checkerDefault : List Char := "oil_checker_default".toList

def profilerDefault : List Char := "oil_profiler_default".toList

/-- What one round of the loop over the classes makes of the entries; `checker` and `profiler`
are those left by the round before. -/
def fill (checker profiler : List Char) (node : ClassNode) : TmplVars :=
  let params := node.prototype.2
  let types := ['_'].intercalate (params.map Prod.fst)
  { lineno := node.lineno
    clsName := node.prototype.1
    paramList := ", ".toList.intercalate (params.map fun p => p.1 ++ ' ' :: p.2)
    comment := node.comments.cComment
    marshal := "OIL_MARSHAL__".toList ++
      (replaceStar (types.map Char.toUpper)).map fun c => if c = ' ' then '_' else c
    checker := (node.comments.comment.lookup "checker".toList).getD checker
    profiler := (node.comments.comment.lookup "profiler".toList).getD profiler }

/-- The loop over the classes: what the templates are filled with for each of them. -/
def fillAll : (checker profiler : List Char) → List ClassNode → List TmplVars
  | _, _, [] => []
  | checker, profiler, node :: rest =>
      let vars := fill checker profiler node
      vars :: fillAll vars.checker vars.profiler rest

/-- The registrations the script generates for a file. -/
def registrations (deffile : List Char) : List TmplVars :=
  fillAll checkerDefault profilerDefault (parse deffile)

example : (registrations "# @checker c\nvoid f (uint8_t *d, int n);\nint g (int n);\n".toList).map
    (fun vars => (vars.lineno, vars.clsName, vars.paramList, vars.marshal, vars.checker)) =
    [(2, "f".toList, "uint8_t * d, int n".toList, "OIL_MARSHAL__UINT8_Tp_INT".toList, "c".toList)] := by
  decide +kernel

end RegClasses

end Oil.Test
