import Oil.Test.Generators.AttachClasses
import Oil.Test.Numerals

namespace Oil.Test.RegClasses

open Oil.Data Program

/-! # What marshal functions do

A marshal function turns the arguments of a test into those of the function that is tested, and
has the profiler measure the call. -/

section Text

variable (names : FileNames)

def marshalHead : List Char :=
  commentHead names "-marshal.c:\n *  Auto generate from "
    ("\n *  It will be rewritten next time run oil-regclasses\n * \n" ++
      " *  declares marshal functions for auto testing\n */\n#include <inttypes.h>\n#include <oiltest.h>\n")

def marshalFunction (vars : MarshalVars) : List Char :=
  "\nvoid ".toList ++ vars.marshal ++
    (" (void *func, OilGenericType *args, OilProfiler *profiler)\n\x7b\n".toList ++
      "    typedef void (*prototype) (".toList) ++ vars.marshalT ++
    ");\n    prototype _f = (prototype) func;\n\n".toList ++ vars.cvtArgs ++
    "\n\n    profiler->start (profiler);\n    _f (".toList ++ vars.argsList ++
    ");\n    profiler->stop (profiler);\n\x7d\n".toList

/-- `<defname>-marshal.c` -/
def marshalFile (marshals : List (List (List Char))) : List Char :=
  marshalHead names ++ marshals.flatMap (fun m => marshalFunction (marshalBody m)) ++ ['\n']

end Text

/-! ## Reading a marshal function -/

inductive Statement where
  | aliases (name : List Char) (types : List (List Token))
  | casts (type variable_ source : List Char)
  | loads (type : List Token) (variable_ array : List Char) (index : Nat) (member : List Char)
  | method (object method arg : List Char)
  | calls (function : List Char) (args : List (List Char))
deriving DecidableEq

/-- What is behind the first tokens, if these are as they ought to be. -/
def behind (front read : List Token) : Option (List Token) :=
  if read.take front.length = front then some (read.drop front.length) else none

def readNumber (letters : List Char) : Option Nat :=
  if letters.all isDigit ∧ (letters.head? ≠ some '0' ∨ letters.length = 1) then some (digitsValue 10 letters 0)
  else none

def readWord : List Token → Option (List Char)
  | [.word letters] => some letters
  | _ => none

def readAlias (read : List Token) : Option Statement := do
  match ← behind [keyword "typedef", keyword "void", opening, .mark '*'] read with
  | .word name :: rest =>
      let types ← behind [closing, opening] rest
      if types.getLast? = some closing then some (.aliases name (types.dropLast.splitOn (.mark ','))) else none
  | _ => none

/-- C converts a member of `OilGenericType` to the type: a pointer to no floating type, and a double to
no pointer. -/
def castable (member : List Char) (type : List Token) : Bool :=
  let pointer := decide (type.getLast? = some (.mark '*'))
  let floating := !pointer && type.any fun token => token = keyword "float" || token = keyword "double"
  if member = "p".toList then !floating
  else if member = "i64".toList then true
  else member = "f64".toList && !pointer

/-- A declaration with a cast to its own type behind the equals sign. -/
def readDeclaration (declared value : List Token) : Option Statement :=
  match declared.getLast? with
  | some (.word variable_) => do
      match ← behind (opening :: declared.dropLast ++ [closing]) value with
      | [.word source] => do
          let type ← readWord declared.dropLast
          some (.casts type variable_ source)
      | .mark '(' :: .word array :: .mark '+' :: .word index :: .mark ')' :: .mark '-' :: .mark '>' :: rest => do
          let member ← readWord rest
          let index ← readNumber index
          if castable member declared.dropLast then some (.loads declared.dropLast variable_ array index member)
          else none
      | _ => none
  | _ => none

def readStatement (read : List Token) : Option Statement :=
  match read.splitOn (.mark '=') with
  | [declared, value] => readDeclaration declared value
  | _ =>
      if read.head? = some (keyword "typedef") then readAlias read
      else
        match read with
        | .word object :: .mark '-' :: .mark '>' :: rest => do
            match ← readCall rest with
            | (name, [[.word arg]]) => some (.method object name arg)
            | _ => none
        | _ => do
            let (function, args) ← readCall read
            let words ← args.mapM readWord
            some (.calls function words)

/-- `(void *func, OilGenericType *args, OilProfiler *profiler)`, and the body. -/
def readMarshal : List Token → Option (List Char × List Statement)
  | void :: .word name :: rest => do
      let body ← behind (marshalParams ++ [.mark '\x7b']) rest
      let parts := body.splitOn (.mark ';')
      if void = keyword "void" ∧ parts.getLast? = some [] then
        (parts.dropLast.mapM readStatement).map fun statements => (name, statements)
      else none
  | _ => none

/-- The functions that a text defines. -/
def readMarshals (text : List Char) : Option (List (List Char × List Statement)) := do
  let parts := (← tokens text).splitOn (.mark '\x7d')
  if parts.getLast? = some [] then parts.dropLast.mapM readMarshal else none

example : readMarshals (marshalFunction (marshalBody ["const uint8_t *".toList, "int".toList])) =
    some [("OIL_MARSHAL__CONST_UINT8_Tp_INT".toList,
      [.aliases "prototype".toList [[keyword "const", keyword "uint8_t", .mark '*'], [keyword "int"]],
        .casts "prototype".toList "_f".toList "func".toList,
        .loads [keyword "const", keyword "uint8_t", .mark '*'] "_0".toList "args".toList 0 "p".toList,
        .loads [keyword "int"] "_1".toList "args".toList 1 "p".toList,
        .method "profiler".toList "start".toList "profiler".toList,
        .calls "_f".toList ["_0".toList, "_1".toList],
        .method "profiler".toList "stop".toList "profiler".toList])] := by decide +kernel

/-! ## Running a marshal function -/

/-- How C reads a member of `OilGenericType`, and how it converts what it reads. -/
structure Conversions (G V : Type) where
  member : List Char → G → V
  convert : List Token → V → V

/-- What is called: a function of the profiler, or the one that is tested, through a pointer to a
function with parameters of these types. -/
inductive Event (V : Type) where
  | profiler (method : List Char)
  | tested (types : List (List Token)) (args : List V)
deriving DecidableEq

inductive Local (V : Type) where
  | function (types : List (List Token))
  | value (value : V)

structure Frame (V : Type) where
  typedefs : List Char → Option (List (List Token)) := fun _ => none
  locals : List Char → Option (Local V) := fun _ => none
  events : List (Event V) := []

variable {G V : Type}

def Frame.value (frame : Frame V) (variable_ : List Char) : Option V :=
  match frame.locals variable_ with
  | some (.value value) => some value
  | _ => none

def Statement.exec (c : Conversions G V) (args : List G) (frame : Frame V) : Statement → Option (Frame V)
  | .aliases name types => some { frame with typedefs := Function.update frame.typedefs name (some types) }
  | .casts type variable_ source =>
      if source = "func".toList then
        (frame.typedefs type).map fun types =>
          { frame with locals := Function.update frame.locals variable_ (some (.function types)) }
      else none
  | .loads type variable_ array index member =>
      if array = "args".toList then
        args[index]?.map fun arg =>
          let value := c.convert type (c.member member arg)
          { frame with locals := Function.update frame.locals variable_ (some (.value value)) }
      else none
  | .method object name arg =>
      if object = "profiler".toList ∧ arg = "profiler".toList then
        some { frame with events := frame.events ++ [.profiler name] }
      else none
  | .calls function words =>
      match frame.locals function with
      | some (.function types) => do
          let values ← words.mapM frame.value
          if values.length = types.length then
            some { frame with events := frame.events ++ [.tested types values] }
          else none
      | _ => none

/-- What a call of a marshal function calls. -/
def runMarshal (c : Conversions G V) (args : List G) (body : List Statement) : Option (List (Event V)) :=
  (body.foldlM (Statement.exec c args) {}).map (·.events)

/-! ## The text of a marshal function -/

section Tokens

def argName (i : Nat) : List Char := '_' :: (toString i).toList

theorem readNumber_toString (i : Nat) : readNumber (toString i).toList = some i := by
  rw [toString_toList, readNumber, if_pos, digitsValue_toDigits (by decide) (by decide)]
  refine ⟨List.all_eq_true.mpr fun c member => isDigit_of_mem_toDigits member, ?_⟩
  rcases Nat.eq_zero_or_pos i with rfl | positive
  · exact .inr rfl
  · exact .inl (head_toDigits_ne_zero (by decide) positive)

theorem argName_inj {i j : Nat} (same : argName i = argName j) : i = j := by
  have numbers : readNumber (toString i).toList = readNumber (toString j).toList := by
    rw [List.cons.inj same |>.2]
  rw [readNumber_toString, readNumber_toString] at numbers
  exact Option.some.inj numbers

theorem isWord_argName (i : Nat) : ∀ c ∈ argName i, isWordLetter c = true :=
  List.forall_mem_cons.mpr ⟨rfl, isWord_number i⟩

theorem argName_ne_nil (i : Nat) : argName i ≠ [] := List.cons_ne_nil _ _

theorem transduce_lines {ι : Type} {text : ι → List Char} {out : ι → List Token} {parts : List ι}
    (each : ∀ part ∈ parts, transduce step .between (text part) = (.between, out part)) :
    transduce step .between (['\n'].intercalate (parts.map text)) = (.between, parts.flatMap out) := by
  induction parts with
  | nil => rfl
  | cons part parts ih =>
      obtain ⟨now, later⟩ := List.forall_mem_cons.mp each
      cases parts with
      | nil => simpa using now
      | cons second rest =>
          have newline : transduce step .between ['\n'] = (.between, []) := by decide +kernel
          have whole := transduce_seq (transduce_seq now newline) (ih later)
          rw [List.map_cons, List.map_cons, List.intercalate_cons_cons, List.flatMap_cons]
          simpa using whole

def loadTokens (type : List Char) (i : Nat) : List Token :=
  typeTokens type ++ [.word (argName i), .mark '=', opening] ++ typeTokens type ++
    [closing, opening, keyword "args", .mark '+', .word (toString i).toList, closing, .mark '-', .mark '>',
      .word (genericMember type)]

def loadStatement (type : List Char) (i : Nat) : Statement :=
  .loads (typeTokens type) (argName i) "args".toList i (genericMember type)

def methodTokens (name : String) : List Token :=
  [keyword "profiler", .mark '-', .mark '>', keyword name, opening, keyword "profiler", closing]

/-- The statements of a marshal function, as they are written and as they are read. -/
def marshalParts (m : List (List Char)) : List (List Token × Statement) :=
  ([keyword "typedef", keyword "void", opening, .mark '*', keyword "prototype", closing, opening] ++
      [Token.mark ','].intercalate (m.map typeTokens) ++ [closing],
    .aliases "prototype".toList (m.map typeTokens)) ::
  ([keyword "prototype", keyword "_f", .mark '=', opening, keyword "prototype", closing, keyword "func"],
    .casts "prototype".toList "_f".toList "func".toList) ::
  (m.zipIdx.map fun (type, i) => (loadTokens type i, loadStatement type i)) ++
  [(methodTokens "start", .method "profiler".toList "start".toList "profiler".toList),
    (callTokens "_f".toList (m.zipIdx.map fun (_, i) => [.word (argName i)]),
      .calls "_f".toList (m.zipIdx.map fun (_, i) => argName i)),
    (methodTokens "stop", .method "profiler".toList "stop".toList "profiler".toList)]

def marshalTokens (m : List (List Char)) : List Token :=
  keyword "void" :: .word (marshalName m) :: marshalParams ++ [.mark '\x7b'] ++
    (marshalParts m).flatMap fun part => part.1 ++ [.mark ';']

theorem transduce_argName (i : Nat) :
    transduce step .between (argName i ++ [',']) = (.between, [.word (argName i)] ++ [.mark ',']) ∧
      transduce step .between (argName i ++ [')']) = (.between, [.word (argName i)] ++ [closing]) := by
  have comma : transduce step .between [','] = (.between, [.mark ',']) := by decide +kernel
  have paren : transduce step .between [')'] = (.between, [closing]) := by decide +kernel
  exact ⟨transduce_named (argName_ne_nil i) (isWord_argName i) rfl comma,
    transduce_named (argName_ne_nil i) (isWord_argName i) rfl paren⟩

theorem transduce_load {type : List Char} (listed : type ∈ parameterTypes) (i : Nat) :
    transduce step .between ("    ".toList ++ type ++ " _".toList ++ (toString i).toList ++ " = (".toList ++ type ++
      ") (args + ".toList ++ (toString i).toList ++ ")->".toList ++ genericMember type ++ ";".toList) =
      (.between, loadTokens type i ++ [.mark ';']) := by
  have table : ∀ type ∈ parameterTypes, genericMember type ≠ [] ∧ (genericMember type).all isWordLetter = true := by
    decide +kernel
  obtain ⟨nonempty, letters⟩ := table type listed
  have digits : (toString i).toList ≠ [] := by
    rw [toString_toList]
    exact Nat.toDigits_ne_nil
  obtain ⟨blank, _, paren⟩ := transduce_type listed
  have indent : transduce step .between "    ".toList = (.between, []) := by decide +kernel
  have ended : transduce step .between ";".toList = (.between, [.mark ';']) := by decide +kernel
  have arrow : transduce step .between ")->".toList = (.between, [closing, .mark '-', .mark '>']) := by decide +kernel
  have array : transduce step .between " (args + ".toList = (.between, [opening, keyword "args", .mark '+']) := by
    decide +kernel
  have cast : transduce step .between " = (".toList = (.between, [.mark '=', opening]) := by decide +kernel
  have member := transduce_named nonempty (List.all_eq_true.mp letters) rfl ended
  have index := transduce_named digits (isWord_number i) rfl (transduce_seq arrow member)
  have name := transduce_named (argName_ne_nil i) (isWord_argName i) rfl (transduce_seq cast (transduce_seq paren
    (transduce_seq array index)))
  have whole := transduce_seq indent (transduce_seq blank name)
  refine Eq.trans (congrArg (transduce step .between) ?_) (whole.trans (congrArg (Prod.mk _) ?_))
  · simp [argName]
  · simp [loadTokens]

theorem zipIdx_ne_nil {m : List (List Char)} (nonempty : m ≠ []) : m.zipIdx ≠ [] := by
  simpa using nonempty

/-- The three lists in the text of a marshal function. -/
theorem transduce_marshalBody {m : List (List Char)} (nonempty : m ≠ []) (listed : ∀ type ∈ m, type ∈ parameterTypes) :
    transduce step .between ((marshalBody m).marshalT ++ [')']) =
        (.between, [Token.mark ','].intercalate (m.map typeTokens) ++ [closing]) ∧
      transduce step .between (marshalBody m).cvtArgs =
        (.between, m.zipIdx.flatMap fun part => loadTokens part.1 part.2 ++ [.mark ';']) ∧
      transduce step .between ((marshalBody m).argsList ++ [')']) =
        (.between, [Token.mark ','].intercalate (m.zipIdx.map fun part => [.word (argName part.2)]) ++ [closing]) := by
  refine ⟨?_, ?_, ?_⟩
  · have types := transduce_list nonempty fun type member =>
      ⟨(transduce_type (listed type member)).2.1, (transduce_type (listed type member)).2.2⟩
    rwa [List.map_id'] at types
  · exact transduce_lines fun part member => transduce_load (listed part.1 (List.fst_mem_of_mem_zipIdx member)) part.2
  · exact transduce_list (zipIdx_ne_nil nonempty) fun part _ => transduce_argName part.2

theorem regroup {a name b types c c' loads d args e e' : List Char} (first : c = [')'] ++ c')
    (second : e = [')'] ++ e') :
    a ++ name ++ b ++ types ++ c ++ loads ++ d ++ args ++ e =
      a ++ (name ++ (b ++ ((types ++ [')']) ++ (c' ++ (loads ++ (d ++ ((args ++ [')']) ++ e'))))))) := by
  rw [first, second]
  simp only [List.append_assoc]

/-- The texts between the lists. -/
theorem transduce_template :
    transduce step .between "\nvoid ".toList = (.between, [keyword "void"]) ∧
      transduce step .between (" (void *func, OilGenericType *args, OilProfiler *profiler)\n\x7b\n".toList ++
        "    typedef void (*prototype) (".toList) = (.between, marshalParams ++ [.mark '\x7b', keyword "typedef",
          keyword "void", opening, .mark '*', keyword "prototype", closing, opening]) ∧
      transduce step .between ";\n    prototype _f = (prototype) func;\n\n".toList = (.between,
        [.mark ';', keyword "prototype", keyword "_f", .mark '=', opening, keyword "prototype", closing,
          keyword "func", .mark ';']) ∧
      transduce step .between "\n\n    profiler->start (profiler);\n    _f (".toList = (.between,
        methodTokens "start" ++ [.mark ';', keyword "_f", opening]) ∧
      transduce step .between ";\n    profiler->stop (profiler);\n\x7d\n".toList = (.between,
        .mark ';' :: methodTokens "stop" ++ [.mark ';', .mark '\x7d']) := by
  decide +kernel

theorem transduce_pieces {m : List (List Char)} (nonempty : m ≠ []) (listed : ∀ type ∈ m, type ∈ parameterTypes) :
    transduce step .between ("\nvoid ".toList ++ (marshalName m ++
      ((" (void *func, OilGenericType *args, OilProfiler *profiler)\n\x7b\n".toList ++
        "    typedef void (*prototype) (".toList) ++ (((marshalBody m).marshalT ++ [')']) ++
      (";\n    prototype _f = (prototype) func;\n\n".toList ++ ((marshalBody m).cvtArgs ++
      ("\n\n    profiler->start (profiler);\n    _f (".toList ++ (((marshalBody m).argsList ++ [')']) ++
        ";\n    profiler->stop (profiler);\n\x7d\n".toList)))))))) = (.between, marshalTokens m ++ [.mark '\x7d']) := by
  have name : IsIdentifier (marshalName m) := isIdentifier_marshalName listed
  have ends (rest : List Char) : ((" (void *func, OilGenericType *args, OilProfiler *profiler)\n\x7b\n".toList ++
      "    typedef void (*prototype) (".toList) ++ rest).head?.all isWordLetter = false := by
    rw [List.head?_append_of_ne_nil _ (by decide +kernel)]
    decide +kernel
  obtain ⟨opened, params, cast, starts, stops⟩ := transduce_template
  obtain ⟨types, loads, args⟩ := transduce_marshalBody nonempty listed
  have whole := transduce_seq opened (transduce_named (nonempty_of_identifier name) name.2 (ends _) (transduce_seq params
    (transduce_seq types (transduce_seq cast (transduce_seq loads (transduce_seq starts (transduce_seq args stops)))))))
  rw [whole]
  simp only [marshalTokens, marshalParts, callTokens, methodTokens, List.cons_append, List.nil_append, List.append_assoc,
    List.flatMap_cons, List.flatMap_append, List.flatMap_map, List.flatMap_nil, List.append_nil]
  rfl

theorem transduce_marshalFunction {m : List (List Char)} (nonempty : m ≠ [])
    (listed : ∀ type ∈ m, type ∈ parameterTypes) :
    transduce step .between (marshalFunction (marshalBody m)) = (.between, marshalTokens m ++ [.mark '\x7d']) := by
  have behindTypes : ");\n    prototype _f = (prototype) func;\n\n".toList =
      [')'] ++ ";\n    prototype _f = (prototype) func;\n\n".toList := by decide +kernel
  have behindArgs : ");\n    profiler->stop (profiler);\n\x7d\n".toList =
      [')'] ++ ";\n    profiler->stop (profiler);\n\x7d\n".toList := by decide +kernel
  exact (congrArg (transduce step .between) (regroup behindTypes behindArgs)).trans (transduce_pieces nonempty listed)

end Tokens

end Oil.Test.RegClasses
