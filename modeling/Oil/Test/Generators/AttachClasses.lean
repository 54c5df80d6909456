import Oil.Test.Generators.RegisterClasses
import Oil.Test.Tester.Attach
import Oil.Test.Tester.Optimize

namespace Oil.Test

open Oil.Data Oil.Core Program

namespace RegClasses

/-! # The function that attaches test data to the classes of a file -/

section Text

variable (names : FileNames) (vars : TmplVars)

def attachHead : List Char :=
  fileHead names "-attach-classes.c:\n *  Auto generate from "
    ("\n *  It will be rewritten next time run oil-regclasses\n" ++
      " *  Generate function that attaching class_data to classes\n */\n#include <oiltest.h>\n\nvoid ") "_attach_classes"

def attachClass : List Char :=
  "\n    extern void ".toList ++ vars.marshal ++
    (" (void *func, OilGenericType *args, OilProfiler *profiler);\n".toList ++
      "    oil_test_attach_class_full (\x22".toList) ++ vars.clsName ++ "\x22, \x22".toList ++ vars.paramList ++
    "\x22, ".toList ++ vars.marshal ++ ", &".toList ++ vars.checker ++ ", &".toList ++ vars.profiler ++ ");\n".toList

def attachTail : List Char := "\n\x7d\n".toList

/-- `<defname>-attach-classes.c` -/
def attachFile (registered : List TmplVars) : List Char :=
  attachHead names ++ registered.flatMap attachClass ++ attachTail

end Text

section Tokens

def marshalParams : List Token :=
  [opening, keyword "void", .mark '*', keyword "func", .mark ',', keyword "OilGenericType", .mark '*', keyword "args",
    .mark ',', keyword "OilProfiler", .mark '*', keyword "profiler", closing]

def attachArgs (vars : TmplVars) : List (List Token) :=
  [[.str vars.clsName], [.str vars.paramList], [.word vars.marshal], [.mark '&', .word vars.checker],
    [.mark '&', .word vars.profiler]]

def attachParts (vars : TmplVars) : List Part :=
  let marshal := keyword "void" :: .word vars.marshal :: marshalParams
  [(keyword "extern" :: marshal, .declares marshal),
    (callTokens "oil_test_attach_class_full".toList (attachArgs vars),
      .calls "oil_test_attach_class_full".toList (attachArgs vars))]

theorem plain_of_params {text : List Char} (params : ∀ c ∈ text, isParamChar c = true) : Plain text := by
  intro c member
  have param := params c member
  simp only [isParamChar, Bool.or_eq_true, decide_eq_true_eq] at param
  rcases param with ((letter | rfl) | rfl) | rfl
  · exact isPlainChar_of_isWordLetter letter
  all_goals rfl

theorem transduce_attachHead (names : FileNames) :
    transduce step .between (attachHead names) = (.between, [keyword "void",
      .word (names.encodedBasename ++ "_attach_classes".toList), opening, closing, .mark '\x7b']) :=
  transduce_fileHead names (by rintro _ (_ | _) <;> decide +kernel) (by rintro _ (_ | _) <;> decide +kernel)
    (by decide +kernel)

theorem transduce_attachClass {vars : TmplVars} (spelled : vars.Spelled) :
    transduce step .between (attachClass vars) = (.between, (attachParts vars).flatMap Program.written) := by
  have named {name : List Char} (identifier : IsIdentifier name) : transduce step .between name = (.word name, []) :=
    transduce_word (nonempty_of_identifier identifier) identifier.2
  have opened : transduce step .between "\n    extern void ".toList = (.between, [keyword "extern", keyword "void"]) := by
    decide +kernel
  have params : transduce step .between " (void *func, OilGenericType *args, OilProfiler *profiler);\n".toList =
      (.between, marshalParams ++ [.mark ';']) := by decide +kernel
  have call : transduce step .between "    oil_test_attach_class_full (\x22".toList =
      (.str [], [keyword "oil_test_attach_class_full", opening]) := by decide +kernel
  have quoted : transduce step .between "\x22, \x22".toList.tail = (.str [], [.mark ',']) := by decide +kernel
  have unquoted : transduce step .between "\x22, ".toList.tail = (.between, [.mark ',']) := by decide +kernel
  have address : transduce step .between ", &".toList = (.between, [.mark ',', .mark '&']) := by decide +kernel
  have ended : transduce step .between ");\n".toList = (.between, [closing, .mark ';']) := by decide +kernel
  have declares := transduce_seq (transduce_seq opened (named spelled.marshal))
    (transduce_word_end (by decide +kernel) (transduce_seq params call))
  have classes := transduce_seq (transduce_seq declares (transduce_str (plain_of_identifier spelled.clsName)))
    (transduce_str_end (by decide +kernel) quoted)
  have prototypes := transduce_seq (transduce_seq classes (transduce_str (plain_of_params spelled.paramList)))
    (transduce_str_end (by decide +kernel) unquoted)
  have marshals := transduce_seq (transduce_seq prototypes (named spelled.marshal))
    (transduce_word_end (by decide +kernel) address)
  have checkers := transduce_seq (transduce_seq marshals (named spelled.checker))
    (transduce_word_end (by decide +kernel) address)
  have whole := transduce_seq (transduce_seq checkers (named spelled.profiler))
    (transduce_word_end (by decide +kernel) ended)
  unfold attachClass
  refine whole.trans (congrArg (Prod.mk _) ?_)
  simp [attachParts, Program.written, callTokens, attachArgs, marshalParams, List.intercalate, List.intersperse, keyword]

theorem attachArgs_separate (vars : TmplVars) : Separate (attachArgs vars) := by
  refine ⟨by simp [attachArgs], by simp [attachArgs], by simp [attachArgs], ?_⟩
  simp only [attachArgs, List.forall_mem_cons]
  exact ⟨rfl, rfl, rfl, rfl, rfl, List.forall_mem_nil _⟩

theorem attachParts_read (vars : TmplVars) : ∀ part ∈ attachParts vars, part.Reads := by
  simp only [attachParts, List.forall_mem_cons]
  refine ⟨⟨?_, rfl⟩, ⟨?_, ?_⟩, List.forall_mem_nil _⟩
  · simp [marshalParams, keyword, opening, closing]
  · simp [callTokens, attachArgs, List.intercalate, List.intersperse, opening, closing]
  · exact readItem_calls (attachArgs_separate vars) (by decide +kernel)

theorem readFunction_attachFile (names : FileNames) {registered : List TmplVars}
    (spelled : ∀ vars ∈ registered, vars.Spelled) :
    readFunction (attachFile names registered) = some (names.encodedBasename ++ "_attach_classes".toList,
      (registered.flatMap attachParts).map Prod.snd) :=
  readFunction_entries (transduce_attachHead names) (fun vars member => transduce_attachClass (spelled vars member))
    (by decide +kernel) fun vars _ => attachParts_read vars

end Tokens

section Declarations

/-- The types of the parameters of a marshal function. -/
def marshalTypes : List (List Token) :=
  [[keyword "void", .mark '*'], [keyword "OilGenericType", .mark '*'], [keyword "OilProfiler", .mark '*']]

/-- What `oiltest.h` declares of what the function uses. -/
structure AttachIncluded (headers : Headers) : Prop where
  genericType : headers "OilGenericType".toList = some .type
  profilerType : headers "OilProfiler".toList = some .type
  attach : headers "oil_test_attach_class_full".toList = some (.function [.string, .string, .function marshalTypes,
    .pointer "OilChecker".toList, .pointer "OilProfiler".toList] none)
  params : ∀ name ∈ ["func", "args", "profiler"], headers.free name.toList = true

/-- The marshal functions of a file of definitions can be declared, and the headers declare every
checker and profiler that it names. -/
structure Attachable (headers : Headers) (function deffile : List Char) : Prop where
  own : headers.free function = true
  marshals : ∀ vars ∈ registrations deffile, headers.free vars.marshal = true
  checkers : ∀ vars ∈ registrations deffile, headers vars.checker = some (.object "OilChecker".toList)
  profilers : ∀ vars ∈ registrations deffile, headers vars.profiler = some (.object "OilProfiler".toList)

def marshalDeclared (marshal : List Char) : Declared := ⟨marshal, .function marshalTypes⟩

/-- What may be declared in the function: itself, and marshal functions. -/
def InAttach (function : List Char) : Declared → Prop := Besides ⟨function, .function []⟩ (.function marshalTypes)

theorem notMem_marshalName {m : List (List Char)} (listed : ∀ type ∈ m, type ∈ parameterTypes) :
    's' ∉ marshalName m := by
  have table : ∀ type ∈ parameterTypes, 's' ∉ encode type := by decide +kernel
  have encoded : ∀ c ∈ encode (['_'].intercalate m), c ≠ 's' := by
    rw [encode_intercalate]
    refine forall_mem_intercalate (by simp) fun part isPart c member same => ?_
    obtain ⟨type, isType, rfl⟩ := List.mem_map.mp isPart
    exact table type (listed type isType) (same ▸ member)
  intro member
  rcases List.mem_append.mp member with early | late
  · exact absurd early (by decide +kernel)
  · exact encoded _ late rfl

/-- The function is none of those it attaches. -/
theorem marshal_ne_function {deffile name : List Char} {vars : TmplVars} (member : vars ∈ registrations deffile) :
    vars.marshal ≠ name ++ "_attach_classes".toList := by
  obtain ⟨node, _, _, marshal, _, _, listed⟩ := exists_node member
  intro same
  have ends : 's' ∈ name ++ "_attach_classes".toList := List.mem_append_right _ (by decide +kernel)
  rw [← same, marshal] at ends
  refine notMem_marshalName (fun type isType => ?_) ends
  obtain ⟨param, isParam, rfl⟩ := List.mem_map.mp isType
  exact listed param isParam

variable {headers : Headers} {deffile name : List Char}

/-- A pointer to what the headers declare as a type. -/
theorem isType_pointer {type : List Char} (known : headers type = some .type) (notConst : type ≠ "const".toList) :
    isType headers.known [.word type, .mark '*'] = true := by
  have head : [Token.word type, .mark '*'].head? ≠ some (keyword "const") := fun same =>
    notConst (Token.word.inj (Option.some.inj same))
  rw [isType, if_neg head, isPlainType, Headers.known, known]
  simp

theorem isParam_pointer {type arg : List Char} (known : isType headers.known [.word type, .mark '*'] = true)
    (free : headers.free arg = true) : headers.isParam [.word type, .mark '*', .word arg] = true := by
  show (headers.free arg && isType headers.known [.word type, .mark '*']) = true
  rw [free, known]
  rfl

theorem params_marshal (included : AttachIncluded headers) :
    headers.params marshalParams.tail.dropLast = some marshalTypes := by
  have void : isType headers.known [keyword "void", .mark '*'] = true := by
    rw [isType, if_neg (by decide +kernel)]
    exact Bool.or_eq_true_iff.mpr (.inr (decide_eq_true rfl))
  have generic := isType_pointer included.genericType (by decide +kernel)
  have profiler := isType_pointer included.profilerType (by decide +kernel)
  have free (name : String) (listed : name ∈ ["func", "args", "profiler"]) := included.params name listed
  have split : marshalParams.tail.dropLast.splitOn (.mark ',') =
      [[keyword "void", .mark '*', keyword "func"], [keyword "OilGenericType", .mark '*', keyword "args"],
        [keyword "OilProfiler", .mark '*', keyword "profiler"]] := by decide +kernel
  have each : [[keyword "void", .mark '*', keyword "func"], [keyword "OilGenericType", .mark '*', keyword "args"],
      [keyword "OilProfiler", .mark '*', keyword "profiler"]].all headers.isParam = true :=
    List.all_eq_true.mpr (List.forall_mem_cons.mpr ⟨isParam_pointer void (free "func" (.head _)),
      List.forall_mem_cons.mpr ⟨isParam_pointer generic (free "args" (.tail _ (.head _))),
        List.forall_mem_cons.mpr ⟨isParam_pointer profiler (free "profiler" (.tail _ (.tail _ (.head _)))),
          List.forall_mem_nil _⟩⟩⟩)
  simp only [Headers.params, split, each]
  decide +kernel

theorem declared_marshal (included : AttachIncluded headers) {marshal : List Char} (free : headers.free marshal = true) :
    headers.declared (keyword "void" :: .word marshal :: marshalParams) = some (marshalDeclared marshal) := by
  show (if "void".toList = "void".toList ∧ headers.free marshal ∧ marshalParams.tail.getLast? = some closing then
    (headers.params marshalParams.tail.dropLast).map fun params => (⟨marshal, .function params⟩ : Declared) else none) = _
  rw [if_pos ⟨rfl, free, by decide +kernel⟩, params_marshal included, Option.map_some, marshalDeclared]

theorem check_attachParts (included : AttachIncluded headers)
    (attachable : Attachable headers (name ++ "_attach_classes".toList) deffile) {vars : TmplVars}
    (member : vars ∈ registrations deffile) {scope : List Declared}
    (within : ∀ known ∈ scope, InAttach (name ++ "_attach_classes".toList) known) :
    ∃ after, ((attachParts vars).map Prod.snd).foldlM headers.check scope = some after ∧
      ∀ known ∈ after, InAttach (name ++ "_attach_classes".toList) known := by
  have isNew : InAttach (name ++ "_attach_classes".toList) (marshalDeclared vars.marshal) :=
    .inr ⟨marshal_ne_function member, rfl⟩
  refine ⟨marshalDeclared vars.marshal :: scope, ?_, List.forall_mem_cons.mpr ⟨isNew, within⟩⟩
  have declared := declared_marshal included (attachable.marshals vars member)
  have admitted := admits_of_agree Besides.agree within isNew rfl
  have call : headers.accepts (marshalDeclared vars.marshal :: scope) (.function marshalTypes)
      [.word vars.marshal] = true := decide_eq_true (List.Mem.head _)
  have checker : headers.accepts (marshalDeclared vars.marshal :: scope) (.pointer "OilChecker".toList)
      [.mark '&', .word vars.checker] = true := decide_eq_true (attachable.checkers vars member)
  have profiler : headers.accepts (marshalDeclared vars.marshal :: scope) (.pointer "OilProfiler".toList)
      [.mark '&', .word vars.profiler] = true := decide_eq_true (attachable.profilers vars member)
  have result : headers.result (marshalDeclared vars.marshal :: scope) "oil_test_attach_class_full".toList
      (attachArgs vars) = some none := by
    simp only [Headers.result, included.attach, attachArgs]
    refine if_pos ⟨rfl, ?_⟩
    simp only [List.zip_cons_cons, List.zip_nil_right, List.all_cons, call, checker, profiler]
    rfl
  simp only [attachParts, List.map_cons, List.map_nil, List.foldlM_cons, List.foldlM_nil,
    check_declares declared admitted, check_calls result, Option.bind_eq_bind, Option.bind_some, Option.pure_def]

/-- The text is a function that a compiler takes. -/
theorem compile_attachFile (names : FileNames) (included : AttachIncluded headers)
    (attachable : Attachable headers (names.encodedBasename ++ "_attach_classes".toList) deffile) :
    compile headers (attachFile names (registrations deffile)) =
      some (names.encodedBasename ++ "_attach_classes".toList,
        ((registrations deffile).flatMap attachParts).map Prod.snd) := by
  obtain ⟨_, checked, _⟩ := check_entries (fun vars member _ within =>
    check_attachParts included attachable member within)
    (List.forall_mem_cons.mpr ⟨.inl rfl, List.forall_mem_nil _⟩)
  rw [← List.map_flatMap] at checked
  exact compile_of_read (readFunction_attachFile names (registrations_spelled deffile)) attachable.own checked

end Declarations

/-- What the names that the headers declare stand for.  What a check or a profile finds depends on
the class. -/
structure TestSymbols (F T : Type) where
  marshals : List Char → F → TestedFunction
  checkers : (clsName checker : List Char) → OilChecker
  profilers : (clsName profiler : List Char) → OilProfiler T

section Running

variable {F T : Type} (symbols : TestSymbols F T)

/-- The function of oiltest that generated code calls. -/
def oiltest : Library F (OilClassData F T) := fun _ machine function args =>
  if function = "oil_test_attach_class_full".toList then
    match args with
    | [[.str clsName], [.str prototype], [.word marshal], [.mark '&', .word checker], [.mark '&', .word profiler]] =>
        (oilTestAttachClassFull machine.reg (some (String.ofList clsName)) (some prototype)
          (some (symbols.marshals marshal)) (some (symbols.checkers clsName checker))
          (some (symbols.profilers clsName profiler))).map fun reg => (reg, null)
    | _ => none
  else none

/-- The data that a definition attaches to its class. -/
def testData (vars : TmplVars) : Option (OilClassData F T) :=
  attachment vars.paramList (symbols.marshals vars.marshal) (symbols.checkers vars.clsName vars.checker)
    (symbols.profilers vars.clsName vars.profiler)

/-- The data that the definitions attach to a class: the first that can be. -/
def firstData (registered : List TmplVars) (clsName : String) : Option (OilClassData F T) :=
  registered.findSome? fun vars => if vars.clsName = clsName.toList then testData symbols vars else none

/-- The catalogue with test data for the classes that had none. -/
def attached (catalogue : TestCatalogue F T) (registered : List TmplVars) : TestCatalogue F T :=
  { catalogue with
    classes := fun clsName => (catalogue.classes clsName).map fun class_ =>
      { class_ with data := class_.data.or (firstData symbols registered clsName) } }

variable {symbols} {catalogue : TestCatalogue F T}

theorem attach_attached (vars : TmplVars) (registered : List TmplVars) :
    attached symbols (catalogue.attach (String.ofList vars.clsName) (testData symbols vars)) registered =
      attached symbols catalogue (vars :: registered) := by
  refine congrArg₂ Catalogue.mk (funext fun clsName => ?_) rfl
  by_cases same : clsName = String.ofList vars.clsName
  · subst same
    have first : firstData symbols (vars :: registered) (String.ofList vars.clsName) =
        (testData symbols vars).or (firstData symbols registered (String.ofList vars.clsName)) := by
      rw [firstData, List.findSome?_cons, String.toList_ofList, if_pos rfl, firstData, String.toList_ofList]
      cases testData symbols vars <;> rfl
    simp only [TestCatalogue.attach, Catalogue.amend, Function.update_self, Option.map_map, first]
    congr 1
    funext class_
    simp only [Function.comp_apply, Option.or_assoc]
  · have other : vars.clsName ≠ clsName.toList := by
      intro named
      rw [named, String.ofList_toList] at same
      exact same rfl
    have rest : firstData symbols (vars :: registered) clsName = firstData symbols registered clsName := by
      rw [firstData, List.findSome?_cons, if_neg other, firstData]
    simp only [TestCatalogue.attach, Catalogue.amend, Function.update_of_ne same, rest]

variable (symbols) (heaps : Nat → Heap F) {machine : Machine F (OilClassData F T)} {ht : HashTable CharPointer Nat}
  {given gone : List (Destroyed CharPointer Nat)}

theorem exec_attach (machine : Machine F (OilClassData F T)) (vars : TmplVars) :
    exec (oiltest symbols) heaps machine (.calls "oil_test_attach_class_full".toList (attachArgs vars)) =
      (oilTestAttachClassFull machine.reg (some (String.ofList vars.clsName)) (some vars.paramList)
        (some (symbols.marshals vars.marshal)) (some (symbols.checkers vars.clsName vars.checker))
        (some (symbols.profilers vars.clsName vars.profiler))).map fun reg =>
          { machine with reg, executed := machine.executed + 1 } := by
  simp only [exec, oiltest, if_pos, attachArgs, Option.map_map]
  rfl

/-- Each definition attaches its data, unless the class has some. -/
theorem exec_attachClasses (kept : Registry.Kept machine.reg ht given gone)
    (represents : Registry.Represents machine.reg ht catalogue) {registered : List TmplVars}
    (spelled : ∀ vars ∈ registered, vars.Spelled) :
    ∃ next, ((registered.flatMap attachParts).map Prod.snd).foldlM (exec (oiltest symbols) heaps) machine = some next ∧
      Registry.Kept next.reg ht given gone ∧
      Registry.Represents next.reg ht (attached symbols catalogue registered) ∧
      next.reg.destroyed = machine.reg.destroyed := by
  induction registered generalizing machine catalogue with
  | nil =>
      refine ⟨machine, rfl, kept, ?_, rfl⟩
      have same : attached symbols catalogue [] = catalogue := by simp [attached, firstData]
      rwa [same]
  | cons vars registered ih =>
      obtain ⟨first, rest⟩ := List.forall_mem_cons.mp spelled
      have named := ofList_ne_empty (nonempty_of_identifier first.clsName)
      let declared : Machine F (OilClassData F T) := { machine with executed := machine.executed + 1 }
      have keptDeclared : Registry.Kept declared.reg ht given gone := kept
      obtain ⟨reg, attaches, keptNow, representsNow, none⟩ := attach_returns keptDeclared represents named
        vars.paramList (symbols.marshals vars.marshal) (symbols.checkers vars.clsName vars.checker)
        (symbols.profilers vars.clsName vars.profiler)
      let now : Machine F (OilClassData F T) := { declared with reg, executed := declared.executed + 1 }
      have keptNow : Registry.Kept now.reg ht given gone := keptNow
      have executed : ((attachParts vars).map Prod.snd).foldlM (exec (oiltest symbols) heaps) machine = some now := by
        show (exec (oiltest symbols) heaps declared (.calls _ (attachArgs vars))).bind some = _
        rw [exec_attach, attaches]
        rfl
      obtain ⟨last, executedRest, keptLast, representsLast, noneLater⟩ := ih keptNow representsNow rest
      refine ⟨last, ?_, keptLast, ?_, noneLater.trans none⟩
      · rw [List.flatMap_cons, List.map_append, List.foldlM_append, executed]
        exact executedRest
      · rwa [← attach_attached]

end Running

section Meaning

variable {F T : Type} (symbols : TestSymbols F T) {reg : Registry F (OilClassData F T)} {catalogue : TestCatalogue F T}
  {ht : HashTable CharPointer Nat} {given gone : List (Destroyed CharPointer Nat)} (names : FileNames)
  (deffile : List Char) (heaps : Nat → Heap F)

theorem run_attachFile {headers : Headers} (included : AttachIncluded headers)
    (attachable : Attachable headers (names.encodedBasename ++ "_attach_classes".toList) deffile)
    (kept : Registry.Kept reg ht given gone) (represents : Registry.Represents reg ht catalogue) :
    ∃ items last, compile headers (attachFile names (registrations deffile)) =
        some (names.encodedBasename ++ "_attach_classes".toList, items) ∧
      run (oiltest symbols) heaps reg items = some last ∧ Registry.Kept last ht given gone ∧
      Registry.Represents last ht (attached symbols catalogue (registrations deffile)) ∧
      last.destroyed = reg.destroyed := by
  have spelled := registrations_spelled deffile
  have start : Registry.Kept (Machine.mk reg (fun _ => none) 0).reg ht given gone := kept
  obtain ⟨last, executed, keptLast, representsLast, none⟩ := exec_attachClasses symbols heaps start represents spelled
  exact ⟨_, last.reg, compile_attachFile names included attachable, by rw [run, executed, Option.map_some], keptLast,
    representsLast, none⟩

/-- What `oiltest.h` declares. -/
def oiltestHeaders : Headers := headersOf
  [("OilGenericType", .type), ("OilChecker", .type), ("OilProfiler", .type),
    ("oil_checker_default", .object "OilChecker".toList), ("oil_profiler_default", .object "OilProfiler".toList),
    ("oil_test_attach_class_full", .function [.string, .string, .function marshalTypes, .pointer "OilChecker".toList,
      .pointer "OilProfiler".toList] none)]

theorem included_oiltest : AttachIncluded oiltestHeaders := by
  constructor <;> decide +kernel

theorem oilfuncsDef_attachable : Attachable oiltestHeaders
    ((FileNames.ofPath "oilfuncs/oilfuncs.def".toUTF8.toList).encodedBasename ++ "_attach_classes".toList)
    oilfuncsDef := by
  constructor <;> decide +kernel

end Meaning

end RegClasses

end Oil.Test
